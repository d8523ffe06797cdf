import AxonCore.Chains.Promotion

/-! # Commitments are published

    A received commitment is initialized before its parent is looked up; a commitment from an
    engine is forced to the engine's chain first.  The commitments that waited for it get their
    parent.

    * `Waiting`: the commitments whose parent is not published.
    * `publish_kept`, `publishFromEngine_kept`: a publication keeps the bookkeeping.
    * `Admissible`: what an engine must not do. -/

namespace AxonCore.Chains

open Lib Function List Option State Commitment

variable {ID : Type} [LinearOrder ID] {p : Params ID} {bound n : Nat} {s t : State ID}
  {c d q r m : ID} {x chain : ChainID}

/-! ## Section 1: A new commitment -/

/-- The state with a new commitment. -/
def introduced (s : State ID) (c : ID) (callbacks : List (Callback ID)) : State ID :=
  { s with published := update s.published c true }.modify c fun _ =>
    new callbacks

theorem published_introduced (callbacks : List (Callback ID)) :
    (introduced s c callbacks).published = update s.published c true := rfl

theorem commitments_introduced (callbacks : List (Callback ID)) (d : ID) :
    (introduced s c callbacks).commitments d =
      if d = c then new callbacks else s.commitments d :=
  update_apply ..

theorem parentOf_introduced_self (callbacks : List (Callback ID)) :
    (introduced s c callbacks).parentOf c = none := by
  unfold parentOf
  rw [commitments_introduced, if_pos rfl]
  rfl

theorem fits_introduced (callbacks : List (Callback ID))
    (hq : (introduced s c callbacks).published (p.previousCommitmentID c) = true)
    (hslot : p.slot p.root < p.slot c) (hbound : p.slot c ≤ bound) :
    Fits p bound (introduced s c callbacks) c (p.previousCommitmentID c) := by
  refine ⟨?_, hq, rfl, hslot, hbound⟩
  rw [published_introduced, update_self]

theorem introduced_keeps {α : Type} (g : Commitment ID → α)
    (hg : ∀ callbacks callbacks', g (new callbacks) = g (new callbacks'))
    (hnew : s.commitments c = new []) (callbacks : List (Callback ID)) (d : ID) :
    g ((introduced s c callbacks).commitments d) = g (s.commitments d) := by
  rw [commitments_introduced]
  split_ifs with hdc
  · rw [hdc, hnew]
    exact hg _ _
  · rfl

section Introduced

variable (h : Stable p bound s) (hnew : s.published c = false)

include h hnew

section Fields

variable (callbacks : List (Callback ID)) (d : ID)

theorem chainOf_introduced : (introduced s c callbacks).chainOf d = s.chainOf d :=
  introduced_keeps chain (fun _ _ => rfl) (h.shape.unpublished c hnew) callbacks d

theorem parentOf_introduced : (introduced s c callbacks).parentOf d = s.parentOf d :=
  introduced_keeps parent (fun _ _ => rfl) (h.shape.unpublished c hnew) callbacks d

theorem mainChild_introduced :
    ((introduced s c callbacks).commitments d).mainChild = (s.commitments d).mainChild :=
  introduced_keeps mainChild (fun _ _ => rfl) (h.shape.unpublished c hnew) callbacks d

end Fields

theorem mem_onChain_introduced (callback : Callback ID) (hcallback : callback ≠ .addCommitment) :
    callback ∈ ((introduced s c [.addCommitment]).commitments d).onChain ↔
      callback ∈ (s.commitments d).onChain := by
  rw [commitments_introduced]
  split_ifs with hdc
  · rw [hdc, h.shape.unpublished c hnew]
    simp [new, hcallback]
  · rfl

theorem shape_introduced : Shape p bound (introduced s c [.addCommitment]) none := by
  have hkeeps := fun {α} (g : Commitment ID → α) hg =>
    introduced_keeps g hg (h.shape.unpublished c hnew) [.addCommitment]
  refine h.shape.congr (parentOf_introduced h hnew _) (fun d => ⟨hkeeps children
    (fun _ _ => rfl) d, hkeeps onMainChild (fun _ _ => rfl) d⟩)
    (fun d => .inl (mainChild_introduced h hnew _ d)) (fun d hd => ?_) (fun d hd => ?_)
    (fun d hd _ => ?_) (fun callback hne d => mem_onChain_introduced h hnew callback hne)
    (fun _ => rfl) rfl
  · show update s.published c true d = true
    rw [update_apply, hd]
    simp
  · have hd' : update s.published c true d = false := hd
    have hdc : d ≠ c := by
      rintro rfl
      rw [update_self] at hd'
      cases hd'
    rw [update_of_ne hdc] at hd'
    rw [commitments_introduced, if_neg hdc]
    exact h.shape.unpublished d hd'
  · have hd' : update s.published c true d = true := hd
    rw [commitments_introduced]
    split_ifs with hdc
    · exact ⟨[], rfl, by simp⟩
    · rw [update_of_ne hdc] at hd'
      exact h.shape.addCommitment d hd' (by simp)

theorem stable_introduced : Stable p bound (introduced s c [.addCommitment]) where
  shape := shape_introduced h hnew
  labels := Labels.congr (chainOf_introduced h hnew _) (parentOf_introduced h hnew _) rfl h.labels
  inPlace := by
    intro d r hd
    rw [parentOf_introduced h hnew] at hd
    apply InPlace.congr (chainOf_introduced h hnew _) rfl _ (h.inPlace d r hd)
    rw [mainChild_introduced h hnew]
  latest := fun x => Latest.congr (chainOf_introduced h hnew _) rfl (h.latest x)

end Introduced

/-! ## Section 2: Waiting commitments -/

/-- A published commitment has its parent or waits for it. -/
structure Waiting (p : Params ID) (bound : Nat) (s : State ID) : Prop where
  spec : ∀ c q, c ∈ s.waiting q → s.published c = true ∧ s.published q = false ∧
    s.parentOf c = none ∧ q = p.previousCommitmentID c ∧ p.slot p.root < p.slot c ∧
      p.slot c ≤ bound
  nodup : ∀ q, (s.waiting q).Nodup
  complete : ∀ c, s.published c = true → p.slot p.root < p.slot c →
    s.parentOf c = some (p.previousCommitmentID c) ∨ c ∈ s.waiting (p.previousCommitmentID c)

/-- The bookkeeping between two publications. -/
structure Kept (p : Params ID) (bound : Nat) (s : State ID) : Prop where
  stable : Stable p bound s
  waiting : Waiting p bound s

theorem setParents_stable (hp : p.Consecutive) (hn : bound < n) :
    ∀ {l : List ID} {s : State ID}, Stable p bound s → l.Nodup →
      (∀ d ∈ l, Fits p bound s d c ∧ s.parentOf d = none) →
      ∃ t, run (fun s child => s.setParent p n child c) s l = some t ∧ Stable p bound t ∧
        t.published = s.published ∧ t.waiting = s.waiting ∧
        ∀ d, t.parentOf d = if d ∈ l then some c else s.parentOf d := by
  intro l
  induction l with
  | nil =>
    intro s h _ _
    exact ⟨s, rfl, h, rfl, rfl, fun d => rfl⟩
  | cons d l ih =>
    intro s h hnodup hall
    obtain ⟨hdl, hnodup⟩ := nodup_cons.mp hnodup
    obtain ⟨hfits, hnone⟩ := hall d mem_cons_self
    obtain ⟨t, ht, hstable, hsame⟩ := setParent_stable hfits hnone hp hn h
    have hparent : ∀ e, t.parentOf e = if e = d then some c else s.parentOf e :=
      fun e => (hsame.parentOf e).trans (parentOf_withParent e)
    have hpublished : t.published = s.published := hsame.published
    obtain ⟨u, hu, hstable', hpublished', hwaiting', hparent'⟩ := ih hstable hnodup (by
      intro e he
      obtain ⟨hfits', hnone'⟩ := hall e (mem_cons_of_mem d he)
      have hed : e ≠ d := fun heq => hdl (heq ▸ he)
      refine ⟨⟨?_, ?_, hfits'.parent_eq, hfits'.slot_lt, hfits'.slot_le⟩, ?_⟩
      · rw [hpublished, hfits'.published]
      · rw [hpublished, hfits'.published_parent]
      · rw [hparent, if_neg hed, hnone'])
    refine ⟨u, run_cons.mpr ⟨t, ht, hu⟩, hstable', hpublished'.trans hpublished,
      hwaiting'.trans hsame.waiting, fun e => ?_⟩
    rw [hparent', hparent]
    by_cases hel : e ∈ l
    · simp [hel]
    · simp [hel]

theorem Stable.withWaiting (h : Stable p bound s) (w : ID → List ID) :
    Stable p bound { s with waiting := w } where
  shape := h.shape.congr (fun _ => rfl) (fun _ => ⟨rfl, rfl⟩) (fun _ => .inl rfl) (fun _ hc => hc)
    h.shape.unpublished h.shape.addCommitment (fun _ _ _ => .rfl) (fun _ => rfl) rfl
  labels := Labels.congr (s := s) (fun _ => rfl) (fun _ => rfl) rfl h.labels
  inPlace := h.inPlace
  latest := h.latest

/-- A new commitment has its parent, or it waits for it. -/
structure Introduced (p : Params ID) (s t : State ID) (c : ID) : Prop where
  published : t.published = update s.published c true
  parentOf : ∀ d, d ≠ c → t.parentOf d = s.parentOf d
  waiting :
    (t.waiting = s.waiting ∧
      (p.slot p.root < p.slot c → t.parentOf c = some (p.previousCommitmentID c))) ∨
    (t.waiting = update s.waiting (p.previousCommitmentID c)
        (s.waiting (p.previousCommitmentID c) ++ [c]) ∧
      p.slot p.root < p.slot c ∧ p.previousCommitmentID c ≠ c ∧
      s.published (p.previousCommitmentID c) = false ∧ t.parentOf c = none)

theorem Introduced.waiting_self (h : Introduced p s t c) : t.waiting c = s.waiting c := by
  rcases h.waiting with ⟨hw, _⟩ | ⟨hw, _, hne, _⟩
  · rw [hw]
  · rw [hw, update_of_ne hne.symm]

theorem Introduced.mem_waiting (h : Introduced p s t c) : d ∈ t.waiting q ↔
    d ∈ s.waiting q ∨ (d = c ∧ q = p.previousCommitmentID c ∧ p.slot p.root < p.slot c ∧
      q ≠ c ∧ s.published q = false ∧ t.parentOf c = none) := by
  rcases h.waiting with ⟨hw, hparent⟩ | ⟨hw, hslot, hne, hunpublished, hnone⟩
  · rw [hw]
    refine ⟨.inl, fun hd => hd.elim id fun ⟨_, _, hslot, _, _, hnone⟩ => ?_⟩
    rw [hparent hslot] at hnone
    cases hnone
  · rw [hw, update_apply]
    split_ifs with hq
    · subst hq
      simp [hslot, hne, hunpublished, hnone]
    · simp [hq]

theorem Introduced.waiting_after {u : State ID} (h : Introduced p s t c) (hw : Waiting p bound s)
    (hnew : s.published c = false) (hbound : p.slot c ≤ bound)
    (hpublished : u.published = t.published)
    (hwaiting : u.waiting = update t.waiting c [])
    (hparent : ∀ d, u.parentOf d = if d ∈ t.waiting c then some c else t.parentOf d) :
    Waiting p bound u := by
  have hold : ∀ d, s.published d = true → d ≠ c := by
    intro d hd heq
    rw [heq, hnew] at hd
    cases hd
  have hself : c ∉ t.waiting c := by
    rw [h.waiting_self]
    exact fun hmem => hold c (hw.spec c c hmem).1 rfl
  have hpublished' : ∀ d, d ≠ c → u.published d = s.published d := by
    intro d hd
    rw [hpublished, h.published, update_of_ne hd]
  have hmem : ∀ d q, d ∈ u.waiting q ↔ q ≠ c ∧ d ∈ t.waiting q := by
    intro d q
    rw [hwaiting, update_apply]
    split_ifs with hq <;> simp [hq]
  constructor
  · intro d q hd
    obtain ⟨hq, hd⟩ := (hmem d q).mp hd
    rcases h.mem_waiting.mp hd with hd | ⟨rfl, rfl, hslot, _, hunpublished, hnone⟩
    · obtain ⟨hpub, hunpub, hnone, heq, hslot⟩ := hw.spec d q hd
      have hdc := hold d hpub
      refine ⟨(hpublished' d hdc).trans hpub, (hpublished' q hq).trans hunpub, ?_, heq, hslot⟩
      rw [hparent, if_neg, h.parentOf d hdc, hnone]
      rw [h.waiting_self]
      exact fun hmem => hq (heq.trans (hw.spec d c hmem).2.2.2.1.symm)
    · refine ⟨?_, (hpublished' _ hq).trans hunpublished, ?_, rfl, hslot, hbound⟩
      · rw [hpublished, h.published, update_self]
      · rw [hparent, if_neg hself, hnone]
  · intro q
    rw [hwaiting, update_apply]
    split_ifs with hq
    · exact nodup_nil
    · rcases h.waiting with ⟨heq, _⟩ | ⟨heq, _⟩
      · rw [heq]
        exact hw.nodup q
      · rw [heq, update_apply]
        split_ifs
        · rw [nodup_append]
          refine ⟨hw.nodup _, nodup_singleton c, ?_⟩
          intro d hd e he
          rw [mem_singleton] at he
          rw [he]
          exact hold d (hw.spec d _ hd).1
        · exact hw.nodup q
  · intro d hd hslot
    by_cases hdc : d = c
    · subst hdc
      rcases h.waiting with ⟨_, hparent'⟩ | ⟨heq, _, hne, _, _⟩
      · left
        rw [hparent, if_neg hself, hparent' hslot]
      · right
        rw [hmem, heq, update_self]
        exact ⟨hne, mem_append_right _ mem_cons_self⟩
    · rw [hpublished' d hdc] at hd
      rcases hw.complete d hd hslot with hp' | hmem'
      · left
        rw [hparent, if_neg, h.parentOf d hdc, hp']
        rw [h.waiting_self]
        intro hmem'
        rw [(hw.spec d c hmem').2.2.1] at hp'
        cases hp'
      · by_cases hprev : p.previousCommitmentID d = c
        · left
          rw [hprev] at hmem' ⊢
          rw [hparent, if_pos]
          rwa [h.waiting_self]
        · right
          rw [hmem]
          exact ⟨hprev, h.mem_waiting.mpr (.inl hmem')⟩

theorem Introduced.solidify (hp : p.Consecutive) (hn : bound < n) (h : Introduced p s t c)
    (hw : Waiting p bound s) (hnew : s.published c = false) (hbound : p.slot c ≤ bound)
    (hstable : Stable p bound t) :
    ∃ u, t.solidifyChildren p n c = some u ∧ Kept p bound u ∧
      u.published = update s.published c true := by
  obtain ⟨u, hu, hstable', hpublished, hwaiting, hparent⟩ :=
    setParents_stable hp hn (hstable.withWaiting (update t.waiting c []))
      (h.waiting_self ▸ hw.nodup c) (by
        intro d hd
        rw [h.waiting_self] at hd
        obtain ⟨hpub, _, hnone, heq, hslot, hle⟩ := hw.spec d c hd
        have hdc : d ≠ c := by
          intro heq
          rw [heq, hnew] at hpub
          cases hpub
        refine ⟨⟨?_, ?_, heq, hslot, hle⟩, (h.parentOf d hdc).trans hnone⟩
        · rw [h.published, update_of_ne hdc, hpub]
        · rw [h.published, update_self])
  exact ⟨u, hu, ⟨hstable', h.waiting_after hw hnew hbound hpublished hwaiting hparent⟩,
    hpublished.trans h.published⟩

/-! ## Section 3: A received commitment -/

/-- The state in which a commitment waits for its parent. -/
def queued (s : State ID) (c q : ID) : State ID :=
  { s with waiting := update s.waiting q (s.waiting q ++ [c]) }

omit [LinearOrder ID] in
theorem Params.Consecutive.ne (hp : p.Consecutive) (hslot : p.slot p.root < p.slot c) :
    p.previousCommitmentID c ≠ c := by
  intro heq
  have := hp c hslot
  rw [heq] at this
  omega

theorem publish_kept (hp : p.Consecutive) (hn : bound < n) (h : Kept p bound s)
    (hbound : p.slot c ≤ bound) : ∃ t, s.publish p n c = some t ∧ Kept p bound t ∧
      t.published = update s.published c true := by
  unfold publish
  by_cases hnew : s.published c = true
  · refine ⟨s, if_pos hnew, h, ?_⟩
    rw [← hnew, update_eq_self]
  · rw [if_neg hnew]
    rw [Bool.not_eq_true] at hnew
    have hstable := stable_introduced h.stable hnew
    have hparentOf := parentOf_introduced h.stable hnew [.addCommitment]
    have hnone := parentOf_introduced_self (s := s) (c := c) [.addCommitment]
    change ∃ t, (if p.slot c > p.slot p.root then
        (if (introduced s c [.addCommitment]).published (p.previousCommitmentID c) then
          (introduced s c [.addCommitment]).setParent p n c (p.previousCommitmentID c)
        else some (queued (introduced s c [.addCommitment]) c (p.previousCommitmentID c))).bind
          fun s => s.solidifyChildren p n c
      else (introduced s c [.addCommitment]).solidifyChildren p n c) = some t ∧ Kept p bound t ∧
        t.published = update s.published c true
    split_ifs with hslot hq
    · -- the parent is there
      obtain ⟨t, ht, hstable', hsame⟩ :=
        setParent_stable (fits_introduced _ hq hslot hbound) hnone hp hn hstable
      rw [ht, bind_some]
      apply Introduced.solidify hp hn _ h.waiting hnew hbound hstable'
      refine ⟨hsame.published, fun d hd => ?_, .inl ⟨hsame.waiting, fun _ => ?_⟩⟩
      · rw [hsame.parentOf, parentOf_withParent, if_neg hd, hparentOf]
      · rw [hsame.parentOf, parentOf_withParent, if_pos rfl]
    · -- the commitment waits for its parent
      rw [bind_some]
      apply Introduced.solidify hp hn _ h.waiting hnew hbound (hstable.withWaiting _)
      refine ⟨rfl, fun d _ => hparentOf d, .inr ⟨rfl, hslot, hp.ne hslot, ?_, hnone⟩⟩
      rw [published_introduced, update_of_ne (hp.ne hslot), Bool.not_eq_true] at hq
      exact hq
    · apply Introduced.solidify hp hn _ h.waiting hnew hbound hstable
      exact ⟨rfl, fun d _ => hparentOf d, .inl ⟨rfl, fun hslot' => absurd hslot' hslot⟩⟩

/-! ## Section 4: A commitment from an engine -/

/-- The state in which a commitment has other callbacks. -/
def withCallbacks (s : State ID) (c : ID) (callbacks : List (Callback ID)) : State ID :=
  s.modify c fun r => { r with onChain := callbacks }

section

variable (callbacks : List (Callback ID)) (d : ID)

theorem chainOf_withCallbacks : (withCallbacks s c callbacks).chainOf d = s.chainOf d := by
  apply modify_keeps chain
  exact fun _ => rfl

theorem parentOf_withCallbacks : (withCallbacks s c callbacks).parentOf d = s.parentOf d := by
  apply modify_keeps parent
  exact fun _ => rfl

theorem mainChild_withCallbacks :
    ((withCallbacks s c callbacks).commitments d).mainChild = (s.commitments d).mainChild := by
  apply modify_keeps mainChild
  exact fun _ => rfl

end

theorem mem_onChain_withCallbacks {callbacks : List (Callback ID)}
    (hold : ∀ callback ∈ (s.commitments c).onChain, callback = .addCommitment)
    (hnew : ∀ callback ∈ callbacks, callback = .addCommitment) (callback : Callback ID)
    (hcallback : callback ≠ .addCommitment) (d : ID) :
    callback ∈ ((withCallbacks s c callbacks).commitments d).onChain ↔
      callback ∈ (s.commitments d).onChain := by
  show callback ∈ (update s.commitments c _ d).onChain ↔ _
  rw [update_apply]
  split_ifs with hdc
  · rw [hdc]
    exact ⟨fun h => absurd (hnew callback h) hcallback, fun h => absurd (hold callback h) hcallback⟩
  · rfl

theorem Awaiting.withCallbacks {callbacks : List (Callback ID)} (h : Awaiting p bound s c q)
    (hold : ∀ callback ∈ (s.commitments c).onChain, callback = .addCommitment)
    (hnew : ∀ callback ∈ callbacks, callback = .addCommitment) :
    Awaiting p bound (withCallbacks s c callbacks) c q := by
  have hchain := chainOf_withCallbacks (s := s) (c := c) callbacks
  have hparent := parentOf_withCallbacks (s := s) (c := c) callbacks
  have hpublished := (h.shape.parent c q h.parent).1
  refine ⟨?_, Labels.congr hchain hparent rfl h.labels, (hparent c).trans h.parent,
    (hchain c).trans h.chainOf, ?_⟩
  · refine h.shape.congr hparent (fun d => ⟨?_, ?_⟩) (fun d => .inl (mainChild_withCallbacks _ d))
      (fun _ hd => hd) (h.shape.unpublished_modify hpublished _) (fun d hd hdc => ?_)
      (mem_onChain_withCallbacks hold hnew) (fun _ => rfl) rfl
    · apply modify_keeps children
      exact fun _ => rfl
    · apply modify_keeps onMainChild
      exact fun _ => rfl
    · have hother : (Chains.withCallbacks s c callbacks).commitments d = s.commitments d :=
        update_of_ne (fun heq : d = c => hdc (heq ▸ rfl)) ..
      rw [hother]
      exact h.shape.addCommitment d hd hdc
  · intro d r hd hdc
    apply InPlace.congr hchain rfl _ (h.inPlace d r ((hparent d).symm.trans hd) hdc)
    rw [mainChild_withCallbacks]

/-- The commitment is forced to a chain before it is registered with its parent. -/
theorem Awaiting.forceChain (hn : bound < n) (h : Awaiting p bound s c q)
    (hlatest : ∀ x, Latest p s x) (hmain : (s.commitments q).mainChild ≠ some c)
    (chain : ChainID) :
    ∃ t, s.forceChain p n c chain = some t ∧ Awaiting p bound t c q ∧
      t.commitments c = s.commitments c ∧ SameTree s t ∧
      ∀ x, Latest p t x ∨ (t.commitments q).mainChild = some c ∧ t.chainOf q = some x := by
  have hsame : SameTree s s := ⟨rfl, rfl, fun _ => rfl⟩
  unfold State.forceChain
  rw [h.chainOf, if_pos nofun, h.parent]
  dsimp only
  split_ifs with hq
  · cases hm : (s.commitments q).mainChild with
    | none =>
      -- the commitment is the first child
      have hchildren := h.shape.main_none q hm
      refine ⟨withMain s q c, ?_, ⟨shape_withMain h.shape h.parent, ?_, ?_, ?_, ?_⟩, ?_,
        ⟨rfl, rfl, parentOf_withMain⟩, ?_⟩
      · rw [setMainChild_eq h.shape hmain, hchildren, run_nil]
      · exact Labels.congr chainOf_withMain parentOf_withMain rfl h.labels
      · rw [parentOf_withMain, h.parent]
      · rw [chainOf_withMain, h.chainOf]
      · intro d r hd hdc
        rw [parentOf_withMain] at hd
        apply inPlace_withMain _ (h.inPlace d r hd hdc)
        intro hr
        have hmem : d ∈ (s.commitments q).children :=
          (h.shape.children d q).mpr ⟨hr ▸ hd, fun heq => hdc (some.inj heq).symm⟩
        rw [hchildren] at hmem
        cases hmem
      · exact update_of_ne h.ne ..
      · exact fun x => .inl (Latest.congr chainOf_withMain rfl (hlatest x))
    | some m =>
      have hmc : m ≠ c := by
        rintro rfl
        exact hmain hm
      obtain ⟨t, ht, hdemoted⟩ :=
        promote_pending hn h.shape h.labels h.inPlace hlatest hm h.parent hmc
      refine ⟨t, ht, ⟨hdemoted.shape, hdemoted.labels, ?_, ?_, hdemoted.inPlace⟩,
        hdemoted.commitment, hdemoted.sameTree, fun x => ?_⟩
      · rw [hdemoted.sameTree.parentOf, h.parent]
      · unfold State.chainOf
        rw [hdemoted.commitment]
        exact h.chainOf
      · by_cases hx : s.chainOf q = some x
        · exact .inr ⟨hdemoted.mainChild, hdemoted.chainOf.trans hx⟩
        · exact .inl (hdemoted.latest x hx)
  · exact ⟨s, rfl, h, rfl, hsame, fun x => .inl (hlatest x)⟩

/-- For a commitment without children the callback may be registered before or after the
    commitment gets its chain. -/
theorem setChain_leaf (hn : 0 < n) (hon : (s.commitments c).onChain = [])
    (hc : s.chainOf c = none) (new : Option ChainID) :
    (s.setChain p n c new).map (fun s => (s.modify c fun c =>
      { c with onChain := c.onChain ++ [.addCommitment] }).addCommitment p c none (s.chainOf c)) =
      (withCallbacks s c [.addCommitment]).setChain p n c new := by
  obtain ⟨n, rfl⟩ : ∃ m, n = m + 1 := Nat.exists_eq_succ_of_ne_zero (by omega)
  rw [setChain_succ, setChain_succ, chainOf_withCallbacks, hc, hon]
  cases new with
  | none =>
    have hadd : ∀ u : State ID, u.addCommitment p c none none = u := fun _ => rfl
    rw [if_pos rfl, if_pos rfl, map_some, hc, hadd]
    congr 1
    apply modify_congr
    rw [hon]
    rfl
  | some y =>
    rw [if_neg nofun, if_neg nofun, run_nil, map_some]
    have hcallbacks : ((withCallbacks s c [.addCommitment]).commitments c).onChain =
        [.addCommitment] := by
      unfold withCallbacks
      rw [commitments_modify_self]
    rw [hcallbacks, modify_modify]
    unfold withCallbacks
    rw [modify_modify]
    congr 2
    · apply modify_congr
      rw [hon]
      rfl
    · unfold chainOf
      rw [commitments_modify_self]

theorem linked_withCallbacks (hcq : c ≠ q) (callbacks : List (Callback ID)) :
    linked (withCallbacks s c callbacks) c q = withCallbacks (linked s c q) c callbacks := by
  unfold linked withCallbacks State.modify
  simp only [update_of_ne hcq, update_of_ne hcq.symm]
  rw [update_comm hcq]

theorem withChain_withCallbacks (hcq : c ≠ q) (callbacks : List (Callback ID)) :
    withChain (withCallbacks s c callbacks) c q = withCallbacks (withChain s c q) c callbacks := by
  unfold withChain newChain
  rw [chainOf_withCallbacks]
  unfold withCallbacks State.modify State.modifyChain
  simp only [update_of_ne hcq, update_of_ne hcq.symm]
  rw [update_comm hcq]

theorem Awaiting.initBehavior_eq (hn : 0 < n) (h : Awaiting p bound s c q)
    (hon : (s.commitments c).onChain = []) :
    s.initBehavior p n c = (Chains.withCallbacks s c [.addCommitment]).attach p n c q := by
  have h' : Awaiting p bound (Chains.withCallbacks s c [.addCommitment]) c q := by
    apply h.withCallbacks
    · rw [hon]
      simp
    · exact fun callback hmem => mem_singleton.mp hmem
  have hkeep : ((Chains.withCallbacks s c [.addCommitment]).commitments q) = s.commitments q :=
    update_of_ne h.ne.symm ..
  have hlinked : ∀ u : State ID, ((linked u c q).commitments c) = u.commitments c :=
    fun u => commitments_linked_of_ne h.ne
  unfold initBehavior
  rw [h.parent]
  dsimp only
  by_cases hmain : (s.commitments q).mainChild.getD c = c
  · rw [attach_main h.not_mem_children h.onMainChild_of_none hmain,
      attach_main h'.not_mem_children h'.onMainChild_of_none (hkeep ▸ hmain),
      linked_withCallbacks h.ne, ← setChain_leaf hn]
    · unfold State.chainOf
      rw [hkeep]
    · rw [hlinked, hon]
    · rw [chainOf_linked, h.chainOf]
  · rw [attach_fork h.not_mem_children h.onMainChild_of_none hmain h.chainOf,
      attach_fork h'.not_mem_children h'.onMainChild_of_none (hkeep ▸ hmain) h'.chainOf,
      withChain_withCallbacks h.ne, linked_withCallbacks h.ne, ← setChain_leaf hn]
    · rfl
    · rw [hlinked, commitments_withChain, if_neg h.ne, hon]
    · rw [chainOf_linked, chainOf_withChain, h.chainOf]

theorem initBehavior_of_none (hparent : s.parentOf c = none) (hchain : s.chainOf c = none)
    (hon : (s.commitments c).onChain = []) :
    s.initBehavior p n c = some (withCallbacks s c [.addCommitment]) := by
  have hadd : ∀ u : State ID, u.addCommitment p c none none = u := fun _ => rfl
  unfold initBehavior
  rw [hparent]
  rw [map_some, hchain, hadd]
  congr 1
  apply modify_congr
  rw [hon]
  rfl

theorem solidifyChildren_of_nil (hw : s.waiting c = []) : s.solidifyChildren p n c = some s := by
  unfold solidifyChildren
  rw [hw, run_nil]
  congr 1
  rw [← hw, update_eq_self]

theorem Introduced.kept (h : Introduced p s t c) (hw : Waiting p bound s)
    (hnew : s.published c = false) (hbound : p.slot c ≤ bound) (hnil : s.waiting c = [])
    (hstable : Stable p bound t) :
    Kept p bound t ∧ t.published = update s.published c true := by
  have hself : t.waiting c = [] := h.waiting_self.trans hnil
  refine ⟨⟨hstable, h.waiting_after hw hnew hbound rfl ?_ fun d => ?_⟩, h.published⟩
  · rw [← hself, update_eq_self]
  · rw [hself]
    exact (if_neg not_mem_nil).symm

/-- A new commitment that an engine produced, and whose parent is known. -/
theorem engine_attached (hp : p.Consecutive) (hn : bound < n) (h : Kept p bound s)
    (hnew : s.published c = false) (hbound : p.slot c ≤ bound)
    (hslot : p.slot p.root < p.slot c)
    (hq : (introduced s c []).published (p.previousCommitmentID c) = true) (chain : ChainID)
    (hnil : s.waiting c = []) :
    ∃ t, (((withParent (introduced s c []) c (p.previousCommitmentID c)).forceChain p n c
      chain).bind fun s => s.initBehavior p n c) = some t ∧ Kept p bound t ∧
        t.published = update s.published c true := by
  let q := p.previousCommitmentID c
  have hcallbacks : withParent (introduced s c []) c q =
      withCallbacks (withParent (introduced s c [.addCommitment]) c q) c [] := by
    unfold withParent withCallbacks introduced
    rw [modify_modify, modify_modify, modify_modify]
    rfl
  -- the commitment without its callback
  have hattachable := attachable_withParent (fits_introduced [.addCommitment] hq hslot hbound)
    (parentOf_introduced_self _) hp (stable_introduced h.stable hnew)
  have hawaiting : Awaiting p bound (withParent (introduced s c []) c q) c q := by
    rw [hcallbacks]
    apply hattachable.toAwaiting.withCallbacks
    · rw [onChain_withParent, commitments_introduced, if_pos rfl]
      exact fun callback hmem => mem_singleton.mp hmem
    · exact fun callback hmem => absurd hmem not_mem_nil
  have hsameChain : ∀ d, (withParent (introduced s c []) c q).chainOf d = s.chainOf d := by
    intro d
    rw [chainOf_withParent, chainOf_introduced h.stable hnew]
  have hlatest : ∀ x, Latest p (withParent (introduced s c []) c q) x :=
    fun x => Latest.congr hsameChain rfl (h.stable.latest x)
  have hmain : ((withParent (introduced s c []) c q).commitments q).mainChild ≠ some c := by
    rw [mainChild_withParent, mainChild_introduced h.stable hnew]
    intro hm
    have hparent := h.stable.shape.main q c hm
    rw [(h.stable.shape.parent c q hparent).1] at hnew
    cases hnew
  obtain ⟨t, ht, hawaiting', hcommitment, hsame, hlatest'⟩ :=
    hawaiting.forceChain hn hlatest hmain chain
  have hon : (t.commitments c).onChain = [] := by
    rw [hcommitment, onChain_withParent, commitments_introduced, if_pos rfl]
    rfl
  -- the callback is registered and the commitment is attached
  have hattachable' : Attachable p bound (withCallbacks t c [.addCommitment]) c q := by
    refine ⟨hawaiting'.withCallbacks (by simp [hon])
      fun callback hmem => mem_singleton.mp hmem, [], ?_, by simp⟩
    unfold withCallbacks
    rw [commitments_modify_self]
  have hchain := chainOf_withCallbacks (s := t) (c := c) [.addCommitment]
  obtain ⟨u, hu, hstable, hsame'⟩ := hattachable'.attach_stable hn (by
    intro x
    rw [mainChild_withCallbacks, hchain]
    exact (hlatest' x).imp_left (Latest.congr hchain rfl))
  refine ⟨u, ?_, ?_⟩
  · rw [ht, bind_some, hawaiting'.initBehavior_eq (by omega) hon, hu]
  · have hparent : ∀ d, u.parentOf d = if d = c then some q else s.parentOf d := by
      intro d
      rw [hsame'.parentOf, parentOf_withCallbacks, hsame.parentOf, parentOf_withParent,
        parentOf_introduced h.stable hnew]
    apply Introduced.kept _ h.waiting hnew hbound hnil hstable
    refine ⟨hsame'.published.trans hsame.published, fun d hd => ?_,
      .inl ⟨hsame'.waiting.trans hsame.waiting, fun _ => ?_⟩⟩
    · rw [hparent, if_neg hd]
    · rw [hparent, if_pos rfl]

/-- A new commitment that an engine produced, and whose parent is not known. -/
theorem engine_detached (h : Kept p bound s) (hnew : s.published c = false)
    (hbound : p.slot c ≤ bound) (chain : ChainID) (hnil : s.waiting c = [])
    (w : ID → List ID)
    (hw : Introduced p s { introduced s c [.addCommitment] with waiting := w } c) :
    ∃ t, ((({ introduced s c [] with waiting := w } : State ID).forceChain p n c
      chain).bind fun s => s.initBehavior p n c) = some t ∧ Kept p bound t ∧
        t.published = update s.published c true := by
  have hcommitment : ({ introduced s c [] with waiting := w } : State ID).commitments c =
      new [] := by
    rw [commitments_introduced, if_pos rfl]
  have hparent : ({ introduced s c [] with waiting := w } : State ID).parentOf c = none :=
    parentOf_introduced_self []
  have hchain : ({ introduced s c [] with waiting := w } : State ID).chainOf c = none := by
    unfold chainOf
    rw [hcommitment]
    rfl
  refine ⟨{ introduced s c [.addCommitment] with waiting := w }, ?_,
    hw.kept h.waiting hnew hbound hnil ((stable_introduced h.stable hnew).withWaiting w)⟩
  unfold forceChain
  rw [hchain, if_pos nofun, hparent]
  rw [bind_some, initBehavior_of_none hparent hchain (by rw [hcommitment]; rfl)]
  congr 1
  unfold withCallbacks introduced State.modify
  simp [new]

/-- A child that was registered later than the main child is forced to its parent's chain. -/
theorem forceChain_kept (hn : bound < n) (h : Kept p bound s)
    (horder : ∀ q m, s.parentOf c = some q → (s.commitments q).mainChild = some m →
      s.chainOf q = some chain → s.chainOf c ≠ some chain →
      List.Sublist [m, c] (s.commitments q).children) :
    ∃ t, s.forceChain p n c chain = some t ∧ Kept p bound t ∧ t.published = s.published := by
  unfold forceChain
  by_cases hc : s.chainOf c = some chain
  · exact ⟨s, if_neg (not_not.mpr hc), h, rfl⟩
  · rw [if_pos hc]
    cases hq : s.parentOf c with
    | none => exact ⟨s, rfl, h, rfl⟩
    | some q =>
      dsimp only
      by_cases hchain : s.chainOf q = some chain
      · rw [if_pos hchain]
        have hmem : c ∈ (s.commitments q).children :=
          (h.stable.shape.children c q).mpr ⟨hq, by simp⟩
        cases hm : (s.commitments q).mainChild with
        | none =>
          rw [h.stable.shape.main_none q hm] at hmem
          cases hmem
        | some m =>
          have hmc : m ≠ c := by
            rintro rfl
            have hin := h.stable.inPlace m q hq
            unfold InPlace at hin
            rw [if_pos hm] at hin
            exact hc (hin.trans hchain)
          obtain ⟨r₁, r₂, hsplit, hm₁, hc₂⟩ :=
            cons_sublist_iff.mp (horder q m hq hm hchain hc)
          obtain ⟨before, mid, hr₁⟩ := append_of_mem hm₁
          have hsplit' : (s.commitments q).children = before ++ m :: (mid ++ r₂) := by
            rw [hsplit, hr₁, append_assoc, cons_append]
          obtain ⟨t, ht, hstable, hsame⟩ := promote_stable hn h.stable hm hmc hchain hsplit'
            (mem_append_right _ (singleton_sublist.mp hc₂))
          refine ⟨t, ht, ⟨hstable, ?_⟩, hsame.published⟩
          constructor <;> simp only [hsame.published, hsame.waiting, hsame.parentOf]
          · exact h.waiting.spec
          · exact h.waiting.nodup
          · exact h.waiting.complete
      · exact ⟨s, if_neg hchain, h, rfl⟩

/-! ## Section 5: All publications -/

section

variable (s : State ID)

/-- A child that is forced to its parent's chain was registered after the main child. -/
def RegisteredLater (c : ID) (chain : ChainID) : Prop :=
  ∀ q ∈ s.parentOf c, ∀ m ∈ (s.commitments q).mainChild,
    s.chainOf q = some chain → s.chainOf c ≠ some chain →
      List.Sublist [m, c] (s.commitments q).children

instance (c : ID) (chain : ChainID) : Decidable (RegisteredLater s c chain) :=
  have (q : ID) : Decidable (∀ m ∈ (s.commitments q).mainChild, s.chainOf q = some chain →
      s.chainOf c ≠ some chain → List.Sublist [m, c] (s.commitments q).children) :=
    decidableForallMem _
  decidableForallMem _

/-- What the chains rely on: the above, and that a commitment is new to an engine only if no
    child of it waits. -/
def EngineMay (c : ID) (chain : ChainID) : Prop :=
  if s.published c then RegisteredLater s c chain else s.waiting c = []

instance (c : ID) (chain : ChainID) : Decidable (EngineMay s c chain) :=
  inferInstanceAs (Decidable (if s.published c then RegisteredLater s c chain
    else s.waiting c = []))

def Admissible : State.Input ID → Prop
  | .publish _ => True
  | .publishFromEngine c chain => EngineMay s c chain

instance : (i : State.Input ID) → Decidable (Admissible s i)
  | .publish _ => isTrue trivial
  | .publishFromEngine c chain => inferInstanceAs (Decidable (EngineMay s c chain))

end

theorem publishFromEngine_kept (hp : p.Consecutive) (hn : bound < n) (h : Kept p bound s)
    (hbound : p.slot c ≤ bound) (hmay : EngineMay s c chain) :
    ∃ t, s.publishFromEngine p n c chain = some t ∧ Kept p bound t ∧
      t.published = update s.published c true := by
  unfold EngineMay at hmay
  unfold publishFromEngine
  by_cases hnew : s.published c = true
  · rw [if_pos hnew]
    rw [if_pos hnew] at hmay
    rw [← hnew, update_eq_self]
    apply forceChain_kept hn h
    exact fun q m hq hm => hmay q hq m hm
  · rw [if_neg hnew]
    rw [if_neg hnew] at hmay
    rw [Bool.not_eq_true] at hnew
    have hparentOf := parentOf_introduced h.stable hnew [.addCommitment]
    change ∃ t, (((if p.slot c > p.slot p.root then
        if (introduced s c []).published (p.previousCommitmentID c) then
          withParent (introduced s c []) c (p.previousCommitmentID c)
        else queued (introduced s c []) c (p.previousCommitmentID c)
      else introduced s c []).solidifyChildren p n c).bind fun s =>
        (s.forceChain p n c chain).bind fun s => s.initBehavior p n c) = some t ∧ Kept p bound t ∧
          t.published = update s.published c true
    split_ifs with hslot hq
    · have hnil : (withParent (introduced s c []) c (p.previousCommitmentID c)).waiting c = [] :=
        hmay
      rw [solidifyChildren_of_nil hnil, bind_some]
      exact engine_attached hp hn h hnew hbound hslot hq chain hmay
    · have hnil : (queued (introduced s c []) c (p.previousCommitmentID c)).waiting c = [] := by
        show update s.waiting _ _ c = []
        rw [update_of_ne (hp.ne hslot).symm, hmay]
      rw [solidifyChildren_of_nil hnil, bind_some]
      apply engine_detached h hnew hbound chain hmay
      refine ⟨rfl, fun d _ => hparentOf d, .inr ⟨rfl, hslot, hp.ne hslot, ?_, ?_⟩⟩
      · rw [published_introduced, update_of_ne (hp.ne hslot), Bool.not_eq_true] at hq
        exact hq
      · exact parentOf_introduced_self [.addCommitment]
    · have hnil : (introduced s c []).waiting c = [] := hmay
      rw [solidifyChildren_of_nil hnil, bind_some]
      apply engine_detached h hnew hbound chain hmay s.waiting
      exact ⟨rfl, fun d _ => hparentOf d, .inl ⟨rfl, fun hslot' => absurd hslot' hslot⟩⟩

/-- The commitment of a publication. -/
def State.Input.commitment : State.Input ID → ID
  | .publish c => c
  | .publishFromEngine c _ => c

/-- Every admissible publication publishes its commitment and keeps the bookkeeping. -/
theorem step_kept (hp : p.Consecutive) (hn : bound < n) (h : Kept p bound s)
    {i : State.Input ID} (hbound : p.slot i.commitment ≤ bound) (hadmissible : Admissible s i) :
    ∃ t, step p n s i = some t ∧ Kept p bound t ∧
      t.published = update s.published i.commitment true := by
  cases i with
  | publish c => exact publish_kept hp hn h hbound
  | publishFromEngine c chain => exact publishFromEngine_kept hp hn h hbound hadmissible

theorem kept_init (p : Params ID) (bound : Nat) : Kept p bound (init p) := by
  have hcommitments : ∀ c, (init p).commitments c =
      if c = p.root then ⟨none, [], none, some 0, [], [.addCommitment]⟩
      else ⟨none, [], none, none, [], []⟩ := update_apply _ _ _
  have hparent : ∀ c, (init p).parentOf c = none := by
    intro c
    unfold parentOf
    rw [hcommitments]
    split_ifs <;> rfl
  have hchain : ∀ c x, (init p).chainOf c = some x ↔ c = p.root ∧ x = 0 := by
    intro c x
    unfold chainOf
    rw [hcommitments]
    split_ifs with hc <;> simp [hc, eq_comm]
  have hchains : ∀ x, (init p).chains x = if x = 0 then
      ⟨some p.root, none, update (fun _ => none) (p.slot p.root) (some p.root),
        some p.root⟩ else ⟨none, none, fun _ => none, none⟩ := update_apply _ _ _
  refine ⟨⟨?_, ?_, ?_, ?_⟩, ?_⟩
  · constructor
    · simp [init]
    · simp [hparent]
    · simp [hparent, hcommitments, apply_ite]
    · intro q
      rw [hcommitments]
      split_ifs <;> exact nodup_nil
    · intro q
      rw [hcommitments]
      split_ifs <;> rfl
    · intro q m hm
      rw [hcommitments] at hm
      split_ifs at hm
    · intro q _
      rw [hcommitments]
      split_ifs <;> rfl
    · intro c hc
      have hroot : c ≠ p.root := by
        rintro rfl
        simp [init] at hc
      rw [hcommitments, if_neg hroot]
      rfl
    · intro c hc _
      have hroot : c = p.root := by simpa [init] using hc
      rw [hcommitments, if_pos hroot]
      exact ⟨[], rfl, by simp⟩
    · intro c q
      rw [hcommitments]
      split_ifs <;> simp
    · intro x q
      rw [hcommitments]
      simp only [hparent]
      split_ifs <;> simp
    · intro x f hf
      rw [hchains] at hf
      split_ifs at hf
      · exact .inl (some.inj hf).symm
    · intro x hx
      have hx' : x ≠ 0 := by
        have : 1 ≤ x := hx
        omega
      rw [hchains, if_neg hx']
  · constructor
    · refine ⟨0, (hchain _ _).mpr ⟨rfl, rfl⟩, ?_⟩
      rw [hchains, if_pos rfl]
    · intro c _ hc
      unfold chainOf
      rw [hcommitments, if_neg hc]
    · simp [hparent]
    · simp [hparent]
    · intro x k c
      rw [hchain, hchains]
      split_ifs with hx
      · dsimp only
        rw [update_apply]
        split_ifs with hk
        · subst hk
          constructor
          · intro hc
            obtain rfl := some.inj hc
            exact ⟨⟨rfl, hx⟩, rfl⟩
          · rintro ⟨⟨rfl, _⟩, _⟩
            rfl
        · simp only [false_iff, not_and]
          rintro ⟨rfl, _⟩ heq
          exact hk heq.symm
      · simp [hx]
  · simp [hparent]
  · intro x c hc
    obtain ⟨rfl, rfl⟩ := (hchain _ _).mp hc
    refine ⟨p.root, ?_, hc, fun d hd => ?_⟩
    · rw [hchains, if_pos rfl]
    · rw [((hchain _ _).mp hd).1]
  · constructor
    · simp [init]
    · exact fun _ => nodup_nil
    · intro c hc hslot
      have hroot : c = p.root := by simpa [init] using hc
      rw [hroot] at hslot
      omega

/-- So every run of admissible publications does, and all callbacks return. -/
theorem run_kept (hp : p.Consecutive) {inputs : List (State.Input ID)} {s : State ID}
    (h : Kept p (n - 1) s) (hslots : ∀ i ∈ inputs, p.slot i.commitment < n)
    (hsteps : AllSteps (step p n) Admissible s inputs) :
    ∃ t, run (step p n) s inputs = some t ∧ Kept p (n - 1) t ∧
      ∀ c, t.published c = true ↔ s.published c = true ∨ ∃ i ∈ inputs, i.commitment = c := by
  induction inputs generalizing s with
  | nil => exact ⟨s, rfl, h, by simp⟩
  | cons i inputs ih =>
    obtain ⟨hadmissible, hrest⟩ := hsteps
    have hslot := hslots i mem_cons_self
    obtain ⟨t, ht, hkept, hpublished⟩ :=
      step_kept hp (by omega : n - 1 < n) h (by omega) hadmissible
    obtain ⟨u, hu, hkept', hall⟩ :=
      ih hkept (fun i hi => hslots i (mem_cons_of_mem _ hi)) (hrest t ht)
    refine ⟨u, run_cons.mpr ⟨t, ht, hu⟩, hkept', fun c => ?_⟩
    rw [hall, hpublished, update_apply]
    split_ifs with hc
    · simp [hc]
    · simp [Ne.symm hc]

end AxonCore.Chains
