import AxonCore.Chains.Attachment

/-! # Another child becomes the main child

    `forceChain` makes a child of a commitment its main child.  The children then derive their
    chains one after the other, in the order of their registration: the former main child
    begins a chain of its own, and the new one takes its place.

    Both have a commitment in the same slot of the parent's chain.  So it matters who is first:
    the bookkeeping is complete if the former main child was registered before the new one.

    * `Demoted`: the former main child has left the parent's chain.
    * `promote_stable`: a child that was registered after the main child takes its place.
    * `promote_pending`: so does a commitment that is not registered yet. -/

namespace AxonCore.Chains

open Lib List Option State

variable {ID : Type} [LinearOrder ID] {p : Params ID} {bound n : Nat} {s t : State ID}
  {pending : Option ID} {c d e m q r : ID} {x y : ChainID}

/-! ## Section 1: The new main child -/

/-- The state with a new main child. -/
def withMain (s : State ID) (q e : ID) : State ID :=
  s.modify q fun r => { r with mainChild := some e }

@[simp] theorem chainOf_withMain (d : ID) : (withMain s q e).chainOf d = s.chainOf d := by
  apply modify_keeps Commitment.chain
  exact fun _ => rfl

@[simp] theorem parentOf_withMain (d : ID) : (withMain s q e).parentOf d = s.parentOf d := by
  apply modify_keeps Commitment.parent
  exact fun _ => rfl

@[simp] theorem onChain_withMain (d : ID) :
    ((withMain s q e).commitments d).onChain = (s.commitments d).onChain := by
  apply modify_keeps Commitment.onChain
  exact fun _ => rfl

theorem mainChild_withMain (d : ID) : ((withMain s q e).commitments d).mainChild =
    if d = q then some e else (s.commitments d).mainChild := by
  show (Function.update s.commitments q _ d).mainChild = _
  rw [Function.update_apply]
  split_ifs <;> rfl

theorem shape_withMain (hshape : Shape p bound s pending) (he : s.parentOf e = some q) :
    Shape p bound (withMain s q e) pending := by
  refine hshape.congr parentOf_withMain (fun r => ⟨?_, ?_⟩) (fun r => ?_)
    (fun _ hc => hc) (hshape.unpublished_modify (hshape.parent e q he).2.1 _) ?_
    (fun callback _ r => by rw [onChain_withMain]) (fun _ => rfl) rfl
  · apply modify_keeps Commitment.children
    exact fun _ => rfl
  · apply modify_keeps Commitment.onMainChild
    exact fun _ => rfl
  · rw [mainChild_withMain]
    split_ifs with hr
    · exact .inr ⟨e, rfl, hr ▸ he⟩
    · exact .inl rfl
  · simp only [onChain_withMain]
    exact hshape.addCommitment

theorem inPlace_withMain (hr : r = q → (s.commitments q).mainChild ≠ some d ∧ d ≠ e)
    (h : InPlace s d r) : InPlace (withMain s q e) d r := by
  apply InPlace.congr chainOf_withMain rfl _ h
  rw [mainChild_withMain]
  split_ifs with hrq
  · obtain ⟨hm, hde⟩ := hr hrq
    rw [hrq]
    simp [hm, hde.symm]
  · rfl

theorem setMainChild_eq (hshape : Shape p bound s pending)
    (hne : (s.commitments q).mainChild ≠ some e) :
    s.setMainChild p n q e = run (fun s child => s.rederive p n child q) (withMain s q e)
      (s.commitments q).children := by
  unfold setMainChild
  rw [if_neg hne, hshape.onMainChild]
  rfl

theorem run_settled (hn : 0 < n) : ∀ {l : List ID}, (∀ d ∈ l, s.Settled d q) →
    run (fun s child => s.rederive p n child q) s l = some s := by
  intro l
  induction l with
  | nil => exact fun _ => rfl
  | cons d l ih =>
    intro hall
    show (s.rederive p n d q).bind _ = _
    rw [rederive_of_settled hn (hall d mem_cons_self), bind_some]
    exact ih fun d hd => hall d (mem_cons_of_mem _ hd)

/-! ## Section 2: The former main child -/

/-- The former main child has begun a chain of its own.  The new one is to be moved to the
    parent's chain, which does not know its latest commitment until then. -/
structure Demoted (p : Params ID) (bound : Nat) (s t : State ID) (pending : Option ID)
    (q e : ID) : Prop where
  shape : Shape p bound t pending
  labels : Labels p t
  inPlace : ∀ d r, t.parentOf d = some r → d ≠ e → InPlace t d r
  latest : ∀ x, s.chainOf q ≠ some x → Latest p t x
  sameTree : SameTree s t
  mainChild : (t.commitments q).mainChild = some e
  chainOf : t.chainOf q = s.chainOf q
  commitment : t.commitments e = s.commitments e
  forkingPoint : ∀ x f, (s.chains x).forkingPoint = some f → (t.chains x).forkingPoint = some f

theorem demote (hn : bound < n) (hshape : Shape p bound s pending) (hlabels : Labels p s)
    (hpending : ∀ d, pending = some d → d = e)
    (hplace : ∀ d r, s.parentOf d = some r → d ≠ e → InPlace s d r)
    (hlatest : ∀ x, Latest p s x)
    (hm : (s.commitments q).mainChild = some m) (he : s.parentOf e = some q) (hne : m ≠ e) :
    ∃ t, (withMain s q e).rederive p n m q = some t ∧ Demoted p bound s t pending q e := by
  have hmq : s.parentOf m = some q := hshape.main q m hm
  have hchain : s.chainOf m = s.chainOf q := by
    have hin := hplace m q hmq hne
    unfold InPlace at hin
    rwa [if_pos hm] at hin
  -- the new main child, and the new chain
  have hshape₁ := shape_withMain hshape he
  have hlabels₁ : Labels p (withMain s q e) :=
    Labels.congr chainOf_withMain parentOf_withMain rfl hlabels
  have hmq₁ : (withMain s q e).parentOf m = some q := by rw [parentOf_withMain, hmq]
  have hmain₁ : ((withMain s q e).commitments q).mainChild = some e := by
    rw [mainChild_withMain, if_pos rfl]
  have hplace₁ : ∀ d r, s.parentOf d = some r → d ≠ e → d ≠ m → InPlace (withMain s q e) d r := by
    intro d r hd hde hdm
    apply inPlace_withMain _ (hplace d r hd hde)
    intro _
    refine ⟨fun heq => ?_, hde⟩
    rw [hm, some.injEq] at heq
    exact hdm heq.symm
  let u := withChain (withMain s q e) m q
  let z := (withMain s q e).chainCount
  have hparent : ∀ d, u.parentOf d = s.parentOf d := fun d => by
    rw [parentOf_withChain, parentOf_withMain]
  have hchainOf : ∀ d, u.chainOf d = s.chainOf d := fun d => by
    rw [chainOf_withChain, chainOf_withMain]
  have hshape₂ : Shape p bound u pending := shape_withChain hshape₁ hmq₁
  have hlabels₂ : Labels p u := labels_withChain hshape₁ hmq₁ hlabels₁
  have hfork : (u.chains z).forkingPoint = some m :=
    (forkingPoint_withChain hshape₁ m).mpr (.inr ⟨rfl, rfl⟩)
  have hplace₂ : ∀ d r, u.parentOf d = some r → d ≠ e → d ≠ m → InPlace u d r := by
    intro d r hd hde hdm
    rw [hparent] at hd
    exact inPlace_withChain hshape₁ (hplace₁ d r hd hde hdm)
  obtain ⟨l, hmove, hlen⟩ : ∃ l, Move p bound u pending m q l z ∧ l.length ≤ bound := by
    apply exists_move hshape₂ hlabels₂ ((hparent m).trans hmq)
    · intro d hd
      rw [hpending d hd]
      exact ⟨(hparent e).trans he, hne.symm⟩
    · intro d r hd hr
      apply hplace₂ d r hd
      · intro hde
        rw [hde, hparent, he, some.injEq] at hd
        exact hr hd.symm
      · intro hdm
        rw [hdm, hparent, hmq, some.injEq] at hd
        exact hr hd.symm
    · left
      refine ⟨hfork, fun d => ?_⟩
      rw [chainOf_withChain]
      exact chainOf_ne_chainCount hshape₁ hlabels₁ d
  have heq : (withMain s q e).rederive p n m q = some (moved p u l z) := by
    unfold rederive
    have hmain : ((withMain s q e).commitments q).mainChild ≠ some m := by
      rw [hmain₁]
      exact fun heq => hne (some.inj heq).symm
    rw [derivedChain_of_new hmain (.inr (by rw [chainOf_withMain, chainOf_withMain, hchain]))]
    exact hmove.setChain_eq (by omega)
  have hel : e ∉ l := by
    intro hmem
    exact hmove.parent_not_mem (hmove.parent_mem hmem hne.symm ((hparent e).trans he)).1
  have heq' : e ≠ q := by
    intro heq
    have hslot := hshape.slot_eq he
    rw [heq] at hslot
    omega
  refine ⟨_, heq, ?_⟩
  constructor
  · exact hmove.shape_moved
  · exact hmove.labels_moved
  · intro d r hd hde
    rw [parentOf_moved] at hd
    by_cases hdm : d = m
    · -- the former main child is a fork now
      subst hdm
      rw [hparent, hmq, some.injEq] at hd
      subst hd
      unfold InPlace
      rw [mainChild_moved, mainChild_withChain, hmain₁,
        if_neg fun heq => hne (some.inj heq).symm]
      refine ⟨z, ?_, (hmove.forkingPoint_moved z).trans hfork⟩
      rw [chainOf_moved, if_pos hmove.line.head_mem]
    · exact hmove.inPlace_moved hd hdm (hplace₂ d r hd hde hdm)
  · intro x hx
    apply hmove.latest_moved
    · rw [hchainOf, hchain]
      exact hx
    · exact latest_withChain hshape₁ hlabels₁ (Latest.congr chainOf_withMain rfl (hlatest x))
  · have hsame : SameTree s u := ⟨rfl, rfl, hparent⟩
    exact hsame.trans sameTree_moved
  · rw [mainChild_moved, mainChild_withChain, hmain₁]
  · rw [chainOf_moved, if_neg hmove.parent_not_mem, hchainOf]
  · rw [commitments_moved, if_neg hel, commitments_withChain, if_neg heq']
    exact Function.update_of_ne heq' ..
  · intro x f hf
    rw [hmove.forkingPoint_moved]
    exact (forkingPoint_withChain hshape₁ f).mpr (.inl hf)

theorem settled_withMain (hshape : Shape p bound s pending) (hlabels : Labels p s)
    (hplace : ∀ d r, s.parentOf d = some r → d ≠ e → InPlace s d r)
    (hm : (s.commitments q).mainChild = some m) (he : s.parentOf e = some q)
    (hd : s.parentOf d = some q) (hdm : d ≠ m) (hde : d ≠ e) : (withMain s q e).Settled d q := by
  have hin : InPlace (withMain s q e) d q := by
    apply inPlace_withMain _ (hplace d q hd hde)
    intro _
    refine ⟨fun heq => ?_, hde⟩
    rw [hm, some.injEq] at heq
    exact hdm heq.symm
  apply hin.settled (shape_withMain hshape he)
  · exact Labels.congr chainOf_withMain parentOf_withMain rfl hlabels
  · rw [parentOf_withMain, hd]

theorem Demoted.settled (h : Demoted p bound s t pending q e) (hd : s.parentOf d = some q)
    (hde : d ≠ e) : t.Settled d q := by
  have hd' : t.parentOf d = some q := (h.sameTree.parentOf d).trans hd
  exact (h.inPlace d q hd' hde).settled h.shape h.labels hd'

/-! ## Section 3: The promotion -/

/-- A commitment that is not registered yet becomes the main child: only the former main child
    moves. -/
theorem promote_pending (hn : bound < n) (hshape : Shape p bound s (some e)) (hlabels : Labels p s)
    (hplace : ∀ d r, s.parentOf d = some r → d ≠ e → InPlace s d r)
    (hlatest : ∀ x, Latest p s x) (hm : (s.commitments q).mainChild = some m)
    (he : s.parentOf e = some q) (hne : m ≠ e) :
    ∃ t, s.setMainChild p n q e = some t ∧ Demoted p bound s t (some e) q e := by
  obtain ⟨t, ht, hdemoted⟩ := demote hn hshape hlabels (fun d hd => (some.inj hd).symm)
    hplace hlatest hm he hne
  have hchildren : ∀ d ∈ (s.commitments q).children, s.parentOf d = some q ∧ d ≠ e := by
    intro d hd
    rw [hshape.children] at hd
    exact ⟨hd.1, fun heq => hd.2 (heq ▸ rfl)⟩
  have hmem : m ∈ (s.commitments q).children := by
    rw [hshape.children]
    exact ⟨hshape.main q m hm, fun heq => hne (some.inj heq).symm⟩
  obtain ⟨before, after, hsplit, hfirst⟩ := eq_append_cons_of_mem hmem
  refine ⟨t, ?_, hdemoted⟩
  rw [setMainChild_eq hshape (by rw [hm]; exact fun heq => hne (some.inj heq)), hsplit,
    run_append]
  refine ⟨withMain s q e, run_settled (by omega) ?_,
    run_cons.mpr ⟨t, ht, run_settled (by omega) ?_⟩⟩
  · intro d hd
    obtain ⟨hdq, hde⟩ := hchildren d (by rw [hsplit]; exact mem_append_left _ hd)
    exact settled_withMain hshape hlabels hplace hm he hdq (fun heq => hfirst (heq ▸ hd)) hde
  · intro d hd
    obtain ⟨hdq, hde⟩ := hchildren d (by
      rw [hsplit]
      exact mem_append_right _ (mem_cons_of_mem _ hd))
    exact hdemoted.settled hdq hde

theorem Demoted.promote (hn : bound < n) (h : Demoted p bound s t none q e)
    (he : s.parentOf e = some q) (hq : s.chainOf q = some x)
    (hey : s.chainOf e = some y) (hfork : (s.chains y).forkingPoint = some e) :
    ∃ u, t.rederive p n e q = some u ∧ Stable p bound u ∧ SameTree s u ∧
      ∀ d, s.parentOf d = some q → u.Settled d q := by
  have he' : t.parentOf e = some q := (h.sameTree.parentOf e).trans he
  have hq' : t.chainOf q = some x := h.chainOf.trans hq
  have hey' : t.chainOf e = some y := by
    unfold State.chainOf
    rw [h.commitment]
    exact hey
  have hfork' := h.forkingPoint y e hfork
  -- no other child is on the chain of the parent
  have hno : ∀ d, t.parentOf d = some q → t.chainOf d ≠ some x := by
    intro d hd hdx
    by_cases hde : d = e
    · rw [hde, hey', some.injEq] at hdx
      subst hdx
      obtain ⟨f, hf, hle⟩ := h.labels.forkingPoint h.shape hq'
      rw [hfork', some.injEq] at hf
      subst hf
      have hslot := h.shape.slot_eq he'
      omega
    · have hsettled := (h.inPlace d q hd hde).settled h.shape h.labels hd
      unfold State.Settled at hsettled
      rw [h.mainChild, if_neg fun heq => hde (some.inj heq).symm] at hsettled
      obtain ⟨z, hz, hne⟩ := hsettled
      rw [hdx, some.injEq] at hz
      exact hne (hz ▸ hq')
  obtain ⟨l, hmove, hlen⟩ : ∃ l, Move p bound t none e q l x ∧ l.length ≤ bound := by
    apply exists_move h.shape h.labels he' (by simp) _ (.inr ⟨hq', hno⟩)
    intro d r hd hr
    apply h.inPlace d r hd
    intro hde
    rw [hde, he', some.injEq] at hd
    exact hr hd.symm
  have hstable : Stable p bound (moved p t l x) := by
    apply hmove.stable_moved h.inPlace
    · rw [if_pos h.mainChild, hq']
    · intro z hz
      by_cases hzy : z = y
      · subst hzy
        exact .inr ⟨hey', hfork'⟩
      · refine .inl ⟨?_, h.latest z ?_⟩
        · rw [hey']
          exact fun heq => hzy (some.inj heq).symm
        · rw [hq]
          exact fun heq => hz (some.inj heq).symm
  refine ⟨moved p t l x, ?_, hstable, h.sameTree.trans sameTree_moved, ?_⟩
  · unfold rederive
    rw [derivedChain_of_main h.mainChild, hq']
    exact hmove.setChain_eq (by omega)
  · intro d hd
    have hd' : (moved p t l x).parentOf d = some q :=
      (parentOf_moved d).trans ((h.sameTree.parentOf d).trans hd)
    exact (hstable.inPlace d q hd').settled hstable.shape hstable.labels hd'

/-- A child that was registered after the main child becomes the main child. -/
theorem promote_stable (hn : bound < n) (h : Stable p bound s)
    (hm : (s.commitments q).mainChild = some m) (hne : m ≠ e) (hq : s.chainOf q = some x)
    {before after : List ID} (horder : (s.commitments q).children = before ++ m :: after)
    (hafter : e ∈ after) :
    ∃ t, s.setMainChild p n q e = some t ∧ Stable p bound t ∧ SameTree s t := by
  have hchildren : ∀ d ∈ before ++ m :: after, s.parentOf d = some q := by
    intro d hd
    rw [← horder, h.shape.children] at hd
    exact hd.1
  have he : s.parentOf e = some q :=
    hchildren e (mem_append_right _ (mem_cons_of_mem _ hafter))
  have hnodup := h.shape.nodup q
  rw [horder] at hnodup
  have hplace : ∀ d r, s.parentOf d = some r → d ≠ e → InPlace s d r :=
    fun d r hd _ => h.inPlace d r hd
  obtain ⟨t, ht, hdemoted⟩ :=
    demote hn h.shape h.labels (by simp) hplace h.latest hm he hne
  obtain ⟨y, hey, hfork⟩ : ∃ y, s.chainOf e = some y ∧ (s.chains y).forkingPoint = some e := by
    have hin := h.inPlace e q he
    unfold InPlace at hin
    rwa [hm, if_neg fun heq => hne (some.inj heq)] at hin
  obtain ⟨u, hu, hstable, hsame, hsettled⟩ := hdemoted.promote hn he hq hey hfork
  obtain ⟨mid, last, hsplit, hfirst⟩ := eq_append_cons_of_mem hafter
  refine ⟨u, ?_, hstable, hsame⟩
  rw [setMainChild_eq h.shape (by rw [hm]; exact fun heq => hne (some.inj heq)), horder,
    run_append]
  refine ⟨withMain s q e, run_settled (by omega) ?_, run_cons.mpr ⟨t, ht, ?_⟩⟩
  · intro d hd
    have hdisjoint := (nodup_append.mp hnodup).2.2 d hd
    exact settled_withMain h.shape h.labels hplace hm he (hchildren d (mem_append_left _ hd))
      (hdisjoint m mem_cons_self) (hdisjoint e (mem_cons_of_mem _ hafter))
  · have hchildren' : ∀ d ∈ after, s.parentOf d = some q :=
      fun d hd => hchildren d (mem_append_right _ (mem_cons_of_mem _ hd))
    rw [hsplit] at hchildren' ⊢
    rw [run_append]
    refine ⟨t, run_settled (by omega) ?_, run_cons.mpr ⟨u, hu, run_settled (by omega) ?_⟩⟩
    · intro d hd
      exact hdemoted.settled (hchildren' d (mem_append_left _ hd))
        fun heq => hfirst (heq ▸ hd)
    · intro d hd
      exact hsettled d (hchildren' d (mem_append_right _ (mem_cons_of_mem _ hd)))

end AxonCore.Chains
