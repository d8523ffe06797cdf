import AxonCore.Chains.Bookkeeping

/-! # A commitment is attached to its parent

    When the parent of a commitment becomes known, the commitment registers with it and derives
    its chain: the first child joins the chain of the parent, the others begin chains of their
    own.  The commitments that wait for it below are on a line that moves along.

    * `withChain`: the state with a new chain for a child.
    * `linked`: the state in which a child is registered.
    * `withParent`: the state in which a commitment knows its parent.
    * `Attachable.attach_stable`, `setParent_stable`: the bookkeeping is complete afterwards. -/

namespace AxonCore.Chains

open Lib Function Option State Commitment

variable {ID : Type} [LinearOrder ID] {p : Params ID} {bound n : Nat} {s : State ID}
  {pending : Option ID} {c d e m q r : ID} {x : ChainID} {callback : Callback ID}

/-! ## Section 1: A new chain -/

/-- The state with a new chain for a child. -/
def withChain (s : State ID) (c q : ID) : State ID := (s.newChain c q).1

theorem derivedChain_of_new (hmain : (s.commitments q).mainChild ≠ some c)
    (hc : s.chainOf c = none ∨ s.chainOf c = s.chainOf q) :
    s.derivedChain c q = (withChain s c q, some s.chainCount) := by
  unfold derivedChain
  rw [if_pos hmain, if_pos hc]
  rfl

theorem commitments_withChain (d : ID) : (withChain s c q).commitments d =
    if d = q then { s.commitments q with
      onChain := (s.commitments q).onChain ++ [.inheritParentChain s.chainCount] }
    else s.commitments d := by
  show update s.commitments q _ d = _
  rw [update_apply]
  rfl

theorem chains_withChain (x : ChainID) : (withChain s c q).chains x =
    if x = s.chainCount then
      { Chain.empty with forkingPoint := some c, parentChain := s.chainOf q }
    else s.chains x := by
  show update s.chains s.chainCount _ x = _
  rw [update_apply]

@[simp] theorem chainCount_withChain : (withChain s c q).chainCount = s.chainCount + 1 := rfl

theorem withChain_keeps {α : Type} (g : Commitment ID → α)
    (hg : ∀ r callbacks, g { r with onChain := callbacks } = g r) (d : ID) :
    g ((withChain s c q).commitments d) = g (s.commitments d) := by
  rw [commitments_withChain]
  split_ifs with h
  · rw [hg, h]
  · rfl

@[simp] theorem chainOf_withChain (d : ID) : (withChain s c q).chainOf d = s.chainOf d :=
  withChain_keeps chain (fun _ _ => rfl) d

@[simp] theorem parentOf_withChain (d : ID) : (withChain s c q).parentOf d = s.parentOf d :=
  withChain_keeps parent (fun _ _ => rfl) d

@[simp] theorem children_withChain (d : ID) :
    ((withChain s c q).commitments d).children = (s.commitments d).children :=
  withChain_keeps children (fun _ _ => rfl) d

@[simp] theorem mainChild_withChain (d : ID) :
    ((withChain s c q).commitments d).mainChild = (s.commitments d).mainChild :=
  withChain_keeps mainChild (fun _ _ => rfl) d

theorem mem_onChain_withChain :
    callback ∈ ((withChain s c q).commitments d).onChain ↔
      callback ∈ (s.commitments d).onChain ∨
        d = q ∧ callback = .inheritParentChain s.chainCount := by
  rw [commitments_withChain]
  by_cases h : d = q
  · subst h
    simp
  · simp [h]

section NewChain

variable (hshape : Shape p bound s pending) (hc : s.parentOf c = some q)

include hshape

theorem forkingPoint_withChain (f : ID) : ((withChain s c q).chains x).forkingPoint = some f ↔
    (s.chains x).forkingPoint = some f ∨ x = s.chainCount ∧ f = c := by
  rw [chains_withChain]
  by_cases hx : x = s.chainCount
  · subst hx
    have hfresh := hshape.fresh s.chainCount (Nat.le_refl _)
    simp [hfresh, eq_comm]
  · simp [hx]

include hc

theorem shape_withChain : Shape p bound (withChain s c q) pending where
  root := hshape.root
  parent := by
    simp only [parentOf_withChain]
    exact hshape.parent
  children := by
    simp only [parentOf_withChain, children_withChain]
    exact hshape.children
  nodup := by
    simp only [children_withChain]
    exact hshape.nodup
  onMainChild := by
    simp only [children_withChain, withChain_keeps onMainChild fun _ _ => rfl]
    exact hshape.onMainChild
  main := by
    simp only [mainChild_withChain, parentOf_withChain]
    exact hshape.main
  main_none := by
    simp only [mainChild_withChain, children_withChain]
    exact hshape.main_none
  unpublished := hshape.unpublished_modify (hshape.parent c q hc).2.1 fun r =>
    { r with onChain := r.onChain ++ [.inheritParentChain s.chainCount] }
  addCommitment := by
    intro d hd hne
    obtain ⟨rest, hrest, hadd⟩ := hshape.addCommitment d hd hne
    rw [commitments_withChain]
    split_ifs with h
    · subst h
      refine ⟨rest ++ [.inheritParentChain s.chainCount], ?_, ?_⟩
      · rw [hrest]
        rfl
      · simp [hadd]
    · exact ⟨rest, hrest, hadd⟩
  derive := by
    intro d r
    rw [mem_onChain_withChain, children_withChain, hshape.derive]
    simp
  inherit := by
    intro x r
    rw [mem_onChain_withChain, hshape.inherit]
    simp only [forkingPoint_withChain hshape, parentOf_withChain]
    constructor
    · rintro (⟨f, hf, hr⟩ | ⟨rfl, hx⟩)
      · exact ⟨f, .inl hf, hr⟩
      · rw [Callback.inheritParentChain.injEq] at hx
        exact ⟨c, .inr ⟨hx, rfl⟩, hc⟩
    · rintro ⟨f, hf | ⟨rfl, rfl⟩, hr⟩
      · exact .inl ⟨f, hf, hr⟩
      · rw [hc, some.injEq] at hr
        exact .inr ⟨hr.symm, rfl⟩
  forkingPoint := by
    intro x f hf
    rw [forkingPoint_withChain hshape] at hf
    rw [parentOf_withChain]
    rcases hf with hf | ⟨_, rfl⟩
    · exact hshape.forkingPoint x f hf
    · right
      rw [hc]
      simp
  fresh := by
    intro x hx
    rw [chainCount_withChain] at hx
    have hne : x ≠ s.chainCount := by omega
    rw [chains_withChain, if_neg hne]
    exact hshape.fresh x (by omega)

variable (hlabels : Labels p s)

include hlabels

omit [LinearOrder ID] hc in
theorem chainOf_ne_chainCount (d : ID) : s.chainOf d ≠ some s.chainCount := fun hd =>
  Nat.lt_irrefl _ (hlabels.lt_chainCount hshape hd)

theorem labels_withChain : Labels p (withChain s c q) where
  root := by
    obtain ⟨x, hx, hf⟩ := hlabels.root
    refine ⟨x, ?_, ?_⟩
    · rw [chainOf_withChain, hx]
    · rw [forkingPoint_withChain hshape]
      exact .inl hf
  top := by
    simp only [parentOf_withChain, chainOf_withChain]
    exact hlabels.top
  link := by
    intro d r x hd hx
    rw [chainOf_withChain] at hx ⊢
    rw [parentOf_withChain] at hd
    rw [forkingPoint_withChain hshape]
    rcases hlabels.link d r x hd hx with hsame | hfork
    · exact .inl hsame
    · exact .inr (.inl hfork)
  parentChain := by
    intro x f r hf hr
    rw [parentOf_withChain] at hr
    rw [forkingPoint_withChain hshape] at hf
    rw [chains_withChain, chainOf_withChain]
    split_ifs with hx
    · rcases hf with hf | ⟨_, rfl⟩
      · rw [hx, hshape.fresh _ (Nat.le_refl _)] at hf
        cases hf
      · rw [hc, some.injEq] at hr
        rw [hr]
    · rcases hf with hf | ⟨heq, _⟩
      · exact hlabels.parentChain x f r hf hr
      · exact absurd heq hx
  slots := by
    intro x k d
    rw [chains_withChain, chainOf_withChain]
    split_ifs with hx
    · subst hx
      refine ⟨(fun hk => by cases hk), fun hd => ?_⟩
      exact absurd hd.1 (chainOf_ne_chainCount hshape hlabels d)
    · exact hlabels.slots x k d

omit hc hlabels in
theorem inPlace_withChain (hin : InPlace s d r) : InPlace (withChain s c q) d r := by
  unfold InPlace at hin ⊢
  rw [mainChild_withChain, chainOf_withChain, chainOf_withChain]
  split_ifs at hin ⊢
  · exact hin
  · obtain ⟨x, hx, hfork⟩ := hin
    exact ⟨x, hx, (forkingPoint_withChain hshape d).mpr (.inl hfork)⟩

omit hc in
theorem latest_withChain (hlatest : Latest p s x) : Latest p (withChain s c q) x := by
  intro d hd
  have hne : x ≠ s.chainCount := by
    rintro rfl
    rw [chainOf_withChain] at hd
    exact chainOf_ne_chainCount hshape hlabels d hd
  simp only [chainOf_withChain] at hd ⊢
  rw [chains_withChain, if_neg hne]
  exact hlatest d hd

end NewChain

/-! ## Section 2: A commitment is linked to its parent -/

/-- The state in which a commitment is registered with its parent. -/
def linked (s : State ID) (c q : ID) : State ID := s.modify q fun r =>
  { r with
    children := r.children ++ [c]
    mainChild := some (r.mainChild.getD c)
    onMainChild := r.onMainChild ++ [c]
    onChain := r.onChain ++ [.deriveChain c] }

/-- A commitment with one more child; the first one is the main child. -/
def withChild (c : ID) (r : Commitment ID) : Commitment ID :=
  { r with
    children := r.children ++ [c]
    mainChild := some (r.mainChild.getD c) }

theorem modify_modify (f g : Commitment ID → Commitment ID) :
    (s.modify q f).modify q g = s.modify q fun r => g (f r) := by
  unfold State.modify
  simp

theorem modify_congr {f g : Commitment ID → Commitment ID}
    (h : f (s.commitments q) = g (s.commitments q)) : s.modify q f = s.modify q g := by
  unfold State.modify
  rw [h]

section

variable (hnew : c ∉ (s.commitments q).children)
include hnew

variable (hmain : (s.commitments q).mainChild = none → (s.commitments q).onMainChild = [])
include hmain

theorem registerChild_eq : s.registerChild p n q c = some (s.modify q (withChild c)) := by
  unfold registerChild
  rw [if_neg hnew]
  have hself : (s.modify q fun r => { r with children := r.children ++ [c] }).commitments q =
      { s.commitments q with children := (s.commitments q).children ++ [c] } :=
    update_self ..
  dsimp only
  rw [hself]
  cases hm : (s.commitments q).mainChild with
  | none =>
    unfold setMainChild
    rw [hself]
    dsimp only
    rw [hm, if_neg (some_ne_none c).symm, hmain hm, modify_modify, run_nil]
    congr 1
    apply modify_congr
    rw [withChild, hm]
    rfl
  | some m =>
    dsimp only
    congr 1
    apply modify_congr
    simp [withChild, hm]

theorem attach_main (hc : (s.commitments q).mainChild.getD c = c) :
    s.attach p n c q = (linked s c q).setChain p n c (s.chainOf q) := by
  unfold State.attach
  rw [registerChild_eq hnew hmain, bind_some]
  have hself : ((s.modify q (withChild c)).commitments q).mainChild = some c := by
    rw [commitments_modify_self]
    exact congrArg some hc
  rw [derivedChain_of_main hself]
  dsimp only
  rw [modify_modify]
  congr 1
  apply modify_keeps chain
  exact fun _ => rfl

theorem attach_fork (hc : (s.commitments q).mainChild.getD c ≠ c) (hchain : s.chainOf c = none) :
    s.attach p n c q =
      (linked (withChain s c q) c q).setChain p n c (some s.chainCount) := by
  unfold State.attach
  rw [registerChild_eq hnew hmain, bind_some]
  have hself : ((s.modify q (withChild c)).commitments q).mainChild ≠ some c := by
    rw [commitments_modify_self]
    exact fun heq => hc (some.inj heq)
  have hchain' : ∀ d, (s.modify q (withChild c)).chainOf d = s.chainOf d := by
    apply modify_keeps chain
    exact fun _ => rfl
  rw [derivedChain_of_new hself (.inl ((hchain' c).trans hchain))]
  dsimp only
  congr 1
  have hq := hchain' q
  unfold withChain newChain linked
  rw [hq]
  unfold State.modify State.modifyChain
  simp [withChild]

end

@[simp] theorem chainOf_linked (d : ID) : (linked s c q).chainOf d = s.chainOf d := by
  apply modify_keeps chain
  exact fun _ => rfl

@[simp] theorem parentOf_linked (d : ID) : (linked s c q).parentOf d = s.parentOf d := by
  apply modify_keeps parent
  exact fun _ => rfl

theorem commitments_linked_of_ne (h : d ≠ q) :
    (linked s c q).commitments d = s.commitments d := update_of_ne h ..

theorem mem_children_linked : d ∈ ((linked s c q).commitments r).children ↔
    d ∈ (s.commitments r).children ∨ r = q ∧ d = c := by
  by_cases h : r = q
  · subst h
    simp [linked]
  · simp [commitments_linked_of_ne h, h]

theorem mem_onChain_linked :
    callback ∈ ((linked s c q).commitments r).onChain ↔
      callback ∈ (s.commitments r).onChain ∨ r = q ∧ callback = .deriveChain c := by
  by_cases h : r = q
  · subst h
    simp [linked]
  · simp [commitments_linked_of_ne h, h]

theorem mainChild_linked : ((linked s c q).commitments r).mainChild =
    if r = q then some ((s.commitments q).mainChild.getD c) else (s.commitments r).mainChild := by
  by_cases h : r = q
  · subst h
    simp [linked]
  · simp [commitments_linked_of_ne h, h]

theorem shape_linked (hshape : Shape p bound s (some c)) (hc : s.parentOf c = some q)
    (hadd : ∃ rest, (s.commitments c).onChain = .addCommitment :: rest ∧ .addCommitment ∉ rest) :
    Shape p bound (linked s c q) none where
  root := hshape.root
  parent := by
    simp only [parentOf_linked]
    exact hshape.parent
  children := by
    intro d r
    rw [mem_children_linked, hshape.children, parentOf_linked]
    constructor
    · rintro (⟨hd, _⟩ | ⟨rfl, rfl⟩)
      · exact ⟨hd, by simp⟩
      · exact ⟨hc, by simp⟩
    · rintro ⟨hd, _⟩
      by_cases hdc : d = c
      · subst hdc
        rw [hc, some.injEq] at hd
        exact .inr ⟨hd.symm, rfl⟩
      · exact .inl ⟨hd, fun heq => hdc (some.inj heq).symm⟩
  nodup := by
    intro r
    by_cases hr : r = q
    · subst hr
      have hnew : c ∉ (s.commitments r).children := by
        rw [hshape.children]
        exact fun h => h.2 rfl
      simp only [linked, commitments_modify_self]
      rw [List.nodup_append]
      refine ⟨hshape.nodup r, List.nodup_singleton c, ?_⟩
      intro d hd e he
      rw [List.mem_singleton] at he
      rintro rfl
      exact hnew (he ▸ hd)
    · rw [commitments_linked_of_ne hr]
      exact hshape.nodup r
  onMainChild := by
    intro r
    by_cases hr : r = q
    · subst hr
      simp only [linked, commitments_modify_self]
      rw [hshape.onMainChild]
    · rw [commitments_linked_of_ne hr]
      exact hshape.onMainChild r
  main := by
    intro r m hm
    rw [mainChild_linked] at hm
    rw [parentOf_linked]
    split_ifs at hm with hr
    · subst hr
      cases hm' : (s.commitments r).mainChild with
      | none =>
        rw [hm', getD_none, some.injEq] at hm
        exact hm ▸ hc
      | some m' =>
        rw [hm', getD_some, some.injEq] at hm
        exact hshape.main r m (hm ▸ hm')
    · exact hshape.main r m hm
  main_none := by
    intro r hm
    rw [mainChild_linked] at hm
    split_ifs at hm with hr
    rw [commitments_linked_of_ne hr]
    exact hshape.main_none r hm
  unpublished := hshape.unpublished_modify (hshape.parent c q hc).2.1 _
  addCommitment := by
    intro d hd _
    have hold : ∃ rest, (s.commitments d).onChain = .addCommitment :: rest ∧
        .addCommitment ∉ rest := by
      by_cases hdc : d = c
      · exact hdc ▸ hadd
      · exact hshape.addCommitment d hd fun heq => hdc (some.inj heq).symm
    obtain ⟨rest, hrest, hnot⟩ := hold
    by_cases hdq : d = q
    · subst hdq
      refine ⟨rest ++ [.deriveChain c], ?_, ?_⟩
      · simp only [linked, commitments_modify_self]
        rw [hrest]
        rfl
      · simp [hnot]
    · rw [commitments_linked_of_ne hdq]
      exact ⟨rest, hrest, hnot⟩
  derive := by
    intro d r
    rw [mem_onChain_linked, mem_children_linked, hshape.derive]
    simp
  inherit := by
    intro x r
    rw [mem_onChain_linked, hshape.inherit]
    simp only [parentOf_linked]
    simp [linked]
  forkingPoint := by
    simp only [parentOf_linked]
    exact hshape.forkingPoint
  fresh := hshape.fresh

/-- A commitment without a chain that knows its parent but is not registered there; all other
    commitments are in their place. -/
structure Awaiting (p : Params ID) (bound : Nat) (s : State ID) (c q : ID) : Prop where
  shape : Shape p bound s (some c)
  labels : Labels p s
  parent : s.parentOf c = some q
  chainOf : s.chainOf c = none
  inPlace : ∀ d r, s.parentOf d = some r → d ≠ c → InPlace s d r

/-- It also has the callback that adds it to its chain. -/
structure Attachable (p : Params ID) (bound : Nat) (s : State ID) (c q : ID) : Prop
    extends Awaiting p bound s c q where
  addCommitment : ∃ rest, (s.commitments c).onChain = .addCommitment :: rest ∧
    .addCommitment ∉ rest

theorem Awaiting.ne (h : Awaiting p bound s c q) : c ≠ q := by
  intro heq
  have hslot := h.shape.slot_eq h.parent
  rw [heq] at hslot
  omega

theorem Awaiting.not_mem_children (h : Awaiting p bound s c q) :
    c ∉ (s.commitments q).children := by
  rw [h.shape.children]
  exact fun hmem => hmem.2 rfl

theorem Awaiting.onMainChild_of_none (h : Awaiting p bound s c q)
    (hm : (s.commitments q).mainChild = none) : (s.commitments q).onMainChild = [] := by
  rw [h.shape.onMainChild, h.shape.main_none q hm]

namespace Attachable

variable (h : Attachable p bound s c q)

include h

theorem withChain : Attachable p bound (withChain s c q) c q where
  shape := shape_withChain h.shape h.parent
  labels := labels_withChain h.shape h.parent h.labels
  parent := by rw [parentOf_withChain, h.parent]
  chainOf := by rw [chainOf_withChain, h.chainOf]
  addCommitment := by
    rw [commitments_withChain, if_neg h.ne]
    exact h.addCommitment
  inPlace := by
    intro d r hd hdc
    rw [parentOf_withChain] at hd
    exact inPlace_withChain h.shape (h.inPlace d r hd hdc)

theorem shape_linked : Shape p bound (linked s c q) none :=
  Chains.shape_linked h.shape h.parent h.addCommitment

theorem labels_linked : Labels p (linked s c q) :=
  Labels.congr chainOf_linked parentOf_linked rfl h.labels

/-- The other commitments stay in their place: the main child changes only if there was none. -/
theorem inPlace_linked (hd : (linked s c q).parentOf d = some r) (hdc : d ≠ c) :
    InPlace (linked s c q) d r := by
  rw [parentOf_linked] at hd
  apply InPlace.congr chainOf_linked rfl _ (h.inPlace d r hd hdc)
  rw [mainChild_linked]
  split_ifs with hr
  · subst hr
    cases hm : (s.commitments r).mainChild with
    | none =>
      have hmem : d ∈ (s.commitments r).children :=
        (h.shape.children d r).mpr ⟨hd, fun heq => hdc (some.inj heq).symm⟩
      rw [h.shape.main_none r hm] at hmem
      cases hmem
    | some m => rfl
  · rfl

/-- The line of the commitment may move to a chain once the commitment is registered. -/
theorem exists_move_linked {new : ChainID} (htarget : Target s c q new) :
    ∃ l, Move p bound (linked s c q) none c q l new ∧ l.length ≤ bound := by
  have hparent : (linked s c q).parentOf c = some q := by rw [parentOf_linked, h.parent]
  apply exists_move h.shape_linked h.labels_linked hparent (by simp)
  · intro d r hd hr
    apply h.inPlace_linked hd
    intro hdc
    rw [hdc, hparent, some.injEq] at hd
    exact hr hd.symm
  · unfold Target
    simp only [chainOf_linked, parentOf_linked]
    exact htarget

theorem attach_main_stable (hn : bound < n) (hlatest : ∀ x, s.chainOf q ≠ some x → Latest p s x)
    (hmain : (s.commitments q).mainChild.getD c = c) :
    ∃ t, s.attach p n c q = some t ∧ Stable p bound t ∧ SameTree s t := by
  rw [attach_main h.not_mem_children h.onMainChild_of_none hmain]
  have hlatest' : ∀ x, s.chainOf q ≠ some x → Latest p (linked s c q) x :=
    fun x hx => Latest.congr chainOf_linked rfl (hlatest x hx)
  have hmain' : ((linked s c q).commitments q).mainChild = some c := by
    rw [mainChild_linked, if_pos rfl, hmain]
  have hsame : SameTree s (linked s c q) := ⟨rfl, rfl, parentOf_linked⟩
  cases hq : s.chainOf q with
  | none =>
    -- neither of them has a chain yet
    refine ⟨linked s c q, ?_, ⟨h.shape_linked, h.labels_linked, ?_, ?_⟩, hsame⟩
    · rw [← h.chainOf, ← chainOf_linked (q := q)]
      exact setChain_self (by omega)
    · intro d r hd
      by_cases hdc : d = c
      · subst hdc
        rw [parentOf_linked, h.parent, some.injEq] at hd
        subst hd
        unfold InPlace
        rw [if_pos hmain', chainOf_linked, chainOf_linked, h.chainOf, hq]
      · exact h.inPlace_linked hd hdc
    · intro x
      apply hlatest'
      rw [hq]
      simp
  | some y =>
    have hno : ∀ d, s.parentOf d = some q → s.chainOf d ≠ some y := by
      intro d hd hy
      by_cases hdc : d = c
      · rw [hdc, h.chainOf] at hy
        cases hy
      · -- the other children are forks
        have hne : (s.commitments q).mainChild ≠ some d := by
          intro heq
          rw [heq, getD_some] at hmain
          exact hdc hmain
        have hsettled := (h.inPlace d q hd hdc).settled h.shape h.labels hd
        unfold State.Settled at hsettled
        rw [if_neg hne] at hsettled
        obtain ⟨z, hz, hqz⟩ := hsettled
        rw [hq] at hqz
        exact hqz (hy.symm.trans hz)
    obtain ⟨l, hmove, hlen⟩ := h.exists_move_linked (.inr ⟨hq, hno⟩)
    refine ⟨_, hmove.setChain_eq (by omega), ?_, hsame.trans sameTree_moved⟩
    apply hmove.stable_moved fun d r => h.inPlace_linked
    · rw [if_pos hmain', chainOf_linked, hq]
    · intro x hx
      refine .inl ⟨?_, hlatest' x ?_⟩
      · rw [chainOf_linked, h.chainOf]
        simp
      · rw [hq]
        exact fun heq => hx (some.inj heq).symm

theorem attach_fork_stable (hn : bound < n) (hlatest : ∀ x, Latest p s x)
    (hmain : (s.commitments q).mainChild.getD c ≠ c) :
    ∃ t, s.attach p n c q = some t ∧ Stable p bound t ∧ SameTree s t := by
  rw [attach_fork h.not_mem_children h.onMainChild_of_none hmain h.chainOf]
  have hfork : ((Chains.withChain s c q).chains s.chainCount).forkingPoint = some c :=
    (forkingPoint_withChain h.shape c).mpr (.inr ⟨rfl, rfl⟩)
  have hnone : ∀ d, (Chains.withChain s c q).chainOf d ≠ some s.chainCount := by
    intro d
    rw [chainOf_withChain]
    exact chainOf_ne_chainCount h.shape h.labels d
  obtain ⟨l, hmove, hlen⟩ := h.withChain.exists_move_linked (.inl ⟨hfork, hnone⟩)
  have hsame : SameTree s (linked (Chains.withChain s c q) c q) := by
    refine ⟨rfl, rfl, fun d => ?_⟩
    rw [parentOf_linked, parentOf_withChain]
  refine ⟨_, hmove.setChain_eq (by omega), ?_, hsame.trans sameTree_moved⟩
  apply hmove.stable_moved fun d r => h.withChain.inPlace_linked
  · have hne : ((linked (Chains.withChain s c q) c q).commitments q).mainChild ≠ some c := by
      rw [mainChild_linked, if_pos rfl, mainChild_withChain]
      exact fun heq => hmain (some.inj heq)
    rw [if_neg hne]
    exact hfork
  · intro x _
    refine .inl ⟨?_, ?_⟩
    · rw [chainOf_linked, chainOf_withChain, h.chainOf]
      simp
    · exact Latest.congr chainOf_linked rfl (latest_withChain h.shape h.labels (hlatest x))

theorem attach_stable (hn : bound < n)
    (hlatest : ∀ x, Latest p s x ∨ (s.commitments q).mainChild = some c ∧ s.chainOf q = some x) :
    ∃ t, s.attach p n c q = some t ∧ Stable p bound t ∧ SameTree s t := by
  by_cases hmain : (s.commitments q).mainChild.getD c = c
  · apply h.attach_main_stable hn _ hmain
    exact fun x hx => (hlatest x).resolve_right fun hstale => hx hstale.2
  · apply h.attach_fork_stable hn _ hmain
    intro x
    apply (hlatest x).resolve_right
    intro hstale
    rw [hstale.1, getD_some] at hmain
    exact hmain rfl

end Attachable

/-! ## Section 3: The parent becomes known -/

/-- The state in which a commitment knows its parent. -/
def withParent (s : State ID) (c q : ID) : State ID :=
  s.modify c fun c => { c with parent := some q }

theorem parentOf_withParent (d : ID) :
    (withParent s c q).parentOf d = if d = c then some q else s.parentOf d := by
  show (update s.commitments c _ d).parent = _
  rw [update_apply]
  split_ifs <;> rfl

@[simp] theorem chainOf_withParent (d : ID) : (withParent s c q).chainOf d = s.chainOf d := by
  apply modify_keeps chain
  exact fun _ => rfl

@[simp] theorem children_withParent (d : ID) :
    ((withParent s c q).commitments d).children = (s.commitments d).children := by
  apply modify_keeps children
  exact fun _ => rfl

@[simp] theorem mainChild_withParent (d : ID) :
    ((withParent s c q).commitments d).mainChild = (s.commitments d).mainChild := by
  apply modify_keeps mainChild
  exact fun _ => rfl

@[simp] theorem onMainChild_withParent (d : ID) :
    ((withParent s c q).commitments d).onMainChild = (s.commitments d).onMainChild := by
  apply modify_keeps onMainChild
  exact fun _ => rfl

@[simp] theorem onChain_withParent (d : ID) :
    ((withParent s c q).commitments d).onChain = (s.commitments d).onChain := by
  apply modify_keeps onChain
  exact fun _ => rfl

/-- What a commitment and its parent need to be linked. -/
structure Fits (p : Params ID) (bound : Nat) (s : State ID) (c q : ID) : Prop where
  published : s.published c = true
  published_parent : s.published q = true
  parent_eq : q = p.previousCommitmentID c
  slot_lt : p.slot p.root < p.slot c
  slot_le : p.slot c ≤ bound

omit [LinearOrder ID] in
theorem Fits.ne_root (h : Fits p bound s c q) : c ≠ p.root := by
  intro heq
  have hslot := h.slot_lt
  rw [heq] at hslot
  omega

section WithParent

variable (hfits : Fits p bound s c q) (hnone : s.parentOf c = none)

include hfits hnone

omit [LinearOrder ID] in
theorem forkingPoint_ne (hshape : Shape p bound s none) : (s.chains x).forkingPoint ≠ some c := by
  intro hf
  rcases hshape.forkingPoint x c hf with hroot | hparent
  · exact hfits.ne_root hroot
  · exact hparent hnone

theorem parentOf_forkingPoint (hshape : Shape p bound s none) {f : ID}
    (hf : (s.chains x).forkingPoint = some f) : (withParent s c q).parentOf f = s.parentOf f := by
  rw [parentOf_withParent, if_neg]
  rintro rfl
  exact forkingPoint_ne hfits hnone hshape hf

theorem shape_withParent (hp : p.Consecutive) (hshape : Shape p bound s none) :
    Shape p bound (withParent s c q) (some c) where
  root := hshape.root
  parent := by
    intro d r hd
    rw [parentOf_withParent] at hd
    split_ifs at hd with hdc
    · rw [some.injEq] at hd
      subst hdc
      subst hd
      have hslot := hp d hfits.slot_lt
      rw [← hfits.parent_eq] at hslot
      exact ⟨hfits.published, hfits.published_parent, hfits.parent_eq, hfits.slot_lt, hslot,
        hfits.slot_le⟩
    · exact hshape.parent d r hd
  children := by
    intro d r
    rw [children_withParent, hshape.children, parentOf_withParent]
    by_cases hdc : d = c
    · subst hdc
      simp [hnone]
    · simp [hdc, Ne.symm hdc]
  nodup := by
    simp only [children_withParent]
    exact hshape.nodup
  onMainChild := by
    simp only [onMainChild_withParent, children_withParent]
    exact hshape.onMainChild
  main := by
    intro r m hm
    rw [mainChild_withParent] at hm
    have hparent := hshape.main r m hm
    have hmc : m ≠ c := by
      rintro rfl
      rw [hnone] at hparent
      cases hparent
    rw [parentOf_withParent, if_neg hmc, hparent]
  main_none := by
    simp only [mainChild_withParent, children_withParent]
    exact hshape.main_none
  unpublished := hshape.unpublished_modify hfits.published _
  addCommitment := by
    intro d hd _
    rw [onChain_withParent]
    exact hshape.addCommitment d hd (by simp)
  derive := by
    simp only [onChain_withParent, children_withParent]
    exact hshape.derive
  inherit := by
    intro x r
    rw [onChain_withParent, hshape.inherit]
    refine exists_congr fun f => and_congr_right fun hf => ?_
    rw [parentOf_forkingPoint hfits hnone hshape hf]
  forkingPoint := by
    intro x f hf
    rw [parentOf_withParent]
    split_ifs with hfc
    · exact .inr (by simp)
    · exact hshape.forkingPoint x f hf
  fresh := hshape.fresh

theorem labels_withParent (hshape : Shape p bound s none) (hlabels : Labels p s) :
    Labels p (withParent s c q) where
  root := by
    simp only [chainOf_withParent]
    exact hlabels.root
  top := by
    intro d hd hne
    rw [parentOf_withParent] at hd
    split_ifs at hd with hdc
    rw [chainOf_withParent]
    exact hlabels.top d hd hne
  link := by
    intro d r x hd hx
    rw [chainOf_withParent] at hx ⊢
    rw [parentOf_withParent] at hd
    split_ifs at hd with hdc
    · -- the commitment has no chain yet
      rw [hdc, hlabels.top c hnone hfits.ne_root] at hx
      cases hx
    · exact hlabels.link d r x hd hx
  parentChain := by
    intro x f r hf hr
    rw [parentOf_forkingPoint hfits hnone hshape hf] at hr
    rw [chainOf_withParent]
    exact hlabels.parentChain x f r hf hr
  slots := by
    simp only [chainOf_withParent]
    exact hlabels.slots

theorem attachable_withParent (hp : p.Consecutive) (h : Stable p bound s) :
    Attachable p bound (withParent s c q) c q where
  shape := shape_withParent hfits hnone hp h.shape
  labels := labels_withParent hfits hnone h.shape h.labels
  parent := by rw [parentOf_withParent, if_pos rfl]
  chainOf := by
    rw [chainOf_withParent]
    exact h.labels.top c hnone hfits.ne_root
  addCommitment := by
    rw [onChain_withParent]
    exact h.shape.addCommitment c hfits.published (by simp)
  inPlace := by
    intro d r hd hdc
    rw [parentOf_withParent, if_neg hdc] at hd
    apply InPlace.congr chainOf_withParent rfl _ (h.inPlace d r hd)
    rw [mainChild_withParent]

theorem setParent_stable (hp : p.Consecutive) (hn : bound < n) (h : Stable p bound s) :
    ∃ t, s.setParent p n c q = some t ∧ Stable p bound t ∧ SameTree (withParent s c q) t := by
  apply (attachable_withParent hfits hnone hp h).attach_stable hn
  exact fun x => .inl (Latest.congr chainOf_withParent rfl (h.latest x))

end WithParent

end AxonCore.Chains
