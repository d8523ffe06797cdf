import AxonCore.Chains.Decomposition

/-! # The tie-break of equally heavy chains

    `Less` compares two commitments of the same slot by walking up the chains of both, the
    one with the later forking point first, until the two meet.  Whatever the main children
    are, it compares the IDs at the first slot where the paths from the root differ.

    The walk keeps two ancestors, one of each commitment, on two different chains.  The
    chains meet in three ways: their forking points have the same parent, or the parent chain
    of one of them is the other.

    * `Walk`: what holds in every round.
    * `Decomposes.lessLoop_spec`: the loop returns the comparison of the paths.
    * `Decomposes.less_spec`: so does `Less`. -/

namespace AxonCore.Chains

open Lib Option

variable {ID : Type} [LinearOrder ID] {p : Params ID} {T : LevelTree ID} {s : State ID}

/-! ## Section 1: One side of the walk -/

/-- The ancestor of a commitment in a slot is on a chain, with its forking point. -/
structure OnChain (p : Params ID) (T : LevelTree ID) (s : State ID) (c : ID) (slot : Nat)
    (x : ChainID) (f : ID) : Prop where
  node : T.Node c
  root_le : p.slot T.root ≤ slot
  slot_le : slot ≤ p.slot c
  chainOf : s.chainOf (T.ancestorAt c slot) = some x
  forkingPoint : (s.chains x).forkingPoint = some f

namespace OnChain

variable {c f : ID} {slot slot' : Nat} {x : ChainID}

section

variable (h : Decomposes p T s)
include h

variable (hc : OnChain p T s c slot x f)
include hc

theorem slot_ancestorAt : p.slot (T.ancestorAt c slot) = slot := by
  rw [← h.level_eq]
  apply T.level_ancestorAt hc.node
  · rw [h.level_eq]
    exact hc.root_le
  · rw [h.level_eq]
    exact hc.slot_le

theorem forkingPoint_spec :
    T.Node f ∧ s.chainOf f = some x ∧ p.slot T.root ≤ p.slot f ∧ p.slot f ≤ slot ∧
      T.ancestorAt c (p.slot f) = f := by
  obtain ⟨hnode, hchain, hroot, hle, hanc⟩ :=
    h.chainOf_forkingPoint (T.node_ancestorAt hc.node slot) hc.chainOf hc.forkingPoint
  rw [hc.slot_ancestorAt h] at hle
  rw [T.ancestorAt_ancestorAt hc.node hle] at hanc
  exact ⟨hnode, hchain, hroot, hle, hanc⟩

theorem chainOf_of_le (hfrom : p.slot f ≤ slot')
    (hto : slot' ≤ slot) : s.chainOf (T.ancestorAt c slot') = some x := by
  have hpath := h.chainOf_ancestorAt (T.node_ancestorAt hc.node slot) hc.chainOf hc.forkingPoint
    hfrom (hto.trans_eq (hc.slot_ancestorAt h).symm)
  rwa [T.ancestorAt_ancestorAt hc.node hto] at hpath

theorem eq_ancestorAt {d : ID} (hd : T.Node d)
    (hdx : s.chainOf d = some x) (hfrom : p.slot f ≤ p.slot d) (hto : p.slot d ≤ slot) :
    d = T.ancestorAt c (p.slot d) := by
  have hroot := T.level_root_le hd
  rw [h.level_eq, h.level_eq] at hroot
  have hslot : p.slot (T.ancestorAt c (p.slot d)) = p.slot d := by
    rw [← h.level_eq]
    apply T.level_ancestorAt hc.node
    · rwa [h.level_eq]
    · rw [h.level_eq]
      exact hto.trans hc.slot_le
  exact h.eq_of_chainOf hd (T.node_ancestorAt hc.node _) hdx (hc.chainOf_of_le h hfrom hto)
    hslot.symm

theorem commitmentAt {n : Nat} (hfrom : p.slot T.root ≤ slot')
    (hto : slot' ≤ slot) (hn : p.slot c - p.slot T.root < n) :
    s.commitmentAt p n (some x) slot' = some (some (T.ancestorAt c slot')) := by
  have hslot := hc.slot_ancestorAt h
  have hle := hc.slot_le
  rw [h.commitmentAt_eq (T.node_ancestorAt hc.node slot) hc.chainOf hfrom (by omega) (by omega),
    T.ancestorAt_ancestorAt hc.node hto]

/-- The walk goes on with the parent of the forking point. -/
theorem up (hf : f ≠ T.root) :
    ∃ x' f', (s.chains x).parentChain = some x' ∧ OnChain p T s c (p.slot f - 1) x' f' ∧
      T.ancestorAt c (p.slot f - 1) = T.parent f ∧ T.Node (T.parent f) ∧
      s.chainOf (T.parent f) = some x' ∧ p.slot f = p.slot (T.parent f) + 1 := by
  obtain ⟨hnode, _, _, hle, hanc⟩ := hc.forkingPoint_spec h
  have hlevel := T.level_parent hnode hf
  have hparent := T.node_parent hnode hf
  have hroot := T.level_root_le hparent
  rw [h.level_eq, h.level_eq] at hlevel
  rw [h.level_eq, h.level_eq] at hroot
  obtain ⟨x', f', hx', hf', _⟩ := h.forkingPoint hparent
  have hanc' : T.ancestorAt c (p.slot f - 1) = T.parent f := by
    rw [← T.ancestorAt_ancestorAt hc.node (Nat.sub_le (p.slot f) 1), hanc,
      T.ancestorAt_parent hnode hf (by rw [h.level_eq]; omega)]
    apply T.ancestorAt_of_level_le
    rw [h.level_eq]
    omega
  refine ⟨x', f', ?_, ?_, hanc', hparent, hx', hlevel⟩
  · rw [h.parentChain f x hnode hf hc.forkingPoint, hx']
  · refine ⟨hc.node, by omega, (by have := hc.slot_le; omega), ?_, hf'⟩
    rw [hanc', hx']

end

end OnChain

/-! ## Section 2: The loop -/

/-- What holds in every round: the chains are different, and each side still has an ancestor
    in the slot of the other side's forking point.  For the smaller side that may fail by one
    slot, if it was the one to go up although both forking points were in the same slot. -/
structure Walk (p : Params ID) (T : LevelTree ID) (s : State ID) (c d : ID)
    (larger smaller : ChainID) (fl fs : ID) (slotL slotS : Nat) : Prop where
  onLarger : OnChain p T s d slotL larger fl
  onSmaller : OnChain p T s c slotS smaller fs
  ne : larger ≠ smaller
  slot_smaller : p.slot fs ≤ slotL
  slot_larger : p.slot fl ≤ slotS ∨
    p.slot fl = slotS + 1 ∧ fl ≠ T.root ∧ T.parent fl ≠ T.ancestorAt c slotS

section Walk

variable {c d fl fs : ID} {larger smaller : ChainID} {slotL slotS : Nat}

section

variable (h : Decomposes p T s)
include h

theorem Walk.fl_ne_fs (w : Walk p T s c d larger smaller fl fs slotL slotS) : fl ≠ fs := by
  intro heq
  obtain ⟨_, hl, _⟩ := w.onLarger.forkingPoint_spec h
  obtain ⟨_, hs, _⟩ := w.onSmaller.forkingPoint_spec h
  rw [heq, hs] at hl
  exact w.ne (some.inj hl).symm

theorem ne_root_of_slot_le {c d : ID} (hc : T.Node c) (hne : c ≠ d) (hle : p.slot c ≤ p.slot d) :
    d ≠ T.root := by
  intro hroot
  by_cases hc' : c = T.root
  · exact hne (hc'.trans hroot.symm)
  · have hlevel := T.level_parent hc hc'
    have hle' := T.level_root_le (T.node_parent hc hc')
    rw [h.level_eq, h.level_eq] at hlevel
    rw [h.level_eq, h.level_eq] at hle'
    rw [hroot] at hle
    omega

theorem Walk.precedes_of_parent (w : Walk p T s c d larger smaller fl fs slotL slotS)
    (hslot : p.slot fl = p.slot fs) (hparent : s.parentOf fl = s.parentOf fs) :
    T.Precedes c d ↔ fs < fl := by
  obtain ⟨hlnode, _, _, _, hlanc⟩ := w.onLarger.forkingPoint_spec h
  obtain ⟨hsnode, _, _, hsle, hsanc⟩ := w.onSmaller.forkingPoint_spec h
  have hne := w.fl_ne_fs h
  have hl := ne_root_of_slot_le h hsnode hne.symm hslot.ge
  have hs := ne_root_of_slot_le h hlnode hne hslot.le
  rw [h.parentOf fl hlnode hl, h.parentOf fs hsnode hs, some.injEq] at hparent
  obtain ⟨_, _, _, _, hlup, _, _, hlevel⟩ := w.onLarger.up h hl
  obtain ⟨_, _, _, _, hsup, _⟩ := w.onSmaller.up h hs
  have hpos : p.slot fs - 1 + 1 = p.slot fs := by omega
  have hcs := w.onSmaller.slot_le
  have hsame : T.ancestorAt c (p.slot fs - 1) = T.ancestorAt d (p.slot fs - 1) := by
    rw [hsup, ← hslot, hlup, hparent]
  rw [hslot] at hlanc
  have hiff := T.precedes_iff w.onSmaller.node w.onLarger.node
    (show p.slot fs - 1 < T.level c by rw [h.level_eq]; omega) hsame
  rw [hpos, hsanc, hlanc] at hiff
  exact hiff hne.symm

/-- The parent chain of the larger side is the smaller side. -/
theorem Walk.precedes_of_larger_up (w : Walk p T s c d larger smaller fl fs slotL slotS)
    (hslot : p.slot fs < p.slot fl) (hl : fl ≠ T.root)
    (hup : s.chainOf (T.parent fl) = some smaller) :
    p.slot fl ≤ slotS ∧ (T.Precedes c d ↔ T.ancestorAt c (p.slot fl) < fl) := by
  obtain ⟨hlnode, hlchain, hlroot, _, hlanc⟩ := w.onLarger.forkingPoint_spec h
  obtain ⟨_, _, _, _, hlup, hparent, _, hlevel⟩ := w.onLarger.up h hl
  have hcs := w.onSmaller.slot_le
  have hle : p.slot fl ≤ slotS := by
    rcases w.slot_larger with hle | ⟨heq, _, hne⟩
    · exact hle
    · -- the parent of the forking point would be the ancestor of the smaller side
      have := w.onSmaller.eq_ancestorAt h hparent hup (by omega) (by omega)
      rw [show p.slot (T.parent fl) = slotS by omega] at this
      exact absurd this hne
  have hsame : T.ancestorAt c (p.slot fl - 1) = T.ancestorAt d (p.slot fl - 1) := by
    have := w.onSmaller.eq_ancestorAt h hparent hup (by omega) (by omega)
    rw [hlup, this]
    congr 1
    omega
  have hdiffer : T.ancestorAt c (p.slot fl) ≠ fl := by
    intro heq
    have hchain := w.onSmaller.chainOf_of_le h hslot.le hle
    rw [heq, hlchain] at hchain
    exact w.ne (some.inj hchain)
  have hiff := T.precedes_iff w.onSmaller.node w.onLarger.node
    (show p.slot fl - 1 < T.level c by rw [h.level_eq]; omega) hsame
  rw [show p.slot fl - 1 + 1 = p.slot fl by omega, hlanc] at hiff
  exact ⟨hle, hiff hdiffer⟩

/-- The parent chain of the smaller side is the larger side. -/
theorem Walk.precedes_of_smaller_up (w : Walk p T s c d larger smaller fl fs slotL slotS)
    (hs : fs ≠ T.root) (hup : s.chainOf (T.parent fs) = some larger) :
    T.Precedes c d ↔ fs < T.ancestorAt d (p.slot fs) := by
  obtain ⟨hsnode, hschain, _, hsle, hsanc⟩ := w.onSmaller.forkingPoint_spec h
  obtain ⟨_, _, _, _, hsup, hparent, _, hlevel⟩ := w.onSmaller.up h hs
  have hcs := w.onSmaller.slot_le
  have hslotL := w.slot_smaller
  -- the chain of the larger side begins before it has the parent
  have hfork : p.slot fl ≤ p.slot (T.parent fs) :=
    (h.chainOf_forkingPoint hparent hup w.onLarger.forkingPoint).2.2.2.1
  have hsame : T.ancestorAt c (p.slot fs - 1) = T.ancestorAt d (p.slot fs - 1) := by
    have := w.onLarger.eq_ancestorAt h hparent hup hfork (by omega)
    rw [hsup, this]
    congr 1
    omega
  have hdiffer : fs ≠ T.ancestorAt d (p.slot fs) := by
    intro heq
    have hchain := w.onLarger.chainOf_of_le h (by omega) hslotL
    rw [← heq, hschain] at hchain
    exact w.ne (some.inj hchain).symm
  have hiff := T.precedes_iff w.onSmaller.node w.onLarger.node
    (show p.slot fs - 1 < T.level c by rw [h.level_eq]; omega) hsame
  rw [show p.slot fs - 1 + 1 = p.slot fs by omega, hsanc] at hiff
  exact hiff hdiffer

end

end Walk

/-- The loop compares the commitments where their paths part. -/
theorem Decomposes.lessLoop_spec (h : Decomposes p T s) {c d : ID} :
    ∀ (n : Nat) (larger smaller : ChainID) (fl fs : ID) (slotL slotS : Nat),
      Walk p T s c d larger smaller fl fs slotL slotS →
      p.slot fl + p.slot fs + p.slot c + p.slot d < n →
      ∃ b, s.lessLoop p n (some larger) (some smaller) = some b ∧
        (b = true ↔ T.Precedes c d) := by
  intro n
  induction n with
  | zero => intro _ _ _ _ _ _ _ hn; omega
  | succ n ih =>
    intro larger smaller fl fs slotL slotS w hn
    obtain ⟨hlnode, _, hlroot, hlle, _⟩ := w.onLarger.forkingPoint_spec h
    obtain ⟨hsnode, _, hsroot, hsle, _⟩ := w.onSmaller.forkingPoint_spec h
    have hne := w.fl_ne_fs h
    unfold State.lessLoop
    dsimp only
    rw [w.onLarger.forkingPoint, w.onSmaller.forkingPoint]
    dsimp only
    by_cases hmeet : p.slot fl = p.slot fs ∧ s.parentOf fl = s.parentOf fs
    · rw [if_pos hmeet]
      refine ⟨_, rfl, ?_⟩
      rw [decide_eq_true_iff]
      exact (w.precedes_of_parent h hmeet.1 hmeet.2).symm
    · rw [if_neg hmeet]
      by_cases hslot : p.slot fl > p.slot fs
      · -- the larger side goes up
        have hl := ne_root_of_slot_le h hsnode hne.symm hslot.le
        obtain ⟨x, f, hx, hup, _, _, hchain, hlevel⟩ := w.onLarger.up h hl
        rw [if_pos hslot, hx]
        by_cases hsame : x = smaller
        · subst hsame
          obtain ⟨hle, hiff⟩ := w.precedes_of_larger_up h hslot hl hchain
          rw [if_pos rfl, w.onSmaller.commitmentAt h hlroot hle (by omega)]
          refine ⟨_, rfl, ?_⟩
          rw [decide_eq_true_iff]
          exact hiff.symm
        · rw [if_neg (fun heq => hsame (some.inj heq))]
          obtain ⟨_, _, _, hfle, _⟩ := hup.forkingPoint_spec h
          apply ih x smaller f fs (p.slot fl - 1) slotS ?_ (by omega)
          refine ⟨hup, w.onSmaller, hsame, by omega, .inl ?_⟩
          rcases w.slot_larger with hle | ⟨heq, _⟩ <;> omega
      · -- the smaller side goes up
        have hs := ne_root_of_slot_le h hlnode hne (Nat.not_lt.mp hslot)
        obtain ⟨x, f, hx, hup, hanc, _, hchain, hlevel⟩ := w.onSmaller.up h hs
        rw [if_neg hslot, hx]
        by_cases hsame : x = larger
        · subst hsame
          have hiff := w.precedes_of_smaller_up h hs hchain
          rw [if_pos rfl, w.onLarger.commitmentAt h hsroot w.slot_smaller (by omega)]
          refine ⟨_, rfl, ?_⟩
          rw [decide_eq_true_iff]
          exact hiff.symm
        · rw [if_neg (fun heq => hsame (some.inj heq))]
          obtain ⟨_, _, _, hfle, _⟩ := hup.forkingPoint_spec h
          have hslotL := w.slot_smaller
          apply ih larger x fl f slotL (p.slot fs - 1) ?_ (by omega)
          refine ⟨w.onLarger, hup, fun heq => hsame heq.symm, by omega, ?_⟩
          rcases Nat.lt_or_ge (p.slot fl) (p.slot fs) with hlt | hge
          · exact .inl (by omega)
          · -- both forking points are in one slot, so their parents are different
            have heq : p.slot fl = p.slot fs := by omega
            have hl := ne_root_of_slot_le h hsnode hne.symm heq.ge
            refine .inr ⟨by omega, hl, ?_⟩
            intro hparent
            rw [hanc] at hparent
            apply hmeet
            rw [h.parentOf fl hlnode hl, h.parentOf fs hsnode hs, hparent]
            exact ⟨heq, rfl⟩

/-! ## Section 3: Two commitments of a slot -/

/-- `Less` returns, and tells which of two commitments of the same slot has the smaller ID at the
    first slot where their paths from the root differ. -/
theorem Decomposes.less_spec (h : Decomposes p T s) {c d : ID} (hc : T.Node c) (hd : T.Node d)
    (hslot : p.slot c = p.slot d) :
    ∃ bound, ∀ n, bound < n → ∃ b, s.less p n (some c) (some d) = some b ∧
      (b = true ↔ T.Precedes c d) := by
  obtain ⟨x, fs, hx, hfs, hsroot, hsle, _⟩ := h.forkingPoint hc
  obtain ⟨y, fl, hy, hfl, hlroot, hlle, _⟩ := h.forkingPoint hd
  refine ⟨p.slot fl + p.slot fs + p.slot c + p.slot d, fun n hn => ?_⟩
  unfold State.less
  by_cases heq : c = d
  · subst heq
    refine ⟨false, if_pos rfl, ?_⟩
    simp [T.precedes_irrefl]
  · rw [if_neg (fun h => heq (some.inj h))]
    dsimp only
    have hchain : s.chainOf d ≠ s.chainOf c := by
      rw [hx, hy]
      intro hsame
      exact heq (h.eq_of_chainOf hc hd hx (hy.trans hsame) hslot)
    rw [if_neg hchain, hx, hy]
    have hself : ∀ c, p.slot c ≤ p.slot c → T.ancestorAt c (p.slot c) = c :=
      fun c hle => T.ancestorAt_of_level_le ((h.level_eq c).trans_le hle)
    apply h.lessLoop_spec n y x fl fs (p.slot d) (p.slot c) _ hn
    refine ⟨⟨hd, by omega, le_rfl, ?_, hfl⟩, ⟨hc, by omega, le_rfl, ?_, hfs⟩, ?_, by omega,
      .inl (by omega)⟩
    · rw [hself d le_rfl, hy]
    · rw [hself c le_rfl, hx]
    · intro hsame
      rw [hx, hy, hsame] at hchain
      exact hchain rfl

end AxonCore.Chains
