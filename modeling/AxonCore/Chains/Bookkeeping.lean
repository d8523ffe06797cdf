import Mathlib.Data.List.Nodup
import Mathlib.Data.List.Pairwise
import AxonCore.Chains.Decomposition
import AxonCore.Chains.Relabel

/-! # The bookkeeping of the chains

    * `Shape`: the commitments with a parent form trees, and the callbacks follow their edges.
    * `Labels`: the chains of the commitments, and what the chains know about them.
    * `InPlace`, `Latest`: what a commitment and a chain have once all callbacks have run.
    * `shape_moved`, `labels_moved`: a line of main children moves to another chain. -/

namespace AxonCore.Chains

open Lib List Option State

variable {ID : Type} [LinearOrder ID]

/-! ## Section 1: The invariants -/

section

variable (p : Params ID)

/-- The commitments above the root continue the slot of the commitment before. -/
def Params.Consecutive : Prop :=
  ∀ c, p.slot p.root < p.slot c → p.slot c = p.slot (p.previousCommitmentID c) + 1

/-- The trees of the commitments with a parent.  A commitment may be pending: it has a parent,
    but it is not registered there. -/
structure Shape (bound : Nat) (s : State ID) (pending : Option ID) : Prop where
  root : s.published p.root = true
  parent : ∀ c q, s.parentOf c = some q → s.published c = true ∧ s.published q = true ∧
    q = p.previousCommitmentID c ∧ p.slot p.root < p.slot c ∧ p.slot c = p.slot q + 1 ∧
      p.slot c ≤ bound
  children : ∀ c q, c ∈ (s.commitments q).children ↔ s.parentOf c = some q ∧ pending ≠ some c
  nodup : ∀ q, (s.commitments q).children.Nodup
  onMainChild : ∀ q, (s.commitments q).onMainChild = (s.commitments q).children
  main : ∀ q m, (s.commitments q).mainChild = some m → s.parentOf m = some q
  main_none : ∀ q, (s.commitments q).mainChild = none → (s.commitments q).children = []
  unpublished : ∀ c, s.published c = false → s.commitments c = Commitment.new []
  addCommitment : ∀ c, s.published c = true → pending ≠ some c →
    ∃ rest, (s.commitments c).onChain = .addCommitment :: rest ∧ .addCommitment ∉ rest
  derive : ∀ c q, .deriveChain c ∈ (s.commitments q).onChain ↔ c ∈ (s.commitments q).children
  inherit : ∀ x q, .inheritParentChain x ∈ (s.commitments q).onChain ↔
    ∃ f, (s.chains x).forkingPoint = some f ∧ s.parentOf f = some q
  forkingPoint : ∀ x f, (s.chains x).forkingPoint = some f → f = p.root ∨ s.parentOf f ≠ none
  fresh : ∀ x, s.chainCount ≤ x → (s.chains x).forkingPoint = none

/-- The chains of the commitments.  A commitment that has a chain is on the chain of its parent
    or begins its own; the chains have their commitments by slot. -/
structure Labels (s : State ID) : Prop where
  root : ∃ x, s.chainOf p.root = some x ∧ (s.chains x).forkingPoint = some p.root
  top : ∀ c, s.parentOf c = none → c ≠ p.root → s.chainOf c = none
  link : ∀ c q x, s.parentOf c = some q → s.chainOf c = some x →
    s.chainOf q = some x ∨ (s.chains x).forkingPoint = some c
  parentChain : ∀ x f q, (s.chains x).forkingPoint = some f → s.parentOf f = some q →
    (s.chains x).parentChain = s.chainOf q
  slots : ∀ x k c, (s.chains x).commitments k = some c ↔ s.chainOf c = some x ∧ p.slot c = k

/-- A child is on its parent's chain if it is the main child and begins a chain otherwise. -/
def InPlace (s : State ID) (c q : ID) : Prop :=
  if (s.commitments q).mainChild = some c then s.chainOf c = s.chainOf q
  else ∃ x, s.chainOf c = some x ∧ (s.chains x).forkingPoint = some c

/-- A chain knows the latest of its commitments. -/
def Latest (s : State ID) (x : ChainID) : Prop :=
  ∀ c, s.chainOf c = some x → ∃ d, (s.chains x).latestCommitment = some d ∧
    s.chainOf d = some x ∧ ∀ c, s.chainOf c = some x → p.slot c ≤ p.slot d

/-- All callbacks have run. -/
structure Stable (bound : Nat) (s : State ID) : Prop where
  shape : Shape p bound s none
  labels : Labels p s
  inPlace : ∀ c q, s.parentOf c = some q → InPlace s c q
  latest : ∀ x, Latest p s x

end

variable {p : Params ID} {s t : State ID}

omit [LinearOrder ID] in
theorem Labels.congr (hchain : ∀ c, t.chainOf c = s.chainOf c)
    (hparent : ∀ c, t.parentOf c = s.parentOf c) (hchains : t.chains = s.chains) (h : Labels p s) :
    Labels p t := by
  constructor <;> simp only [hchain, hparent, hchains]
  · exact h.root
  · exact h.top
  · exact h.link
  · exact h.parentChain
  · exact h.slots

omit [LinearOrder ID] in
theorem Shape.congr {bound : Nat} {pending : Option ID} (h : Shape p bound s pending)
    (hparent : ∀ c, t.parentOf c = s.parentOf c)
    (hchildren : ∀ q, (t.commitments q).children = (s.commitments q).children ∧
      (t.commitments q).onMainChild = (s.commitments q).onMainChild)
    (hmain : ∀ q, (t.commitments q).mainChild = (s.commitments q).mainChild ∨
      ∃ m, (t.commitments q).mainChild = some m ∧ s.parentOf m = some q)
    (hpublished : ∀ c, s.published c = true → t.published c = true)
    (hunpublished : ∀ c, t.published c = false → t.commitments c = Commitment.new [])
    (hadd : ∀ c, t.published c = true → pending ≠ some c →
      ∃ rest, (t.commitments c).onChain = .addCommitment :: rest ∧ .addCommitment ∉ rest)
    (hcallbacks : ∀ callback ≠ .addCommitment, ∀ q,
      callback ∈ (t.commitments q).onChain ↔ callback ∈ (s.commitments q).onChain)
    (hforkingPoint : ∀ x, (t.chains x).forkingPoint = (s.chains x).forkingPoint)
    (hcount : t.chainCount = s.chainCount) : Shape p bound t pending where
  root := hpublished _ h.root
  parent c q hq := by
    rw [hparent] at hq
    obtain ⟨hc, hq, hrest⟩ := h.parent c q hq
    exact ⟨hpublished c hc, hpublished q hq, hrest⟩
  children c q := by
    rw [(hchildren q).1, hparent]
    exact h.children c q
  nodup q := (hchildren q).1 ▸ h.nodup q
  onMainChild q := by
    rw [(hchildren q).1, (hchildren q).2, h.onMainChild]
  main q m hm := by
    rw [hparent]
    rcases hmain q with heq | ⟨m', hm', hq⟩
    · exact h.main q m (heq ▸ hm)
    · exact some.inj (hm'.symm.trans hm) ▸ hq
  main_none q hm := by
    rw [(hchildren q).1]
    rcases hmain q with heq | ⟨m, hm', _⟩
    · exact h.main_none q (heq ▸ hm)
    · cases hm.symm.trans hm'
  unpublished := hunpublished
  addCommitment := hadd
  derive c q := by
    rw [hcallbacks (.deriveChain c) (by simp), (hchildren q).1]
    exact h.derive c q
  inherit x q := by
    rw [hcallbacks (.inheritParentChain x) (by simp), hforkingPoint]
    simp only [hparent]
    exact h.inherit x q
  forkingPoint x f hf := by
    rw [hforkingPoint] at hf
    rw [hparent]
    exact h.forkingPoint x f hf
  fresh x hx := by
    rw [hforkingPoint]
    exact h.fresh x (hcount ▸ hx)

theorem InPlace.congr {c q : ID} (hchain : ∀ c, t.chainOf c = s.chainOf c)
    (hchains : t.chains = s.chains)
    (hmain : (t.commitments q).mainChild = some c ↔ (s.commitments q).mainChild = some c)
    (h : InPlace s c q) : InPlace t c q := by
  unfold InPlace at h ⊢
  rw [hchain, hchain, hchains]
  simp only [hmain]
  exact h

omit [LinearOrder ID] in
theorem Latest.congr {x : ChainID} (hchain : ∀ c, t.chainOf c = s.chainOf c)
    (hchains : t.chains = s.chains) (h : Latest p s x) : Latest p t x := by
  unfold Latest
  simp only [hchain, hchains]
  exact h

/-- An operation that changes no parents. -/
structure SameTree (s t : State ID) : Prop where
  published : t.published = s.published
  waiting : t.waiting = s.waiting
  parentOf : ∀ c, t.parentOf c = s.parentOf c

omit [LinearOrder ID] in
theorem SameTree.trans {u : State ID} (h : SameTree s t) (h' : SameTree t u) : SameTree s u where
  published := h'.published.trans h.published
  waiting := h'.waiting.trans h.waiting
  parentOf := fun c => (h'.parentOf c).trans (h.parentOf c)

section Facts

variable {p : Params ID} {bound : Nat} {s : State ID} {pending : Option ID}
  {c d q m : ID} {x : ChainID} {l : List ID}

/-! ## Section 2: Chains -/

omit [LinearOrder ID] in
theorem Labels.eq_of_chainOf (h : Labels p s) (hc : s.chainOf c = some x)
    (hd : s.chainOf d = some x) (hslot : p.slot c = p.slot d) : c = d := by
  have hc' := (h.slots x (p.slot c) c).mpr ⟨hc, rfl⟩
  have hd' := (h.slots x (p.slot c) d).mpr ⟨hd, hslot.symm⟩
  exact some.inj (hc'.symm.trans hd')

omit [LinearOrder ID] in
theorem Shape.slot_eq (h : Shape p bound s pending) (hc : s.parentOf c = some q) :
    p.slot c = p.slot q + 1 := (h.parent c q hc).2.2.2.2.1

section

variable (hshape : Shape p bound s pending)
include hshape

theorem Shape.unpublished_modify (hq : s.published q = true) (f : Commitment ID → Commitment ID)
    (d : ID) (hd : s.published d = false) : (s.modify q f).commitments d = Commitment.new [] := by
  have hne : d ≠ q := by
    rintro rfl
    rw [hq] at hd
    cases hd
  exact (Function.update_of_ne hne ..).trans (hshape.unpublished d hd)

variable (h : Labels p s)
include h

section

omit [LinearOrder ID]

theorem Labels.cases (hc : s.chainOf c = some x) :
    (s.chains x).forkingPoint = some c ∨
      ∃ q, s.parentOf c = some q ∧ p.slot c = p.slot q + 1 ∧ s.chainOf q = some x := by
  rcases hq : s.parentOf c with _ | q
  · by_cases hroot : c = p.root
    · subst hroot
      obtain ⟨y, hy, hf⟩ := h.root
      obtain rfl : x = y := some.inj (hc.symm.trans hy)
      exact .inl hf
    · rw [h.top c hq hroot] at hc
      cases hc
  · rcases h.link c q x hq hc with hsame | hfork
    · exact .inr ⟨q, rfl, hshape.slot_eq hq, hsame⟩
    · exact .inl hfork

theorem Labels.forkingPoint (hc : s.chainOf c = some x) :
    ∃ f, (s.chains x).forkingPoint = some f ∧ p.slot f ≤ p.slot c := by
  -- induction on the slot, along the parents
  induction hk : p.slot c using Nat.strong_induction_on generalizing c with
  | _ k ih =>
    rcases h.cases hshape hc with hfork | ⟨q, _, hslot, hq⟩
    · exact ⟨c, hfork, hk.le⟩
    · obtain ⟨f, hf, hle⟩ := ih (p.slot q) (by omega) hq rfl
      exact ⟨f, hf, by omega⟩

theorem Labels.lt_chainCount (hc : s.chainOf c = some x) : x < s.chainCount := by
  obtain ⟨f, hf, _⟩ := h.forkingPoint hshape hc
  by_contra! hle
  rw [hshape.fresh x hle] at hf
  cases hf

theorem Labels.slot_le_of_no_child (hq : s.chainOf q = some x)
    (hno : ∀ c, s.parentOf c = some q → s.chainOf c ≠ some x) (hd : s.chainOf d = some x) :
    p.slot d ≤ p.slot q := by
  by_contra! hlt
  induction hk : p.slot d using Nat.strong_induction_on generalizing d with
  | _ k ih =>
    obtain ⟨f, hf, hle⟩ := h.forkingPoint hshape hq
    rcases h.cases hshape hd with hfork | ⟨r, hr, hslot, hsame⟩
    · rw [hf, some.injEq] at hfork
      subst hfork
      omega
    · -- the parent is on the chain: it is the commitment, or the argument repeats
      by_cases heq : p.slot r = p.slot q
      · have : r = q := h.eq_of_chainOf hsame hq heq
        exact hno d (this ▸ hr) hd
      · exact ih (p.slot r) (by omega) hsame (by omega) rfl

end

theorem InPlace.settled (hc : s.parentOf c = some q) (hplace : InPlace s c q) : s.Settled c q := by
  unfold InPlace at hplace
  unfold State.Settled
  split_ifs at hplace ⊢
  · exact hplace
  · obtain ⟨x, hx, hfork⟩ := hplace
    refine ⟨x, hx, fun hq => ?_⟩
    obtain ⟨f, hf, hle⟩ := h.forkingPoint hshape hq
    rw [hfork, some.injEq] at hf
    subst hf
    have := hshape.slot_eq hc
    omega

end

/-! ## Section 3: Lines -/

section

omit [LinearOrder ID]

theorem line_cases (h : s.IsLine c l) (hd : d ∈ l) :
    d = c ∨ ∃ r ∈ l, (s.commitments r).mainChild = some d := by
  induction h using State.IsLine.induction with
  | last c => exact .inl (mem_singleton.mp hd)
  | next c m l hm _ ih =>
    rcases mem_cons.mp hd with rfl | hd
    · exact .inl rfl
    · rcases ih hd with rfl | ⟨r, hr, hmain⟩
      · exact .inr ⟨c, mem_cons_self, hm⟩
      · exact .inr ⟨r, mem_cons_of_mem c hr, hmain⟩

theorem line_closed (h : s.IsLine c l) (hd : d ∈ l)
    (hm : (s.commitments d).mainChild = some m) : m ∈ l := by
  induction h using State.IsLine.induction with
  | last c hnone =>
    rw [mem_singleton.mp hd, hnone] at hm
    cases hm
  | next c m' l hm' hl ih =>
    rcases mem_cons.mp hd with rfl | hd
    · obtain rfl := some.inj (hm'.symm.trans hm)
      exact mem_cons_of_mem d hl.head_mem
    · exact mem_cons_of_mem c (ih hd)

theorem line_slots (hshape : Shape p bound s pending) (hline : s.IsLine c l) :
    (∀ d ∈ l, p.slot c ≤ p.slot d) ∧ l.Pairwise fun c d => p.slot c < p.slot d := by
  induction hline using State.IsLine.induction with
  | last c => simp
  | next c m l hm _ ih =>
    obtain ⟨hle, hpair⟩ := ih
    have hslot := hshape.slot_eq (hshape.main c m hm)
    have hlt : ∀ d ∈ l, p.slot c < p.slot d := fun d hd => by
      have := hle d hd
      omega
    refine ⟨?_, pairwise_cons.mpr ⟨hlt, hpair⟩⟩
    intro d hd
    rcases mem_cons.mp hd with rfl | hd
    · exact Nat.le_refl _
    · exact Nat.le_of_lt (hlt d hd)

theorem exists_line (hshape : Shape p bound s pending) (hc : s.parentOf c = some q) :
    ∃ l, s.IsLine c l ∧ l.length ≤ bound := by
  suffices H : ∃ l, s.IsLine c l ∧ l.length + p.slot c ≤ bound + 1 by
    obtain ⟨l, hl, hle⟩ := H
    have := hshape.slot_eq hc
    exact ⟨l, hl, by omega⟩
  induction hk : bound - p.slot c using Nat.strong_induction_on generalizing c q with
  | _ k ih =>
    have hslot := (hshape.parent c q hc).2.2.2.2
    cases hm : (s.commitments c).mainChild with
    | none =>
      refine ⟨[c], ⟨rfl, ?_⟩, ?_⟩
      · rw [hm]
      · simp
        omega
    | some m =>
      have hparent := hshape.main c m hm
      have hslot' := (hshape.parent m c hparent).2.2.2.2
      obtain ⟨l, hl, hle⟩ := ih (bound - p.slot m) (by omega) hparent rfl
      refine ⟨c :: l, ⟨rfl, ?_⟩, ?_⟩
      · rw [hm]
        exact hl
      · rw [length_cons]
        omega

end

theorem line_chainOf (hline : s.IsLine c l) (hshape : Shape p bound s pending)
    (hplace : ∀ d r, s.parentOf d = some r → r ∈ l → InPlace s d r) (hd : d ∈ l) :
    s.chainOf d = s.chainOf c := by
  induction hk : p.slot d using Nat.strong_induction_on generalizing d with
  | _ k ih =>
    rcases line_cases hline hd with rfl | ⟨r, hr, hmain⟩
    · rfl
    · have hparent := hshape.main r d hmain
      have hslot := hshape.slot_eq hparent
      have hin := hplace d r hparent hr
      unfold InPlace at hin
      rw [if_pos hmain] at hin
      rw [hin]
      exact ih (p.slot r) (by omega) hr rfl

end Facts

/-! ## Section 4: A line moves -/

/-- The line of `c` may move to `new`: a new chain that begins with it, or the chain of the parent
    if no other child is on that. -/
def Target (s : State ID) (c q : ID) (new : ChainID) : Prop :=
  (s.chains new).forkingPoint = some c ∧ (∀ d, s.chainOf d ≠ some new) ∨
    s.chainOf q = some new ∧ ∀ d, s.parentOf d = some q → s.chainOf d ≠ some new

/-- A line that may move. -/
structure Move (p : Params ID) (bound : Nat) (s : State ID) (pending : Option ID) (c q : ID)
    (l : List ID) (new : ChainID) : Prop where
  shape : Shape p bound s pending
  labels : Labels p s
  parent : s.parentOf c = some q
  line : s.IsLine c l
  registered : ∀ d ∈ l, pending ≠ some d
  inPlace : ∀ d r, s.parentOf d = some r → r ∈ l → InPlace s d r
  target : Target s c q new

/-- The children of the parent may be out of place, and one of them may be pending. -/
theorem exists_move {bound : Nat} {pending : Option ID} {c q : ID} {new : ChainID}
    (hshape : Shape p bound s pending) (hlabels : Labels p s) (hc : s.parentOf c = some q)
    (hpending : ∀ d, pending = some d → s.parentOf d = some q ∧ d ≠ c)
    (hplace : ∀ d r, s.parentOf d = some r → r ≠ q → InPlace s d r)
    (htarget : Target s c q new) :
    ∃ l, Move p bound s pending c q l new ∧ l.length ≤ bound := by
  obtain ⟨l, hline, hlen⟩ := exists_line hshape hc
  have hq : q ∉ l := by
    intro hmem
    have hle := (line_slots hshape hline).1 q hmem
    have hslot := hshape.slot_eq hc
    omega
  refine ⟨l, ⟨hshape, hlabels, hc, hline, ?_, ?_, htarget⟩, hlen⟩
  · intro d hd heq
    obtain ⟨hparent, hne⟩ := hpending d heq
    rcases line_cases hline hd with rfl | ⟨r, hr, hmain⟩
    · exact hne rfl
    · have hr' := hshape.main r d hmain
      rw [hparent, some.injEq] at hr'
      exact hq (hr' ▸ hr)
  · intro d r hd hr
    exact hplace d r hd fun heq => hq (heq ▸ hr)

/-- The state after the move. -/
def moved (p : Params ID) (s : State ID) (l : List ID) (new : ChainID) : State ID :=
  (s.relabel p new l).inherit new (s.inheriting l)

section Moved

variable {p : Params ID} {s : State ID} {l : List ID} {new : ChainID}

theorem sameTree_moved : SameTree s (moved p s l new) where
  published := (frame_relabel l s).1
  waiting := (frame_relabel l s).2.1
  parentOf := fun d => by
    show ((s.relabel p new l).commitments d).parent = (s.commitments d).parent
    rw [commitments_relabel]
    split_ifs <;> rfl

theorem commitments_moved (d : ID) : (moved p s l new).commitments d =
    if d ∈ l then { s.commitments d with chain := some new } else s.commitments d :=
  commitments_relabel l s d

theorem chainOf_moved (d : ID) :
    (moved p s l new).chainOf d = if d ∈ l then some new else s.chainOf d := by
  unfold chainOf
  rw [commitments_moved]
  split_ifs <;> rfl

@[simp] theorem parentOf_moved (d : ID) : (moved p s l new).parentOf d = s.parentOf d :=
  sameTree_moved.parentOf d

@[simp] theorem mainChild_moved (d : ID) :
    ((moved p s l new).commitments d).mainChild = (s.commitments d).mainChild := by
  rw [commitments_moved]
  split_ifs <;> rfl

@[simp] theorem onChain_moved (d : ID) :
    ((moved p s l new).commitments d).onChain = (s.commitments d).onChain := by
  rw [commitments_moved]
  split_ifs <;> rfl

@[simp] theorem published_moved : (moved p s l new).published = s.published :=
  sameTree_moved.published

@[simp] theorem chainCount_moved : (moved p s l new).chainCount = s.chainCount :=
  (frame_relabel l s).2.2

theorem chains_moved (x : ChainID) : (moved p s l new).chains x =
    if x ∈ s.inheriting l then
      { (s.relabel p new l).chains x with parentChain := some new }
    else (s.relabel p new l).chains x := rfl

theorem slots_moved (x : ChainID) :
    ((moved p s l new).chains x).commitments = ((s.relabel p new l).chains x).commitments := by
  rw [chains_moved]
  split_ifs <;> rfl

end Moved

namespace Move

variable {p : Params ID} {bound : Nat} {s : State ID} {pending : Option ID} {c d q r : ID}
  {l : List ID} {new x : ChainID} (h : Move p bound s pending c q l new)

include h

theorem chainOf_mem (hd : d ∈ l) : s.chainOf d = s.chainOf c :=
  line_chainOf h.line h.shape h.inPlace hd

theorem chainOf_ne : s.chainOf c ≠ some new := by
  rcases h.target with ⟨_, hnone⟩ | ⟨_, hnone⟩
  · exact hnone c
  · exact hnone c h.parent

theorem movable : State.Movable p s (s.chainOf c) new l where
  chainOf := fun _ hd => h.chainOf_mem hd
  old_ne := h.chainOf_ne
  slots := (line_slots h.shape h.line).2

theorem slot_lt (hd : s.chainOf d = some new) : p.slot d < p.slot c := by
  rcases h.target with ⟨_, hnone⟩ | ⟨hq, hno⟩
  · exact absurd hd (hnone d)
  · have hle := h.labels.slot_le_of_no_child h.shape hq hno hd
    have hslot := h.shape.slot_eq h.parent
    omega

theorem slot_le (hd : d ∈ l) : p.slot c ≤ p.slot d := (line_slots h.shape h.line).1 d hd

theorem parent_mem (hd : d ∈ l) (hne : d ≠ c) (hr : s.parentOf d = some r) :
    r ∈ l ∧ (s.commitments r).mainChild = some d := by
  rcases line_cases h.line hd with heq | ⟨r', hr', hmain⟩
  · exact absurd heq hne
  · have hparent := h.shape.main r' d hmain
    rw [hr, some.injEq] at hparent
    exact hparent ▸ ⟨hr', hmain⟩

theorem parent_not_mem : q ∉ l := by
  intro hq
  have hle := h.slot_le hq
  have hslot := h.shape.slot_eq h.parent
  omega

theorem exists_parent (hd : d ∈ l) : ∃ r, s.parentOf d = some r := by
  rcases line_cases h.line hd with rfl | ⟨r, _, hmain⟩
  · exact ⟨q, h.parent⟩
  · exact ⟨r, h.shape.main r d hmain⟩

theorem fork_ne (hr : r ∈ l) (hd : s.parentOf d = some r)
    (hfork : (s.chains x).forkingPoint = some d) : x ≠ new := by
  rintro rfl
  have hslot := h.shape.slot_eq hd
  have hle := h.slot_le hr
  rcases h.target with ⟨hnew, _⟩ | ⟨hq, _⟩
  · rw [hfork, some.injEq] at hnew
    subst hnew
    omega
  · obtain ⟨f, hf, hfle⟩ := h.labels.forkingPoint h.shape hq
    rw [hfork, some.injEq] at hf
    subst hf
    have := h.shape.slot_eq h.parent
    omega

theorem nodup_slots : (l.map p.slot).Nodup :=
  h.movable.slots.map p.slot fun _ _ hlt => Nat.ne_of_lt hlt

theorem ready : s.Ready new l where
  nodup := h.nodup_slots.of_map p.slot
  chainOf_ne := fun d hd => by
    rw [h.chainOf_mem hd]
    exact h.chainOf_ne
  addCommitment := fun d hd => by
    obtain ⟨r, hr⟩ := h.exists_parent hd
    exact h.shape.addCommitment d (h.shape.parent d r hr).1 (h.registered d hd)
  main := fun d hd m hm => by
    rw [h.shape.derive, h.shape.children]
    exact ⟨h.shape.main d m hm, h.registered m (line_closed h.line hd hm)⟩
  fork := fun r hr d hd => by
    rw [h.shape.derive, h.shape.children] at hd
    have hin := h.inPlace d r hd.1 hr
    unfold InPlace at hin
    split_ifs at hin with hmain
    · exact .inl hmain
    · obtain ⟨x, hx, hfork⟩ := hin
      refine .inr ⟨fun hmem => hmain ?_, x, hx, h.fork_ne hr hd.1 hfork⟩
      have hne : d ≠ c := by
        rintro rfl
        rw [h.parent, some.injEq] at hd
        exact h.parent_not_mem (hd.1 ▸ hr)
      exact (h.parent_mem hmem hne hd.1).2

theorem setChain_eq {n : Nat} (hn : l.length < n) :
    s.setChain p n c (some new) = some (moved p s l new) :=
  State.setChain_eq h.line h.ready hn

theorem forkingPoint_moved (x : ChainID) :
    ((moved p s l new).chains x).forkingPoint = (s.chains x).forkingPoint := by
  rw [chains_moved]
  split_ifs
  · exact (forkingPoint_relabel h.movable x).1
  · exact (forkingPoint_relabel h.movable x).1

theorem shape_moved : Shape p bound (moved p s l new) pending := by
  refine h.shape.congr parentOf_moved (fun q => ?_) (fun q => .inl (mainChild_moved q))
    (fun c hc => by rwa [published_moved]) (fun d hd => ?_) ?_ (fun callback _ q => ?_)
    h.forkingPoint_moved chainCount_moved
  · rw [commitments_moved]
    split_ifs <;> exact ⟨rfl, rfl⟩
  · rw [published_moved] at hd
    have hnot : d ∉ l := by
      intro hmem
      obtain ⟨r, hr⟩ := h.exists_parent hmem
      rw [(h.shape.parent d r hr).1] at hd
      cases hd
    rw [commitments_moved, if_neg hnot]
    exact h.shape.unpublished d hd
  · simp only [published_moved, onChain_moved]
    exact h.shape.addCommitment
  · rw [onChain_moved]

theorem mem_inheriting : x ∈ s.inheriting l ↔
    ∃ r ∈ l, ∃ f, (s.chains x).forkingPoint = some f ∧ s.parentOf f = some r := by
  rw [State.mem_inheriting]
  simp only [h.shape.inherit]

theorem link_moved (hd : s.parentOf d = some r) (hx : (moved p s l new).chainOf d = some x) :
    (moved p s l new).chainOf r = some x ∨
      ((moved p s l new).chains x).forkingPoint = some d := by
  rw [h.forkingPoint_moved]
  rw [chainOf_moved] at hx ⊢
  split_ifs at hx with hmem
  · rw [some.injEq] at hx
    subst hx
    by_cases hc : d = c
    · subst hc
      rw [h.parent, some.injEq] at hd
      subst hd
      rw [if_neg h.parent_not_mem]
      rcases h.target with ⟨hfork, _⟩ | ⟨hq, _⟩
      · exact .inr hfork
      · exact .inl hq
    · rw [if_pos (h.parent_mem hmem hc hd).1]
      exact .inl rfl
  · by_cases hr : r ∈ l
    · -- the commitment is a fork beside the line
      have hin := h.inPlace d r hd hr
      unfold InPlace at hin
      split_ifs at hin with hmain
      · exact absurd (line_closed h.line hr hmain) hmem
      · obtain ⟨y, hy, hfork⟩ := hin
        rw [hx, some.injEq] at hy
        exact .inr (hy ▸ hfork)
    · rw [if_neg hr]
      exact h.labels.link d r x hd hx

theorem slots_moved_iff (x : ChainID) (k : Nat) (d : ID) :
    ((moved p s l new).chains x).commitments k = some d ↔
      (moved p s l new).chainOf d = some x ∧ p.slot d = k := by
  rw [slots_moved, chainOf_moved]
  by_cases hk : ∃ e ∈ l, p.slot e = k
  · obtain ⟨e, he, rfl⟩ := hk
    by_cases hx : x = new
    · -- in the new chain there is nothing else in the slot
      subst hx
      rw [slots_relabel_new h.movable e he, some.injEq]
      constructor
      · rintro rfl
        exact ⟨if_pos he, rfl⟩
      · rintro ⟨hd, hslot⟩
        split_ifs at hd with hmem
        · exact inj_on_of_nodup_map h.nodup_slots he hmem hslot.symm
        · have hlt := h.slot_lt hd
          have hle := h.slot_le he
          omega
    · have hout : ∀ {d}, (if d ∈ l then some new else s.chainOf d) = some x →
          d ∉ l ∧ s.chainOf d = some x := by
        intro d hd
        split_ifs at hd with hmem
        · exact absurd (some.inj hd).symm hx
        · exact ⟨hmem, hd⟩
      by_cases hold : s.chainOf c = some x
      · -- the old chain had the commitment of the line in the slot
        rw [slots_relabel_old h.movable hx hold e he]
        refine ⟨by simp, ?_⟩
        rintro ⟨hd, hslot⟩
        obtain ⟨hmem, hd⟩ := hout hd
        have := h.labels.eq_of_chainOf hd ((h.chainOf_mem he).trans hold) hslot
        exact absurd (this ▸ he) hmem
      · -- the line neither leaves nor enters the chain
        rw [h.movable.chains_relabel, if_neg hx, if_neg hold, h.labels.slots]
        constructor
        · rintro ⟨hd, hslot⟩
          rw [if_neg fun hmem => hold ((h.chainOf_mem hmem).symm.trans hd)]
          exact ⟨hd, hslot⟩
        · rintro ⟨hd, hslot⟩
          exact ⟨(hout hd).2, hslot⟩
  · push Not at hk
    rw [slots_relabel_of_ne h.movable x hk, h.labels.slots]
    constructor
    · rintro ⟨hd, rfl⟩
      rw [if_neg fun hmem => hk d hmem rfl]
      exact ⟨hd, rfl⟩
    · rintro ⟨hd, rfl⟩
      rw [if_neg fun hmem => hk d hmem rfl] at hd
      exact ⟨hd, rfl⟩

theorem labels_moved : Labels p (moved p s l new) where
  root := by
    obtain ⟨x, hx, hf⟩ := h.labels.root
    have hroot : p.root ∉ l := by
      intro hmem
      obtain ⟨r, hr⟩ := h.exists_parent hmem
      exact Nat.lt_irrefl _ (h.shape.parent p.root r hr).2.2.2.1
    refine ⟨x, ?_, ?_⟩
    · rw [chainOf_moved, if_neg hroot, hx]
    · rw [h.forkingPoint_moved, hf]
  top := by
    intro d hd hne
    rw [parentOf_moved] at hd
    have hmem : d ∉ l := by
      intro hmem
      obtain ⟨r, hr⟩ := h.exists_parent hmem
      rw [hd] at hr
      cases hr
    rw [chainOf_moved, if_neg hmem]
    exact h.labels.top d hd hne
  link := by
    intro d r x hd
    rw [parentOf_moved] at hd
    exact h.link_moved hd
  parentChain := by
    intro x f r hf hr
    rw [h.forkingPoint_moved] at hf
    rw [parentOf_moved] at hr
    rw [chains_moved, chainOf_moved]
    by_cases hmem : r ∈ l
    · rw [if_pos (h.mem_inheriting.mpr ⟨r, hmem, f, hf, hr⟩), if_pos hmem]
    · have hx : x ∉ s.inheriting l := by
        rw [h.mem_inheriting]
        rintro ⟨r', hr', f', hf', hp⟩
        rw [hf, some.injEq] at hf'
        subst hf'
        rw [hr, some.injEq] at hp
        exact hmem (hp ▸ hr')
      rw [if_neg hx, if_neg hmem, (forkingPoint_relabel h.movable x).2]
      exact h.labels.parentChain x f r hf hr
  slots := h.slots_moved_iff

theorem inPlace_moved (hd : s.parentOf d = some r) (hne : d ≠ c) (hin : InPlace s d r) :
    InPlace (moved p s l new) d r := by
  unfold InPlace at hin ⊢
  rw [mainChild_moved]
  by_cases hmem : d ∈ l
  · obtain ⟨hr, hmain⟩ := h.parent_mem hmem hne hd
    rw [if_pos hmain, chainOf_moved, chainOf_moved, if_pos hmem, if_pos hr]
  · split_ifs at hin ⊢ with hmain
    · have hr : r ∉ l := fun hr => hmem (line_closed h.line hr hmain)
      rw [chainOf_moved, chainOf_moved, if_neg hmem, if_neg hr]
      exact hin
    · obtain ⟨x, hx, hfork⟩ := hin
      refine ⟨x, ?_, ?_⟩
      · rw [chainOf_moved, if_neg hmem, hx]
      · rw [h.forkingPoint_moved, hfork]

/-- The chain that the line is on now knows its latest commitment. -/
theorem latest_moved_new : Latest p (moved p s l new) new := by
  intro d _
  have hne : l ≠ [] := ne_nil_of_mem h.line.head_mem
  have hlast := getLast_mem hne
  refine ⟨l.getLast hne, ?_, ?_, ?_⟩
  · rw [chains_moved]
    have hlatest := latest_relabel h.movable new
    rw [if_pos rfl, getLast?_eq_some_getLast hne, some_or] at hlatest
    split_ifs <;> exact hlatest
  · rw [chainOf_moved, if_pos hlast]
  · intro e he
    rw [chainOf_moved] at he
    split_ifs at he with hmem
    · -- the slots grow along the line
      exact (h.movable.slots.imp Nat.le_of_lt).rel_getLast_of_rel_getLast_getLast hmem
        (Nat.le_refl _)
    · exact Nat.le_trans (Nat.le_of_lt (h.slot_lt he)) (h.slot_le hlast)

/-- So do the other chains, except for the one that the line has left. -/
theorem latest_moved (hx : s.chainOf c ≠ some x) (hlatest : Latest p s x) :
    Latest p (moved p s l new) x := by
  by_cases hnew : x = new
  · subst hnew
    exact h.latest_moved_new
  · have hsame : ∀ d, (moved p s l new).chainOf d = some x ↔ s.chainOf d = some x := by
      intro d
      rw [chainOf_moved]
      split_ifs with hmem
      · rw [h.chainOf_mem hmem]
        constructor
        · intro heq
          exact absurd (some.inj heq).symm hnew
        · intro heq
          exact absurd heq hx
      · rfl
    intro d hd
    obtain ⟨e, he, hex, hmax⟩ := hlatest d ((hsame d).mp hd)
    refine ⟨e, ?_, (hsame e).mpr hex, fun f hf => hmax f ((hsame f).mp hf)⟩
    rw [chains_moved]
    have hrelabel := latest_relabel h.movable x
    rw [if_neg hnew, he] at hrelabel
    split_ifs <;> exact hrelabel

theorem mem_of_chainOf (hfork : (s.chains x).forkingPoint = some c) (hd : s.chainOf d = some x) :
    d ∈ l := by
  have hc : c ∈ l := h.line.head_mem
  induction hk : p.slot d using Nat.strong_induction_on generalizing d with
  | _ k ih =>
    rcases h.labels.cases h.shape hd with hf | ⟨r, hr, hslot, hsame⟩
    · rw [hfork, some.injEq] at hf
      exact hf ▸ hc
    · have hmem := ih (p.slot r) (by omega) hsame rfl
      have hin := h.inPlace d r hr hmem
      unfold InPlace at hin
      split_ifs at hin with hmain
      · exact line_closed h.line hmem hmain
      · obtain ⟨y, hy, hf⟩ := hin
        rw [hd, some.injEq] at hy
        rw [← hy, hfork, some.injEq] at hf
        exact hf ▸ hc

/-- The chain that the line has left has no commitment any more if it began with the line. -/
theorem latest_moved_old (hfork : (s.chains x).forkingPoint = some c)
    (hx : s.chainOf c = some x) : Latest p (moved p s l new) x := by
  intro d hd
  rw [chainOf_moved] at hd
  split_ifs at hd with hmem
  · exact absurd (hx.trans hd.symm) h.chainOf_ne
  · exact absurd (h.mem_of_chainOf hfork hd) hmem

end Move

/-- The move completes the bookkeeping if only the commitment was out of place. -/
theorem Move.stable_moved {bound : Nat} {c q : ID} {l : List ID} {new : ChainID}
    (h : Move p bound s none c q l new)
    (hplace : ∀ d r, s.parentOf d = some r → d ≠ c → InPlace s d r)
    (hc : if (s.commitments q).mainChild = some c then s.chainOf q = some new
      else (s.chains new).forkingPoint = some c)
    (hlatest : ∀ x, x ≠ new → s.chainOf c ≠ some x ∧ Latest p s x ∨
      s.chainOf c = some x ∧ (s.chains x).forkingPoint = some c) :
    Stable p bound (moved p s l new) where
  shape := h.shape_moved
  labels := h.labels_moved
  inPlace := by
    intro d r hd
    rw [parentOf_moved] at hd
    by_cases hdc : d = c
    · subst hdc
      rw [h.parent, some.injEq] at hd
      subst hd
      unfold InPlace
      rw [mainChild_moved, chainOf_moved, if_pos h.line.head_mem]
      split_ifs at hc ⊢
      · rw [chainOf_moved, if_neg h.parent_not_mem, hc]
      · exact ⟨new, rfl, (h.forkingPoint_moved new).trans hc⟩
    · exact h.inPlace_moved hd hdc (hplace d r hd hdc)
  latest := by
    intro x
    by_cases hnew : x = new
    · rw [hnew]
      exact h.latest_moved_new
    · rcases hlatest x hnew with ⟨hx, hlatest⟩ | ⟨hx, hfork⟩
      · exact h.latest_moved hx hlatest
      · exact h.latest_moved_old hfork hx

end AxonCore.Chains
