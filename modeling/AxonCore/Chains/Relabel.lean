import AxonCore.Chains.Model

/-! # Moving a line of commitments to another chain

    A new value for the chain of a commitment is passed on to its main child, to the main child
    of that, and so on.  The other children keep their chains: they are forking points.  So
    `setChain` moves the whole line of main children to the new chain, and the chains that
    begin beside that line get a new parent chain.

    * `IsLine`: the main children below a commitment.
    * `Ready`: the callbacks along a line do what they are meant to.
    * `setChain_eq`: `setChain` is `relabel` of the line, then `inherit`.
    * `slots_relabel_new`, `slots_relabel_old`, `latest_relabel`: the chains after that. -/

namespace AxonCore.Chains.State

open Lib Function List Option

variable {ID : Type} {p : Params ID} {s t : State ID} {c d : ID} {new x : ChainID} {l : List ID}
  {callback : Callback ID}

/-! ## Section 1: New parent chains -/

@[simp] theorem commitments_addCommitment (c : ID) (old new : Option ChainID) :
    (s.addCommitment p c old new).commitments = s.commitments := by
  cases old <;> cases new <;> rfl

/-- The chains get a new parent chain. -/
def inherit (new : ChainID) (s : State ID) (xs : List ChainID) : State ID :=
  { s with chains := fun x =>
      if x ∈ xs then { s.chains x with parentChain := some new } else s.chains x }

theorem inherit_nil : s.inherit new [] = s := by
  simp [inherit]

theorem inherit_inherit (xs ys : List ChainID) :
    (s.inherit new xs).inherit new ys = s.inherit new (xs ++ ys) := by
  unfold inherit
  simp only [State.mk.injEq, true_and, and_true]
  funext x
  by_cases hy : x ∈ ys <;> by_cases hx : x ∈ xs <;> simp [hx, hy]

theorem inherit_congr {xs ys : List ChainID} (h : ∀ x, x ∈ xs ↔ x ∈ ys) :
    s.inherit new xs = s.inherit new ys := by
  unfold inherit
  simp only [h]

theorem inherit_modifyChain {f : Chain ID → Chain ID} (xs : List ChainID)
    (h : ∀ chain parent, f { chain with parentChain := parent } =
      { f chain with parentChain := parent }) :
    (s.inherit new xs).modifyChain x f = (s.modifyChain x f).inherit new xs := by
  unfold inherit modifyChain
  simp only [State.mk.injEq, true_and, and_true]
  funext y
  by_cases hy : y = x
  · subst hy
    simp only [update_self]
    split_ifs
    · exact h _ _
    · rfl
  · simp only [update_of_ne hy]

/-- The chain that a callback gives a new parent chain. -/
def inheriting? : Callback ID → Option ChainID
  | .inheritParentChain x => some x
  | _ => none

/-- The chains that inherit their parent chain from one of the commitments. -/
def inheriting (s : State ID) (l : List ID) : List ChainID :=
  l.flatMap fun c => (s.commitments c).onChain.filterMap inheriting?

@[simp] theorem inheriting?_eq_some :
    inheriting? callback = some x ↔ callback = .inheritParentChain x := by
  cases callback <;> simp [inheriting?]

theorem mem_inheriting : x ∈ s.inheriting l ↔
    ∃ c ∈ l, .inheritParentChain x ∈ (s.commitments c).onChain := by
  simp [inheriting]

section Updates

variable {α β γ : Type} [DecidableEq β] {key : α → β}

theorem foldl_update_of_ne (val : α → γ) {b : β} : ∀ {as : List α} {m : β → γ},
    (∀ a ∈ as, key a ≠ b) →
    as.foldl (fun m a => update m (key a) (val a)) m b = m b := by
  intro as
  induction as with
  | nil => exact fun _ => rfl
  | cons a as ih =>
    intro m h
    rw [forall_mem_cons] at h
    rw [foldl_cons, ih h.2, update_of_ne h.1.symm]

theorem foldl_update_of_mem (val : α → γ) {a : α} : ∀ {as : List α} {m : β → γ},
    as.Pairwise (fun a b => key a ≠ key b) → a ∈ as →
    as.foldl (fun m a => update m (key a) (val a)) m (key a) = val a := by
  intro as
  induction as with
  | nil => exact fun _ h => absurd h not_mem_nil
  | cons b as ih =>
    intro m hkeys ha
    rw [pairwise_cons] at hkeys
    rcases mem_cons.mp ha with rfl | ha
    · rw [foldl_cons, foldl_update_of_ne val fun b hb => (hkeys.1 b hb).symm,
        update_self]
    · exact ih hkeys.2 ha

end Updates

variable [LinearOrder ID] {n : Nat} {parent : ID} {rest : List (Callback ID)}

/-! ## Section 2: One commitment, and a line of them -/

@[simp] theorem chains_modify (f : Commitment ID → Commitment ID) :
    (s.modify c f).chains = s.chains := rfl

@[simp] theorem commitments_modify_self (f : Commitment ID → Commitment ID) :
    (s.modify c f).commitments c = f (s.commitments c) := update_self ..

theorem modify_keeps {α : Type} (g : Commitment ID → α) {f : Commitment ID → Commitment ID}
    (hf : ∀ r, g (f r) = g r) (d : ID) :
    g ((s.modify c f).commitments d) = g (s.commitments d) := by
  show g (update s.commitments c (f (s.commitments c)) d) = _
  rw [update_apply]
  split_ifs with h
  · rw [hf, h]
  · rfl

/-- A commitment gets a new chain and is added to it. -/
def assign (p : Params ID) (new : ChainID) (s : State ID) (c : ID) : State ID :=
  (s.modify c fun c => { c with chain := some new }).addCommitment p c (s.chainOf c) (some new)

/-- The commitments get a new chain one after the other. -/
def relabel (p : Params ID) (new : ChainID) (s : State ID) (l : List ID) : State ID :=
  l.foldl (assign p new) s

theorem commitments_assign :
    (s.assign p new c).commitments =
      update s.commitments c { s.commitments c with chain := some new } := by
  unfold assign
  rw [commitments_addCommitment]
  rfl

theorem onChain_assign (d : ID) :
    ((s.assign p new c).commitments d).onChain = (s.commitments d).onChain := by
  unfold assign
  rw [commitments_addCommitment]
  apply modify_keeps Commitment.onChain
  exact fun _ => rfl

theorem mainChild_assign (d : ID) :
    ((s.assign p new c).commitments d).mainChild = (s.commitments d).mainChild := by
  unfold assign
  rw [commitments_addCommitment]
  apply modify_keeps Commitment.mainChild
  exact fun _ => rfl

theorem frame_assign :
    (s.assign p new c).published = s.published ∧ (s.assign p new c).waiting = s.waiting ∧
      (s.assign p new c).chainCount = s.chainCount := by
  unfold assign addCommitment
  cases s.chainOf c <;> exact ⟨rfl, rfl, rfl⟩

theorem frame_relabel : ∀ (l : List ID) (s : State ID),
    (s.relabel p new l).published = s.published ∧ (s.relabel p new l).waiting = s.waiting ∧
      (s.relabel p new l).chainCount = s.chainCount := by
  intro l
  induction l with
  | nil => exact fun _ => ⟨rfl, rfl, rfl⟩
  | cons c l ih =>
    intro s
    obtain ⟨hpublished, hwaiting, hcount⟩ := @frame_assign _ p s c new _
    obtain ⟨hpublished', hwaiting', hcount'⟩ := ih (s.assign p new c)
    exact ⟨hpublished'.trans hpublished, hwaiting'.trans hwaiting, hcount'.trans hcount⟩

theorem commitments_relabel : ∀ (l : List ID) (s : State ID) (d : ID),
    (s.relabel p new l).commitments d =
      if d ∈ l then { s.commitments d with chain := some new } else s.commitments d := by
  intro l
  induction l with
  | nil => intro s d; rfl
  | cons c l ih =>
    intro s d
    show ((s.assign p new c).relabel p new l).commitments d = _
    rw [ih, commitments_assign]
    by_cases hd : d = c
    · subst hd
      simp
    · simp [hd]

theorem chains_assign (hc : s.chainOf c ≠ some new) (x : ChainID) :
    (s.assign p new c).chains x =
      if x = new then
        { s.chains new with
          commitments := update (s.chains new).commitments (p.slot c) (some c)
          latestCommitment := some c }
      else if s.chainOf c = some x then
        { s.chains x with
          commitments := update (s.chains x).commitments (p.slot c) none }
      else s.chains x := by
  unfold assign addCommitment
  rcases hold : s.chainOf c with _ | y
  · by_cases hx : x = new
    · subst hx
      simp [modifyChain]
    · simp [modifyChain, hx]
  · have hy : y ≠ new := by
      rintro rfl
      exact hc hold
    by_cases hx : x = new
    · subst hx
      simp [modifyChain, update_of_ne hy.symm]
    · by_cases hxy : x = y
      · subst hxy
        simp [modifyChain, hx]
      · simp [modifyChain, hx, update_of_ne hxy, Ne.symm hxy]

/-! ## Section 3: The chains after a line has moved -/

/-- The commitments are on one chain, not the new one, in the order of their slots. -/
structure Movable (p : Params ID) (s : State ID) (old : Option ChainID) (new : ChainID)
    (l : List ID) : Prop where
  chainOf : ∀ c ∈ l, s.chainOf c = old
  old_ne : old ≠ some new
  slots : l.Pairwise fun c d => p.slot c < p.slot d

section Movable

variable {old : Option ChainID}

omit [LinearOrder ID] in
theorem Movable.ne_head (h : Movable p s old new (c :: l)) (hd : d ∈ l) : d ≠ c := by
  rintro rfl
  exact absurd (rel_of_pairwise_cons h.slots hd) (Nat.lt_irrefl _)

theorem Movable.tail (h : Movable p s old new (c :: l)) :
    Movable p (s.assign p new c) old new l where
  chainOf := by
    intro d hd
    unfold State.chainOf
    rw [commitments_assign, update_of_ne (h.ne_head hd)]
    exact h.chainOf d (mem_cons_of_mem c hd)
  old_ne := h.old_ne
  slots := h.slots.of_cons

theorem Movable.chains_relabel : ∀ {l : List ID} {s : State ID}, Movable p s old new l → ∀ x,
    (s.relabel p new l).chains x =
      if x = new then
        { s.chains new with
          commitments := l.foldl (fun m c => update m (p.slot c) (some c))
            (s.chains new).commitments
          latestCommitment := l.getLast?.or (s.chains new).latestCommitment }
      else if old = some x then
        { s.chains x with
          commitments := l.foldl (fun m c => update m (p.slot c) none)
            (s.chains x).commitments }
      else s.chains x := by
  intro l
  induction l with
  | nil =>
    intro s _ x
    split_ifs with hx
    · rw [hx]
      rfl
    · rfl
    · rfl
  | cons c l ih =>
    intro s h x
    show ((s.assign p new c).relabel p new l).chains x = _
    have hc := h.chainOf c mem_cons_self
    have hne : s.chainOf c ≠ some new := hc ▸ h.old_ne
    rw [ih h.tail, chains_assign hne, chains_assign hne, hc, if_pos rfl]
    split_ifs
    · cases l <;> simp [getLast?_cons]
    · rfl
    · rfl

section

variable (h : Movable p s old new l)
include h

theorem forkingPoint_relabel (x : ChainID) :
    ((s.relabel p new l).chains x).forkingPoint = (s.chains x).forkingPoint ∧
      ((s.relabel p new l).chains x).parentChain = (s.chains x).parentChain := by
  rw [h.chains_relabel]
  split_ifs with hx <;> simp [hx]

theorem slots_relabel_of_ne (x : ChainID) {k : Nat} (hk : ∀ c ∈ l, p.slot c ≠ k) :
    ((s.relabel p new l).chains x).commitments k = (s.chains x).commitments k := by
  rw [h.chains_relabel]
  split_ifs with hx
  · rw [hx]
    exact foldl_update_of_ne some hk
  · exact foldl_update_of_ne (fun _ => none) hk
  · rfl

theorem slots_relabel_new (c : ID) (hc : c ∈ l) :
    ((s.relabel p new l).chains new).commitments (p.slot c) = some c := by
  rw [h.chains_relabel, if_pos rfl]
  exact foldl_update_of_mem some (h.slots.imp Nat.ne_of_lt) hc

theorem slots_relabel_old (hx : x ≠ new) (hold : old = some x) (c : ID) (hc : c ∈ l) :
    ((s.relabel p new l).chains x).commitments (p.slot c) = none := by
  rw [h.chains_relabel, if_neg hx, if_pos hold]
  exact foldl_update_of_mem (fun _ => none) (h.slots.imp Nat.ne_of_lt) hc

/-- The last commitment of the line is the latest of the new chain; the latest of the other
    chains is as before. -/
theorem latest_relabel (x : ChainID) :
    ((s.relabel p new l).chains x).latestCommitment =
      if x = new then l.getLast?.or (s.chains new).latestCommitment
      else (s.chains x).latestCommitment := by
  rw [h.chains_relabel]
  split_ifs <;> rfl

end

end Movable

theorem inherit_assign (xs : List ChainID) :
    (s.inherit new xs).assign p x c = (s.assign p x c).inherit new xs := by
  unfold assign addCommitment
  have hchain : (s.inherit new xs).chainOf c = s.chainOf c := rfl
  rw [hchain]
  have hmodify : ∀ f, (s.inherit new xs).modify c f = (s.modify c f).inherit new xs :=
    fun _ => rfl
  rw [hmodify]
  cases s.chainOf c with
  | none => exact inherit_modifyChain xs fun _ _ => rfl
  | some y =>
    dsimp only
    rw [inherit_modifyChain xs fun _ _ => rfl, inherit_modifyChain xs fun _ _ => rfl]

theorem inherit_relabel (xs : List ChainID) : ∀ (l : List ID) (s : State ID),
    (s.inherit new xs).relabel p x l = (s.relabel p x l).inherit new xs := by
  intro l
  induction l with
  | nil => exact fun _ => rfl
  | cons c l ih =>
    intro s
    show ((s.inherit new xs).assign p x c).relabel p x l = _
    rw [inherit_assign, ih]
    rfl

/-! ## Section 4: The callbacks along a line -/

/-- A child derives its chain again. -/
def rederive (p : Params ID) (n : Nat) (s : State ID) (c parent : ID) : Option (State ID) :=
  let (s, chain) := s.derivedChain c parent
  s.setChain p n c chain

/-- The body of the loop over the callbacks in `setChain`. -/
def runCallback (p : Params ID) (n : Nat) (c : ID) (old new : Option ChainID) (s : State ID) :
    Callback ID → Option (State ID)
  | .addCommitment => some (s.addCommitment p c old new)
  | .deriveChain child => s.rederive p n child c
  | .inheritParentChain x => some (s.modifyChain x fun chain => { chain with parentChain := new })

theorem setChain_succ (n : Nat) (new : Option ChainID) :
    s.setChain p (n + 1) c new =
      if s.chainOf c = new then some s
      else run (runCallback p n c (s.chainOf c) new)
        (s.modify c fun c => { c with chain := new }) (s.commitments c).onChain := by
  rw [setChain]
  congr 2

theorem setChain_self (hn : 0 < n) : s.setChain p n c (s.chainOf c) = some s := by
  obtain ⟨n, rfl⟩ : ∃ m, n = m + 1 := Nat.exists_eq_succ_of_ne_zero (by omega)
  rw [setChain_succ, if_pos rfl]

theorem derivedChain_of_fork (hmain : (s.commitments parent).mainChild ≠ some c) {y : ChainID}
    (hy : s.chainOf c = some y) (hne : s.chainOf parent ≠ some y) :
    s.derivedChain c parent = (s, s.chainOf c) := by
  unfold derivedChain
  rw [if_pos hmain, if_neg]
  rintro (hnone | hsame)
  · rw [hy] at hnone
    cases hnone
  · exact hne (hsame ▸ hy)

theorem derivedChain_of_main (hmain : (s.commitments parent).mainChild = some c) :
    s.derivedChain c parent = (s, s.chainOf parent) := by
  unfold derivedChain
  rw [if_neg (not_not.mpr hmain)]

/-- The child is on the right chain already. -/
def Settled (s : State ID) (c parent : ID) : Prop :=
  if (s.commitments parent).mainChild = some c then s.chainOf c = s.chainOf parent
  else ∃ y, s.chainOf c = some y ∧ s.chainOf parent ≠ some y

theorem rederive_of_settled (hn : 0 < n) (h : s.Settled c parent) :
    s.rederive p n c parent = some s := by
  unfold Settled at h
  unfold rederive
  split_ifs at h with hmain
  · rw [derivedChain_of_main hmain]
    dsimp only
    rw [← h, setChain_self hn]
  · obtain ⟨y, hy, hne⟩ := h
    rw [derivedChain_of_fork hmain hy hne]
    dsimp only
    rw [setChain_self hn]

/-- A callback that moves no commitment. -/
def Quiet (s : State ID) (c : ID) : Callback ID → Prop
  | .addCommitment => False
  | .deriveChain child => s.Settled child c
  | .inheritParentChain _ => True

theorem run_quiet (hn : 0 < n) {old : Option ChainID} :
    ∀ {callbacks : List (Callback ID)} {s : State ID},
      (∀ callback ∈ callbacks, s.Quiet c callback) →
      run (runCallback p n c old (some new)) s callbacks =
        some (s.inherit new (callbacks.filterMap inheriting?)) := by
  intro callbacks
  induction callbacks with
  | nil => intro s _; rw [filterMap_nil, inherit_nil]; rfl
  | cons callback callbacks ih =>
    intro s hquiet
    have hhead := hquiet callback mem_cons_self
    have hrest := fun callback h => hquiet callback (mem_cons_of_mem _ h)
    cases callback with
    | addCommitment => exact hhead.elim
    | deriveChain child =>
      show (s.rederive p n child c).bind _ = _
      rw [rederive_of_settled hn hhead, bind_some, ih hrest]
      rfl
    | inheritParentChain x =>
      have hone : (s.modifyChain x fun chain => { chain with parentChain := some new }) =
          s.inherit new [x] := by
        unfold inherit modifyChain
        simp only [mem_singleton, State.mk.injEq, true_and, and_true]
        funext y
        by_cases hy : y = x
        · subst hy
          simp
        · simp [hy]
      show run (runCallback p n c old (some new)) (s.modifyChain x _) callbacks = _
      have hrest' : ∀ callback ∈ callbacks, (s.inherit new [x]).Quiet c callback := hrest
      rw [hone, ih hrest', inherit_inherit]
      rfl

/-! ## Section 5: A new chain for a line -/

/-- The list begins with the commitment, and each of its commitments is followed by its main
    child. -/
def IsLine (s : State ID) : ID → List ID → Prop
  | _, [] => False
  | c, d :: l => d = c ∧ match (s.commitments c).mainChild with
    | none => l = []
    | some m => s.IsLine m l

section

omit [LinearOrder ID]

/-- Induction along a line, from its end. -/
theorem IsLine.induction {motive : ∀ c l, s.IsLine c l → Prop}
    (last : ∀ c (hm : (s.commitments c).mainChild = none), motive c [c] ⟨rfl, by rw [hm]⟩)
    (next : ∀ c m l (hm : (s.commitments c).mainChild = some m) (hl : s.IsLine m l),
      motive m l hl → motive c (c :: l) ⟨rfl, by rw [hm]; exact hl⟩)
    (h : s.IsLine c l) : motive c l h := by
  induction l generalizing c with
  | nil => exact h.elim
  | cons d l ih =>
    obtain ⟨rfl, htail⟩ := h
    obtain hm | ⟨m, hm⟩ := eq_none_or_eq_some (s.commitments d).mainChild
    · obtain rfl : l = [] := by rwa [hm] at htail
      exact last d hm
    · have hl : s.IsLine m l := by rwa [hm] at htail
      exact next d m l hm hl (ih hl)

theorem IsLine.congr (h : ∀ c, (t.commitments c).mainChild = (s.commitments c).mainChild)
    (hl : s.IsLine c l) : t.IsLine c l := by
  induction hl using IsLine.induction with
  | last c hm => exact ⟨rfl, by rw [h, hm]⟩
  | next c m l hm _ ih => exact ⟨rfl, by rw [h, hm]; exact ih⟩

theorem IsLine.head_mem (h : s.IsLine c l) : c ∈ l := by
  cases l with
  | nil => exact h.elim
  | cons d l => exact h.1 ▸ mem_cons_self

end

/-- The callbacks of the commitments of a line, when the line moves to a new chain: each
    commitment moves itself first and passes the chain on to its main child; its other children
    are on chains of their own. -/
structure Ready (s : State ID) (new : ChainID) (l : List ID) : Prop where
  nodup : l.Nodup
  chainOf_ne : ∀ c ∈ l, s.chainOf c ≠ some new
  addCommitment : ∀ c ∈ l, ∃ rest, (s.commitments c).onChain = .addCommitment :: rest ∧
    .addCommitment ∉ rest
  main : ∀ c ∈ l, ∀ m, (s.commitments c).mainChild = some m →
    .deriveChain m ∈ (s.commitments c).onChain
  fork : ∀ c ∈ l, ∀ d, .deriveChain d ∈ (s.commitments c).onChain →
    (s.commitments c).mainChild = some d ∨ d ∉ l ∧ ∃ y, s.chainOf d = some y ∧ y ≠ new

theorem Ready.tail (h : s.Ready new (c :: l))
    (ht : t.commitments = update s.commitments c
      { s.commitments c with chain := some new }) : t.Ready new l := by
  have hc := (nodup_cons.mp h.nodup).1
  have hne : ∀ d ∈ l, d ≠ c := fun d hd heq => hc (heq ▸ hd)
  have hsame : ∀ d ∈ l, t.commitments d = s.commitments d := by
    intro d hd
    rw [ht, update_of_ne (hne d hd)]
  refine ⟨(nodup_cons.mp h.nodup).2, ?_, ?_, ?_, ?_⟩
  · intro d hd
    unfold State.chainOf
    rw [hsame d hd]
    exact h.chainOf_ne d (mem_cons_of_mem c hd)
  · intro d hd
    rw [hsame d hd]
    exact h.addCommitment d (mem_cons_of_mem c hd)
  · intro d hd
    rw [hsame d hd]
    exact h.main d (mem_cons_of_mem c hd)
  · intro d hd e he
    rw [hsame d hd] at he ⊢
    rcases h.fork d (mem_cons_of_mem c hd) e he with hmain | ⟨hnot, y, hy, hyne⟩
    · exact .inl hmain
    · refine .inr ⟨fun hmem => hnot (mem_cons_of_mem c hmem), y, ?_, hyne⟩
      unfold State.chainOf
      have hec : e ≠ c := fun heq => hnot (by rw [heq]; exact mem_cons_self)
      rw [ht, update_of_ne hec]
      exact hy

/-- Once the commitment has moved, its callbacks move no other child than the main child. -/
theorem Ready.quiet (h : s.Ready new (c :: l))
    (hrest : (s.commitments c).onChain = .addCommitment :: rest) (hadd : .addCommitment ∉ rest)
    (htmain : (t.commitments c).mainChild = (s.commitments c).mainChild)
    (htc : t.chainOf c = some new) (htout : ∀ d ∉ c :: l, t.chainOf d = s.chainOf d)
    (hmem : callback ∈ rest)
    (hmain : ∀ m, (s.commitments c).mainChild = some m → callback = .deriveChain m →
      t.chainOf m = some new) :
    t.Quiet c callback := by
  cases callback with
  | addCommitment => exact absurd hmem hadd
  | inheritParentChain x => trivial
  | deriveChain d =>
    show t.Settled d c
    unfold Settled
    rw [htmain]
    split_ifs with hd
    · rw [hmain d hd rfl, htc]
    · rcases h.fork c mem_cons_self d (hrest ▸ mem_cons_of_mem _ hmem) with
        hd' | ⟨hout, y, hy, hyne⟩
      · exact absurd hd' hd
      · refine ⟨y, (htout d hout).trans hy, ?_⟩
        rw [htc]
        exact fun heq => hyne (some.inj heq).symm

theorem chainOf_assign_self : (s.assign p new c).chainOf c = some new := by
  unfold chainOf
  rw [commitments_assign, update_self]

theorem chainOf_assign_of_ne (h : d ≠ c) : (s.assign p new c).chainOf d = s.chainOf d := by
  unfold chainOf
  rw [commitments_assign, update_of_ne h]

/-- The callbacks that are not the main child's are quiet before the main child has moved. -/
theorem Ready.quiet_assign (h : s.Ready new (c :: l))
    (hrest : (s.commitments c).onChain = .addCommitment :: rest) (hadd : .addCommitment ∉ rest)
    (hmem : callback ∈ rest)
    (hmain : ∀ m, (s.commitments c).mainChild = some m → callback ≠ .deriveChain m) :
    (s.assign p new c).Quiet c callback := by
  apply h.quiet hrest hadd (mainChild_assign c) chainOf_assign_self _ hmem
  · exact fun m hm heq => absurd heq (hmain m hm)
  · exact fun d hd => chainOf_assign_of_ne fun heq => hd (heq ▸ mem_cons_self)

/-- A new chain for a commitment is a new chain for the line below it. -/
theorem setChain_eq : ∀ {l : List ID} {n : Nat} {s : State ID} {c : ID},
    s.IsLine c l → s.Ready new l → l.length < n →
    s.setChain p n c (some new) = some ((s.relabel p new l).inherit new (s.inheriting l)) := by
  intro l
  induction l with
  | nil => exact fun hline => hline.elim
  | cons d l ih =>
    intro n s c hline hready hn
    obtain ⟨rfl, htail⟩ := hline
    obtain ⟨n, rfl⟩ : ∃ m, n = m + 1 := Nat.exists_eq_succ_of_ne_zero (by omega)
    rw [length_cons, Nat.add_lt_add_iff_right] at hn
    obtain ⟨rest, hrest, hadd⟩ := hready.addCommitment d mem_cons_self
    rw [setChain_succ, if_neg (hready.chainOf_ne d mem_cons_self), hrest]
    -- the commitment is moved itself
    show run (runCallback p n d (s.chainOf d) (some new)) (s.assign p new d) rest = _
    have hinheriting : ∀ xs : List ChainID,
        (∀ x, x ∈ xs ↔ .inheritParentChain x ∈ rest ∨ x ∈ s.inheriting l) →
        ((s.assign p new d).relabel p new l).inherit new xs =
          (s.relabel p new (d :: l)).inherit new (s.inheriting (d :: l)) := by
      intro xs hxs
      apply inherit_congr
      intro x
      rw [hxs, mem_inheriting, mem_inheriting]
      simp [hrest]
    cases hm : (s.commitments d).mainChild with
    | none =>
      rw [hm] at htail
      subst htail
      have hquiet : ∀ callback ∈ rest, (s.assign p new d).Quiet d callback :=
        fun callback hmem => hready.quiet_assign hrest hadd hmem (by simp [hm])
      rw [run_quiet hn hquiet, ← hinheriting (rest.filterMap inheriting?)]
      · rfl
      · intro x
        simp [inheriting]
    | some m =>
      rw [hm] at htail
      have hml : m ∈ l := htail.head_mem
      have hdl : d ∉ l := (nodup_cons.mp hready.nodup).1
      -- the callbacks before the main child's, those of the main child, and the others
      have hderive := hready.main d mem_cons_self m hm
      rw [hrest, mem_cons] at hderive
      obtain ⟨before, after, hsplit, hfirst⟩ :=
        eq_append_cons_of_mem (hderive.resolve_left nofun)
      let t₁ := (s.assign p new d).inherit new (before.filterMap inheriting?)
      let t₂ := (t₁.relabel p new l).inherit new (t₁.inheriting l)
      have hbefore : run (runCallback p n d (s.chainOf d) (some new)) (s.assign p new d) before =
          some t₁ := by
        apply run_quiet (by omega)
        intro callback hmem
        apply hready.quiet_assign hrest hadd
        · rw [hsplit]
          exact mem_append_left _ hmem
        · rintro m' hm' rfl
          exact hfirst (some.inj (hm.symm.trans hm') ▸ hmem)
      have hmain : runCallback p n d (s.chainOf d) (some new) t₁ (.deriveChain m) = some t₂ := by
        show t₁.rederive p n m d = some t₂
        unfold rederive
        have hmain₁ : (t₁.commitments d).mainChild = some m := (mainChild_assign d).trans hm
        have hchain₁ : t₁.chainOf d = some new := chainOf_assign_self
        rw [derivedChain_of_main hmain₁, hchain₁]
        have hmainChild : ∀ e, (t₁.commitments e).mainChild = (s.commitments e).mainChild :=
          fun e => mainChild_assign e
        have hline₁ : t₁.IsLine m l := htail.congr hmainChild
        exact ih hline₁ (hready.tail commitments_assign) hn
      have hafter : run (runCallback p n d (s.chainOf d) (some new)) t₂ after =
          some (t₂.inherit new (after.filterMap inheriting?)) := by
        have ht₂ : ∀ e, t₂.commitments e = if e ∈ l then
            { (s.assign p new d).commitments e with chain := some new }
            else (s.assign p new d).commitments e := commitments_relabel l t₁
        have hout : ∀ e ∉ l, t₂.commitments e = (s.assign p new d).commitments e :=
          fun e he => (ht₂ e).trans (if_neg he)
        apply run_quiet (by omega)
        intro callback hmem
        apply hready.quiet hrest hadd
        · rw [hout d hdl, mainChild_assign]
        · exact (congrArg Commitment.chain (hout d hdl)).trans chainOf_assign_self
        · intro e he
          rw [mem_cons, not_or] at he
          exact (congrArg Commitment.chain (hout e he.2)).trans (chainOf_assign_of_ne he.1)
        · rw [hsplit]
          exact mem_append_right _ (mem_cons_of_mem _ hmem)
        · intro m' hm' _
          rw [hm, some.injEq] at hm'
          subst hm'
          unfold chainOf
          rw [ht₂, if_pos hml]
      rw [hsplit, run_append.mpr ⟨t₁, hbefore, run_cons.mpr ⟨t₂, hmain, hafter⟩⟩]
      show some (((t₁.relabel p new l).inherit new _).inherit new _) = _
      rw [inherit_relabel, inherit_inherit, inherit_inherit, hinheriting]
      intro x
      have hsame : x ∈ t₁.inheriting l ↔ x ∈ s.inheriting l := by
        rw [mem_inheriting, mem_inheriting]
        show (∃ c ∈ l, _ ∈ ((s.assign p new d).commitments c).onChain) ↔ _
        simp only [onChain_assign]
      rw [mem_append, mem_append, hsame, hsplit]
      simp
      tauto

end AxonCore.Chains.State
