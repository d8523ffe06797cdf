import Mathlib.Data.List.Nodup
import Mathlib.Tactic.Ring

/-! # Deficit round robin

    Participants stand in a ring.  Each has a deficit, a quantum and possibly an item with a
    cost.  The participant whose turn it is is served if its deficit covers the cost of its
    item.  Otherwise its deficit grows by its quantum, up to a cap, and the turn moves on.

    * `serve`: the algorithm, one visit after the other.
    * `raise`: the deficits after a number of full rounds.
    * `Turn`: who is served, after how many full rounds.
    * `Turn.serve`: what `serve` does, said without its single steps. -/

namespace AxonCore.Lib

open List Function

/-- The quanta, costs and the cap. -/
structure DeficitRoundRobin (α : Type) where
  quantum : α → Int
  /-- The cost of the item of a participant, if there is one. -/
  cost : α → Option Int
  cap : Int

namespace DeficitRoundRobin

variable {α : Type} [DecidableEq α] (r : DeficitRoundRobin α) {result : α × List α × (α → Int)}
  {fuel : Nat}

/-! ## Section 1: The algorithm -/

/-- The deficit of `a` grows by one quantum. -/
def credit (a : α) (d : α → Int) : α → Int :=
  update d a (min r.cap (d a + r.quantum a))

/-- The deficit of `a` covers the cost of its item. -/
def covers (d : α → Int) (a : α) : Bool := (r.cost a).any fun c => decide (c ≤ d a)

/-- `a` pays for its item. -/
def pay (a : α) (d : α → Int) : α → Int := update d a (d a - (r.cost a).getD 0)

/-- Visits the participants of the ring in turn until one is served.  The result is that
    participant, the ring from it on and the deficits; `none` if the fuel runs out. -/
def serve : Nat → List α → (α → Int) → Option (α × List α × (α → Int))
  | 0, _, _ => none
  | _ + 1, [], _ => none
  | fuel + 1, a :: l, d =>
    if r.covers d a then some (a, a :: l, r.pay a d) else serve fuel (l ++ [a]) (r.credit a d)

theorem serve_add (extra : Nat) :
    ∀ {fuel : Nat} {l : List α} {d : α → Int}, r.serve fuel l d = some result →
      r.serve (fuel + extra) l d = some result := by
  intro fuel
  induction fuel with
  | zero => exact fun h => nomatch h
  | succ fuel ih =>
    intro l d h
    rw [show fuel + 1 + extra = fuel + extra + 1 by omega]
    cases l with
    | nil => cases h
    | cons a l =>
      unfold serve at h ⊢
      by_cases hcovers : r.covers d a = true
      · rwa [if_pos hcovers] at h ⊢
      · rw [if_neg hcovers] at h ⊢
        exact ih h

theorem serve_unique {l : List α} {d : α → Int} {fuel' : Nat} {result' : α × List α × (α → Int)}
    (h : r.serve fuel l d = some result) (h' : r.serve fuel' l d = some result') :
    result = result' := by
  have h₁ := r.serve_add fuel' h
  have h₂ := r.serve_add fuel h'
  rw [Nat.add_comm, h₁, Option.some.injEq] at h₂
  exact h₂

/-! ## Section 2: Full rounds -/

/-- The deficits after one quantum for each of the participants `l`. -/
def creditAll (l : List α) (d : α → Int) : α → Int :=
  fun a => if a ∈ l then min r.cap (d a + r.quantum a) else d a

/-- The deficits after `n` quanta for each of the participants `l`. -/
def raise (l : List α) (n : Nat) (d : α → Int) : α → Int :=
  fun a => if a ∈ l then min r.cap (d a + n * r.quantum a) else d a

theorem creditAll_cons {a : α} {l : List α} (ha : a ∉ l) (d : α → Int) :
    r.creditAll l (r.credit a d) = r.creditAll (a :: l) d := by
  funext b
  unfold creditAll credit
  by_cases hb : b = a
  · rw [hb, if_neg ha, if_pos mem_cons_self, update_self]
  · rw [update_of_ne hb]
    simp [hb]

theorem covers_credit {a b : α} (hb : b ≠ a) (d : α → Int) :
    r.covers (r.credit a d) b = r.covers d b := by
  unfold covers credit
  rw [update_of_ne hb]

theorem serve_append (fuel : Nat) :
    ∀ {before : List α} (after : List α) {d : α → Int}, before.Nodup →
      (∀ a ∈ before, r.covers d a = false) →
      r.serve (before.length + fuel) (before ++ after) d =
        r.serve fuel (after ++ before) (r.creditAll before d) := by
  intro before
  induction before with
  | nil =>
    intro after d _ _
    have hd : r.creditAll [] d = d := by
      funext a
      simp [creditAll]
    simp [hd]
  | cons a before ih =>
    intro after d hnodup hcovers
    obtain ⟨ha, hnodup⟩ := nodup_cons.mp hnodup
    have hcovers' : ∀ b ∈ before, r.covers (r.credit a d) b = false := by
      intro b hb
      have hne : b ≠ a := fun heq => ha (heq ▸ hb)
      rw [r.covers_credit hne]
      exact hcovers b (mem_cons_of_mem a hb)
    calc r.serve ((a :: before).length + fuel) (a :: before ++ after) d
        = r.serve (before.length + fuel + 1) (a :: (before ++ after)) d := by
          rw [length_cons, Nat.add_right_comm, cons_append]
      _ = r.serve (before.length + fuel) (before ++ (after ++ [a])) (r.credit a d) := by
          rw [serve, hcovers a mem_cons_self, ← append_assoc]
          rfl
      _ = r.serve fuel (after ++ [a] ++ before) (r.creditAll before (r.credit a d)) :=
          ih (after ++ [a]) hnodup hcovers'
      _ = r.serve fuel (after ++ a :: before) (r.creditAll (a :: before) d) := by
          rw [r.creditAll_cons ha, append_assoc, singleton_append]

section rounds

variable {r} {l : List α} {d : α → Int}

theorem raise_zero (hcap : ∀ a ∈ l, d a ≤ r.cap) : r.raise l 0 d = d := by
  funext a
  unfold raise
  by_cases ha : a ∈ l
  · have := hcap a ha
    rw [if_pos ha]
    simp only [Int.natCast_zero, Int.zero_mul, Int.add_zero]
    omega
  · rw [if_neg ha]

theorem raise_succ (hquantum : ∀ a ∈ l, 0 ≤ r.quantum a) (n : Nat) :
    r.creditAll l (r.raise l n d) = r.raise l (n + 1) d := by
  funext a
  unfold creditAll raise
  by_cases ha : a ∈ l
  · have hq := hquantum a ha
    have hmul : ((n + 1 : Nat) : Int) * r.quantum a = n * r.quantum a + r.quantum a := by
      push_cast
      ring
    simp only [if_pos ha, hmul]
    omega
  · simp only [if_neg ha]

theorem serve_rounds (hnodup : l.Nodup) (hquantum : ∀ a ∈ l, 0 ≤ r.quantum a)
    (hcap : ∀ a ∈ l, d a ≤ r.cap) :
    ∀ {n : Nat}, (∀ m < n, ∀ a ∈ l, r.covers (r.raise l m d) a = false) →
      r.serve (n * l.length + fuel) l d = r.serve fuel l (r.raise l n d) := by
  intro n
  induction n generalizing fuel with
  | zero =>
    intro _
    rw [raise_zero hcap, Nat.zero_mul, Nat.zero_add]
  | succ n ih =>
    intro hcovers
    have hround := r.serve_append fuel [] hnodup (hcovers n (Nat.lt_succ_self n))
    rw [append_nil, nil_append, raise_succ hquantum] at hround
    rw [← hround, ← ih fun m hm => hcovers m (Nat.lt_succ_of_lt hm)]
    congr 1
    ring

end rounds

/-! ## Section 3: Whose turn it is -/

/-- After `rounds` full rounds in which nobody is served, `before` are visited in vain and
    `a` is served. -/
structure Turn (l : List α) (d : α → Int) (rounds : Nat) (before : List α) (a : α)
    (after : List α) : Prop where
  ring : l = before ++ a :: after
  covers : r.covers (r.raise l rounds d) a = true
  before : ∀ b ∈ before, r.covers (r.raise l rounds d) b = false
  earlier : ∀ n < rounds, ∀ b ∈ l, r.covers (r.raise l n d) b = false

variable {r} {l before after : List α} {d : α → Int} {rounds : Nat} {a : α}

theorem Turn.mem (h : r.Turn l d rounds before a after) : a ∈ l := by
  rw [h.ring]
  simp

/-- The deficits in the end: all have got a quantum for every full round, those before `a` one
    more, and `a` has paid. -/
theorem Turn.serve (h : r.Turn l d rounds before a after) (hnodup : l.Nodup)
    (hquantum : ∀ a ∈ l, 0 ≤ r.quantum a) (hcap : ∀ a ∈ l, d a ≤ r.cap) :
    ∃ fuel, r.serve fuel l d = some (a, a :: (after ++ before),
      r.pay a (r.creditAll before (r.raise l rounds d))) := by
  have hring := h.ring
  have hparts := hnodup
  rw [hring, nodup_append] at hparts
  have ha : a ∉ before := fun hmem => hparts.2.2 a hmem a mem_cons_self rfl
  refine ⟨rounds * l.length + (before.length + 1), ?_⟩
  rw [serve_rounds hnodup hquantum hcap h.earlier]
  have hvisits := r.serve_append 1 (a :: after) hparts.1 h.before
  rw [← hring] at hvisits
  rw [hvisits, cons_append, DeficitRoundRobin.serve]
  have hcovers : r.covers (r.creditAll before (r.raise l rounds d)) a = true := by
    rw [← h.covers]
    unfold DeficitRoundRobin.covers creditAll
    rw [if_neg ha]
  rw [if_pos hcovers]

omit [DecidableEq α] in
theorem first_unique {p : α → Prop} {a' : α} :
    ∀ {before before' after after' : List α}, before ++ a :: after = before' ++ a' :: after' →
      (∀ b ∈ before, ¬ p b) → p a → (∀ b ∈ before', ¬ p b) → p a' →
      before = before' ∧ a = a' ∧ after = after' := by
  intro before
  induction before with
  | nil =>
    intro before' after after' heq _ ha hbefore' _
    cases before' with
    | nil => exact ⟨rfl, (List.cons.inj heq).1, (List.cons.inj heq).2⟩
    | cons b before' =>
      have hab : a = b := (List.cons.inj heq).1
      exact absurd (hab ▸ ha) (hbefore' b mem_cons_self)
  | cons b before ih =>
    intro before' after after' heq hbefore ha hbefore' ha'
    cases before' with
    | nil =>
      have hba : b = a' := (List.cons.inj heq).1
      exact absurd (hba ▸ ha') (hbefore b mem_cons_self)
    | cons b' before' =>
      obtain ⟨hb, hrest⟩ := List.cons.inj heq
      obtain ⟨hbefores, haa', hafters⟩ := ih hrest (fun c hc => hbefore c (mem_cons_of_mem b hc))
        ha (fun c hc => hbefore' c (mem_cons_of_mem b' hc)) ha'
      exact ⟨by rw [hb, hbefores], haa', hafters⟩

end DeficitRoundRobin

end AxonCore.Lib
