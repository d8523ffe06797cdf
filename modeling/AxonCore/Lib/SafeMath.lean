import Mathlib.Algebra.Group.Int.Defs
import Mathlib.Algebra.Group.Nat.Defs
import Mathlib.Tactic.Common

/-! # Checked arithmetic on 64-bit words

    Words are natural numbers below `2 ^ 64`.  Every operation gives its exact result, or an
    error where that is not a word.

    Each operation has one lemma, `_eq_ok`, that says when it succeeds and with what.
    `bind_eq_ok` and `foldlM_ok` are the rules for computations made of them.

    Signed words are integers from `-2 ^ 63` to `2 ^ 63 - 1`.  Their division truncates. -/

namespace AxonCore.Lib

/-- Why an operation has no result. -/
inductive ArithmeticError where
  | overflow
  | underflow
  | divisionByZero
  deriving DecidableEq, Repr

/-! ## Section 1: Unsigned words -/

def wordSize : Nat := 2 ^ 64

def safeAdd (a b : Nat) : Except ArithmeticError Nat :=
  if a + b < wordSize then .ok (a + b) else .error .overflow

def safeSub (a b : Nat) : Except ArithmeticError Nat :=
  if b ≤ a then .ok (a - b) else .error .underflow

def safeMul (a b : Nat) : Except ArithmeticError Nat :=
  if a * b < wordSize then .ok (a * b) else .error .overflow

def safeDiv (a b : Nat) : Except ArithmeticError Nat :=
  if b = 0 then .error .divisionByZero else .ok (a / b)

def safeLeftShift (a shift : Nat) : Except ArithmeticError Nat :=
  if a * 2 ^ shift < wordSize then .ok (a * 2 ^ shift) else .error .overflow

/-- `a * b / c` with a product of double width. -/
def safe64MulDiv (a b c : Nat) : Except ArithmeticError Nat :=
  if c = 0 then .error .divisionByZero
  else if a * b / c < wordSize then .ok (a * b / c) else .error .overflow

variable {a b c r : Nat} {ε α β : Type}

theorem ite_eq_ok {P : Prop} [Decidable P] {x r : α} {e : ε} :
    (if P then Except.ok x else Except.error e) = .ok r ↔ P ∧ x = r := by
  by_cases h : P
  · simp [h]
  · simp [h]

theorem safeAdd_eq_ok : safeAdd a b = .ok r ↔ a + b < wordSize ∧ a + b = r := ite_eq_ok

theorem safeSub_eq_ok : safeSub a b = .ok r ↔ b ≤ a ∧ a - b = r := ite_eq_ok

theorem safeMul_eq_ok : safeMul a b = .ok r ↔ a * b < wordSize ∧ a * b = r := ite_eq_ok

theorem safeDiv_eq_ok : safeDiv a b = .ok r ↔ b ≠ 0 ∧ a / b = r := by
  unfold safeDiv
  rw [← ite_not, ite_eq_ok]

theorem safeLeftShift_eq_ok :
    safeLeftShift a b = .ok r ↔ a * 2 ^ b < wordSize ∧ a * 2 ^ b = r := ite_eq_ok

theorem safe64MulDiv_eq_ok :
    safe64MulDiv a b c = .ok r ↔ c ≠ 0 ∧ a * b / c < wordSize ∧ a * b / c = r := by
  unfold safe64MulDiv
  by_cases h : c = 0
  · simp [h]
  · rw [if_neg h, ite_eq_ok]
    simp [h]

theorem bind_eq_ok {x : Except ε α} {f : α → Except ε β} {r : β} :
    x.bind f = .ok r ↔ ∃ a, x = .ok a ∧ f a = .ok r := by
  cases x with
  | error e => simp [Except.bind]
  | ok a => simp [Except.bind]

theorem map_eq_ok {x : Except ε α} {f : α → β} {r : β} :
    x.map f = .ok r ↔ ∃ a, x = .ok a ∧ f a = r := by
  cases x with
  | error e => simp [Except.map]
  | ok a => simp [Except.map]

theorem toOption_eq_some {x : Except ε α} {a : α} : x.toOption = some a ↔ x = .ok a := by
  cases x with
  | error e => simp [Except.toOption]
  | ok b => simp [Except.toOption]

/-- The rule for a loop that may fail: the invariant speaks of the elements still to come. -/
theorem foldlM_ok {f : β → α → Except ε β} {I : List α → β → Prop}
    (hstep : ∀ x xs b b', I (x :: xs) b → f b x = .ok b' → I xs b') :
    ∀ {l : List α} {b b' : β}, I l b → l.foldlM f b = .ok b' → I [] b' := by
  intro l
  induction l with
  | nil =>
    intro b b' hI h
    have hb : b = b' := Except.ok.inj h
    exact hb ▸ hI
  | cons x xs ih =>
    intro b b' hI h
    rw [List.foldlM_cons] at h
    obtain ⟨c, hc, hrest⟩ := bind_eq_ok.mp h
    exact ih (hstep x xs b c hI hc) hrest

theorem foldlM_ne_error {f : β → α → Except ε β} {e : ε} (hstep : ∀ b x, f b x ≠ .error e)
    (l : List α) (b : β) : l.foldlM f b ≠ .error e := by
  induction l generalizing b with
  | nil => exact fun h => nomatch h
  | cons x xs ih =>
    rw [List.foldlM_cons]
    cases hx : f b x with
    | ok c => exact ih c
    | error e' =>
      intro h
      have he : e' = e := Except.error.inj h
      exact hstep b x (he ▸ hx)

/-! ## Section 2: Signed words -/

/-- The integer is a signed word. -/
def IsInt64 (x : Int) : Prop := -2 ^ 63 ≤ x ∧ x < 2 ^ 63

instance (x : Int) : Decidable (IsInt64 x) := inferInstanceAs (Decidable (_ ∧ _))

/-- The signed word that unchecked arithmetic gives. -/
def wrapInt64 (x : Int) : Int := x.bmod (2 ^ 64)

theorem wrapInt64_of_isInt64 {x : Int} (h : IsInt64 x) : wrapInt64 x = x := by
  unfold IsInt64 at h
  apply Int.bmod_eq_of_le <;> omega

def safeAddInt64 (x y : Int) : Except ArithmeticError Int :=
  if IsInt64 (x + y) then .ok (x + y) else .error .overflow

def safeMulInt64 (x y : Int) : Except ArithmeticError Int :=
  if IsInt64 (x * y) then .ok (x * y) else .error .overflow

def safeDivInt64 (x y : Int) : Except ArithmeticError Int :=
  if y = 0 then .error .divisionByZero
  else if IsInt64 (x.tdiv y) then .ok (x.tdiv y) else .error .overflow

end AxonCore.Lib
