import Mathlib.Tactic.Common

/-! # Lossless streams

    A component that writes its state to a stream and reads it back does so value by
    value: a value of a primitive type is written by a codec, a collection is written
    as its length and then its elements.

    * `Reader`: takes a value off the front of a stream, or fails.
    * `Codec`: a writer and a reader; the reader gives back what was written and leaves
      the rest of the stream.
    * `Codec.single`: one symbol for one value.
    * `readTimes`, `readCollection`: the loop of a reader that updates a state.
    * `readTimes_flatMap`: reading a collection folds the update over its elements.
    * `readTimes_invariant`: whatever is read, what every round keeps is kept. -/

namespace AxonCore.Lib

/-- Takes a value off the front of a stream. -/
abbrev Reader (β α : Type) := List β → Option (α × List β)

/-- A lossless codec. -/
structure Codec (β α : Type) where
  write : α → List β
  read : Reader β α
  read_write : ∀ a rest, read (write a ++ rest) = some (a, rest)

attribute [simp] Codec.read_write

variable {β α σ : Type}

theorem Codec.read_write_bind {γ : Type} (c : Codec β α) (a : α) (rest : List β)
    (next : α × List β → Option γ) :
    (c.read (c.write a ++ rest)).bind next = next (a, rest) := by
  rw [c.read_write, Option.bind_some]

/-- With two values to tell apart, no value is written as nothing. -/
theorem Codec.write_ne_nil (c : Codec β α) {a b : α} (hne : a ≠ b) : c.write a ≠ [] := by
  intro hnil
  have ha := c.read_write a (c.write b)
  have hb := c.read_write b []
  rw [hnil, List.nil_append] at ha
  rw [List.append_nil, ha] at hb
  exact hne (congrArg Prod.fst (Option.some.inj hb))

/-- The codec of a type whose values are single symbols of the stream. -/
def Codec.single (inj : α → β) (proj : β → Option α) (h : ∀ a, proj (inj a) = some a) :
    Codec β α where
  write a := [inj a]
  read
    | [] => none
    | b :: bs => (proj b).map fun a => (a, bs)
  read_write a rest := by simp [h]

/-- A number of rounds of a reader that updates a state. -/
def readTimes (f : σ → Reader β σ) : Nat → σ → Reader β σ
  | 0, s, bs => some (s, bs)
  | n + 1, s, bs => (f s bs).bind fun (s', bs') => readTimes f n s' bs'

/-- A collection: the number of its elements, and the elements. -/
def writeCollection (length : Codec β Nat) (count : Nat) (elements : List β) : List β :=
  length.write count ++ elements

def readCollection (length : Codec β Nat) (f : σ → Reader β σ) (s : σ) : Reader β σ := fun bs =>
  (length.read bs).bind fun (count, bs') => readTimes f count s bs'

@[simp] theorem readCollection_writeCollection (length : Codec β Nat) (f : σ → Reader β σ) (s : σ)
    (count : Nat) (elements rest : List β) :
    readCollection length f s (writeCollection length count elements ++ rest) =
      readTimes f count s (elements ++ rest) := by
  simp [readCollection, writeCollection]

variable {f : σ → Reader β σ} {w : α → List β} {g : σ → α → σ} {I : σ → Prop}

/-- Reading elements one by one folds the update over them, as long as it keeps the
    invariant under which an element can be read. -/
theorem readTimes_flatMap {l : List α}
    (hread : ∀ s, I s → ∀ a ∈ l, ∀ rest, f s (w a ++ rest) = some (g s a, rest))
    (hkeep : ∀ s, I s → ∀ a ∈ l, I (g s a)) {s : σ} (hs : I s) (rest : List β) :
    readTimes f l.length s (l.flatMap w ++ rest) = some (l.foldl g s, rest) := by
  induction l generalizing s with
  | nil => rfl
  | cons a l ih =>
    have hfirst := hread s hs a List.mem_cons_self (l.flatMap w ++ rest)
    have hrest := ih (fun s hs b hb => hread s hs b (List.mem_cons_of_mem a hb))
      (fun s hs b hb => hkeep s hs b (List.mem_cons_of_mem a hb))
      (hkeep s hs a List.mem_cons_self)
    rw [List.length_cons, List.flatMap_cons, List.append_assoc]
    show (f s (w a ++ (l.flatMap w ++ rest))).bind _ = _
    rw [hfirst]
    exact hrest

theorem readTimes_invariant (hstep : ∀ s bs s' bs', I s → f s bs = some (s', bs') → I s') :
    ∀ {n : Nat} {s s' : σ} {bs bs' : List β}, I s → readTimes f n s bs = some (s', bs') → I s' := by
  intro n
  induction n with
  | zero =>
    intro s s' bs bs' hs hread
    cases hread
    exact hs
  | succ n ih =>
    intro s s' bs bs' hs hread
    obtain ⟨⟨s₁, bs₁⟩, hfirst, hrest⟩ := Option.bind_eq_some_iff.mp hread
    exact ih (hstep s bs s₁ bs₁ hs hfirst) hrest

end AxonCore.Lib
