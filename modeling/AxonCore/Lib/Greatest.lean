import Mathlib.Data.List.Induction
import Mathlib.Order.Compare

/-! # Keeping the greatest value

    A register keeps one value and replaces it only by a greater one.  The comparison
    may take different values for equal, so a greatest value need not be unique: the
    register keeps the first.

    * `keepGreater`: the update of the register.
    * `Greatest cmp P o`: `o` is a greatest value among those with `P`, or there are none.
    * `greatestOf`: the register after a list of values. -/

namespace AxonCore.Lib

open Std Option

variable {α : Type} (cmp : α → α → Ordering)

/-- The new value if it is greater than the current one, or if there is none. -/
def keepGreater (current : Option α) (a : α) : α :=
  match current with
  | none => a
  | some c => if cmp a c = .gt then a else c

/-- A greatest value of those with `P`, or `none` if there are none. -/
def Greatest (P : α → Prop) : Option α → Prop
  | none => ∀ a, ¬ P a
  | some a => P a ∧ ∀ b, P b → (cmp b a).isLE

/-- The register after a list of values. -/
def greatestOf (l : List α) : Option α :=
  l.foldl (fun current a => some (keepGreater cmp current a)) none

variable {cmp}

theorem keepGreater_mem (cmp : α → α → Ordering) (current : Option α) (a : α) :
    keepGreater cmp current a = a ∨ some (keepGreater cmp current a) = current := by
  cases current with
  | none => exact .inl rfl
  | some c =>
    by_cases h : cmp a c = .gt
    · exact .inl (if_pos h)
    · exact .inr (congrArg some (if_neg h))

theorem isLE_keepGreater (cmp : α → α → Ordering) [TransCmp cmp] (current : Option α) (a : α) :
    (cmp a (keepGreater cmp current a)).isLE ∧
      ∀ c ∈ current, (cmp c (keepGreater cmp current a)).isLE := by
  cases current with
  | none => exact ⟨ReflCmp.isLE_rfl, fun _ hc => nomatch hc⟩
  | some c =>
    unfold keepGreater
    dsimp only
    split_ifs with h
    · refine ⟨ReflCmp.isLE_rfl, fun c' hc' => ?_⟩
      obtain rfl := some.inj hc'
      exact Ordering.ne_gt_iff_isLE.mp (OrientedCmp.not_gt_of_gt h)
    · refine ⟨Ordering.ne_gt_iff_isLE.mp h, fun c' hc' => ?_⟩
      obtain rfl := some.inj hc'
      exact ReflCmp.isLE_rfl

variable [TransCmp cmp] {P Q : α → Prop} {o : Option α}

/-- A greatest value stays one when values are added that are below one of the old. -/
theorem Greatest.extend (h : Greatest cmp P o) (hsub : ∀ a, P a → Q a)
    (hbelow : ∀ b, Q b → ∃ a, P a ∧ (cmp b a).isLE) : Greatest cmp Q o := by
  cases o with
  | none =>
    intro b hb
    obtain ⟨a, ha, _⟩ := hbelow b hb
    exact h a ha
  | some c =>
    refine ⟨hsub c h.1, fun b hb => ?_⟩
    obtain ⟨a, ha, hle⟩ := hbelow b hb
    exact TransCmp.isLE_trans hle (h.2 a ha)

theorem Greatest.congr (h : Greatest cmp P o) (hiff : ∀ a, P a ↔ Q a) : Greatest cmp Q o :=
  h.extend (fun a ha => (hiff a).mp ha) (fun b hb => ⟨b, (hiff b).mpr hb, ReflCmp.isLE_rfl⟩)

theorem Greatest.keep (h : Greatest cmp P o) (a : α) :
    Greatest cmp (fun b => P b ∨ b = a) (some (keepGreater cmp o a)) := by
  obtain ⟨hnew, hold⟩ := isLE_keepGreater cmp o a
  constructor
  · rcases keepGreater_mem cmp o a with heq | heq
    · exact .inr heq
    · rw [← heq] at h
      exact .inl h.1
  · intro b hb
    rcases hb with hb | rfl
    · cases o with
      | none => exact absurd hb (h b)
      | some c => exact TransCmp.isLE_trans (h.2 b hb) (hold c rfl)
    · exact hnew

theorem Greatest.unique {o' : Option α} (h : Greatest cmp P o) (h' : Greatest cmp P o')
    (heq : ∀ a b, P a → P b → cmp a b = .eq → a = b) : o = o' := by
  cases o with
  | none =>
    cases o' with
    | none => rfl
    | some b => exact absurd h'.1 (h b)
  | some a =>
    cases o' with
    | none => exact absurd h.1 (h' a)
    | some b =>
      have hab := h'.2 a h.1
      have hba := h.2 b h'.1
      rw [heq a b h.1 h'.1 (OrientedCmp.isLE_antisymm hab hba)]

omit [TransCmp cmp] in
theorem greatestOf_append_singleton (l : List α) (a : α) :
    greatestOf cmp (l ++ [a]) = some (keepGreater cmp (greatestOf cmp l) a) := by
  simp [greatestOf]

theorem greatest_greatestOf (cmp : α → α → Ordering) [TransCmp cmp] (l : List α) :
    Greatest cmp (· ∈ l) (greatestOf cmp l) := by
  induction l using List.reverseRecOn with
  | nil => exact fun a ha => List.not_mem_nil ha
  | append_singleton l a ih =>
    rw [greatestOf_append_singleton]
    apply (ih.keep a).congr
    intro b
    simp

end AxonCore.Lib
