import Mathlib.Algebra.Order.BigOperators.Group.List
import Mathlib.Algebra.Order.Group.Nat
import Mathlib.Data.Nat.ModEq
import AxonCore.Lib.Keyed

/-! # Totals over a map

    `total f m` is the sum of `f v` over the values of a map.

    * `total_insert_of_none`, `total_insert_of_some`: what setting an entry does to a total
      that is kept beside the map.
    * `total_mono`, `total_congr`: the total of a map with fewer, or the same, entries.
    * `sum_map_div_le`: shares that are rounded down one by one add up to at most the whole. -/

namespace AxonCore.Lib

open List

variable {κ ν : Type}

def total (f : ν → Nat) (m : Map κ ν) : Nat := (m.entries.map fun e => f e.2).sum

@[simp] theorem total_empty (f : ν → Nat) : total f (∅ : Map κ ν) = 0 := rfl

variable [DecidableEq κ] (f : ν → Nat) {m n : Map κ ν} {k : κ}

private theorem sum_kerase {l : List (Sigma fun _ : κ => ν)} {v : ν}
    (h : l.dlookup k = some v) :
    ((l.kerase k).map fun e => f e.2).sum + f v = (l.map fun e => f e.2).sum := by
  induction l with
  | nil => cases h
  | cons e l ih =>
    obtain ⟨j, w⟩ := e
    by_cases hk : k = j
    · subst hk
      rw [dlookup_cons_eq, Option.some.injEq] at h
      have hkerase : kerase k (⟨k, w⟩ :: l) = l := kerase_cons_eq rfl
      rw [hkerase, map_cons, sum_cons, h]
      exact Nat.add_comm _ _
    · rw [dlookup_cons_ne _ _ hk] at h
      rw [kerase_cons_ne hk, map_cons, map_cons, sum_cons, sum_cons]
      have hih := ih h
      omega

theorem total_insert_of_none (h : m.lookup k = none) (v : ν) :
    total f (m.insert k v) = total f m + f v := by
  have hnotin : k ∉ m.entries.keys := dlookup_eq_none.mp h
  unfold total
  rw [AList.entries_insert, kerase_of_notMem_keys hnotin, map_cons, sum_cons]
  exact Nat.add_comm _ _

theorem total_insert_of_some {w : ν} (h : m.lookup k = some w) (v : ν) :
    total f (m.insert k v) + f w = total f m + f v := by
  have hkerase := sum_kerase f h
  unfold total
  rw [AList.entries_insert, map_cons, sum_cons]
  simp only
  omega

theorem total_mono (h : ∀ j v, m.lookup j = some v → n.lookup j = some v) :
    total f m ≤ total f n := by
  have hsubset : m.entries ⊆ n.entries := by
    intro e he
    exact AList.mem_lookup_iff.mp (h e.1 e.2 (AList.mem_lookup_iff.mpr he))
  obtain ⟨l, hperm, hsub⟩ := subperm_of_subset m.nodupKeys.nodup hsubset
  unfold total
  rw [← (hperm.map fun e => f e.2).sum_eq]
  exact (hsub.map fun e => f e.2).sum_le_sum (fun _ _ => Nat.zero_le _)

theorem total_congr (h : ∀ j, m.lookup j = n.lookup j) : total f m = total f n :=
  Nat.le_antisymm (total_mono f fun j _ hj => (h j) ▸ hj) (total_mono f fun j _ hj => (h j) ▸ hj)

/-- Quotients that are rounded down add up to at most the quotient of the sum. -/
theorem sum_map_div_le {α : Type} (g : α → Nat) (k : Nat) (l : List α) :
    (l.map fun x => g x / k).sum ≤ (l.map g).sum / k := by
  induction l with
  | nil => simp
  | cons x l ih =>
    rw [map_cons, map_cons, sum_cons, sum_cons]
    calc g x / k + (l.map fun x => g x / k).sum ≤ g x / k + (l.map g).sum / k :=
          Nat.add_le_add_left ih _
      _ ≤ (g x + (l.map g).sum) / k := Nat.div_add_div_le_add_div

end AxonCore.Lib
