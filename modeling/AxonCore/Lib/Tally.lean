import Mathlib.Data.List.Count
import AxonCore.Lib.Keyed

/-! # Counting votes

    Votes are counted in a map, and the map is searched for the highest count.  The
    search takes the first of several leaders, so the result may depend on the order in
    which the map is iterated; a leader with a majority of the votes does not.

    * `tally`: the counts of a list of votes.
    * `leader`: the value with the highest count, and the count.
    * `leader_snd_perm`: the highest count does not depend on the order of the votes, nor on
      that of the search.
    * `leader_perm`: nor does the leader, if it has a majority. -/

namespace AxonCore.Lib

open List

variable {α : Type} [DecidableEq α] {l l' : List α}

/-- The number of times that each value occurs. -/
def tally (l : List α) : Map α Nat :=
  l.foldl (fun m a => m.insert a ((m.lookup a).getD 0 + 1)) ∅

theorem getD_lookup_tally (l : List α) (a : α) : ((tally l).lookup a).getD 0 = l.count a := by
  have hfold : ∀ (l : List α) (m : Map α Nat),
      ((l.foldl (fun m a => m.insert a ((m.lookup a).getD 0 + 1)) m).lookup a).getD 0 =
        (m.lookup a).getD 0 + l.count a := by
    intro l
    induction l with
    | nil => exact fun m => rfl
    | cons b l ih =>
      intro m
      rw [foldl_cons, ih, lookup_insert_eq]
      by_cases hab : a = b
      · subst hab
        rw [if_pos rfl, count_cons_self]
        show (m.lookup a).getD 0 + 1 + l.count a = _
        omega
      · rw [if_neg hab, count_cons_of_ne (Ne.symm hab)]
  have h := hfold l ∅
  rw [AList.lookup_empty] at h
  exact h.trans (Nat.zero_add _)

theorem count_add_count_le {a b : α} (hab : a ≠ b) (l : List α) :
    l.count a + l.count b ≤ l.length := by
  induction l with
  | nil => exact Nat.le_refl 0
  | cons c l ih =>
    rw [count_cons, count_cons, length_cons]
    by_cases hca : c = a
    · subst hca
      simp only [beq_self_eq_true, if_true, beq_iff_eq, if_neg hab]
      omega
    · simp only [beq_iff_eq, if_neg hca]
      split <;> omega

/-- The value with the highest count, or the default with count 0, if the values are looked
    at in a given order. -/
def leader (default : α) (order : List α) (m : Map α Nat) : α × Nat :=
  order.foldl (fun best a =>
    if best.2 < (m.lookup a).getD 0 then (a, (m.lookup a).getD 0) else best) (default, 0)

variable (default : α) {order order' : List α}

theorem getD_lookup_le_leader {m : Map α Nat} (horder : ∀ a ∈ m.keys, a ∈ order) (a : α) :
    (m.lookup a).getD 0 ≤ (leader default order m).2 := by
  have hfold : ∀ (order : List α) (best : α × Nat), best.2 ≤ (order.foldl (fun best a =>
        if best.2 < (m.lookup a).getD 0 then (a, (m.lookup a).getD 0) else best) best).2 ∧
      ∀ a ∈ order, (m.lookup a).getD 0 ≤ (order.foldl (fun best a =>
        if best.2 < (m.lookup a).getD 0 then (a, (m.lookup a).getD 0) else best) best).2 := by
    intro order
    induction order with
    | nil => exact fun best => ⟨Nat.le_refl _, fun a ha => nomatch ha⟩
    | cons b order ih =>
      intro best
      obtain ⟨hbest, hrest⟩ := ih (if best.2 < (m.lookup b).getD 0 then
        (b, (m.lookup b).getD 0) else best)
      rw [foldl_cons, forall_mem_cons]
      split_ifs at hbest hrest ⊢ with hlt
      · exact ⟨Nat.le_trans (Nat.le_of_lt hlt) hbest, hbest, hrest⟩
      · exact ⟨hbest, Nat.le_trans (Nat.le_of_not_lt hlt) hbest, hrest⟩
  by_cases ha : a ∈ m.keys
  · exact (hfold order _).2 a (horder a ha)
  · rw [AList.lookup_eq_none.mpr ha]
    exact Nat.zero_le _

theorem getD_lookup_leader {m : Map α Nat} (hpos : 0 < (leader default order m).2) :
    (m.lookup (leader default order m).1).getD 0 = (leader default order m).2 := by
  refine foldlRecOn (motive := fun best : α × Nat => 0 < best.2 →
    (m.lookup best.1).getD 0 = best.2) _ _ nofun (fun best hbest a _ => ?_) hpos
  by_cases hlt : best.2 < (m.lookup a).getD 0
  · rw [if_pos hlt]
    exact fun _ => rfl
  · rw [if_neg hlt]
    exact hbest

section

variable (horder : ∀ a ∈ (tally l).keys, a ∈ order) (horder' : ∀ a ∈ (tally l').keys, a ∈ order')

include horder in
theorem count_le_leader (a : α) : l.count a ≤ (leader default order (tally l)).2 := by
  rw [← getD_lookup_tally]
  exact getD_lookup_le_leader default horder a

theorem count_leader (l : List α) (h : 0 < (leader default order (tally l)).2) :
    l.count (leader default order (tally l)).1 = (leader default order (tally l)).2 := by
  rw [← getD_lookup_tally, getD_lookup_leader default h]

theorem leader_snd_le_length (l : List α) : (leader default order (tally l)).2 ≤ l.length := by
  rcases Nat.eq_zero_or_pos (leader default order (tally l)).2 with hzero | hpos
  · omega
  · rw [← count_leader default l hpos]
    exact count_le_length

include horder horder'

theorem leader_snd_perm (h : l.Perm l') :
    (leader default order (tally l)).2 = (leader default order' (tally l')).2 := by
  have hle : ∀ {l l' order order' : List α}, (∀ a ∈ (tally l').keys, a ∈ order') → l.Perm l' →
      (leader default order (tally l)).2 ≤ (leader default order' (tally l')).2 := by
    intro l l' order order' horder' h
    rcases Nat.eq_zero_or_pos (leader default order (tally l)).2 with hzero | hpos
    · omega
    · rw [← count_leader default l hpos, h.count_eq]
      exact count_le_leader default horder' _
  exact Nat.le_antisymm (hle horder' h) (hle horder h.symm)

/-- Two values cannot both have a majority. -/
theorem leader_perm (h : l.Perm l')
    (hmajority : l.length < 2 * (leader default order (tally l)).2) :
    leader default order (tally l) = leader default order' (tally l') := by
  have hcount := leader_snd_perm default horder horder' h
  apply Prod.ext _ hcount
  by_contra hne
  have hsum := count_add_count_le hne l
  rw [count_leader default l (by omega), h.count_eq (leader default order' (tally l')).1,
    count_leader default l' (by omega)] at hsum
  omega

end

end AxonCore.Lib
