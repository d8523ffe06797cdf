import AxonCore.Scheduler.Selection
import Mathlib.Algebra.Order.Ring.Int

/-! # Deficits and rounds

    What the arithmetic of the selection computes when deficits are between 0 and
    `maxDeficit`: an increment is capped and never fails, and the rounds that an issuer needs
    are found by a division that is exact from zero rounds on.  Below zero it is not: an issuer
    that needs no round at all gets a negative number if its deficit exceeds the cost by enough
    quanta. -/

namespace AxonCore.Drr

open AxonCore.Lib

variable {ID : Type} [DecidableEq ID]

theorem maxDeficit_eq : maxDeficit = 2 ^ 62 - 1 := by decide

/-- No block costs more than `maxDeficit`, and the product does not overflow. -/
theorem Params.deficitFromWork_le {ID : Type} (p : Params ID) {work : Nat}
    (hwork : work ≤ p.maxBlockWork) :
    0 ≤ p.deficitFromWork work ∧ p.deficitFromWork work ≤ maxDeficit := by
  have hpos : (0 : Int) < p.maxBlockWork := by exact_mod_cast p.maxBlockWork_pos
  have hwork' : (work : Int) ≤ p.maxBlockWork := by exact_mod_cast hwork
  have hfactor : 0 ≤ maxDeficit / (p.maxBlockWork : Int) :=
    Int.ediv_nonneg (by decide) (Int.le_of_lt hpos)
  have hnonneg : 0 ≤ (work : Int) * (maxDeficit / p.maxBlockWork) :=
    Int.mul_nonneg (Int.natCast_nonneg work) hfactor
  have hle : (work : Int) * (maxDeficit / p.maxBlockWork) ≤ maxDeficit :=
    calc (work : Int) * (maxDeficit / p.maxBlockWork)
        ≤ p.maxBlockWork * (maxDeficit / p.maxBlockWork) :=
          Int.mul_le_mul_of_nonneg_right hwork' hfactor
      _ ≤ maxDeficit := Int.mul_ediv_self_le (Int.ne_of_gt hpos)
  have hword : IsInt64 ((work : Int) * (maxDeficit / p.maxBlockWork)) := by
    rw [maxDeficit_eq] at hle hnonneg ⊢
    constructor <;> omega
  unfold deficitFromWork
  rw [wrapInt64_of_isInt64 hword]
  exact ⟨hnonneg, hle⟩

namespace Scheduler

variable {s : Scheduler ID} {id : ID} {d cost quantum : Int}

/-! ## Section 1: Increments -/

/-- An increment stops at `maxDeficit`, also where the sum overflows. -/
theorem updateDeficit_add (hd : s.deficits.lookup id = some d) (hnonneg : 0 ≤ d) {delta : Int}
    (hdelta : 0 ≤ delta) : s.updateDeficit id delta =
      some (s.setDeficit id (min maxDeficit (d + delta)), min maxDeficit (d + delta)) := by
  unfold updateDeficit safeAddInt64
  rw [hd, Option.bind_some]
  by_cases hword : IsInt64 (d + delta)
  · rw [if_pos hword]
    by_cases hmax : maxDeficit ≤ d + delta
    · simp only [if_pos hmax, Int.min_eq_left hmax]
    · have hpos : ¬ d + delta < 0 := by omega
      simp only [if_neg hmax, if_neg hpos, Int.min_eq_right (Int.le_of_lt (Int.not_le.mp hmax))]
  · have hmax : maxDeficit ≤ d + delta := by
      rw [maxDeficit_eq]
      unfold IsInt64 at hword
      omega
    simp only [if_neg hword, Int.min_eq_left hmax]

theorem updateDeficit_sub (hd : s.deficits.lookup id = some d) (hle : d ≤ maxDeficit)
    (hcost : 0 ≤ cost) (hcovers : cost ≤ d) :
    s.updateDeficit id (wrapInt64 (-cost)) = some (s.setDeficit id (d - cost), d - cost) := by
  rw [maxDeficit_eq] at hle
  have hwrap : wrapInt64 (-cost) = -cost := by
    apply wrapInt64_of_isInt64
    constructor <;> omega
  have hword : IsInt64 (d + -cost) := by constructor <;> omega
  have hpos : ¬ d - cost < 0 := by omega
  unfold updateDeficit safeAddInt64
  rw [hd, Option.bind_some, hwrap, if_pos hword, ← Int.sub_eq_add_neg]
  by_cases hmax : maxDeficit ≤ d - cost
  · have heq : maxDeficit = d - cost := by
      rw [maxDeficit_eq] at hmax ⊢
      omega
    simp only [if_pos hmax]
    rw [heq]
  · simp only [if_neg hmax, if_neg hpos]

theorem incrementDeficit_eq {p : Params ID} (hquantum : 1 ≤ p.quantum id)
    (hd : s.deficits.lookup id = some d) (hnonneg : 0 ≤ d) {rounds : Int} (hrounds : 0 ≤ rounds) :
    s.incrementDeficit p id rounds =
      some (s.setDeficit id (min maxDeficit (d + rounds * p.quantum id)),
        min maxDeficit (d + rounds * p.quantum id)) := by
  have hprod : 0 ≤ p.quantum id * rounds := Int.mul_nonneg (by omega) hrounds
  unfold incrementDeficit safeMulInt64
  rw [Int.mul_comm rounds]
  by_cases hword : IsInt64 (p.quantum id * rounds)
  · simp only [if_pos hword]
    exact updateDeficit_add hd hnonneg hprod
  · -- the product overflows, so both sums exceed `maxDeficit`
    have hlarge : maxDeficit ≤ p.quantum id * rounds := by
      rw [maxDeficit_eq]
      unfold IsInt64 at hword
      omega
    simp only [if_neg hword]
    rw [updateDeficit_add hd hnonneg (by decide), Int.min_eq_left (by omega),
      Int.min_eq_left (by omega)]

/-! ## Section 2: Rounds -/

/-- How often the deficit covers the cost with one quantum more to spare, at least once. -/
def wholeQuanta (quantum cost deficit : Int) : Int := max 1 ((deficit - cost + 1) / quantum)

theorem tdiv_le_iff (hquantum : 1 ≤ quantum) (m : Nat) :
    (cost - d + (quantum - 1)).tdiv quantum ≤ m ↔ cost ≤ d + m * quantum := by
  have hm : 0 ≤ (m : Int) * quantum := Int.mul_nonneg (Int.natCast_nonneg m) (by omega)
  by_cases hneg : cost - d + (quantum - 1) < 0
  · -- the quotient of a negative number is at most zero
    have hquot : 0 ≤ (-(cost - d + (quantum - 1))).tdiv quantum :=
      Int.tdiv_nonneg (by omega) (by omega)
    rw [Int.neg_tdiv] at hquot
    constructor <;> intro _ <;> omega
  · rw [Int.tdiv_eq_ediv_of_nonneg (by omega), ← Int.lt_add_one_iff,
      Int.ediv_lt_iff_lt_mul (by omega), Int.add_mul, Int.one_mul]
    constructor <;> intro _ <;> omega

theorem tdiv_eq_of_covers (hquantum : 1 ≤ quantum) (hcovers : cost ≤ d) :
    (cost - d + (quantum - 1)).tdiv quantum = 1 - wholeQuanta quantum cost d := by
  unfold wholeQuanta
  by_cases hneg : cost - d + (quantum - 1) < 0
  · have hquot : (cost - d + (quantum - 1)).tdiv quantum =
        -((d - cost + 1 + -1 * quantum) / quantum) := by
      rw [show cost - d + (quantum - 1) = -(d - cost + 1 + -1 * quantum) by omega, Int.neg_tdiv,
        Int.tdiv_eq_ediv_of_nonneg (by omega)]
    have hone : 1 ≤ (d - cost + 1) / quantum :=
      (Int.le_ediv_iff_mul_le (by omega)).mpr (by omega)
    rw [hquot, Int.add_mul_ediv_right _ _ (by omega), Int.max_eq_right hone]
    omega
  · have hquot : (cost - d + (quantum - 1)).tdiv quantum = 0 := by
      rw [Int.tdiv_eq_ediv_of_nonneg (by omega)]
      exact Int.ediv_eq_zero_of_lt (by omega) (by omega)
    have hone : (d - cost + 1) / quantum ≤ 1 := by
      rw [← Int.lt_add_one_iff, Int.ediv_lt_iff_lt_mul (by omega)]
      omega
    rw [hquot, Int.max_eq_left hone]
    omega

/-- The rounds are right from zero on, and negative if the surplus is large enough. -/
theorem rounds_spec (hquantum : 1 ≤ quantum) (hword : quantum ≤ maxInt64)
    (hd : 0 ≤ d ∧ d ≤ maxDeficit) (hcost : 0 ≤ cost ∧ cost ≤ maxDeficit) :
    ∃ n, rounds quantum cost d = some n ∧ (∀ m : Nat, n ≤ m ↔ cost ≤ d + m * quantum) ∧
      (cost ≤ d → n = 1 - wholeQuanta quantum cost d) := by
  have hmax := maxDeficit_eq
  unfold maxInt64 at hword
  have hremaining : wrapInt64 (cost - d) = cost - d := by
    apply wrapInt64_of_isInt64
    constructor <;> omega
  have hpred : wrapInt64 (quantum - 1) = quantum - 1 := by
    apply wrapInt64_of_isInt64
    constructor <;> omega
  have hne : quantum ≠ 0 := by omega
  by_cases hsum : IsInt64 (cost - d + (quantum - 1))
  · refine ⟨(cost - d + (quantum - 1)).tdiv quantum, ?_, tdiv_le_iff hquantum,
      tdiv_eq_of_covers hquantum⟩
    have hquot : IsInt64 ((cost - d + (quantum - 1)).tdiv quantum) := by
      have habs := Int.natAbs_tdiv_le_natAbs (cost - d + (quantum - 1)) quantum
      unfold IsInt64 at hsum
      constructor <;> omega
    unfold rounds safeAddInt64 safeDivInt64
    simp only [hremaining, hpred, if_pos hsum, if_neg hne, if_pos hquot]
  · -- the sum overflows: the quantum is more than half of the range
    unfold IsInt64 at hsum
    have hquot : maxInt64.tdiv quantum = 1 := by
      unfold maxInt64
      rw [Int.tdiv_eq_ediv_of_nonneg (by omega), Int.ediv_eq_iff_of_pos (by omega)]
      omega
    refine ⟨1, ?_, ?_, ?_⟩
    · unfold rounds safeAddInt64 safeDivInt64 IsInt64
      simp only [hremaining, hpred, if_neg hsum, if_neg hne, hquot]
      rfl
    · intro m
      cases m with
      | zero => constructor <;> intro h <;> omega
      | succ m =>
        have hm : 0 ≤ (m : Int) * quantum := Int.mul_nonneg (Int.natCast_nonneg m) (by omega)
        push_cast
        rw [Int.add_mul, Int.one_mul]
        constructor <;> intro _ <;> omega
    · intro hcovers
      omega

end Scheduler

end AxonCore.Drr
