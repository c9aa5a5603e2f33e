import Mathlib.Algebra.Order.BigOperators.Group.List
import Mathlib.Algebra.Order.Ring.Int

/-! Arithmetic on 64 bit numbers that reports what does not fit, or stops at the ends. -/
namespace F1r3fly

open Int64

def checkedAdd (a b : Int64) : Option Int64 :=
  if minValue.toInt ≤ a.toInt + b.toInt ∧ a.toInt + b.toInt ≤ maxValue.toInt then
    some (a + b)
  else none

variable {a b : Int64}

theorem checkedAdd_toInt (added : checkedAdd a b = some result) :
    result.toInt = a.toInt + b.toInt := by
  rw [checkedAdd] at added
  split at added
  case isTrue range =>
    cases added
    have upper : a.toInt + b.toInt < 2 ^ 63 := by
      have max_eq : maxValue.toInt = 2 ^ 63 - 1 := by decide
      omega
    rw [← toInt_ofInt_of_le range.1 upper, ofInt_add, ofInt_toInt, ofInt_toInt]
  case isFalse => cases added

theorem checkedAdd_of_fits (lower : -2 ^ 63 ≤ a.toInt + b.toInt)
    (upper : a.toInt + b.toInt < 2 ^ 63) : checkedAdd a b = some (a + b) := by
  have max_eq : maxValue.toInt = 2 ^ 63 - 1 := by decide
  have min_eq : minValue.toInt = -2 ^ 63 := by decide
  rw [checkedAdd, if_pos]
  omega

section Sums

variable {α : Type} {summand : α → Int64} {items : List α} {start : Int64}

theorem foldlM_checkedAdd_toInt
    (folded : items.foldlM (fun acc item => checkedAdd acc (summand item)) start = some total) :
    total.toInt = start.toInt + (items.map fun item => (summand item).toInt).sum := by
  induction items generalizing start with
  | nil =>
    cases folded
    simp
  | cons item rest ih =>
    obtain ⟨next, added, rest_eq⟩ := Option.bind_eq_some_iff.mp folded
    rw [ih rest_eq, checkedAdd_toInt added, List.map_cons, List.sum_cons, add_assoc]

/-- A loop of checked additions returns, in whichever order the summands come, if the positive
ones and the negative ones fit on their own. -/
theorem foldlM_checkedAdd_isSome
    (lower : -2 ^ 63 ≤ start.toInt + (items.map fun item => min (summand item).toInt 0).sum)
    (upper : start.toInt + (items.map fun item => max (summand item).toInt 0).sum < 2 ^ 63) :
    (items.foldlM (fun acc item => checkedAdd acc (summand item)) start).isSome := by
  induction items generalizing start with
  | nil => rfl
  | cons item rest ih =>
    rw [List.map_cons, List.sum_cons] at lower upper
    have rest_nonpos : (rest.map fun item => min (summand item).toInt 0).sum ≤ 0 :=
      (List.sum_le_sum fun item _ => min_le_right _ 0).trans_eq (by simp)
    have rest_nonneg : 0 ≤ (rest.map fun item => max (summand item).toInt 0).sum :=
      List.sum_nonneg fun value listed => by
        obtain ⟨other, -, rfl⟩ := List.mem_map.mp listed
        exact le_max_right _ _
    have added : checkedAdd start (summand item) = some (start + summand item) :=
      checkedAdd_of_fits (by omega) (by omega)
    have added_toInt := checkedAdd_toInt added
    rw [List.foldlM_cons, added]
    exact ih (by omega) (by omega)

end Sums

/-- Stops at the least and the largest number. -/
def saturatingSub (a b : Int64) : Int64 :=
  if maxValue.toInt < a.toInt - b.toInt then maxValue
  else if a.toInt - b.toInt < minValue.toInt then minValue
  else a - b

theorem toInt_sub_of_fits (lower : -2 ^ 63 ≤ a.toInt - b.toInt)
    (upper : a.toInt - b.toInt < 2 ^ 63) : (a - b).toInt = a.toInt - b.toInt := by
  rw [← toInt_ofInt_of_le lower upper, ofInt_sub, ofInt_toInt, ofInt_toInt]

theorem toInt_mul_of_fits (lower : -2 ^ 63 ≤ a.toInt * b.toInt)
    (upper : a.toInt * b.toInt < 2 ^ 63) : (a * b).toInt = a.toInt * b.toInt := by
  rw [← toInt_ofInt_of_le lower upper, ofInt_mul, ofInt_toInt, ofInt_toInt]

theorem toNat_toUInt64 (nonneg : 0 ≤ a.toInt) : (a.toUInt64.toNat : ℤ) = a.toInt := by
  have zero_le : 0 ≤ a := le_iff_toInt_le.mpr nonneg
  rw [toNat_toUInt64_of_le zero_le, toNatClampNeg, Int.toNat_of_nonneg nonneg]

theorem saturatingSub_of_fits (lower : -2 ^ 63 ≤ a.toInt - b.toInt)
    (upper : a.toInt - b.toInt < 2 ^ 63) : (saturatingSub a b).toInt = a.toInt - b.toInt := by
  have max_eq : maxValue.toInt = 2 ^ 63 - 1 := by decide
  have min_eq : minValue.toInt = -2 ^ 63 := by decide
  rw [saturatingSub, if_neg (by rw [max_eq]; omega), if_neg (by rw [min_eq]; omega),
    toInt_sub_of_fits lower upper]

/-- The difference is only ever rounded down, or up when it is below all numbers. -/
theorem saturatingSub_cases (a b : Int64) :
    (saturatingSub a b).toInt = min (a.toInt - b.toInt) (2 ^ 63 - 1) ∨
      (saturatingSub a b).toInt = -2 ^ 63 ∧ a.toInt - b.toInt < -2 ^ 63 := by
  have max_eq : maxValue.toInt = 2 ^ 63 - 1 := by decide
  have min_eq : minValue.toInt = -2 ^ 63 := by decide
  by_cases above : 2 ^ 63 - 1 < a.toInt - b.toInt
  · left
    rw [saturatingSub, if_pos (by rw [max_eq]; exact above), max_eq, min_eq_right above.le]
  · by_cases below : a.toInt - b.toInt < -2 ^ 63
    · right
      rw [saturatingSub, if_neg (by rw [max_eq]; exact above), if_pos (by rw [min_eq]; exact below)]
      exact ⟨min_eq, below⟩
    · left
      rw [saturatingSub_of_fits (not_lt.mp below) (by omega), min_eq_left (not_lt.mp above)]

end F1r3fly
