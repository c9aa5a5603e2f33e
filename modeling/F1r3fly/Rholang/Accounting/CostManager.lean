import F1r3fly.Data.MachineInt
import F1r3fly.Rholang.Errors

/-! The balance of phlogistons that all the branches of an evaluation share. -/
namespace F1r3fly.Rholang.Accounting

/-- A balance below zero stays as it is. -/
def charge (current amount : Int64) : Except InterpreterError Unit × Int64 :=
  if current < 0 then (.error .outOfPhlogistonsError, current)
  else
    let value := saturatingSub current amount
    if value < 0 then (.error .outOfPhlogistonsError, value) else (.ok (), value)

/-- The balance has enough for the amount, and does not grow beyond its largest value. -/
def Affords (current amount : Int64) : Prop :=
  0 ≤ current.toInt ∧ 0 ≤ current.toInt - amount.toInt ∧ current.toInt - amount.toInt < 2 ^ 63

instance (current amount : Int64) : Decidable (Affords current amount) :=
  inferInstanceAs (Decidable (_ ∧ _))

variable {current amount : Int64}

theorem nonneg_iff {value : Int64} : ¬ value < 0 ↔ 0 ≤ value.toInt := by
  rw [Int64.lt_iff_toInt_lt, Int64.toInt_zero, not_lt]

theorem charge_of_affords (affords : Affords current amount) :
    ∃ value, charge current amount = (.ok (), value) ∧
      value.toInt = current.toInt - amount.toInt := by
  obtain ⟨current_nonneg, left_nonneg, left_lt⟩ := affords
  have value_eq : (saturatingSub current amount).toInt = current.toInt - amount.toInt :=
    saturatingSub_of_fits (by omega) left_lt
  refine ⟨saturatingSub current amount, ?_, value_eq⟩
  rw [charge, if_neg (nonneg_iff.mpr current_nonneg)]
  rw [if_neg (nonneg_iff.mpr (by omega))]

theorem charge_value (current amount : Int64) :
    charge current amount = (.error .outOfPhlogistonsError, current) ∨
      0 ≤ current.toInt ∧
        (charge current amount).2.toInt = min (current.toInt - amount.toInt) (2 ^ 63 - 1) := by
  by_cases negative : current < 0
  · exact .inl (by rw [charge, if_pos negative])
  · right
    have current_nonneg := nonneg_iff.mp negative
    refine ⟨current_nonneg, ?_⟩
    have value_eq : (charge current amount).2 = saturatingSub current amount := by
      rw [charge, if_neg negative]
      dsimp only
      split <;> rfl
    rw [value_eq]
    have amount_lt := Int64.toInt_lt amount
    rcases saturatingSub_cases current amount with rounded | ⟨-, below⟩
    · exact rounded
    · exfalso
      omega

/-- A balance that has grown was charged a negative amount. -/
theorem le_of_charge_rises (rises : current.toInt < (charge current amount).2.toInt) :
    (charge current amount).2.toInt ≤ current.toInt - amount.toInt := by
  obtain stopped | ⟨-, value_eq⟩ := charge_value current amount
  · rw [stopped] at rises
    exact absurd rises (lt_irrefl _)
  · rw [value_eq]
    exact min_le_left _ _

theorem charge_error
    (failed : charge current amount = (.error error, value)) : error = .outOfPhlogistonsError := by
  rw [charge] at failed
  split_ifs at failed
  · cases failed; rfl
  · dsimp only at failed
    split at failed <;> cases failed
    rfl

/-- A charge that does not fail leaves a balance that is not negative. -/
theorem charge_ok (succeeded : (charge current amount).1 = .ok ()) :
    0 ≤ (charge current amount).2.toInt := by
  rw [charge] at succeeded ⊢
  split at succeeded
  case isTrue => cases succeeded
  case isFalse not_negative =>
    rw [if_neg not_negative]
    dsimp only at succeeded ⊢
    split at succeeded
    case isTrue => cases succeeded
    case isFalse left_nonneg =>
      rw [if_neg left_nonneg]
      exact nonneg_iff.mp left_nonneg

end F1r3fly.Rholang.Accounting
