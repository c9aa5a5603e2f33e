import F1r3fly.Rholang.Accounting.Costs

/-! Which charges are below zero. -/
namespace F1r3fly.Rholang.Accounting

/-- What the numbers of a charge have to be for it not to be negative. Most sites have no
condition; those that have one read a number of the program, or multiply two lengths. -/
def ChargeSite.InRange : ChargeSite → Prop
  | slice until_ => 0 ≤ until_.toInt
  | take until_ => 0 ≤ until_.toInt
  | dropHead n => n.val ≤ 3074457345618258602 ∨ 6148914691236517206 ≤ n.val
  | interpolate strLength mapSize => strLength.val * mapSize.val % 2 ^ 64 < 2 ^ 63
  | _ => True

theorem i64_nonneg_iff (length : Nat) : 0 ≤ (i64 length).toInt ↔ length % 2 ^ 64 < 2 ^ 63 := by
  have size_eq : Int64.size = 2 ^ 64 := rfl
  rw [i64, Int64.toInt_ofNat', Int.bmod_def, size_eq]
  split <;> omega

theorem max_nonneg {a b : Int64} (nonneg : 0 ≤ b.toInt) : 0 ≤ (max a b).toInt := by
  change 0 ≤ (if a ≤ b then b else a).toInt
  split_ifs with greater
  · exact nonneg
  · rw [Int64.le_iff_toInt_le] at greater
    omega

theorem size_nonneg (size : Size) : 0 ≤ (i64 size).toInt := i64_nonneg (by omega)

theorem sum_nonneg (fits : a + b < 2 ^ 63) : 0 ≤ (i64 a + i64 b).toInt := by
  rw [← i64_add]
  exact i64_nonneg fits

theorem product_nonneg (fits : a * b < 2 ^ 63) : 0 ≤ (i64 a * i64 b).toInt := by
  rw [← i64_mul]
  exact i64_nonneg fits

theorem dropHead_nonneg_iff (n : Fin (2 ^ 63)) :
    0 ≤ (unionCost (i64 n)).toInt ↔ n.val ≤ 3074457345618258602 ∨ 6148914691236517206 ≤ n.val := by
  have cost_eq : unionCost (i64 n) = i64 (3 * n) := (i64_mul 3 n).symm
  rw [cost_eq, i64_nonneg_iff]
  by_cases wraps : 2 ^ 64 ≤ 3 * n.val
  · rw [Nat.mod_eq_sub_mod wraps, Nat.mod_eq_of_lt (by omega)]
    omega
  · rw [Nat.mod_eq_of_lt (not_le.mp wraps)]
    omega

/-- The numbers for which a charge is not negative. -/
theorem ChargeSite.amount_nonneg_iff (site : ChargeSite) :
    0 ≤ site.amount.toInt ↔ site.InRange := by
  cases site with
  | slice until_ => rfl
  | take until_ => rfl
  | dropHead n => exact dropHead_nonneg_iff n
  | interpolate strLength mapSize =>
    rw [amount, interpolateCost, ← i64_mul, i64_nonneg_iff]
    rfl
  | newBindings bindCount =>
    refine iff_of_true ?_ trivial
    have cost_eq : newBindingsCost (i64 bindCount) = i64 (2 * bindCount + 10) := by
      rw [i64_add, i64_mul]
      rfl
    rw [amount, cost_eq]
    exact i64_nonneg (by omega)
  | union elements | diff elements => exact iff_of_true (product_nonneg (a := 3) (by omega)) trivial
  | stringAppend n m => exact iff_of_true (sum_nonneg (by omega)) trivial
  | equalityCheck sizeX sizeY => exact iff_of_true (i64_nonneg (by omega)) trivial
  | byteArrayAppend length =>
    refine iff_of_true ?_ trivial
    rw [amount, byteArrayAppendCost]
    split_ifs
    · decide
    · have log_le := Nat.log_le_self 10 length.val
      exact i64_nonneg (by omega)
  | substitution | toByteArray | hexToBytes | bytesToHex | listAppend | sizeMethod | toList =>
    exact iff_of_true (size_nonneg _) trivial
  | bigintComparison | bigratComparison | bigintNegation | bigratNegation | bigintMultiplication
  | bigratMultiplication | bigintDivision | bigratDivision | bigintModulo | bigintSum | bigratSum
  | bigintSubtraction | bigratSubtraction => exact iff_of_true (max_nonneg (by decide)) trivial
  | _ => exact iff_of_true (by decide) trivial

end F1r3fly.Rholang.Accounting
