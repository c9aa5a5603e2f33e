import Mathlib.Tactic.Ring
import F1r3fly.Casper.Rholang.Runtime
import F1r3fly.Rholang.Accounting.Solvency

/-! What a deployer pays: the charge before the evaluation and the refund after it. -/
namespace F1r3fly.Casper

open Models Rholang Accounting

def checkPhloPrice (minPhloPrice : Int64) (data : DeployData) : Except String Unit :=
  if data.phloPrice < minPhloPrice then
    .error ("Phlo price " ++ toString data.phloPrice ++ " is less than minimum price " ++
      toString minPhloPrice ++ ".")
  else .ok ()

/-- The deployer has paid the price of the cost, in numbers that are not bounded. -/
structure PaidFor (data : DeployData) (result : EvaluateResult) (processed : ProcessedDeploy)
    (payments : Payments) : Prop where
  preCharge_eq : payments.preCharge.toInt = data.phloLimit.toInt * data.phloPrice.toInt
  cost_eq : (processed.cost.toNat : ℤ) = result.cost.toInt
  cost_le : result.cost.toInt ≤ data.phloLimit.toInt
  refund_eq : payments.refund.toInt =
    (data.phloLimit.toInt - result.cost.toInt) * data.phloPrice.toInt
  refund_nonneg : 0 ≤ payments.refund.toInt
  refund_le : payments.refund.toInt ≤ payments.preCharge.toInt
  kept_eq : payments.preCharge.toInt - payments.refund.toInt =
    result.cost.toInt * data.phloPrice.toInt

/-- The charge for the limit is not negative and fits. -/
structure Payable (data : DeployData) : Prop where
  limit_nonneg : 0 ≤ data.phloLimit.toInt
  charge_nonneg : 0 ≤ data.phloLimit.toInt * data.phloPrice.toInt
  charge_lt : data.phloLimit.toInt * data.phloPrice.toInt < 2 ^ 63

/-- No step of the reduction charges a negative amount, has a COMM that matches its term twice, or
takes what was stored before the deploy; and the balance can take every charge, or no step
aborts. -/
def Thrifty {O C : Type} [DecidableEq O] [DecidableEq C] (runtime : RhoRuntime O C)
    (data : DeployData) (schedule : List (List Nat)) : Prop :=
  ∀ balance terms, prepare runtime data.phloLimit data.term = .ok (balance, terms) →
    let Each := fun allowed => ForkJoin.Along (step runtime.choice) allowed schedule
      (runtime.shared balance) (start terms)
    Each runtime.choice.Sound ∧ Each (runtime.choice.Spares runtime.stored) ∧
      (Each runtime.choice.Affordable ∨ Each fun _ => NoAbort)

section Costs

variable {initialPhlo parsing left : Int64}

theorem charge_parsing (parsing_nonneg : 0 ≤ parsing.toInt)
    (charged : charge initialPhlo parsing = (.ok (), value)) :
    0 ≤ value.toInt ∧ value.toInt ≤ initialPhlo.toInt ∧ parsing.toInt ≤ initialPhlo.toInt := by
  have left_nonneg := charge_ok (congrArg Prod.fst charged)
  obtain stopped | ⟨-, value_eq⟩ := charge_value initialPhlo parsing
  · rw [charged] at stopped
    cases stopped
  · rw [charged] at left_nonneg value_eq
    dsimp only at left_nonneg value_eq
    omega

variable {O C : Type} {runtime : RhoRuntime O C} {term : String}

theorem prepare_ok (prepared : prepare runtime initialPhlo term = .ok (balance, terms)) :
    charge initialPhlo (parsingCost term.utf8ByteSize) = (.ok (), balance) := by
  rw [prepare] at prepared
  split at prepared
  case h_1 => cases prepared
  case h_2 charged =>
    split at prepared
    case h_1 => cases prepared
    case h_2 =>
      cases prepared
      exact charged

theorem prepare_error (parsing_nonneg : 0 ≤ (parsingCost term.utf8ByteSize).toInt)
    (stopped : prepare runtime initialPhlo term = .error (result, left)) :
    result = ⟨initialPhlo, [.outOfPhlogistonsError]⟩ ∨
      ∃ message, result = ⟨parsingCost term.utf8ByteSize, [.parserError message]⟩ ∧
        (parsingCost term.utf8ByteSize).toInt ≤ initialPhlo.toInt := by
  rw [prepare] at stopped
  split at stopped
  case h_1 charged =>
    cases stopped
    rw [charge_error charged]
    exact .inl rfl
  case h_2 charged =>
    split at stopped
    case h_1 message failed =>
      cases stopped
      exact .inr ⟨message, rfl, (charge_parsing parsing_nonneg charged).2.2⟩
    case h_2 => cases stopped

end Costs

section Payment

variable {O C : Type} [DecidableEq O] [DecidableEq C] {runtime : RhoRuntime O C}
  {deploy : Signed DeployData} {schedule : List (List Nat)} {result : EvaluateResult}
  {left : Int64}

theorem cost_bounds (fits : deploy.data.term.utf8ByteSize < 2 ^ 63)
    (evaluated : evaluate runtime deploy schedule = some (result, left))
    (limit_nonneg : 0 ≤ deploy.data.phloLimit.toInt)
    (thrifty : Thrifty runtime deploy.data schedule) :
    0 ≤ result.cost.toInt ∧ result.cost.toInt ≤ deploy.data.phloLimit.toInt := by
  have limit_lt := toInt_lt deploy.data.phloLimit
  have parsing_nonneg := i64_nonneg fits
  obtain stopped | ⟨balance, terms, shared, tree, outcome, prepared, ran, ended, rfl, rfl⟩ :=
    injAttempt_cases evaluated
  · obtain rfl | ⟨message, rfl, parsing_le⟩ := prepare_error parsing_nonneg stopped
    · exact ⟨limit_nonneg, le_rfl⟩
    · exact ⟨parsing_nonneg, parsing_le⟩
  · obtain ⟨balance_nonneg, balance_le, parsing_le⟩ :=
      charge_parsing parsing_nonneg (prepare_ok prepared)
    obtain ⟨sound, spares, told⟩ := thrifty balance terms prepared
    -- What an evaluation that reports its own cost has used.
    have used_bounds (own_cost : Verdict.ofResult outcome = .success ∨
        Verdict.ofResult outcome = .userAbort) :
        0 ≤ (deploy.data.phloLimit - shared.balance).toInt ∧
          (deploy.data.phloLimit - shared.balance).toInt ≤ deploy.data.phloLimit.toInt := by
      obtain ⟨left_nonneg, left_le⟩ :=
        balance_bounds balance_nonneg ran ended sound spares told own_cost
      rw [RhoRuntime.shared] at left_le
      dsimp only at left_le
      rw [toInt_sub_of_fits (by omega) (by omega)]
      omega
    cases outcome with
    | none => exact used_bounds (.inl rfl)
    | some error =>
      -- An error reports the cost of the parsing, the limit, or for an abort what was used.
      cases error with
      | userAbortError => exact used_bounds (.inr rfl)
      | parserError | operatorNotDefined | operatorExpectedError =>
        exact ⟨parsing_nonneg, parsing_le⟩
      | _ => exact ⟨limit_nonneg, le_rfl⟩

theorem max_zero {a : Int64} (nonneg : 0 ≤ a.toInt) : max a 0 = a := by
  change (if a ≤ 0 then 0 else a) = a
  split_ifs with le
  · rw [le_iff_toInt_le, toInt_zero] at le
    exact Int64.toInt_inj.mp (by rw [toInt_zero]; omega)
  · rfl

theorem part_bounds {limit cost price : ℤ} (cost_nonneg : 0 ≤ cost) (cost_le : cost ≤ limit)
    (charge_nonneg : 0 ≤ limit * price) :
    0 ≤ (limit - cost) * price ∧ (limit - cost) * price ≤ limit * price := by
  by_cases price_nonneg : 0 ≤ price
  · exact ⟨mul_nonneg (by omega) price_nonneg, mul_le_mul_of_nonneg_right (by omega) price_nonneg⟩
  · have limit_le : limit ≤ 0 := nonpos_of_mul_nonneg_left charge_nonneg (not_le.mp price_nonneg)
    obtain rfl : limit = 0 := by omega
    obtain rfl : cost = 0 := by omega
    simp

theorem paidFor_of_bounds (deployLog : List Event) (cost_nonneg : 0 ≤ result.cost.toInt)
    (cost_le : result.cost.toInt ≤ deploy.data.phloLimit.toInt)
    (charge_nonneg : 0 ≤ deploy.data.phloLimit.toInt * deploy.data.phloPrice.toInt)
    (charge_lt : deploy.data.phloLimit.toInt * deploy.data.phloPrice.toInt < 2 ^ 63) :
    PaidFor deploy.data result (processed deploy deployLog result)
      ⟨deploy.data.totalPhloCharge, (processed deploy deployLog result).refundAmount⟩ := by
  have limit_lt := toInt_lt deploy.data.phloLimit
  obtain ⟨refund_nonneg, refund_le⟩ := part_bounds cost_nonneg cost_le charge_nonneg
  have charge_eq : deploy.data.totalPhloCharge.toInt =
      deploy.data.phloLimit.toInt * deploy.data.phloPrice.toInt :=
    toInt_mul_of_fits (by omega) charge_lt
  have left_eq : (deploy.data.phloLimit - result.cost).toInt =
      deploy.data.phloLimit.toInt - result.cost.toInt := toInt_sub_of_fits (by omega) (by omega)
  have refund_eq : (processed deploy deployLog result).refundAmount.toInt =
      (deploy.data.phloLimit.toInt - result.cost.toInt) * deploy.data.phloPrice.toInt := by
    rw [ProcessedDeploy.refundAmount, processed]
    dsimp only
    rw [Int64.toInt64_toUInt64, max_zero (by omega), toInt_mul_of_fits, left_eq]
    · rw [left_eq]; omega
    · rw [left_eq]; omega
  constructor
  case preCharge_eq => exact charge_eq
  case cost_eq => exact toNat_toUInt64 cost_nonneg
  case cost_le => exact cost_le
  case refund_eq => exact refund_eq
  case refund_nonneg => exact refund_eq ▸ refund_nonneg
  case refund_le => exact refund_eq ▸ charge_eq ▸ refund_le
  case kept_eq =>
    rw [charge_eq, refund_eq]
    ring

theorem payable_of_paidFor (paid : PaidFor deploy.data result pd payments) :
    Payable deploy.data := by
  have cost_nonneg : 0 ≤ result.cost.toInt := paid.cost_eq ▸ Int.natCast_nonneg _
  have charge_lt := toInt_lt payments.preCharge
  have charge_nonneg := paid.refund_nonneg.trans paid.refund_le
  rw [paid.preCharge_eq] at charge_lt charge_nonneg
  exact ⟨cost_nonneg.trans paid.cost_le, charge_nonneg, charge_lt⟩

end Payment

def fullVault : Vault := ⟨fun _ => .ok (), fun _ => .ok ()⟩

/-- A receive meets a send that was stored before the deploy. -/
def collecting : RhoRuntime Bool Unit where
  choice := meeting
  stored := [false]
  quiet _ := ⟨true, (.head _), by decide⟩
  compile _ := .ok [.issues true]

def pricedDeploy (phloLimit phloPrice : Int64) : Signed DeployData where
  data := ⟨"Nil", 0, phloPrice, phloLimit, 0, "root", none⟩
  pk := []
  sig := []
  sigAlgorithm := "secp256k1"

/-- Nothing but the parsing is charged for. -/
def idle : RhoRuntime Bool Unit where
  choice := meeting
  stored := []
  quiet := meeting_quiet
  compile _ := .ok []

def exchanging : RhoRuntime Bool Unit where
  choice := meeting
  stored := []
  quiet := meeting_quiet
  compile _ := .ok [.issues true, .issues false]

end F1r3fly.Casper
