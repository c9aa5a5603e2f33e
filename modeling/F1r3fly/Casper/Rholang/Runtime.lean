import F1r3fly.BlockStorage.BlockDag
import F1r3fly.Rholang.Interpreter

/-! How a validator plays a deploy with cost accounting, and how another one replays it. -/
namespace F1r3fly.Casper

open Models Rholang
open BlockStorage.PrettyPrinter (hexEncode)

/-- The system deploys that take the charge from the deployer's vault and give the rest back. They
fail with a message. -/
structure Vault where
  preCharge : Int64 → Except String Unit
  refund : Int64 → Except String Unit

structure Payments where
  preCharge : Int64
  refund : Int64

/-- If the charge succeeds and the refund fails, it is an error of the platform. -/
inductive SystemDeployPlatformFailure where
  | gasRefundFailure (message : String)

inductive ReplayFailure where
  | replayStatusMismatch (initialFailed replayFailed : Bool)
  | replayCostMismatch (initialCost replayCost : UInt64)

section Play

variable {O C : Type} [DecidableEq O] [DecidableEq C] (runtime : RhoRuntime O C)

variable (deploy : Signed DeployData)

def evaluate (schedule : List (List Nat)) : Option (EvaluateResult × Int64) :=
  injAttempt runtime deploy.data.phloLimit deploy.data.term schedule

def processed (deployLog : List Event) (evalResult : EvaluateResult) : ProcessedDeploy where
  deploy
  cost := evalResult.cost.toUInt64
  deployLog
  isFailed := !evalResult.errors.isEmpty
  systemDeployError := none

/-- The events of the log are those that the tuple space has recorded. -/
def processDeploy (deployLog : List Event)
    (schedule : List (List Nat)) : Option ProcessedDeploy := do
  let (evalResult, _) ← evaluate runtime deploy schedule
  return processed deploy deployLog evalResult

def gasRefundFailure (processed : ProcessedDeploy) (message : String) :
    SystemDeployPlatformFailure :=
  .gasRefundFailure (message ++ ", deploy_sig=" ++ hexEncode processed.deploy.sig ++
    ", deployer_pk=" ++ hexEncode processed.deploy.pk ++ ", refund_amount=" ++
    toString processed.refundAmount)

/-- No payments are made when the deploy cannot be charged for. -/
def playDeployWithCostAccounting (vault : Vault) (deploy : Signed DeployData)
    (deployLog : List Event) (schedule : List (List Nat)) :
    Option (Except SystemDeployPlatformFailure (ProcessedDeploy × Option Payments)) :=
  match vault.preCharge deploy.data.totalPhloCharge with
  | .error message =>
    some (.ok ({ ProcessedDeploy.empty deploy with
      deployLog, systemDeployError := some message }, none))
  | .ok () => do
    let processed ← processDeploy runtime deploy deployLog schedule
    match vault.refund processed.refundAmount with
    | .error message => some (.error (gasRefundFailure processed message))
    | .ok () => some (.ok (processed, some ⟨deploy.data.totalPhloCharge, processed.refundAmount⟩))

/-- A deploy of a block is evaluated again and compared with what the block says. -/
def runUserDeploy (processed : ProcessedDeploy) (schedule : List (List Nat)) :
    Option (Except ReplayFailure (EvaluateResult × Bool)) := do
  let (evalResult, _) ← evaluate runtime processed.deploy schedule
  let evalSuccessful := evalResult.errors.isEmpty
  if processed.isFailed ≠ !evalSuccessful then
    some (.error (.replayStatusMismatch processed.isFailed (!evalSuccessful)))
  else if processed.cost ≠ evalResult.cost.toUInt64 then
    some (.error (.replayCostMismatch processed.cost evalResult.cost.toUInt64))
  else
    some (.ok (evalResult, evalSuccessful))

end Play

end F1r3fly.Casper
