import F1r3fly.Casper.Rholang.Runtime
import F1r3fly.Rholang.ScheduleIndependence

/-! A validator that replays a deploy compares its cost with that of the block. -/
namespace F1r3fly.Casper

open Models Rholang

def meetingRuntime : RhoRuntime Bool Unit where
  choice := meeting
  stored := []
  quiet := meeting_quiet
  compile _ := .ok [.issues true, .issues false, .charges (.substitution 80) (.evals [])]

def meetingDeploy : Signed DeployData where
  data := ⟨"", 0, 1, 1100, 0, "root", none⟩
  pk := []
  sig := []
  sigAlgorithm := "secp256k1"

def oneByOne : List (List Nat) :=
  [[]] ++ List.replicate 4 [0] ++ List.replicate 8 [1] ++ List.replicate 2 [2]

/-- The substitution is charged for after the send has been paid, and before the COMM gives the
cost of its storage back. -/
def chargedBetween : List (List Nat) :=
  [[]] ++ List.replicate 4 [0] ++ [[1], [2], [1], [1]]

def sendFirst : List (List Nat) :=
  [[]] ++ List.replicate 4 [1] ++ List.replicate 8 [0] ++ List.replicate 2 [2]

theorem evaluate_oneByOne :
    evaluate meetingRuntime meetingDeploy oneByOne = some (⟨336, []⟩, 764) := rfl

theorem evaluate_sendFirst :
    evaluate meetingRuntime meetingDeploy sendFirst = some (⟨336, []⟩, 764) := rfl

theorem meetingRuntime_pays
    (along : ForkJoin.Along (step meeting) meeting.Regular schedule (meetingRuntime.shared 1100)
      (start [.issues true, .issues false, .charges (.substitution 80) (.evals [])])) :
    meetingRuntime.Pays 1100 "" schedule := by
  intro balance terms prepared
  cases prepared
  exact along

end F1r3fly.Casper
