import F1r3fly.Rholang.Reduce

/-! The evaluation of a deploy: it is charged for the parsing, compiled and reduced, and the cost
that is reported depends on how this has ended. -/
namespace F1r3fly.Rholang

open Accounting

structure EvaluateResult where
  cost : Int64
  errors : List InterpreterError

def EvaluateResult.verdict (result : EvaluateResult) : Verdict :=
  match result.errors with
  | [] => .success
  | [error] => .ofError error
  | _ => .failures

def handleError (initialCost parsingCost left : Int64) (error : InterpreterError) :
    EvaluateResult :=
  match error with
  | .parserError _ => ⟨parsingCost, [error]⟩
  | .outOfPhlogistonsError => ⟨initialCost, [error]⟩
  | .userAbortError => ⟨initialCost - left, [error]⟩
  | .aggregateError first second others => ⟨initialCost, first :: second :: others⟩
  | .operatorNotDefined _ _ => ⟨parsingCost, [error]⟩
  | .operatorExpectedError _ _ _ => ⟨parsingCost, [error]⟩
  | _ => ⟨initialCost, [error]⟩

/-- The result when the branches have ended, with the balance that they have left. -/
def reduced (initialPhlo parsing left : Int64) : BranchResult → EvaluateResult
  | none => ⟨initialPhlo - left, []⟩
  | some error => handleError initialPhlo parsing left error

/-- What a deploy is evaluated with: the choice of the COMMs, the terms of the tuple space before
it, which cannot be all of a COMM already, and the compiler. -/
structure RhoRuntime (O C : Type) where
  choice : Choice O C
  stored : List O
  quiet : ∀ k, ∃ o ∈ choice.participants k, o ∉ stored
  compile : String → Except String (List (Term O))

section Evaluate

variable {O C : Type} [DecidableEq O] [DecidableEq C] (runtime : RhoRuntime O C)

def RhoRuntime.shared (balance : Int64) : Shared O C := ⟨balance, runtime.stored, []⟩

/-- Charges for the parsing and compiles. The balance and the terms, or what the evaluation ends
with before it comes to the reduction. -/
def prepare (initialPhlo : Int64) (term : String) :
    Except (EvaluateResult × Int64) (Int64 × List (Term O)) :=
  let parsing := parsingCost term.utf8ByteSize
  match charge initialPhlo parsing with
  | (.error error, left) => .error (handleError initialPhlo parsing left error, left)
  | (.ok (), left) =>
    match runtime.compile term with
    | .error message => .error (handleError initialPhlo parsing left (.parserError message), left)
    | .ok terms => .ok (left, terms)

/-- The result and the balance that is left, unless the schedule stops before all branches have
ended, or the terms of the process itself cannot be told apart. -/
def injAttempt (initialPhlo : Int64) (term : String) (schedule : List (List Nat)) :
    Option (EvaluateResult × Int64) :=
  match prepare runtime initialPhlo term with
  | .error early => some early
  | .ok (balance, terms) =>
    if splitPanics terms.length then none
    else do
      let (shared, tree) ←
        ForkJoin.run (step runtime.choice) schedule (runtime.shared balance) (start terms)
      let result ← tree.outcome joinResults
      return (reduced initialPhlo (parsingCost term.utf8ByteSize) shared.balance result,
        shared.balance)

variable {runtime} {initialPhlo : Int64} {term : String} {schedule : List (List Nat)}
  {result : EvaluateResult} {left : Int64}

theorem injAttempt_cases
    (attempted : injAttempt runtime initialPhlo term schedule = some (result, left)) :
    prepare runtime initialPhlo term = .error (result, left) ∨
      ∃ balance terms shared tree outcome,
        prepare runtime initialPhlo term = .ok (balance, terms) ∧
        ForkJoin.run (step runtime.choice) schedule (runtime.shared balance) (start terms) =
          some (shared, tree) ∧
        tree.outcome joinResults = some outcome ∧ left = shared.balance ∧
        result = reduced initialPhlo (parsingCost term.utf8ByteSize) left outcome := by
  rw [injAttempt] at attempted
  split at attempted
  case h_1 early stopped =>
    cases attempted
    exact .inl stopped
  case h_2 balance terms prepared =>
    split at attempted
    · cases attempted
    obtain ⟨⟨shared, tree⟩, ran, attempted⟩ := bind_eq_some_iff.mp attempted
    obtain ⟨outcome, ended, returned⟩ := bind_eq_some_iff.mp attempted
    cases returned
    exact .inr ⟨balance, terms, shared, tree, outcome, prepared, ran, ended, rfl, rfl⟩

end Evaluate

/-- The cost depends on the balance and on how the evaluation has ended. -/
def costOf (initialPhlo parsing left : Int64) : Verdict → Int64
  | .success => initialPhlo - left
  | .failure error => (handleError initialPhlo parsing left error).cost
  | .failures => initialPhlo
  | .outOfPhlogistons => initialPhlo
  | .userAbort => initialPhlo - left

theorem cost_reduced (initialPhlo parsing left : Int64) (result : BranchResult) :
    (reduced initialPhlo parsing left result).cost =
      costOf initialPhlo parsing left (.ofResult result) := by
  cases result with
  | none => rfl
  | some error => cases error <;> rfl

theorem EvaluateResult.errors_isEmpty (result : EvaluateResult) :
    result.errors.isEmpty ↔ result.verdict = .success := by
  rw [verdict]
  split
  case h_1 no_errors => simp [no_errors]
  case h_2 error single => cases error <;> simp [single, Verdict.ofError]
  case h_3 not_empty not_single => simpa using not_empty

theorem verdict_reduced (initialPhlo parsing left : Int64) (result : BranchResult) :
    (reduced initialPhlo parsing left result).verdict = .ofResult result := by
  cases result with
  | none => rfl
  | some error => cases error <;> rfl

end F1r3fly.Rholang
