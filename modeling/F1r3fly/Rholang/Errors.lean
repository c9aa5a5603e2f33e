import Mathlib.Algebra.BigOperators.Group.List.Basic

/-! The errors of the interpreter, and how those of parallel branches are put together. -/
namespace F1r3fly.Rholang

inductive InterpreterError where
  | rSpaceError (message : String)
  | bugFoundError (message : String)
  | undefinedRequiredProtobufFieldError (field : String)
  | parserError (message : String)
  | decodeError (message : String)
  | outOfPhlogistonsError
  | userAbortError
  | substituteError (message : String)
  | setupError (message : String)
  | reduceError (message : String)
  | methodNotDefined (method otherType : String)
  | methodArgumentNumberMismatch (method : String) (expected actual : Nat)
  | operatorNotDefined (op otherType : String)
  | operatorExpectedError (op expected otherType : String)
  /-- Two errors at least, since a single one is passed on as it is. -/
  | aggregateError (first second : InterpreterError) (others : List InterpreterError)
  | illegalArgumentError (message : String)
  | canNotReplayFailedNonDeterministicProcess

namespace InterpreterError

/-- An error inside of the tuple space keeps its text only. -/
def fromSpace : InterpreterError := rSpaceError "Computation ran out of phlogistons."

def isUserAbort : InterpreterError → Bool
  | userAbortError => true
  | _ => false

def isOutOfPhlogistons : InterpreterError → Bool
  | outOfPhlogistonsError => true
  | _ => false

end InterpreterError

/-- The result of a branch: no error is a success. -/
abbrev BranchResult := Option InterpreterError

def aggregateEvaluatorErrors (errors : List InterpreterError) : BranchResult :=
  if errors.any (·.isUserAbort) then some .userAbortError
  else if errors.any (·.isOutOfPhlogistons) then some .outOfPhlogistonsError
  else match errors with
    | [] => none
    | [error] => some error
    | first :: second :: others => some (.aggregateError first second others)

def joinResults (results : List BranchResult) : BranchResult :=
  aggregateEvaluatorErrors (results.filterMap id)

/-- What is left of an error when it does not matter in which branches the errors were. -/
inductive Verdict where
  | success
  | failure (error : InterpreterError)
  | failures
  | outOfPhlogistons
  | userAbort

namespace Verdict

def add : Verdict → Verdict → Verdict
  | success, other => other
  | other, success => other
  | userAbort, _ => userAbort
  | _, userAbort => userAbort
  | outOfPhlogistons, _ => outOfPhlogistons
  | _, outOfPhlogistons => outOfPhlogistons
  | _, _ => failures

instance : Zero Verdict := ⟨success⟩

instance : Add Verdict := ⟨add⟩

instance : AddCommMonoid Verdict where
  zero_add _ := rfl
  add_zero a := by cases a <;> rfl
  add_comm a b := by cases a <;> cases b <;> rfl
  add_assoc a b c := by cases a <;> cases b <;> cases c <;> rfl
  nsmul := nsmulRec

def ofError : InterpreterError → Verdict
  | .userAbortError => userAbort
  | .outOfPhlogistonsError => outOfPhlogistons
  | .aggregateError _ _ _ => failures
  | error => failure error

def ofResult : BranchResult → Verdict
  | none => success
  | some error => ofError error

theorem userAbort_add (verdict : Verdict) : userAbort + verdict = userAbort := by
  cases verdict <;> rfl

theorem outOfPhlogistons_add (not_abort : verdict ≠ userAbort) :
    outOfPhlogistons + verdict = outOfPhlogistons := by
  cases verdict with
  | userAbort => exact absurd rfl not_abort
  | success | failure | failures | outOfPhlogistons => rfl

/-- Errors of other kinds are not told apart once there are two of them. -/
def IsOther (verdict : Verdict) : Prop := verdict = failures ∨ ∃ error, verdict = failure error

theorem IsOther.add_eq (left : a.IsOther) (right : b.IsOther) : a + b = failures := by
  obtain rfl | ⟨first, rfl⟩ := left <;> obtain rfl | ⟨second, rfl⟩ := right <;> rfl

theorem IsOther.ne_userAbort (other : verdict.IsOther) : verdict ≠ userAbort := by
  obtain rfl | ⟨error, rfl⟩ := other <;> simp

variable {error : InterpreterError}

theorem ofError_abort (aborted : error.isUserAbort) : ofError error = userAbort := by
  cases error with
  | userAbortError => rfl
  | _ => cases aborted

theorem ofError_outOfPhlogistons
    (ran_out : error.isOutOfPhlogistons) : ofError error = outOfPhlogistons := by
  cases error with
  | outOfPhlogistonsError => rfl
  | _ => cases ran_out

theorem ofError_other (no_abort : error.isUserAbort = false)
    (not_out : error.isOutOfPhlogistons = false) : (ofError error).IsOther := by
  cases error with
  | userAbortError => cases no_abort
  | outOfPhlogistonsError => cases not_out
  | aggregateError => exact .inl rfl
  | _ => exact .inr ⟨_, rfl⟩

section Aggregates

variable {error : InterpreterError} {errors : List InterpreterError}

theorem aggregate_abort (aborted : errors.any (·.isUserAbort)) :
    ofResult (aggregateEvaluatorErrors errors) = userAbort := by
  rw [aggregateEvaluatorErrors.eq_def, if_pos aborted]
  rfl

theorem aggregate_outOfPhlogistons (no_abort : errors.any (·.isUserAbort) = false)
    (ran_out : errors.any (·.isOutOfPhlogistons)) :
    ofResult (aggregateEvaluatorErrors errors) = outOfPhlogistons := by
  rw [aggregateEvaluatorErrors.eq_def, if_neg (by simp [no_abort]), if_pos ran_out]
  rfl

theorem aggregate_others (second : InterpreterError)
    (no_abort : (error :: second :: errors).any (·.isUserAbort) = false)
    (not_out : (error :: second :: errors).any (·.isOutOfPhlogistons) = false) :
    ofResult (aggregateEvaluatorErrors (error :: second :: errors)) = failures := by
  rw [aggregateEvaluatorErrors, if_neg (by simp [no_abort]), if_neg (by simp [not_out])]
  rfl

theorem aggregate_single (error : InterpreterError) :
    ofResult (aggregateEvaluatorErrors [error]) = ofError error := by
  cases error <;> rfl

theorem aggregate_other (no_abort : (error :: errors).any (·.isUserAbort) = false)
    (not_out : (error :: errors).any (·.isOutOfPhlogistons) = false) :
    (ofResult (aggregateEvaluatorErrors (error :: errors))).IsOther := by
  cases errors with
  | nil =>
    rw [aggregate_single]
    simp only [List.any_cons, List.any_nil, Bool.or_false] at no_abort not_out
    exact ofError_other no_abort not_out
  | cons second errors => exact .inl (aggregate_others second no_abort not_out)

theorem aggregate_ne_userAbort (no_abort : errors.any (·.isUserAbort) = false) :
    ofResult (aggregateEvaluatorErrors errors) ≠ userAbort := by
  cases errors with
  | nil => exact nofun
  | cons error errors =>
    by_cases ran_out : (error :: errors).any (·.isOutOfPhlogistons)
    · rw [aggregate_outOfPhlogistons no_abort ran_out]
      exact nofun
    · exact (aggregate_other no_abort (Bool.not_eq_true _ ▸ ran_out)).ne_userAbort

/-- An abort comes before a lack of phlogistons, and that before all other errors. -/
theorem aggregate_cons (error : InterpreterError) (errors : List InterpreterError) :
    ofResult (aggregateEvaluatorErrors (error :: errors)) =
      ofError error + ofResult (aggregateEvaluatorErrors errors) := by
  by_cases first_aborted : error.isUserAbort
  · rw [aggregate_abort (by simp [first_aborted]), ofError_abort first_aborted, userAbort_add]
  by_cases aborted : errors.any (·.isUserAbort)
  · rw [aggregate_abort (by rw [List.any_cons, aborted, Bool.or_true]), aggregate_abort aborted,
      add_comm, userAbort_add]
  rw [Bool.not_eq_true] at first_aborted aborted
  have no_abort : (error :: errors).any (·.isUserAbort) = false := by
    rw [List.any_cons, first_aborted, aborted, Bool.or_false]
  by_cases first_out : error.isOutOfPhlogistons
  · rw [aggregate_outOfPhlogistons no_abort (by simp [first_out]),
      ofError_outOfPhlogistons first_out, outOfPhlogistons_add (aggregate_ne_userAbort aborted)]
  rw [Bool.not_eq_true] at first_out
  have first_other := ofError_other first_aborted first_out
  by_cases ran_out : errors.any (·.isOutOfPhlogistons)
  · rw [aggregate_outOfPhlogistons no_abort (by rw [List.any_cons, ran_out, Bool.or_true]),
      aggregate_outOfPhlogistons aborted ran_out, add_comm,
      outOfPhlogistons_add first_other.ne_userAbort]
  rw [Bool.not_eq_true] at ran_out
  have not_out : (error :: errors).any (·.isOutOfPhlogistons) = false := by
    rw [List.any_cons, first_out, ran_out, Bool.or_false]
  cases errors with
  | nil => exact (aggregate_single error).trans (add_zero _).symm
  | cons second errors =>
    rw [aggregate_others second no_abort not_out,
      first_other.add_eq (aggregate_other aborted ran_out)]

end Aggregates

/-- Joining branches adds up what is left of their results. -/
theorem ofResult_joinResults (results : List BranchResult) :
    ofResult (joinResults results) = (results.map ofResult).sum := by
  induction results with
  | nil => rfl
  | cons result results ih =>
    rw [List.map_cons, List.sum_cons, ← ih]
    cases result with
    | none => exact (zero_add _).symm
    | some error => exact aggregate_cons error (results.filterMap id)

end Verdict

end F1r3fly.Rholang
