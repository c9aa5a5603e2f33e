import F1r3fly.Rholang.Accounting.StorageRefunds

/-! Between which bounds the balance is when the branches of an evaluation have ended. -/
namespace F1r3fly.Rholang

open Accounting
open ForkJoin

namespace Verdict

variable {a b : Verdict}

theorem of_add_eq_success (sum_eq : a + b = success) : a = success ∧ b = success := by
  cases a <;> cases b <;> first | exact ⟨rfl, rfl⟩ | cases sum_eq

theorem of_add_eq_userAbort (sum_eq : a + b = userAbort) : a = userAbort ∨ b = userAbort := by
  cases a <;> cases b <;> first | exact .inl rfl | exact .inr rfl | cases sum_eq

theorem ofError_ne_success (error : InterpreterError) : ofError error ≠ success := by
  cases error <;> exact nofun

theorem ofError_ne_userAbort (no_abort : error.isUserAbort = false) :
    ofError error ≠ userAbort := by
  cases error with
  | userAbortError => cases no_abort
  | _ => exact nofun

/-- What the branches that have ended say together. -/
def ofResults (results : Multiset BranchResult) : Verdict := (results.map ofResult).sum

theorem ofResults_add (results others : Multiset BranchResult) :
    ofResults (results + others) = ofResults results + ofResults others := by
  rw [ofResults, Multiset.map_add, Multiset.sum_add, ofResults, ofResults]

theorem ofResults_singleton (result : BranchResult) : ofResults {result} = ofResult result := by
  rw [ofResults, Multiset.map_singleton, Multiset.sum_singleton]

theorem ofResults_zero_ne_userAbort : ofResults 0 ≠ userAbort := nofun

end Verdict

variable {O C : Type}

/-- The step does not end its branch with an abort. -/
def NoAbort : Task O → Prop
  | .evaluating (.fails error) => error.isUserAbort = false
  | _ => True

/-- A charge that leaves a balance below zero ends the branch with an error. -/
theorem charging_told (shared : Shared O C) {failure : InterpreterError}
    (no_abort : failure.isUserAbort = false)
    (amount : Int64) (next : Task O) :
    Verdict.ofResults (charging shared amount failure next).2.results ≠ .userAbort ∧
      (0 ≤ (charging shared amount failure next).1.balance.toInt ∨
        Verdict.ofResults (charging shared amount failure next).2.results ≠ .success) := by
  rw [charging]
  split
  case h_1 value charged =>
    have left_nonneg := charge_ok (congrArg Prod.fst charged)
    rw [charged] at left_nonneg
    exact ⟨Verdict.ofResults_zero_ne_userAbort, .inl left_nonneg⟩
  case h_2 =>
    rw [Next.results, Verdict.ofResults_singleton]
    exact ⟨Verdict.ofError_ne_userAbort no_abort, .inr (Verdict.ofError_ne_success failure)⟩

section Steps

variable [DecidableEq O] [DecidableEq C]

/-- The COMM of the step takes none of the terms. -/
def Choice.Spares (choice : Choice O C) (terms : List O) (shared : Shared O C) : Task O → Prop
  | .inSpace o => ∀ k ∈ choice.triggers shared o, ∀ taken ∈ choice.removes o k, taken ∉ terms
  | _ => True

instance (task : Task O) : Decidable (NoAbort task) :=
  match task with
  | .evaluating (.fails error) => inferInstanceAs (Decidable (error.isUserAbort = false))
  | .evaluating (.charges _ _) | .evaluating (.evals _) | .evaluating (.issues _) | .inSpace _
  | .settling _ _ => isTrue trivial

instance (choice : Choice O C) (terms : List O) (shared : Shared O C) (task : Task O) :
    Decidable (choice.Spares terms shared task) :=
  match task with
  | .inSpace o => Option.decidableForallMem (choice.triggers shared o)
  | .evaluating _ | .settling _ _ => isTrue trivial

variable {choice : Choice O C} {shared : Shared O C}

theorem splitError_no_abort {length : Nat} {error : InterpreterError}
    (failed : splitError length = some error) : error.isUserAbort = false := by
  rw [splitError] at failed
  split_ifs at failed <;> cases failed <;> rfl

/-- A step leaves the balance as it is and tells of an abort only when there is one, or it
charges. -/
theorem step_charges (choice : Choice O C) (shared : Shared O C) (task : Task O) :
    ((step choice shared task).1.balance = shared.balance ∧ choice.nextCharge task = none ∧
        (NoAbort task → Verdict.ofResults (step choice shared task).2.results ≠ .userAbort)) ∨
      ∃ amount failure next, choice.nextCharge task = some amount ∧ failure.isUserAbort = false ∧
        step choice shared task = charging shared amount failure next := by
  cases task with
  | evaluating term =>
    cases term with
    | charges site rest => exact .inr ⟨_, _, _, rfl, rfl, rfl⟩
    | fails error =>
      refine .inl ⟨rfl, rfl, fun no_abort => ?_⟩
      rw [step, Next.results, Verdict.ofResults_singleton]
      exact Verdict.ofError_ne_userAbort no_abort
    | evals terms =>
      left
      rw [step]
      split
      case h_1 error failed =>
        refine ⟨rfl, rfl, fun _ => ?_⟩
        rw [Next.results, Verdict.ofResults_singleton]
        exact Verdict.ofError_ne_userAbort (splitError_no_abort failed)
      case h_2 => exact ⟨rfl, rfl, fun _ => Verdict.ofResults_zero_ne_userAbort⟩
    | issues o => exact .inr ⟨_, _, _, rfl, rfl, rfl⟩
  | inSpace o =>
    left
    rw [step]
    split <;> exact ⟨rfl, rfl, fun _ => Verdict.ofResults_zero_ne_userAbort⟩
  | settling charges follow =>
    cases charges with
    | cons spaceCharge rest => exact .inr ⟨_, _, _, rfl, rfl, rfl⟩
    | nil =>
      cases follow <;> exact .inl ⟨rfl, rfl, fun _ => Verdict.ofResults_zero_ne_userAbort⟩

end Steps

section Runs

variable [DecidableEq O] [DecidableEq C] {choice : Choice O C}
  {pool next : Pool (Shared O C) (Task O) BranchResult}

/-- A balance below zero has been told of, and no branch has aborted. -/
def Told (pool : Pool (Shared O C) (Task O) BranchResult) : Prop :=
  Verdict.ofResults pool.results ≠ .userAbort ∧
    (0 ≤ pool.shared.balance.toInt ∨ Verdict.ofResults pool.results ≠ .success)

theorem Told.moves (told : Told pool) (moved : Moves (step choice) (fun _ => NoAbort) pool next) :
    Told next := by
  cases moved with
  | @step shared task rest results no_abort =>
    obtain ⟨not_aborted, solvent⟩ := told
    have joined := Verdict.ofResults_add (step choice shared task).2.results results
    have not_aborted_next
        (told_next : Verdict.ofResults (step choice shared task).2.results ≠ .userAbort) :
        Verdict.ofResults ((step choice shared task).2.results + results) ≠ .userAbort := by
      rw [joined]
      intro aborted
      exact (Verdict.of_add_eq_userAbort aborted).elim told_next not_aborted
    obtain ⟨same, -, told_next⟩ | ⟨amount, failure, after, -, failure_told, stepped⟩ :=
      step_charges choice shared task
    · refine ⟨not_aborted_next (told_next no_abort), ?_⟩
      dsimp only at solvent ⊢
      rw [same, joined]
      exact solvent.imp_right fun failed succeeded =>
        failed (Verdict.of_add_eq_success succeeded).2
    · obtain ⟨told_next, solvent_next⟩ := charging_told shared failure_told amount after
      rw [← stepped] at told_next solvent_next
      refine ⟨not_aborted_next told_next, solvent_next.imp_right fun failed => ?_⟩
      dsimp only
      rw [joined]
      exact fun succeeded => failed (Verdict.of_add_eq_success succeeded).1

theorem solvent_moves (solvent : 0 ≤ pool.shared.balance.toInt)
    (moved : Moves (step choice) choice.Affordable pool next) : 0 ≤ next.shared.balance.toInt := by
  cases moved with
  | @step shared task rest results affordable =>
    dsimp only at solvent ⊢
    obtain ⟨same, -, -⟩ | ⟨amount, failure, after, charges, -, stepped⟩ :=
      step_charges choice shared task
    · rw [same]
      exact solvent
    · have affords := affordable amount charges
      obtain ⟨value, charged, value_eq⟩ := charge_of_affords affords
      rw [stepped, Choice.charging_balance, charged, value_eq]
      exact affords.2.1

def Keeps (stored : List O) (pool : Pool (Shared O C) (Task O) BranchResult) : Prop :=
  (stored : Multiset O) ≤ pool.shared.space

/-- The space keeps what the COMMs spare. -/
theorem Keeps.moves {stored : List O} (kept : Keeps stored pool)
    (moved : Moves (step choice) (choice.Spares stored) pool next) : Keeps stored next := by
  cases moved with
  | @step shared task rest results spares =>
    rw [Keeps] at kept ⊢
    dsimp only at kept ⊢
    obtain ⟨space_eq, -⟩ | ⟨o, rfl, ⟨-, space_eq, -⟩ | ⟨k, triggered, space_eq, -⟩⟩ :=
      Choice.step_shared choice shared task
    · rw [space_eq]
      exact kept
    · rw [space_eq, ← Multiset.cons_coe]
      exact kept.trans (Multiset.le_cons_self _ o)
    · rw [space_eq]
      refine Multiset.le_iff_count.mpr fun term => ?_
      have count_le := Multiset.le_iff_count.mp kept term
      simp only [Multiset.coe_count] at count_le ⊢
      rw [List.count_diff]
      by_cases is_stored : term ∈ stored
      · rw [List.count_eq_zero.mpr fun taken => spares k triggered term taken is_stored]
        exact count_le
      · rw [List.count_eq_zero.mpr is_stored]
        exact Nat.zero_le _

variable {shared after : Shared O C} {terms : List (Term O)} {schedule : List (List Nat)}
  {tree : Tree (Task O) BranchResult} {outcome : BranchResult}

/-- What is left when the branches have ended without an error or with an abort. -/
theorem balance_bounds (solvent : 0 ≤ shared.balance.toInt)
    (ran : ForkJoin.run (step choice) schedule shared (start terms) = some (after, tree))
    (ended : tree.outcome joinResults = some outcome)
    (sound : Along (step choice) choice.Sound schedule shared (start terms))
    (spares : Along (step choice) (choice.Spares shared.space) schedule shared (start terms))
    (told : Along (step choice) choice.Affordable schedule shared (start terms) ∨
      Along (step choice) (fun _ => NoAbort) schedule shared (start terms))
    (own_cost : Verdict.ofResult outcome = .success ∨ Verdict.ofResult outcome = .userAbort) :
    0 ≤ after.balance.toInt ∧ after.balance.toInt ≤ shared.balance.toInt := by
  constructor
  · obtain affordable | no_abort := told
    · exact ForkJoin.holds_of_run (fun _ _ => solvent_moves) solvent ran affordable
    · have told_start : Told (poolOf shared (start terms)) :=
        ⟨Verdict.ofResults_zero_ne_userAbort, .inl solvent⟩
      obtain ⟨not_aborted, nonneg⟩ :=
        ForkJoin.holds_of_run (fun _ _ => Told.moves) told_start ran no_abort
      obtain ⟨-, verdict_eq⟩ := ForkJoin.outcome_summary Verdict.ofResult_joinResults ended
      rw [verdict_eq] at own_cost
      exact nonneg.resolve_right fun failed => own_cost.elim failed not_aborted
  · have together := balance_add_storage_le ran sound
    have kept : Keeps shared.space (poolOf after tree) :=
      ForkJoin.holds_of_run (fun _ _ => Keeps.moves) le_rfl ran spares
    obtain ⟨added, space_eq⟩ := Multiset.le_iff_exists_add.mp kept
    have storage_eq := congrArg (fun terms => (terms.map choice.size).sum) space_eq
    simp only [poolOf, Multiset.map_coe, Multiset.sum_coe, Multiset.map_add, Multiset.sum_add]
      at storage_eq
    have added_nonneg : 0 ≤ (added.map choice.size).sum := by
      refine Multiset.sum_nonneg fun size present => ?_
      obtain ⟨o, -, rfl⟩ := Multiset.mem_map.mp present
      exact choice.size_nonneg o
    linarith

end Runs

end F1r3fly.Rholang
