import Mathlib.Algebra.BigOperators.Pi
import Mathlib.Tactic.Linarith
import Mathlib.Tactic.Ring
import F1r3fly.Rholang.Storage.Comms

/-! The books of an evaluation: what its branches have yet to pay, the errors they end with and
the terms they issue. A step moves entries from the branches to the shared state, and only a
COMM adds to them. -/
namespace F1r3fly.Rholang

open Accounting
open ForkJoin

/-- An amount, a verdict and terms of the tuple space. -/
abbrev Account (O : Type) := ℤ × Verdict × Multiset O

def Choice.nextCharge {O C : Type} (choice : Choice O C) : Task O → Option Int64
  | .evaluating (.charges site _) => some site.amount
  | .evaluating (.issues o) => some (choice.op o).storageCost
  | .settling (spaceCharge :: _) _ => some spaceCharge.amount
  | _ => none

/-- The balance can take the charge of the step. -/
def Choice.Affordable {O C : Type} (choice : Choice O C) (shared : Shared O C) (task : Task O) :
    Prop :=
  ∀ amount, choice.nextCharge task = some amount → Affords shared.balance amount

instance {O C : Type} (choice : Choice O C) (shared : Shared O C) (task : Task O) :
    Decidable (choice.Affordable shared task) :=
  Option.decidableForallMem (choice.nextCharge task)

/-- The balance can take the charge of the step, and its COMM does not match the term twice. -/
def Choice.Regular {O C : Type} [DecidableEq O] [DecidableEq C] (choice : Choice O C)
    (shared : Shared O C) (task : Task O) : Prop :=
  choice.Affordable shared task ∧ choice.MatchedOnce shared task

instance {O C : Type} [DecidableEq O] [DecidableEq C] (choice : Choice O C) (shared : Shared O C)
    (task : Task O) : Decidable (choice.Regular shared task) :=
  inferInstanceAs (Decidable (_ ∧ _))

namespace Choice

variable {O C : Type} (choice : Choice O C)

section Worth

mutual

/-- What the evaluation of a term leads to, up to the next COMM. -/
def worth : Term O → Account O
  | .charges site rest => (site.amount.toInt, 0, 0) + worth rest
  | .fails error => (0, .ofError error, 0)
  | .evals terms =>
    match splitError terms.length with
    | some error => (0, .ofError error, 0)
    | none => worthOf terms
  | .issues o => (choice.size o + choice.eventCost o, 0, {o})

def worthOf : List (Term O) → Account O
  | [] => 0
  | term :: terms => worth term + worthOf terms

end

def followWorth : Follow O → Account O
  | .stops => 0
  | .evals body => choice.worth body
  | .spawns terms => choice.worthOf terms

def taskWorth : Task O → Account O
  | .evaluating term => choice.worth term
  | .inSpace o => (choice.eventCost o, 0, {o})
  | .settling charges follow =>
    ((charges.map fun spaceCharge => spaceCharge.amount.toInt).sum, 0, 0) +
      choice.followWorth follow

def resultWorth (result : BranchResult) : Account O := (0, .ofResult result, 0)

def nextWorth (next : Next (Task O) BranchResult) : Account O :=
  (next.tasks.map choice.taskWorth).sum + (next.results.map resultWorth).sum

def sharedWorth (shared : Shared O C) : Account O := (-shared.balance.toInt, 0, shared.space)

def gains (k : C) : Account O :=
  (choice.commCost k, 0, 0) + choice.worth (.evals (choice.body k)) +
    choice.worthOf ((choice.peeks k).map .issues)

def takes (k : C) : Account O := (((choice.spent k).map choice.size).sum, 0, choice.spent k)

theorem worth_issues (o : O) :
    choice.worth (.issues o) = (choice.size o + choice.eventCost o, 0, {o}) := by
  rw [worth]

theorem worthOf_append (terms others : List (Term O)) :
    choice.worthOf (terms ++ others) = choice.worthOf terms + choice.worthOf others := by
  induction terms with
  | nil => rw [nil_append, worthOf, zero_add]
  | cons term terms ih => rw [cons_append, worthOf, worthOf, ih, add_assoc]

theorem worthOf_tasks (terms : List (Term O)) :
    (((terms.map .evaluating : List (Task O)) : Multiset (Task O)).map choice.taskWorth).sum =
      choice.worthOf terms := by
  induction terms with
  | nil => rfl
  | cons term terms ih =>
    rw [map_cons, ← Multiset.cons_coe, Multiset.map_cons, Multiset.sum_cons, ih]
    rfl

theorem taskWorth_settled (follow : Follow O) :
    choice.taskWorth (.settling [] follow) = choice.followWorth follow := by
  exact zero_add _

theorem taskWorth_stored [DecidableEq O] (o : O) :
    choice.taskWorth (.settling (handleResult (choice.withOp o) none) .stops) =
      (choice.eventCost o, 0, 0) := by
  rw [taskWorth, followWorth, add_zero, handleResult, List.map_singleton, List.sum_singleton]
  rfl

theorem nextWorth_goesOn (task : Task O) :
    choice.nextWorth (.goesOn task) = choice.taskWorth task := by
  simp [nextWorth, Next.tasks, Next.results]

theorem nextWorth_ends (result : BranchResult) :
    choice.nextWorth (.ends result) = resultWorth result := by
  simp [nextWorth, Next.tasks, Next.results]

theorem nextWorth_forks (terms : List (Term O)) :
    choice.nextWorth (.forks (terms.map .evaluating)) = choice.worthOf terms := by
  rw [nextWorth, Next.tasks, Next.results, worthOf_tasks, Multiset.map_zero, Multiset.sum_zero,
    add_zero]

end Worth

section Steps

variable {choice} {shared : Shared O C}

theorem followWorth_follow (trigger : O) (k : C) :
    choice.followWorth (choice.follow trigger k) =
      choice.worth (.evals (choice.body k)) +
        (if (choice.op trigger).persistent then choice.worth (.issues trigger) else 0) +
        choice.worthOf ((choice.peeks k).map .issues) := by
  rw [follow]
  split
  case isTrue =>
    rw [followWorth, worthOf_append, worthOf, worthOf, worthOf, add_zero]
  case isFalse =>
    split
    case isTrue no_peeks =>
      rw [List.isEmpty_iff.mp no_peeks, map_nil, worthOf, add_zero, add_zero]
      rfl
    case isFalse => rw [followWorth, worthOf, add_zero]

theorem charging_worth (affords : Affords shared.balance amount) (failure : InterpreterError)
    (next : Task O) :
    (charging shared amount failure next).1.space = shared.space ∧
      (charging shared amount failure next).1.fired = shared.fired ∧
      sharedWorth (charging shared amount failure next).1 +
          choice.nextWorth (charging shared amount failure next).2 =
        sharedWorth shared + ((amount.toInt, 0, 0) + choice.taskWorth next) := by
  obtain ⟨value, charged, value_eq⟩ := charge_of_affords affords
  rw [charging, charged]
  refine ⟨rfl, rfl, ?_⟩
  rw [nextWorth_goesOn, sharedWorth, sharedWorth, value_eq, ← add_assoc]
  congr 1
  refine Prod.ext ?_ (Prod.ext (add_zero _).symm (add_zero _).symm)
  change -(shared.balance.toInt - amount.toInt) = -shared.balance.toInt + amount.toInt
  ring

variable [DecidableEq O]

theorem sum_handleResult (trigger : O) (once : (choice.participants k).count trigger = 1) :
    ((handleResult (choice.withOp trigger) (some (choice.result k))).map
        fun spaceCharge => spaceCharge.amount.toInt).sum +
        (if (choice.op trigger).persistent then choice.size trigger + choice.eventCost trigger
          else 0) + ((choice.spent k).map choice.size).sum =
      choice.eventCost trigger + choice.commCost k := by
  have refunds := choice.refunds_sum trigger k
  have refunded_sum := congrArg (fun terms => (terms.map choice.size).sum)
    (choice.coe_refunded once)
  have spent_sum := congrArg (fun terms => (terms.map choice.size).sum) (choice.coe_spent once)
  simp only [Multiset.map_coe, Multiset.sum_coe, Multiset.map_cons, Multiset.sum_cons,
    Multiset.map_add, Multiset.sum_add] at refunded_sum spent_sum
  by_cases persistent : (choice.op trigger).persistent
  · simp only [persistent, if_true, Multiset.map_zero, Multiset.sum_zero] at spent_sum ⊢
    simp only [handleResult, withOp, persistent, if_true, append_nil, cons_append,
      nil_append, map_cons, map_nil, sum_cons, sum_nil,
      SpaceCharge.amount]
    change _ + (_ + (choice.commCost k + 0)) + _ + _ = _
    linarith
  · simp only [persistent, if_false, Multiset.map_singleton, Multiset.sum_singleton,
      false_eq_true] at spent_sum ⊢
    simp only [handleResult, withOp, persistent, if_false, cons_append,
      nil_append, map_cons, map_nil, sum_cons, sum_nil,
      SpaceCharge.amount, false_eq_true]
    change _ + (_ + (choice.eventCost trigger + (choice.commCost k + 0))) + _ + _ = _
    linarith

variable [DecidableEq C]

theorem firing_worth (triggered : choice.triggers shared trigger = some k)
    (once : (choice.participants k).count trigger = 1) :
    sharedWorth { shared with
          space := shared.space.diff (choice.removes trigger k), fired := k :: shared.fired } +
        choice.taskWorth (.settling (handleResult (choice.withOp trigger) (some (choice.result k)))
          (choice.follow trigger k)) + choice.takes k =
      sharedWorth shared + choice.taskWorth (.inSpace trigger) + choice.gains k := by
  have amounts := sum_handleResult trigger once
  have kept := choice.coe_space triggered
  have spent_eq := choice.coe_spent once
  rw [taskWorth, taskWorth, followWorth_follow, takes, gains, sharedWorth, sharedWorth]
  by_cases persistent : (choice.op trigger).persistent
  · simp only [persistent, if_true, zero_add] at amounts spent_eq ⊢
    rw [worth_issues]
    refine Prod.ext ?_ (Prod.ext ?_ ?_)
    · simp only [Prod.fst_add]
      linarith
    · simp
    · simp only [Prod.snd_add, zero_add, spent_eq, ← kept]
      abel
  · simp only [persistent, if_false, false_eq_true, add_zero] at amounts spent_eq ⊢
    refine Prod.ext ?_ (Prod.ext ?_ ?_)
    · simp only [Prod.fst_add]
      linarith
    · simp
    · simp only [Prod.snd_add, zero_add, spent_eq, ← kept]
      abel

theorem step_worth (regular : choice.Regular shared task) :
    ((step choice shared task).1.fired = shared.fired ∧
      sharedWorth (step choice shared task).1 + choice.nextWorth (step choice shared task).2 =
        sharedWorth shared + choice.taskWorth task) ∨
    ∃ o k, task = .inSpace o ∧ choice.triggers shared o = some k ∧
      (step choice shared task).1.fired = k :: shared.fired ∧
      sharedWorth (step choice shared task).1 + choice.nextWorth (step choice shared task).2 +
          choice.takes k = sharedWorth shared + choice.taskWorth task + choice.gains k := by
  cases task with
  | evaluating term =>
    left
    cases term with
    | charges site rest =>
      obtain ⟨-, fired_eq, worth_eq⟩ := charging_worth (regular.1 _ rfl)
        .outOfPhlogistonsError (.evaluating rest)
      refine ⟨fired_eq, worth_eq.trans ?_⟩
      rw [taskWorth, taskWorth, worth]
    | fails error =>
      refine ⟨rfl, ?_⟩
      rw [step, nextWorth_ends, taskWorth, worth]
      rfl
    | evals terms =>
      rw [step, taskWorth, worth]
      cases splitError terms.length with
      | some error => exact ⟨rfl, by rw [nextWorth_ends]; rfl⟩
      | none => exact ⟨rfl, by rw [nextWorth_forks]⟩
    | issues o =>
      obtain ⟨-, fired_eq, worth_eq⟩ := charging_worth (regular.1 _ rfl) .fromSpace (.inSpace o)
      refine ⟨fired_eq, worth_eq.trans ?_⟩
      rw [toInt_storageCost, taskWorth, taskWorth, worth_issues]
      rfl
  | inSpace o =>
    rw [step]
    split
    case h_1 triggered =>
      left
      refine ⟨rfl, ?_⟩
      rw [nextWorth_goesOn, taskWorth_stored, taskWorth, sharedWorth, sharedWorth,
        ← Multiset.cons_coe]
      refine Prod.ext rfl (Prod.ext rfl ?_)
      simp only [Prod.snd_add, add_zero]
      rw [← Multiset.singleton_add, add_comm]
    case h_2 k triggered =>
      right
      refine ⟨o, k, rfl, triggered, rfl, ?_⟩
      rw [nextWorth_goesOn]
      exact firing_worth triggered (regular.2 k triggered)
  | settling charges follow =>
    left
    cases charges with
    | cons spaceCharge rest =>
      obtain ⟨-, fired_eq, worth_eq⟩ := charging_worth (regular.1 _ rfl)
        .fromSpace (.settling rest follow)
      refine ⟨fired_eq, worth_eq.trans ?_⟩
      rw [taskWorth, taskWorth, map_cons, sum_cons, ← add_assoc (spaceCharge.amount.toInt, _)]
      rfl
    | nil =>
      rw [taskWorth_settled]
      cases follow with
      | stops => exact ⟨rfl, by rw [step, nextWorth_ends]; rfl⟩
      | evals body => exact ⟨rfl, by rw [step, nextWorth_goesOn]; rfl⟩
      | spawns terms => exact ⟨rfl, by rw [step, nextWorth_forks]; rfl⟩

end Steps

section Books

def poolWorth (pool : Pool (Shared O C) (Task O) BranchResult) : Account O :=
  sharedWorth pool.shared + (pool.tasks.map choice.taskWorth).sum +
    (pool.results.map resultWorth).sum

/-- No COMM is left that could have happened. -/
def Quiet (shared : Shared O C) : Prop :=
  ∀ k, k ∉ shared.fired → ∃ o ∈ choice.participants k, o ∉ shared.space

/-- The participants of every COMM were there from the start or were issued by an earlier one. -/
def Founded (start : Account O) : List C → Prop
  | [] => True
  | k :: earlier =>
    (∀ o ∈ choice.participants k, o ∈ (start + (earlier.map choice.gains).sum).2.2) ∧
      Founded start earlier

/-- The books balance, and they account for the COMMs so far. -/
structure Booked (start : Account O) (pool : Pool (Shared O C) (Task O) BranchResult) : Prop where
  balanced : choice.poolWorth pool + (pool.shared.fired.map choice.takes).sum =
    start + (pool.shared.fired.map choice.gains).sum
  nodup : pool.shared.fired.Nodup
  quiet : choice.Quiet pool.shared
  founded : choice.Founded start pool.shared.fired

variable {choice} {shared : Shared O C}

theorem charging_shared (amount : Int64) (failure : InterpreterError) (next : Task O) :
    (charging shared amount failure next).1.space = shared.space ∧
      (charging shared amount failure next).1.fired = shared.fired := by
  rw [charging]
  split <;> exact ⟨rfl, rfl⟩

section

variable [DecidableEq O] [DecidableEq C]

theorem step_shared (choice : Choice O C) (shared : Shared O C) (task : Task O) :
    ((step choice shared task).1.space = shared.space ∧
      (step choice shared task).1.fired = shared.fired) ∨
    ∃ o, task = .inSpace o ∧
      (choice.triggers shared o = none ∧ (step choice shared task).1.space = o :: shared.space ∧
          (step choice shared task).1.fired = shared.fired ∨
        ∃ k, choice.triggers shared o = some k ∧
          (step choice shared task).1.space = shared.space.diff (choice.removes o k) ∧
          (step choice shared task).1.fired = k :: shared.fired) := by
  cases task with
  | evaluating term =>
    left
    cases term with
    | charges site rest => exact charging_shared _ _ _
    | fails error => exact ⟨rfl, rfl⟩
    | evals terms =>
      rw [step]
      split <;> exact ⟨rfl, rfl⟩
    | issues o => exact charging_shared _ _ _
  | inSpace o =>
    right
    refine ⟨o, rfl, ?_⟩
    rw [step]
    split
    case h_1 not_triggered => exact .inl ⟨not_triggered, rfl, rfl⟩
    case h_2 k triggered => exact .inr ⟨k, triggered, rfl, rfl⟩
  | settling charges follow =>
    left
    cases charges with
    | cons spaceCharge rest => exact charging_shared _ _ _
    | nil => cases follow <;> exact ⟨rfl, rfl⟩

theorem step_quiet (quiet : choice.Quiet shared) (task : Task O) :
    choice.Quiet (step choice shared task).1 := by
  intro k not_fired
  obtain ⟨space_eq, fired_eq⟩ | ⟨o, -, ⟨none_found, space_eq, fired_eq⟩ |
    ⟨other, triggered, space_eq, fired_eq⟩⟩ := step_shared choice shared task
  · rw [fired_eq] at not_fired
    rw [space_eq]
    exact quiet k not_fired
  · rw [fired_eq] at not_fired
    rw [space_eq]
    by_cases present : o ∈ choice.participants k
    · obtain ⟨missing, is_participant, not_trigger, not_stored⟩ :=
        choice.not_ready_of_triggers none_found present not_fired
      exact ⟨missing, is_participant, by simp [not_trigger, not_stored]⟩
    · obtain ⟨missing, is_participant, not_stored⟩ := quiet k not_fired
      refine ⟨missing, is_participant, ?_⟩
      rw [mem_cons]
      rintro (rfl | stored)
      · exact present is_participant
      · exact not_stored stored
  · rw [fired_eq, mem_cons, not_or] at not_fired
    rw [space_eq]
    obtain ⟨missing, is_participant, not_stored⟩ := quiet k not_fired.2
    exact ⟨missing, is_participant, fun kept => not_stored (List.diff_subset _ _ kept)⟩

end

variable {start : Account O}

/-- The books of a task that takes a step, apart from those of the other tasks. -/
theorem poolWorth_cons (task : Task O) (rest : Multiset (Task O))
    (results : Multiset BranchResult) :
    choice.poolWorth ⟨shared, task ::ₘ rest, results⟩ =
      sharedWorth shared + choice.taskWorth task +
        ((rest.map choice.taskWorth).sum + (results.map resultWorth).sum) := by
  rw [poolWorth, Multiset.map_cons, Multiset.sum_cons]
  abel

theorem poolWorth_next (next : Next (Task O) BranchResult) (rest : Multiset (Task O))
    (results : Multiset BranchResult) :
    choice.poolWorth ⟨shared, next.tasks + rest, next.results + results⟩ =
      sharedWorth shared + choice.nextWorth next +
        ((rest.map choice.taskWorth).sum + (results.map resultWorth).sum) := by
  rw [poolWorth, nextWorth, Multiset.map_add, Multiset.sum_add, Multiset.map_add, Multiset.sum_add]
  abel

theorem mem_poolWorth (stored : o ∈ pool.shared.space) : o ∈ (choice.poolWorth pool).2.2 := by
  rw [poolWorth, add_assoc]
  exact Multiset.mem_add.mpr (.inl stored)

theorem mem_poolWorth_inSpace :
    o ∈ (choice.poolWorth ⟨shared, .inSpace o ::ₘ rest, results⟩).2.2 := by
  rw [poolWorth_cons]
  exact Multiset.mem_add.mpr (.inl (Multiset.mem_add.mpr (.inr (Multiset.mem_singleton_self o))))

variable [DecidableEq O] [DecidableEq C]

theorem Booked.moves (booked : choice.Booked start pool)
    (moved : Moves (step choice) choice.Regular pool next) : choice.Booked start next := by
  cases moved with
  | @step shared task rest results regular =>
    have balanced := booked.balanced
    have quiet := step_quiet booked.quiet task
    rw [poolWorth_cons] at balanced
    obtain ⟨fired_eq, worth_eq⟩ | ⟨o, k, rfl, triggered, fired_eq, worth_eq⟩ :=
      step_worth regular
    · constructor
      case balanced => rw [poolWorth_next, worth_eq, fired_eq, balanced]
      case nodup => exact fired_eq ▸ booked.nodup
      case quiet => exact quiet
      case founded => exact fired_eq ▸ booked.founded
    · obtain ⟨present, not_fired, others⟩ := choice.of_triggers triggered
      constructor
      case balanced =>
        rw [poolWorth_next, fired_eq, map_cons, map_cons, sum_cons, sum_cons,
          add_add_add_comm, worth_eq, add_left_comm start, ← balanced]
        abel
      case nodup => exact fired_eq ▸ nodup_cons.mpr ⟨not_fired, booked.nodup⟩
      case quiet => exact quiet
      case founded =>
        rw [fired_eq]
        refine ⟨fun participant is_participant => ?_, booked.founded⟩
        -- What the books hold came from the start or from a COMM.
        rw [← booked.balanced]
        apply Multiset.mem_add.mpr (.inl _)
        obtain rfl | stored := others participant is_participant
        · exact mem_poolWorth_inSpace
        · exact mem_poolWorth stored

end Books

end Choice

end F1r3fly.Rholang
