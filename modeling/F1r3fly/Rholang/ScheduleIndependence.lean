import F1r3fly.Rholang.Interpreter
import F1r3fly.Rholang.Accounting.Ledger

/-! Two evaluations of a deploy that differ in the schedule only. As long as the balance can take
every charge, the same COMMs happen in both, and the books are the same at the end. -/
namespace F1r3fly.Rholang

open Multiset Prod
open ForkJoin

namespace Choice

variable {O C : Type} {choice : Choice O C} {start : Account O}
  {pool other : Pool (Shared O C) (Task O) BranchResult}

theorem mem_sum {accounts : List (Account O)} :
    o ∈ accounts.sum.2.2 ↔ ∃ account ∈ accounts, o ∈ account.2.2 := by
  induction accounts with
  | nil => simp
  | cons account accounts ih =>
    rw [sum_cons, snd_add, snd_add, mem_add, ih, exists_mem_cons_iff]

theorem sum_resultWorth (results : Multiset BranchResult) :
    (results.map (resultWorth (O := O))).sum = (0, (results.map Verdict.ofResult).sum, 0) := by
  induction results using Multiset.induction with
  | empty => rfl
  | cons result results ih =>
    rw [Multiset.map_cons, Multiset.sum_cons, ih, Multiset.map_cons, Multiset.sum_cons]
    rfl

theorem poolWorth_ended (ended : pool.tasks = 0) :
    choice.poolWorth pool =
      (-pool.shared.balance.toInt, (pool.results.map Verdict.ofResult).sum,
        (pool.shared.space : Multiset O)) := by
  rw [poolWorth, ended, map_zero, sum_zero, add_zero, sum_resultWorth, sharedWorth]
  refine Prod.ext (add_zero _) (Prod.ext (zero_add _) (add_zero _))

/-- A COMM of one evaluation happens in every other one before that has ended. -/
theorem Booked.fired_of_founded (booked : choice.Booked start pool) (ended : pool.tasks = 0)
    {fired : List C} (founded : choice.Founded start fired) : fired ⊆ pool.shared.fired := by
  induction fired with
  | nil => exact List.nil_subset _
  | cons k earlier ih =>
    obtain ⟨supplied, earlier_founded⟩ := founded
    have earlier_fired := ih earlier_founded
    refine List.cons_subset.mpr ⟨?_, earlier_fired⟩
    by_contra not_fired
    obtain ⟨o, present, not_stored⟩ := booked.quiet k not_fired
    -- The term was issued here too, and no other COMM has taken it.
    have issued : o ∈ (start + (pool.shared.fired.map choice.gains).sum).2.2 := by
      obtain at_start | gained := mem_add.mp (supplied o present)
      · exact mem_add.mpr (.inl at_start)
      · obtain ⟨account, is_gain, held⟩ := mem_sum.mp gained
        obtain ⟨cause, is_earlier, rfl⟩ := mem_map.mp is_gain
        exact mem_add.mpr (.inr (mem_sum.mpr
          ⟨_, mem_map_of_mem (earlier_fired is_earlier), held⟩))
    rw [← booked.balanced, poolWorth_ended ended] at issued
    obtain stored | taken := mem_add.mp issued
    · exact not_stored stored
    · obtain ⟨account, is_taken, spent⟩ := mem_sum.mp taken
      obtain ⟨cause, cause_fired, rfl⟩ := mem_map.mp is_taken
      exact not_fired (choice.eq_of_mem_spent spent present ▸ cause_fired)

theorem sum_takes (fired : List C) : (fired.map choice.takes).sum.2.1 = 0 := by
  induction fired with
  | nil => rfl
  | cons k fired ih =>
    rw [map_cons, sum_cons, snd_add, fst_add, ih]
    rfl

/-- Evaluations that have ended agree on the balance and on the errors. -/
theorem Booked.ended_eq (booked : choice.Booked start pool) (ended : pool.tasks = 0)
    (other_booked : choice.Booked start other) (other_ended : other.tasks = 0) :
    pool.shared.balance = other.shared.balance ∧
      (pool.results.map Verdict.ofResult).sum = (other.results.map Verdict.ofResult).sum := by
  have same_comms : pool.shared.fired.Perm other.shared.fired :=
    (booked.nodup.subperm (other_booked.fired_of_founded other_ended booked.founded)).antisymm
      (other_booked.nodup.subperm (booked.fired_of_founded ended other_booked.founded))
  have balanced := booked.balanced
  rw [(same_comms.map choice.gains).sum_eq, (same_comms.map choice.takes).sum_eq,
    ← other_booked.balanced, poolWorth_ended ended, poolWorth_ended other_ended] at balanced
  have amounts := congrArg fst balanced
  have verdicts := congrArg (fun account => account.2.1) balanced
  simp only [fst_add, snd_add, sum_takes, add_zero] at amounts verdicts
  exact ⟨Int64.toInt_inj.mp (by omega), verdicts⟩

theorem booked_start (runtime : RhoRuntime O C) (balance : Int64) (terms : List (Term O)) :
    runtime.choice.Booked
      (runtime.choice.poolWorth (poolOf (runtime.shared balance) (Rholang.start terms)))
      (poolOf (runtime.shared balance) (Rholang.start terms)) where
  balanced := rfl
  nodup := List.nodup_nil
  quiet k _ := runtime.quiet k
  founded := trivial

end Choice

section Runs

variable {O C : Type} [DecidableEq O] [DecidableEq C] {runtime : RhoRuntime O C}

/-- The balance can take every charge of the reduction, and no COMM matches the term twice that
triggers it. -/
def RhoRuntime.Pays (runtime : RhoRuntime O C) (initialPhlo : Int64) (term : String)
    (schedule : List (List Nat)) : Prop :=
  ∀ balance terms, prepare runtime initialPhlo term = .ok (balance, terms) →
    Along (step runtime.choice) runtime.choice.Regular schedule (runtime.shared balance)
      (start terms)

variable {balance : Int64} {terms : List (Term O)} {schedule other : List (List Nat)}

theorem runs_eq
    (ran : ForkJoin.run (step runtime.choice) schedule (runtime.shared balance) (start terms) =
      some (shared, tree))
    (along : Along (step runtime.choice) runtime.choice.Regular schedule
      (runtime.shared balance) (start terms))
    (ended : tree.outcome joinResults = some outcome)
    (other_ran : ForkJoin.run (step runtime.choice) other (runtime.shared balance) (start terms) =
      some (otherShared, otherTree))
    (other_along : Along (step runtime.choice) runtime.choice.Regular other
      (runtime.shared balance) (start terms))
    (other_ended : otherTree.outcome joinResults = some otherOutcome) :
    shared.balance = otherShared.balance ∧ Verdict.ofResult outcome = .ofResult otherOutcome := by
  obtain ⟨no_tasks, verdict_eq⟩ := ForkJoin.outcome_summary Verdict.ofResult_joinResults ended
  obtain ⟨no_other_tasks, other_verdict_eq⟩ :=
    ForkJoin.outcome_summary Verdict.ofResult_joinResults other_ended
  have booked := ForkJoin.holds_of_run (fun _ _ => Choice.Booked.moves)
    (Choice.booked_start runtime balance terms) ran along
  have other_booked := ForkJoin.holds_of_run (fun _ _ => Choice.Booked.moves)
    (Choice.booked_start runtime balance terms) other_ran other_along
  obtain ⟨balance_eq, verdicts_eq⟩ := booked.ended_eq no_tasks other_booked no_other_tasks
  exact ⟨balance_eq, verdict_eq.trans (verdicts_eq.trans other_verdict_eq.symm)⟩

/-- Evaluations that can take every charge report the same cost and end the same way. -/
theorem injAttempt_eq (paid : runtime.Pays initialPhlo term schedule)
    (other_paid : runtime.Pays initialPhlo term other)
    (attempted : injAttempt runtime initialPhlo term schedule = some (result, left))
    (other_attempted : injAttempt runtime initialPhlo term other = some (otherResult, otherLeft)) :
    result.verdict = otherResult.verdict ∧ result.cost = otherResult.cost := by
  obtain stopped | ⟨balance, terms, shared, tree, outcome, prepared, ran, ended, rfl, rfl⟩ :=
    injAttempt_cases attempted
  · rw [injAttempt, stopped] at other_attempted
    cases other_attempted
    exact ⟨rfl, rfl⟩
  · obtain stopped | ⟨other_balance, other_terms, other_shared, other_tree, other_outcome,
      other_prepared, other_ran, other_ended, rfl, rfl⟩ := injAttempt_cases other_attempted
    · rw [prepared] at stopped
      cases stopped
    · rw [prepared] at other_prepared
      cases other_prepared
      obtain ⟨balance_eq, verdict_eq⟩ := runs_eq ran (paid balance terms prepared) ended other_ran
        (other_paid balance terms prepared) other_ended
      rw [verdict_reduced, verdict_reduced, cost_reduced, cost_reduced, verdict_eq, balance_eq]
      exact ⟨rfl, rfl⟩

end Runs

end F1r3fly.Rholang
