import Mathlib.Algebra.BigOperators.Group.Multiset.Basic
import Mathlib.Tactic.Abel
import F1r3fly.Data.Exploration

/-! Branches that work on one shared state. A branch takes one step after the other, and it may
fork into branches whose results are joined when all have ended. A schedule says which branch
takes the next step. -/
namespace F1r3fly.ForkJoin

open Option Multiset

open Relation (ReflTransGen)

variable {S T R : Type}

inductive Next (T R : Type) where
  | goesOn (task : T)
  | ends (result : R)
  | forks (tasks : List T)

inductive Tree (T R : Type) where
  | running (task : T)
  | ended (result : R)
  | joins (branches : List (Tree T R))

@[elab_as_elim]
theorem Tree.inductionOn {holds : Tree T R → Prop} (tree : Tree T R)
    (running : ∀ task, holds (.running task)) (ended : ∀ result, holds (.ended result))
    (joins : ∀ branches, (∀ branch ∈ branches, holds branch) → holds (.joins branches)) :
    holds tree :=
  @Tree.rec T R holds (fun branches => ∀ branch ∈ branches, holds branch) running ended joins
    (fun _ absurd_mem => absurd absurd_mem not_mem_nil)
    (fun _ _ first rest => forall_mem_cons.mpr ⟨first, rest⟩) tree

namespace Next

def tree : Next T R → Tree T R
  | goesOn task => .running task
  | ends result => .ended result
  | forks tasks => .joins (tasks.map .running)

def tasks : Next T R → Multiset T
  | goesOn task => {task}
  | ends _ => 0
  | forks tasks => tasks

def results : Next T R → Multiset R
  | goesOn _ => 0
  | ends result => {result}
  | forks _ => 0

end Next

section Running

variable (step : S → T → S × Next T R)

def advance : List Nat → S → Tree T R → Option (S × Tree T R)
  | [], shared, .running task =>
    let (shared, next) := step shared task
    some (shared, next.tree)
  | index :: path, shared, .joins branches => do
    let branch ← branches[index]?
    let (shared, branch) ← advance path shared branch
    return (shared, .joins (branches.set index branch))
  | _, _, _ => none

def run : List (List Nat) → S → Tree T R → Option (S × Tree T R)
  | [], shared, tree => some (shared, tree)
  | path :: schedule, shared, tree => do
    let (shared, tree) ← advance step path shared tree
    run schedule shared tree

end Running

mutual

def Tree.taskAt : Tree T R → List Nat → Option T
  | .running task, [] => some task
  | .joins branches, index :: path => taskAtOf branches index path
  | _, _ => none

def taskAtOf : List (Tree T R) → Nat → List Nat → Option T
  | [], _, _ => none
  | branch :: _, 0, path => branch.taskAt path
  | _ :: branches, index + 1, path => taskAtOf branches index path

end

mutual

def Tree.tasks : Tree T R → Multiset T
  | .running task => {task}
  | .ended _ => 0
  | .joins branches => tasksOf branches

def tasksOf : List (Tree T R) → Multiset T
  | [] => 0
  | branch :: branches => branch.tasks + tasksOf branches

end

mutual

def Tree.results : Tree T R → Multiset R
  | .running _ => 0
  | .ended result => {result}
  | .joins branches => resultsOf branches

def resultsOf : List (Tree T R) → Multiset R
  | [] => 0
  | branch :: branches => branch.results + resultsOf branches

end

mutual

def Tree.outcome (join : List R → R) : Tree T R → Option R
  | .running _ => none
  | .ended result => some result
  | .joins branches => (outcomesOf join branches).map join

def outcomesOf (join : List R → R) : List (Tree T R) → Option (List R)
  | [] => some []
  | branch :: branches => do
    let result ← branch.outcome join
    let results ← outcomesOf join branches
    return result :: results

end

/-- Every step of the run is one that the condition allows. -/
def Along (step : S → T → S × Next T R) (allowed : S → T → Prop) :
    List (List Nat) → S → Tree T R → Prop
  | [], _, _ => True
  | path :: schedule, shared, tree =>
    (∀ task, tree.taskAt path = some task → allowed shared task) ∧
      ∀ next, advance step path shared tree = some next → Along step allowed schedule next.1 next.2

instance Along.decidable (step : S → T → S × Next T R) (allowed : S → T → Prop)
    [∀ shared task, Decidable (allowed shared task)] :
    ∀ schedule shared tree, Decidable (Along step allowed schedule shared tree)
  | [], _, _ => isTrue trivial
  | path :: schedule, shared, tree =>
    have := Along.decidable step allowed schedule
    inferInstanceAs (Decidable ((∀ task ∈ tree.taskAt path, allowed shared task) ∧
      ∀ next ∈ advance step path shared tree, Along step allowed schedule next.1 next.2))

/-- The shared state, the tasks that are left and the results so far, without the tree. -/
structure Pool (S T R : Type) where
  shared : S
  tasks : Multiset T
  results : Multiset R

def poolOf (shared : S) (tree : Tree T R) : Pool S T R := ⟨shared, tree.tasks, tree.results⟩

/-- Some task takes a step that the condition allows. -/
inductive Moves (step : S → T → S × Next T R) (allowed : S → T → Prop) :
    Pool S T R → Pool S T R → Prop
  | step {shared : S} {task : T} {rest : Multiset T} {results : Multiset R}
      (is_allowed : allowed shared task) :
      Moves step allowed ⟨shared, task ::ₘ rest, results⟩
        ⟨(step shared task).1, (step shared task).2.tasks + rest,
          (step shared task).2.results + results⟩

section Pools

variable {step : S → T → S × Next T R} {allowed : S → T → Prop}

theorem tasksOf_append (branches others : List (Tree T R)) :
    tasksOf (branches ++ others) = tasksOf branches + tasksOf others := by
  induction branches with
  | nil => rw [nil_append, tasksOf, zero_add]
  | cons branch branches ih => rw [cons_append, tasksOf, tasksOf, ih, add_assoc]

theorem resultsOf_append (branches others : List (Tree T R)) :
    resultsOf (branches ++ others) = resultsOf branches + resultsOf others := by
  induction branches with
  | nil => rw [nil_append, resultsOf, zero_add]
  | cons branch branches ih => rw [cons_append, resultsOf, resultsOf, ih, add_assoc]

theorem tasksOf_running (tasks : List T) :
    tasksOf (tasks.map (Tree.running (R := R))) = (tasks : Multiset T) := by
  induction tasks with
  | nil => rfl
  | cons task tasks ih =>
    rw [map_cons, tasksOf, ih, Tree.tasks, singleton_add, cons_coe]

theorem resultsOf_running (tasks : List T) : resultsOf (tasks.map (Tree.running (R := R))) = 0 := by
  induction tasks with
  | nil => rfl
  | cons task tasks ih => rw [map_cons, resultsOf, ih, Tree.results, zero_add]

theorem tasks_tree (next : Next T R) : next.tree.tasks = next.tasks := by
  cases next with
  | goesOn task => rfl
  | ends result => rfl
  | forks tasks => exact tasksOf_running tasks

theorem results_tree (next : Next T R) : next.tree.results = next.results := by
  cases next with
  | goesOn task => rfl
  | ends result => rfl
  | forks tasks => exact resultsOf_running tasks

theorem taskAtOf_append (before : List (Tree T R)) (branch : Tree T R) (after : List (Tree T R))
    (path : List Nat) :
    taskAtOf (before ++ branch :: after) before.length path = branch.taskAt path := by
  induction before with
  | nil => rfl
  | cons first before ih => exact ih

/-- One step of a branch, whatever the tree around it. -/
theorem advance_eq_some (advanced : advance step path shared tree = some (after, result)) :
    ∃ task rest, tree.taskAt path = some task ∧ tree.tasks = task ::ₘ rest ∧
      after = (step shared task).1 ∧ result.tasks = (step shared task).2.tasks + rest ∧
        result.results = (step shared task).2.results + tree.results := by
  induction path generalizing tree result with
  | nil =>
    cases tree with
    | running task =>
      cases advanced
      refine ⟨task, 0, rfl, rfl, rfl, ?_, ?_⟩
      · rw [tasks_tree, add_zero]
      · rw [results_tree, Tree.results, add_zero]
    | ended result | joins branches => cases advanced
  | cons index path ih =>
    cases tree with
    | running task | ended result => cases advanced
    | joins branches =>
      obtain ⟨branch, found, advanced⟩ := bind_eq_some_iff.mp advanced
      obtain ⟨⟨after', branch'⟩, branch_advanced, returned⟩ := bind_eq_some_iff.mp advanced
      cases returned
      obtain ⟨task, rest, at_path, tasks_eq, after_eq, tasks_after, results_after⟩ :=
        ih branch_advanced
      obtain ⟨in_range, branch_eq⟩ := getElem?_eq_some_iff.mp found
      obtain ⟨before, behind, split_eq, length_eq, set_eq⟩ : ∃ before behind,
          branches = before ++ branches[index] :: behind ∧ before.length = index ∧
            branches.set index branch' = before ++ branch' :: behind :=
        List.exists_of_set in_range
      rw [branch_eq] at split_eq
      rw [set_eq, split_eq]
      refine ⟨task, tasksOf before + (rest + tasksOf behind), ?_, ?_, after_eq, ?_, ?_⟩
      · rw [← length_eq, Tree.taskAt, taskAtOf_append, at_path]
      · rw [Tree.tasks, tasksOf_append, tasksOf, tasks_eq, cons_add, add_cons]
      · rw [Tree.tasks, tasksOf_append, tasksOf, tasks_after]
        abel
      · rw [Tree.results, Tree.results, resultsOf_append, resultsOf_append, resultsOf, resultsOf,
          results_after]
        abel

/-- A run of the branches of a tree is a run of the pool of their tasks. -/
theorem run_moves (ran : run step schedule shared tree = some (after, result))
    (along : Along step allowed schedule shared tree) :
    ReflTransGen (Moves step allowed) (poolOf shared tree) (poolOf after result) := by
  induction schedule generalizing shared tree with
  | nil =>
    cases ran
    exact .refl
  | cons path schedule ih =>
    obtain ⟨⟨middle, middle_tree⟩, advanced, rest_ran⟩ := bind_eq_some_iff.mp ran
    obtain ⟨is_allowed, along_rest⟩ := along
    obtain ⟨task, rest, at_path, tasks_eq, middle_eq, tasks_after, results_after⟩ :=
      advance_eq_some advanced
    refine .head ?_ (ih rest_ran (along_rest _ advanced))
    rw [poolOf, poolOf, tasks_eq, tasks_after, results_after, middle_eq]
    exact .step (is_allowed task at_path)

/-- What holds at the start and is kept by every step holds at the end of a run. -/
theorem holds_of_run {holds : Pool S T R → Prop}
    (kept : ∀ pool next, holds pool → Moves step allowed pool next → holds next)
    (start : holds (poolOf shared tree))
    (ran : run step schedule shared tree = some (after, result))
    (along : Along step allowed schedule shared tree) : holds (poolOf after result) :=
  holds_of_reflTransGen holds kept start (run_moves ran along)

end Pools

section Outcomes

variable {M : Type} [AddCommMonoid M] {summary : R → M} {join : List R → R}

theorem outcomesOf_summary {branches : List (Tree T R)}
    (each : ∀ branch ∈ branches, ∀ result, branch.outcome join = some result →
      branch.tasks = 0 ∧ summary result = (branch.results.map summary).sum)
    (outcomes_eq : outcomesOf join branches = some results) :
    tasksOf branches = 0 ∧ (results.map summary).sum = ((resultsOf branches).map summary).sum := by
  induction branches generalizing results with
  | nil =>
    cases outcomes_eq
    exact ⟨rfl, by simp [resultsOf]⟩
  | cons branch branches ih =>
    obtain ⟨first, first_eq, outcomes_eq⟩ := bind_eq_some_iff.mp outcomes_eq
    obtain ⟨rest, rest_eq, returned⟩ := bind_eq_some_iff.mp outcomes_eq
    cases returned
    obtain ⟨no_tasks, first_sum⟩ := each branch (.head _) first first_eq
    obtain ⟨none_left, rest_sum⟩ :=
      ih (fun other present => each other (.tail branch present)) rest_eq
    refine ⟨by rw [tasksOf, no_tasks, none_left, add_zero], ?_⟩
    rw [map_cons, sum_cons, first_sum, rest_sum, resultsOf, map_add, sum_add]

/-- If joining adds up what is kept of the results, the outcome has the sum of them all. -/
theorem outcome_summary (joined : ∀ results, summary (join results) = (results.map summary).sum)
    {tree : Tree T R} (outcome_eq : tree.outcome join = some result) :
    tree.tasks = 0 ∧ summary result = (tree.results.map summary).sum := by
  induction tree using Tree.inductionOn generalizing result with
  | running task => cases outcome_eq
  | ended result =>
    cases outcome_eq
    exact ⟨rfl, by rw [Tree.results, map_singleton, sum_singleton]⟩
  | joins branches ih =>
    obtain ⟨results, outcomes_eq, rfl⟩ := map_eq_some_iff.mp outcome_eq
    obtain ⟨no_tasks, sum_eq⟩ := outcomesOf_summary (fun branch present result => ih branch present)
      outcomes_eq
    exact ⟨no_tasks, by rw [joined, sum_eq, Tree.results]⟩

end Outcomes

end F1r3fly.ForkJoin
