import Mathlib.Algebra.Order.BigOperators.Group.Multiset
import F1r3fly.Rholang.Accounting.ChargeSigns
import F1r3fly.Rholang.Accounting.Ledger

/-! The balance together with what the tuple space would give back for its terms. No step makes
this grow, if the charges of the evaluation are not negative. -/
namespace F1r3fly.Rholang

open Accounting Multiset
open ForkJoin

/-- What a charge of the space gives back. -/
def SpaceCharge.credit : SpaceCharge → ℤ
  | .refund amount => -(-amount).toInt
  | .event _ => 0
  | .comm _ => 0

/-- The numbers of the site that the next step charges for are such that the charge is not
negative. -/
def SiteInRange {O : Type} : Task O → Prop
  | .evaluating (.charges site _) => site.InRange
  | _ => True

instance (site : ChargeSite) : Decidable site.InRange := decidable_of_iff _ site.amount_nonneg_iff

instance {O : Type} (task : Task O) : Decidable (SiteInRange task) :=
  match task with
  | .evaluating (.charges site _) => inferInstanceAs (Decidable site.InRange)
  | .evaluating (.fails _) | .evaluating (.evals _) | .evaluating (.issues _) | .inSpace _
  | .settling _ _ => isTrue trivial

/-- The step does not charge a negative amount, and its COMM does not match the term twice. -/
def Choice.Sound {O C : Type} [DecidableEq O] [DecidableEq C] (choice : Choice O C)
    (shared : Shared O C) (task : Task O) : Prop :=
  SiteInRange task ∧ choice.MatchedOnce shared task

instance {O C : Type} [DecidableEq O] [DecidableEq C] (choice : Choice O C) (shared : Shared O C)
    (task : Task O) : Decidable (choice.Sound shared task) :=
  inferInstanceAs (Decidable (_ ∧ _))

namespace Choice

variable {O C : Type} (choice : Choice O C)

section Potential

def credit : Task O → ℤ
  | .evaluating _ => 0
  | .inSpace o => choice.size o
  | .settling charges _ => (charges.map SpaceCharge.credit).sum

def potential (pool : Pool (Shared O C) (Task O) BranchResult) : ℤ :=
  pool.shared.balance.toInt + (pool.shared.space.map choice.size).sum +
    (pool.tasks.map choice.credit).sum

def nextCredit (next : Next (Task O) BranchResult) : ℤ :=
  (next.tasks.map choice.credit).sum

variable (shared : Shared O C)

theorem charging_balance (amount : Int64) (failure : InterpreterError) (next : Task O) :
    (charging shared amount failure next).1.balance = (charge shared.balance amount).2 := by
  rw [charging]
  split
  case h_1 charged => rw [charged]
  case h_2 charged => rw [charged]

theorem nextCredit_goesOn (task : Task O) :
    choice.nextCredit (.goesOn task) = choice.credit task := by
  rw [nextCredit, Next.tasks, map_singleton, sum_singleton]

theorem nextCredit_ends (result : BranchResult) : choice.nextCredit (.ends result) = 0 := rfl

theorem nextCredit_forks (terms : List (Term O)) :
    choice.nextCredit (.forks (terms.map .evaluating)) = 0 := by
  refine sum_eq_zero fun credit present => ?_
  obtain ⟨task, is_task, rfl⟩ := mem_map.mp present
  obtain ⟨term, -, rfl⟩ := mem_map.mp (mem_coe.mp is_task)
  rfl

variable {choice}

/-- A charge that covers what the branch is going to be given back. -/
theorem charging_potential (failure : InterpreterError)
    (task_nonneg : 0 ≤ choice.credit task) (next_nonneg : 0 ≤ choice.credit next)
    (covered : choice.credit next ≤ amount.toInt + choice.credit task) :
    (charging shared amount failure next).1.balance.toInt +
        ((charging shared amount failure next).1.space.map choice.size).sum +
        choice.nextCredit (charging shared amount failure next).2 ≤
      shared.balance.toInt + (shared.space.map choice.size).sum + choice.credit task := by
  obtain stopped | ⟨-, value_eq⟩ := charge_value shared.balance amount
  · rw [charging, stopped]
    dsimp only
    rw [nextCredit_ends]
    omega
  · rw [charging]
    split
    case h_1 value charged =>
      rw [charged] at value_eq
      dsimp only at value_eq ⊢
      rw [nextCredit_goesOn]
      omega
    case h_2 error value charged =>
      rw [charged] at value_eq
      dsimp only at value_eq ⊢
      rw [nextCredit_ends]
      omega

end Potential

section Refunds

variable [DecidableEq O]

/-- The amount is what was charged for the storage of terms that the COMM removes, the one that
triggers it once. -/
def Refunds (k : C) (amount : Int64) : Prop :=
  ∃ trigger terms, (choice.participants k).count trigger = 1 ∧
    List.Sublist terms (choice.refunded trigger k) ∧
    amount.toInt = (terms.map fun o => (choice.op o).storageCost.toInt).sum

/-- A charge of the space is a refund for one of the COMMs, or it is not negative. -/
def Justified (fired : List C) (spaceCharge : SpaceCharge) : Prop :=
  (∃ k ∈ fired, ∃ amount, spaceCharge = .refund amount ∧ choice.Refunds k amount ∧
      (-amount).toInt = -amount.toInt) ∨
    spaceCharge.credit = 0 ∧ 0 ≤ spaceCharge.amount.toInt

def TaskJustified (fired : List C) : Task O → Prop
  | .settling charges _ => ∀ spaceCharge ∈ charges, choice.Justified fired spaceCharge
  | _ => True

structure Funded (start : ℤ) (pool : Pool (Shared O C) (Task O) BranchResult) : Prop where
  potential_le : choice.potential pool ≤ start
  justified : ∀ task ∈ pool.tasks, choice.TaskJustified pool.shared.fired task

section Credits

variable {choice} {fired : List C}

theorem Refunds.nonneg (refunds : choice.Refunds k amount) : 0 ≤ amount.toInt := by
  obtain ⟨trigger, terms, -, -, amount_eq⟩ := refunds
  rw [amount_eq]
  refine List.sum_nonneg fun cost present => ?_
  obtain ⟨o, -, rfl⟩ := mem_map.mp present
  rw [toInt_storageCost]
  exact choice.size_nonneg o

theorem Justified.credit_nonneg (justified : choice.Justified fired spaceCharge) :
    0 ≤ spaceCharge.credit := by
  obtain ⟨k, -, amount, rfl, refunds, neg_eq⟩ | ⟨no_credit, -⟩ := justified
  · rw [SpaceCharge.credit, neg_eq, neg_neg]
    exact refunds.nonneg
  · rw [no_credit]

theorem Justified.amount_add_credit (justified : choice.Justified fired spaceCharge) :
    0 ≤ spaceCharge.amount.toInt + spaceCharge.credit := by
  obtain ⟨k, -, amount, rfl, -, -⟩ | ⟨no_credit, nonneg⟩ := justified
  · exact (add_neg_cancel _).ge
  · rw [no_credit, add_zero]
    exact nonneg

theorem Justified.mono (subset : fired ⊆ more) (justified : choice.Justified fired spaceCharge) :
    choice.Justified more spaceCharge := by
  obtain ⟨k, happened, refund⟩ | not_negative := justified
  · exact .inl ⟨k, subset happened, refund⟩
  · exact .inr not_negative

theorem credit_nonneg (justified : choice.TaskJustified fired task) : 0 ≤ choice.credit task := by
  cases task with
  | evaluating term => exact le_rfl
  | inSpace o => exact choice.size_nonneg o
  | settling charges follow =>
    refine List.sum_nonneg fun given present => ?_
    obtain ⟨spaceCharge, is_charge, rfl⟩ := mem_map.mp present
    exact (justified spaceCharge is_charge).credit_nonneg

theorem TaskJustified.mono (subset : fired ⊆ more) (justified : choice.TaskJustified fired task) :
    choice.TaskJustified more task := by
  cases task with
  | evaluating term => trivial
  | inSpace o => trivial
  | settling charges follow =>
    exact fun spaceCharge present => (justified spaceCharge present).mono subset

theorem justified_refund (happened : k ∈ fired)
    (once : (choice.participants k).count trigger = 1)
    (present : terms.Sublist (choice.participants k))
    (fits : choice.refundedSize trigger terms < 2 ^ 48) :
    choice.Justified fired (.refund (i64 (choice.refundedSize trigger terms))) := by
  refine .inl ⟨k, happened, _, rfl, ⟨trigger, _, once, present.filter _, ?_⟩, ?_⟩
  · rw [toInt_i64 (by omega), coe_refundedSize]
    simp only [toInt_storageCost]
  · rw [toInt_neg_i64 (by omega), toInt_i64 (by omega)]

theorem justified_handleResult (trigger : O) (happened : k ∈ fired)
    (once : (choice.participants k).count trigger = 1) :
    ∀ spaceCharge ∈ handleResult (choice.withOp trigger) (some (choice.result k)),
      choice.Justified fired spaceCharge := by
  intro spaceCharge present
  rw [handleResult, mem_append, mem_append, List.mem_pair, mem_singleton] at present
  obtain ((rfl | rfl) | of_event) | rfl := present
  · have refunded := justified_refund happened once
      (List.singleton_sublist.mpr ((.head _) : choice.consume k ∈ choice.participants k))
      (choice.refundedConsume_lt trigger k)
    rw [← refundForConsume_eq] at refunded
    exact refunded
  · have refunded := justified_refund happened once
      (List.sublist_cons_self _ _ : (choice.produces k).Sublist (choice.participants k))
      (choice.refundedProduces_lt trigger k)
    rw [← refundForProduces_eq] at refunded
    exact refunded
  · split_ifs at of_event
    · cases of_event
    · rw [mem_singleton] at of_event
      subst of_event
      exact .inr ⟨rfl, choice.eventCost_nonneg trigger⟩
  · exact .inr ⟨rfl, choice.commCost_nonneg k⟩

theorem credit_handleResult (trigger : O) (k : C) (follow : Follow O) :
    choice.credit (.settling
      (handleResult (choice.withOp trigger) (some (choice.result k))) follow) =
      ((choice.refunded trigger k).map choice.size).sum := by
  have refunds := choice.refunds_sum trigger k
  have event_credit : ((if (choice.withOp trigger).2.persistent then []
      else [SpaceCharge.event (choice.withOp trigger).2.channelsCount]).map
        SpaceCharge.credit).sum = 0 := by
    split <;> rfl
  rw [credit, handleResult, map_append, sum_append, map_append, sum_append, event_credit]
  simp only [map_cons, map_nil, sum_cons, sum_nil, SpaceCharge.credit]
  dsimp only [withOp]
  linarith

theorem charging_tasks {failure : InterpreterError} (justified : choice.TaskJustified fired next) :
    ∀ task ∈ (charging shared amount failure next).2.tasks, choice.TaskJustified fired task := by
  intro task present
  rw [charging] at present
  split at present
  case h_1 =>
    rw [mem_singleton.mp present]
    exact justified
  case h_2 => exact absurd present (notMem_zero task)

theorem forks_justified (terms : List (Term O)) :
    ∀ task ∈ (Next.forks (R := BranchResult) (terms.map Task.evaluating)).tasks,
      choice.TaskJustified fired task := by
  intro task present
  obtain ⟨term, -, rfl⟩ := mem_map.mp (mem_coe.mp present)
  trivial

end Credits

section Steps

variable {choice} {shared : Shared O C} [DecidableEq C]

theorem step_potential (sound : choice.Sound shared task)
    (justified : choice.TaskJustified shared.fired task) :
    (step choice shared task).1.balance.toInt +
        ((step choice shared task).1.space.map choice.size).sum +
        choice.nextCredit (step choice shared task).2 ≤
      shared.balance.toInt + (shared.space.map choice.size).sum + choice.credit task := by
  have task_nonneg := credit_nonneg justified
  cases task with
  | evaluating term =>
    cases term with
    | charges site rest =>
      have amount_nonneg := site.amount_nonneg_iff.mpr sound.1
      refine charging_potential shared _ task_nonneg le_rfl ?_
      rw [credit, credit, add_zero]
      exact amount_nonneg
    | fails error => exact le_rfl
    | evals terms =>
      rw [step]
      split
      · exact le_rfl
      · rw [nextCredit_forks, credit]
    | issues o =>
      refine charging_potential shared _ task_nonneg (choice.size_nonneg o) ?_
      rw [toInt_storageCost, credit, credit, add_zero]
  | inSpace o =>
    rw [step]
    split
    case h_1 =>
      have no_refund :
        choice.credit (.settling (handleResult (choice.withOp o) none) .stops) = 0 := rfl
      rw [nextCredit_goesOn, no_refund, credit, map_cons, sum_cons]
      linarith
    case h_2 k triggered =>
      have kept := congrArg (fun terms => (terms.map choice.size).sum) (choice.coe_space triggered)
      have refunded := congrArg (fun terms => (terms.map choice.size).sum)
        (choice.coe_refunded (sound.2 k triggered))
      simp only [Multiset.map_coe, Multiset.sum_coe, Multiset.map_cons, Multiset.sum_cons,
        Multiset.map_add, Multiset.sum_add] at kept refunded
      rw [nextCredit_goesOn, credit_handleResult, credit]
      linarith
  | settling charges follow =>
    cases charges with
    | cons spaceCharge rest =>
      have covered := (justified spaceCharge (.head _)).amount_add_credit
      have rest_justified : choice.TaskJustified shared.fired (.settling rest follow) :=
        fun other present => justified other (.tail _ present)
      refine charging_potential shared _ task_nonneg (credit_nonneg rest_justified) ?_
      rw [credit, credit, map_cons, sum_cons]
      linarith
    | nil =>
      cases follow with
      | stops => exact le_rfl
      | evals body => rw [step, nextCredit_goesOn]; exact le_rfl
      | spawns terms => rw [step, nextCredit_forks]; exact le_rfl

theorem step_fired (task : Task O) : shared.fired ⊆ (step choice shared task).1.fired := by
  obtain ⟨-, fired_eq⟩ | ⟨o, -, ⟨-, -, fired_eq⟩ | ⟨k, -, -, fired_eq⟩⟩ :=
    step_shared choice shared task
  · rw [fired_eq]
    exact List.Subset.refl _
  · rw [fired_eq]
    exact List.Subset.refl _
  · rw [fired_eq]
    exact List.subset_cons_self _ _

theorem step_justified (matched : choice.MatchedOnce shared task)
    (justified : choice.TaskJustified shared.fired task) :
    ∀ next ∈ (step choice shared task).2.tasks,
      choice.TaskJustified (step choice shared task).1.fired next := by
  cases task with
  | evaluating term =>
    cases term with
    | charges site rest => exact charging_tasks trivial
    | fails error => exact fun next present => absurd present (notMem_zero next)
    | evals terms =>
      rw [step]
      split
      · exact fun next present => absurd present (notMem_zero next)
      · exact forks_justified terms
    | issues o => exact charging_tasks trivial
  | inSpace o =>
    rw [step]
    split
    case h_1 =>
      intro next present
      rw [mem_singleton.mp present]
      intro spaceCharge is_event
      rw [mem_singleton.mp is_event]
      exact .inr ⟨rfl, choice.eventCost_nonneg o⟩
    case h_2 k triggered =>
      intro next present
      rw [mem_singleton.mp present]
      exact justified_handleResult o (.head _) (matched k triggered)
  | settling charges follow =>
    cases charges with
    | cons spaceCharge rest =>
      intro next present
      refine TaskJustified.mono (step_fired _) (charging_tasks ?_ next present)
      exact fun other is_charge => justified other (.tail _ is_charge)
    | nil =>
      cases follow with
      | stops => exact fun next present => absurd present (notMem_zero next)
      | evals body =>
        intro next present
        rw [mem_singleton.mp present]
        trivial
      | spawns terms => exact forks_justified terms

theorem Funded.moves {start : ℤ} (funded : choice.Funded start pool)
    (moved : Moves (step choice) choice.Sound pool next) : choice.Funded start next := by
  cases moved with
  | @step shared task rest results sound =>
    have task_justified := funded.justified task (Multiset.mem_cons_self task rest)
    constructor
    case potential_le =>
      have stepped := step_potential sound task_justified
      have before := funded.potential_le
      rw [potential, Multiset.map_cons, Multiset.sum_cons] at before
      rw [potential, Multiset.map_add, Multiset.sum_add, ← nextCredit]
      linarith
    case justified =>
      intro other present
      obtain is_next | is_other := Multiset.mem_add.mp present
      · exact step_justified sound.2 task_justified other is_next
      · exact (funded.justified other (Multiset.mem_cons_of_mem is_other)).mono (step_fired task)

/-- The balance rises by refunds only. -/
theorem step_rises (in_range : SiteInRange task)
    (justified : choice.TaskJustified shared.fired task)
    (rises : shared.balance.toInt < (step choice shared task).1.balance.toInt) :
    ∃ k ∈ shared.fired, ∃ amount rest follow,
      task = .settling (.refund amount :: rest) follow ∧ choice.Refunds k amount ∧
        (step choice shared task).1.balance.toInt ≤ shared.balance.toInt + amount.toInt := by
  cases task with
  | evaluating term =>
    exfalso
    cases term with
    | charges site rest =>
      have amount_nonneg := site.amount_nonneg_iff.mpr in_range
      rw [step, charging_balance] at rises
      have le := le_of_charge_rises rises
      omega
    | fails error => exact lt_irrefl _ rises
    | evals terms =>
      rw [step] at rises
      split at rises <;> exact lt_irrefl _ rises
    | issues o =>
      have size_nonneg := choice.size_nonneg o
      rw [step, charging_balance] at rises
      have le := le_of_charge_rises rises
      rw [toInt_storageCost] at le
      omega
  | inSpace o =>
    exfalso
    rw [step] at rises
    split at rises <;> exact lt_irrefl _ rises
  | settling charges follow =>
    cases charges with
    | cons spaceCharge rest =>
      rw [step, charging_balance] at rises ⊢
      have le := le_of_charge_rises rises
      obtain ⟨k, happened, amount, rfl, refunds, neg_eq⟩ | ⟨-, nonneg⟩ :=
        justified spaceCharge (.head _)
      · refine ⟨k, happened, amount, rest, follow, rfl, refunds, ?_⟩
        rw [SpaceCharge.amount, neg_eq] at le
        rw [SpaceCharge.amount]
        omega
      · exfalso
        omega
    | nil => cases follow <;> exact absurd rises (lt_irrefl _)

end Steps

end Refunds

end Choice

section Runs

variable {O C : Type} [DecidableEq O]

theorem funded_start (choice : Choice O C) (shared : Shared O C) (terms : List (Term O)) :
    choice.Funded (shared.balance.toInt + (shared.space.map choice.size).sum)
      (poolOf shared (start terms)) where
  potential_le := by
    rw [start, poolOf, Tree.tasks, Choice.potential, map_singleton,
      sum_singleton, Choice.credit, add_zero]
  justified := by
    intro task present
    rw [mem_singleton.mp present]
    trivial

variable [DecidableEq C]

section

variable {choice : Choice O C} {shared after : Shared O C} {terms : List (Term O)}
  {schedule : List (List Nat)} {tree : Tree (Task O) BranchResult}
  (ran : ForkJoin.run (step choice) schedule shared (start terms) = some (after, tree))
  (along : Along (step choice) choice.Sound schedule shared (start terms))

include ran along

theorem funded_of_run : choice.Funded (shared.balance.toInt + (shared.space.map choice.size).sum)
    (poolOf after tree) :=
  ForkJoin.holds_of_run (fun _ _ => Choice.Funded.moves)
    (funded_start choice shared terms) ran along

/-- The balance and the storage of the tuple space do not grow together. -/
theorem balance_add_storage_le :
    after.balance.toInt + (after.space.map choice.size).sum ≤
      shared.balance.toInt + (shared.space.map choice.size).sum := by
  have funded := funded_of_run ran along
  have potential_le := funded.potential_le
  have credits_nonneg : 0 ≤ (tree.tasks.map choice.credit).sum := by
    refine Multiset.sum_nonneg fun credit present => ?_
    obtain ⟨task, is_task, rfl⟩ := Multiset.mem_map.mp present
    exact Choice.credit_nonneg (funded.justified task is_task)
  rw [poolOf, Choice.potential] at potential_le
  dsimp only at potential_le
  linarith

end

end Runs

/-- The receive, the send up to the refunds, and nothing of a branch that takes some elements. -/
def untilRefunded : List (List Nat) := [[]] ++ List.replicate 4 [0] ++ List.replicate 4 [1]

end F1r3fly.Rholang
