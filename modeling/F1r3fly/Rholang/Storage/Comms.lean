import Mathlib.Algebra.BigOperators.Ring.Finset
import Mathlib.Algebra.Order.Ring.Nat
import F1r3fly.Rholang.Reduce

/-! What a COMM of the choice takes out of the tuple space, and what is given back for it. -/
namespace F1r3fly.Rholang

open Accounting Multiset

namespace Choice

variable {O C : Type} (choice : Choice O C)

def size (o : O) : ℤ := (choice.op o).size

def eventCost (o : O) : ℤ := (eventStorageCost (choice.op o).channelsCount).toInt

def commCost (k : C) : ℤ :=
  (commEventStorageCost (choice.op (choice.consume k)).channelsCount).toInt

theorem toInt_storageCost (o : O) : (choice.op o).storageCost.toInt = choice.size o := by
  have fits := (choice.fits o).1
  rw [Op.storageCost_eq, toInt_i64 (by omega), size]

theorem size_nonneg (o : O) : 0 ≤ choice.size o := Int.natCast_nonneg _

theorem eventCost_nonneg (o : O) : 0 ≤ choice.eventCost o := by
  have fits := (choice.fits o).2
  rw [eventCost, Op.channelsCount, eventStorageCost_eq]
  exact i64_nonneg (by omega)

theorem commCost_nonneg (k : C) : 0 ≤ choice.commCost k := by
  have fits := (choice.fits (choice.consume k)).2
  rw [commCost, Op.channelsCount, commEventStorageCost_eq]
  exact i64_nonneg (by omega)

/-- The linear terms of a COMM. No other COMM has them. -/
def spent (k : C) : List O :=
  (choice.participants k).filter fun o => !(choice.op o).persistent

theorem mem_participants : o ∈ choice.participants k ↔ k ∈ choice.comms o := by
  rw [choice.listed, participants, mem_cons]

theorem eq_of_mem_spent (taken : o ∈ choice.spent other)
    (present : o ∈ choice.participants k) : k = other := by
  obtain ⟨also_present, linear⟩ := mem_filter.mp taken
  rw [not_eq_true'] at linear
  exact choice.once o k other linear (choice.mem_participants.mp present)
    (choice.mem_participants.mp also_present)

variable [DecidableEq O]

/-- The terms that the space gives back the cost of storage for. -/
def refunded (trigger : O) (k : C) : List O :=
  (choice.participants k).filter fun o => isRemoved trigger (choice.withOp o)

variable {trigger : O}

theorem filter_trigger {terms : List O} (once : terms.count trigger = 1) (keeps : O → Bool)
    (kept : keeps trigger) :
    (terms.filter keeps : Multiset O) =
      trigger ::ₘ (terms.filter fun o => o != trigger && keeps o : List O) := by
  rw [cons_coe, coe_eq_coe]
  refine List.perm_iff_count.mpr fun o => ?_
  by_cases same : o = trigger
  · subst same
    rw [List.count_filter kept, once, List.count_cons_self, List.count_eq_zero.mpr (by simp)]
  · rw [List.count_cons_of_ne (Ne.symm same)]
    by_cases keeps_o : keeps o
    · rw [List.count_filter keeps_o, List.count_filter (by simp [same, keeps_o])]
    · rw [List.count_eq_zero.mpr (by simp [keeps_o]), List.count_eq_zero.mpr (by simp [keeps_o])]

theorem coe_refunded {k : C} (once : (choice.participants k).count trigger = 1) :
    (choice.refunded trigger k : Multiset O) = trigger ::ₘ (choice.removes trigger k : List O) := by
  rw [refunded, filter_trigger once _ (by simp [isRemoved, withOp]), removes, cons_inj_right,
    coe_eq_coe]
  refine List.Perm.of_eq (List.filter_congr fun o _ => ?_)
  by_cases same : o = trigger
  · simp [same]
  · simp [isRemoved, withOp, beq_eq_false_iff_ne.mpr same]

theorem coe_spent {k : C} (once : (choice.participants k).count trigger = 1) :
    (choice.spent k : Multiset O) = (if (choice.op trigger).persistent then 0 else {trigger}) +
      (choice.removes trigger k : List O) := by
  by_cases persistent : (choice.op trigger).persistent
  · rw [if_pos persistent, zero_add, spent, removes, coe_eq_coe]
    refine List.Perm.of_eq (List.filter_congr fun o _ => ?_)
    by_cases same : o = trigger
    · simp [same, persistent]
    · simp [same]
  · rw [if_neg persistent, singleton_add, spent, filter_trigger once _ (by simp [persistent]),
      removes]

section Firing

variable [DecidableEq C]

/-- If the step triggers a COMM, this has the term at one place only. -/
def MatchedOnce (shared : Shared O C) : Task O → Prop
  | .inSpace o => ∀ k ∈ choice.triggers shared o, (choice.participants k).count o = 1
  | _ => True

instance (shared : Shared O C) (task : Task O) : Decidable (choice.MatchedOnce shared task) :=
  match task with
  | .inSpace o => Option.decidableForallMem (choice.triggers shared o)
  | .evaluating _ | .settling _ _ => isTrue trivial

variable {shared : Shared O C} {trigger : O} {k : C}

theorem of_triggers (triggered : choice.triggers shared trigger = some k) :
    trigger ∈ choice.participants k ∧ k ∉ shared.fired ∧
      ∀ o ∈ choice.participants k, o = trigger ∨ o ∈ shared.space := by
  have ready := find?_some triggered
  rw [isReady, and_eq_true, all_eq_true] at ready
  obtain ⟨not_fired, others⟩ := ready
  refine ⟨choice.mem_participants.mpr (mem_of_find?_eq_some triggered), ?_, ?_⟩
  · simpa using not_fired
  · intro o present
    simpa using others o present

theorem not_ready_of_triggers (none_found : choice.triggers shared trigger = none)
    (present : trigger ∈ choice.participants k) (not_fired : k ∉ shared.fired) :
    ∃ o ∈ choice.participants k, o ≠ trigger ∧ o ∉ shared.space := by
  have not_ready := find?_eq_none.mp none_found k (choice.mem_participants.mp present)
  by_contra all_there
  push Not at all_there
  refine not_ready ?_
  rw [isReady, and_eq_true, all_eq_true]
  refine ⟨by simpa using not_fired, fun o is_participant => ?_⟩
  by_cases same : o = trigger
  · simp [same]
  · simp [all_there o is_participant same]

/-- The terms that the COMM removes were in the space. -/
theorem coe_space (triggered : choice.triggers shared trigger = some k) :
    (shared.space.diff (choice.removes trigger k) : Multiset O) + choice.removes trigger k =
      shared.space := by
  obtain ⟨-, -, others⟩ := choice.of_triggers triggered
  have removes_le : (choice.removes trigger k : Multiset O) ≤ shared.space := by
    have nodup : (choice.removes trigger k).Nodup := by
      rw [removes, ← List.filter_filter]
      exact (choice.distinct k).filter _
    refine coe_le.mpr (List.subperm_of_subset nodup ?_)
    intro o removed
    obtain ⟨present, not_trigger⟩ := mem_filter.mp removed
    rw [and_eq_true, bne_iff_ne] at not_trigger
    exact (others o present).resolve_left not_trigger.1
  rw [← coe_sub, tsub_add_cancel_of_le removes_le]

end Firing

variable (trigger : O)

/-- The terms of the list that are refunded, in bytes. -/
def refundedSize (terms : List O) : Nat :=
  ((terms.filter fun o => isRemoved trigger (choice.withOp o)).map fun o => (choice.op o).size).sum

theorem refundForConsume_eq (k : C) : refundForConsume trigger (choice.result k).1 =
      i64 (choice.refundedSize trigger [choice.consume k]) := by
  rw [refundForConsume, refundedSize, List.filter_singleton, result]
  by_cases removed : isRemoved trigger (choice.withOp (choice.consume k))
  · rw [if_pos removed, removed, Op.storageCost_eq]
    rfl
  · rw [if_neg removed, Bool.eq_false_of_not_eq_true removed]
    rfl

theorem refundForProduces_eq (k : C) :
    refundForRemovingProduces trigger (choice.result k).2 (choice.result k).1.2 =
      i64 (choice.refundedSize trigger (choice.produces k)) := by
  have aligned : (choice.result k).2.map (fun data => data.2.producedOn) =
      (choice.result k).1.2.channels.map some := by
    rw [result, map_map]
    exact choice.aligned k
  have folded := foldl_produceCosts trigger aligned 0
  rw [zero_add] at folded
  refine folded.trans ?_
  rw [result, List.filter_map, map_map]
  rfl

theorem refundedSize_le (terms : List O) :
    choice.refundedSize trigger terms ≤ (terms.map fun o => (choice.op o).size).sum :=
  (List.filter_sublist.map _).sum_le_sum fun _ _ => Nat.zero_le _

theorem refundedConsume_lt (k : C) : choice.refundedSize trigger [choice.consume k] < 2 ^ 48 := by
  refine (choice.refundedSize_le trigger _).trans_lt ?_
  exact (choice.fits _).1

theorem refundedProduces_lt (k : C) : choice.refundedSize trigger (choice.produces k) < 2 ^ 48 :=
  (choice.refundedSize_le trigger _).trans_lt (choice.comm_fits k)

theorem coe_refundedSize (terms : List O) : (choice.refundedSize trigger terms : ℤ) =
      ((terms.filter fun o => isRemoved trigger (choice.withOp o)).map choice.size).sum := by
  rw [refundedSize, Nat.cast_list_sum, map_map]
  rfl

/-- The two refunds together are the cost of what the space does not keep. -/
theorem refunds_sum (k : C) : (-refundForConsume trigger (choice.result k).1).toInt +
        (-refundForRemovingProduces trigger (choice.result k).2 (choice.result k).1.2).toInt =
      -((choice.refunded trigger k).map choice.size).sum := by
  have consume_lt := choice.refundedConsume_lt trigger k
  have produces_lt := choice.refundedProduces_lt trigger k
  rw [refundForConsume_eq, refundForProduces_eq, toInt_neg_i64 (by omega),
    toInt_neg_i64 (by omega), coe_refundedSize, coe_refundedSize, ← neg_add, ← sum_append,
    ← map_append, ← List.filter_append]
  rfl

end Choice

def meeting : Choice Bool Unit where
  op isReceive := if isReceive then .consume [1] [1] 1 false else .produce 1 [1000] false
  comms _ := [()]
  consume _ := true
  produces _ := [false]
  peeks _ := []
  body _ := []
  fits := by decide
  comm_fits := by decide
  listed := by decide
  once := by decide
  distinct := by decide
  consumes := by decide
  aligned := by decide
  linear_peek := by decide

theorem meeting_quiet (k : Unit) : ∃ o ∈ meeting.participants k, o ∉ ([] : List Bool) :=
  ⟨true, (.head _), not_mem_nil⟩

end F1r3fly.Rholang
