import F1r3fly.Data.Results
import F1r3fly.RSpace.Merger.EventLogIndex

/-! Event logs may be combined in any order: both orders fail, or their results are equal. -/
namespace F1r3fly.RSpace.Merger

open HashedSet Results SortedMap

/-- What two logs have on a channel, combined; none when their strategies differ. -/
def combineDiffs : Option (Int64 × MergeType) → Option (Int64 × MergeType) →
    Option (Option (Int64 × MergeType))
  | none, other => some other
  | diff, none => some diff
  | some (a, aType), some (b, bType) =>
    if aType = bType then some (some (combineMergeableValue a b bType, aType)) else none

theorem combineDiffs_comm (a b : Option (Int64 × MergeType)) :
    combineDiffs a b = combineDiffs b a := by
  rcases a with _ | ⟨a, aType⟩ <;> rcases b with _ | ⟨b, bType⟩
  · rfl
  · rfl
  · rfl
  · cases aType <;> cases bType <;>
      simp [combineDiffs, combineMergeableValue, Int64.add_comm, Int64.or_comm]

theorem combineDiffs_assoc (a b c : Option (Int64 × MergeType)) :
    (combineDiffs b c).bind (combineDiffs a) = (combineDiffs a b).bind (combineDiffs · c) := by
  rcases a with _ | ⟨a, aType⟩
  · exact Option.bind_fun_some _
  rcases b with _ | ⟨b, bType⟩
  · rfl
  rcases c with _ | ⟨c, cType⟩
  · cases aType <;> cases bType <;> rfl
  · cases aType <;> cases bType <;> cases cType <;>
      simp [combineDiffs, combineMergeableValue, Int64.add_assoc, Int64.or_assoc]

variable [Debug Blake2b256Hash]

theorem combineNumberChannels_step (channels : NumberChannelsDiff)
    (entry : Blake2b256Hash × Int64 × MergeType)
    (rest : List (Blake2b256Hash × Int64 × MergeType)) :
    (∃ value, combineDiffs (channels.get? entry.1) (some entry.2) = some (some value) ∧
      combineNumberChannels channels (entry :: rest) =
        combineNumberChannels (channels.insert entry.1 value) rest) ∨
    combineDiffs (channels.get? entry.1) (some entry.2) = none ∧
      ∃ failure, combineNumberChannels channels (entry :: rest) = .error failure := by
  obtain ⟨key, diff, mergeType⟩ := entry
  rw [combineNumberChannels, foldlM_cons]
  dsimp only
  rcases channels.get? key with _ | ⟨existing, existingType⟩
  · exact .inl ⟨_, rfl, rfl⟩
  · by_cases agree : existingType = mergeType
    · rw [combineDiffs, if_pos agree]
      dsimp only
      rw [if_neg (not_not.mpr agree)]
      exact .inl ⟨_, rfl, rfl⟩
    · rw [combineDiffs, if_neg agree]
      dsimp only
      rw [if_pos agree]
      exact .inr ⟨rfl, _, rfl⟩

/-- The loop over the entries of a map combines channel by channel, and fails where the
strategies differ. -/
theorem combineNumberChannels_cases (channels added : NumberChannelsDiff) :
    (∃ final, combineNumberChannels channels added.entries = .ok final ∧
      ∀ key, combineDiffs (channels.get? key) (added.get? key) = some (final.get? key)) ∨
    (∃ failure, combineNumberChannels channels added.entries = .error failure) ∧
      ∃ key, combineDiffs (channels.get? key) (added.get? key) = none := by
  obtain ⟨entries, sorted⟩ := added
  induction entries generalizing channels with
  | nil => exact .inl ⟨channels, rfl, fun key => by cases channels.get? key <;> rfl⟩
  | cons entry rest ih =>
    obtain ⟨below, rest_sorted⟩ := pairwise_cons.mp sorted
    have others (key : Blake2b256Hash) (differs : key ≠ entry.1) :
        get? ⟨entry :: rest, sorted⟩ key = get? ⟨rest, rest_sorted⟩ key := by
      simp [get?, differs.symm]
    have here : get? ⟨entry :: rest, sorted⟩ entry.1 = some entry.2 := by
      simp [get?]
    have only : get? ⟨rest, rest_sorted⟩ entry.1 = none :=
      get?_eq_none_iff.mpr fun other later same =>
        List.lt_irrefl entry.1 (same ▸ below other later)
    rcases combineNumberChannels_step channels entry rest with
      ⟨value, combined, stepped⟩ | ⟨differ, failed⟩
    · rw [stepped]
      refine (ih (channels.insert entry.1 value) rest_sorted).imp ?_ ?_
      · rintro ⟨final, computed, each⟩
        refine ⟨final, computed, fun key => ?_⟩
        rw [← each key, get?_insert]
        by_cases same : key = entry.1
        · rw [if_pos same, same, here, combined, only]
          rfl
        · rw [if_neg same, others key same]
      · rintro ⟨failed, key, differ⟩
        refine ⟨failed, key, ?_⟩
        rw [get?_insert] at differ
        by_cases same : key = entry.1
        · rw [if_pos same, same, only] at differ
          cases differ
        · rwa [if_neg same, ← others key same] at differ
    · exact .inr ⟨failed, entry.1, by rw [here, differ]⟩

variable {x y z final : NumberChannelsDiff}

theorem combineNumberChannels_eq_ok :
    combineNumberChannels x y.entries = .ok final ↔
      ∀ key, combineDiffs (x.get? key) (y.get? key) = some (final.get? key) := by
  rcases combineNumberChannels_cases x y with
    ⟨other, computed, each⟩ | ⟨⟨failure, failed⟩, key, differ⟩
  · rw [computed]
    constructor
    · rintro ⟨⟩
      exact each
    · intro at_keys
      have same (key : Blake2b256Hash) : other.get? key = final.get? key :=
        Option.some.inj ((each key).symm.trans (at_keys key))
      rw [ext_get? same]
  · rw [failed]
    refine ⟨nofun, fun at_keys => ?_⟩
    cases differ.symm.trans (at_keys key)

theorem combineNumberChannels_append (x y : NumberChannelsDiff) :
    combineNumberChannels .empty (x.entries ++ y.entries) = combineNumberChannels x y.entries := by
  have first : combineNumberChannels .empty x.entries = .ok x :=
    combineNumberChannels_eq_ok.mpr fun _ => rfl
  rw [combineNumberChannels] at first ⊢
  rw [List.foldlM_append, first]
  rfl

theorem combineNumberChannels_comm :
    combineNumberChannels x y.entries = .ok final ↔
      combineNumberChannels y x.entries = .ok final := by
  simp only [combineNumberChannels_eq_ok, combineDiffs_comm (x.get? _)]

theorem combineNumberChannels_assoc (later : combineNumberChannels y z.entries = .ok numbers)
    (computed : combineNumberChannels x numbers.entries = .ok final) :
    ∃ earlier, combineNumberChannels x y.entries = .ok earlier ∧
      combineNumberChannels earlier z.entries = .ok final := by
  rw [combineNumberChannels_eq_ok] at later computed
  have each (key : Blake2b256Hash) : ∃ diff, combineDiffs (x.get? key) (y.get? key) = some diff ∧
      combineDiffs diff (z.get? key) = some (final.get? key) := by
    rw [← bind_eq_some_iff, ← combineDiffs_assoc, later key]
    exact computed key
  rcases combineNumberChannels_cases x y with ⟨earlier, combined, at_keys⟩ | ⟨-, key, differ⟩
  · refine ⟨earlier, combined, combineNumberChannels_eq_ok.mpr fun key => ?_⟩
    obtain ⟨diff, first, second⟩ := each key
    cases first.symm.trans (at_keys key)
    exact second
  · obtain ⟨diff, first, -⟩ := each key
    cases differ.symm.trans first

namespace EventLogIndex

/-- Indexes are compared field by field, and sets by their members. -/
structure Same (x y : EventLogIndex) : Prop where
  producesLinear : (x.producesLinear == y.producesLinear) = true
  producesPersistent : (x.producesPersistent == y.producesPersistent) = true
  producesConsumed : (x.producesConsumed == y.producesConsumed) = true
  producesPeeked : (x.producesPeeked == y.producesPeeked) = true
  producesCopiedByPeek : (x.producesCopiedByPeek == y.producesCopiedByPeek) = true
  producesTouchingBaseJoins : (x.producesTouchingBaseJoins == y.producesTouchingBaseJoins) = true
  consumesLinearAndPeeks : (x.consumesLinearAndPeeks == y.consumesLinearAndPeeks) = true
  consumesPersistent : (x.consumesPersistent == y.consumesPersistent) = true
  consumesProduced : (x.consumesProduced == y.consumesProduced) = true
  producesMergeable : (x.producesMergeable == y.producesMergeable) = true
  consumesMergeable : (x.consumesMergeable == y.consumesMergeable) = true
  numberChannelsData : x.numberChannelsData = y.numberChannelsData

def SameOutcome : Except MergerError EventLogIndex → Except MergerError EventLogIndex → Prop
  | .ok x, .ok y => Same x y
  | .error _, .error _ => True
  | _, _ => False

omit [Debug Blake2b256Hash] in
theorem SameOutcome.of_ok (forward : ∀ x, one = .ok x → ∃ y, other = .ok y ∧ Same x y)
    (backward : ∀ y, other = .ok y → ∃ x, one = .ok x) : SameOutcome one other := by
  cases one with
  | ok x =>
    obtain ⟨y, rfl, same⟩ := forward x rfl
    exact same
  | error failure =>
    cases other with
    | ok y =>
      obtain ⟨x, absurd_ok⟩ := backward y rfl
      cases absurd_ok
    | error failure => trivial

omit [Debug Blake2b256Hash] in
theorem mem_combineProducesCopiedByPeek {x y : EventLogIndex} :
    p ∈ combineProducesCopiedByPeek x y ↔
      (p ∈ x.producesCopiedByPeek ∨ p ∈ y.producesCopiedByPeek) ∧
        ¬((p ∈ x.producesLinear ∨ p ∈ x.producesPersistent) ∧ p ∉ x.producesCopiedByPeek) ∧
        ¬((p ∈ y.producesLinear ∨ p ∈ y.producesPersistent) ∧ p ∉ y.producesCopiedByPeek) := by
  simp only [combineProducesCopiedByPeek, producesCreated, mem_difference, mem_union, not_or]

variable {a b c : EventLogIndex}

theorem combine_comm_ok (computed : combine a b = .ok ab) :
    ∃ ba, combine b a = .ok ba ∧ Same ab ba := by
  obtain ⟨numbers, combined, returned⟩ := bind_eq_ok.mp computed
  cases returned
  rw [combineNumberChannels_append, combineNumberChannels_comm,
    ← combineNumberChannels_append] at combined
  refine ⟨_, bind_eq_ok.mpr ⟨numbers, combined, rfl⟩, union_comm, union_comm, union_comm,
    union_comm, beq_iff.mpr fun p => ?_, union_comm, union_comm, union_comm, union_comm,
    union_comm, union_comm, rfl⟩
  simp only [mem_combineProducesCopiedByPeek]
  tauto

theorem combine_assoc_ok (later : combine b c = .ok bc) (computed : combine a bc = .ok abc) :
    ∃ ab, combine a b = .ok ab ∧ ∃ other, combine ab c = .ok other ∧ Same abc other := by
  obtain ⟨numbers, combined, returned⟩ := bind_eq_ok.mp later
  cases returned
  obtain ⟨final, all_combined, returned⟩ := bind_eq_ok.mp computed
  cases returned
  rw [combineNumberChannels_append] at combined all_combined
  obtain ⟨earlier, first, second⟩ := combineNumberChannels_assoc combined all_combined
  rw [← combineNumberChannels_append] at first second
  refine ⟨_, bind_eq_ok.mpr ⟨earlier, first, rfl⟩, _, bind_eq_ok.mpr ⟨final, second, rfl⟩,
    union_assoc, union_assoc, union_assoc, union_assoc, beq_iff.mpr fun p => ?_, union_assoc,
    union_assoc, union_assoc, union_assoc, union_assoc, union_assoc, rfl⟩
  simp only [mem_combineProducesCopiedByPeek, mem_union]
  grind

/-- Whether two logs can be combined depends on their number channels. -/
theorem exists_combine_ok :
    (∃ ab, combine a b = .ok ab ∧ ab.numberChannelsData = numbers) ↔
      combineNumberChannels a.numberChannelsData b.numberChannelsData.entries = .ok numbers := by
  rw [← combineNumberChannels_append]
  constructor
  · rintro ⟨ab, computed, rfl⟩
    obtain ⟨numbers, combined, returned⟩ := bind_eq_ok.mp computed
    cases returned
    exact combined
  · exact fun combined => ⟨_, bind_eq_ok.mpr ⟨numbers, combined, rfl⟩, rfl⟩

theorem exists_combine_of_combine (earlier : combine a b = .ok ab)
    (computed : combine ab c = .ok abc) :
    ∃ bc, combine b c = .ok bc ∧ ∃ other, combine a bc = .ok other := by
  have first := combineNumberChannels_comm.mp (exists_combine_ok.mp ⟨ab, earlier, rfl⟩)
  have second := combineNumberChannels_comm.mp (exists_combine_ok.mp ⟨abc, computed, rfl⟩)
  obtain ⟨numbers, later, final⟩ := combineNumberChannels_assoc first second
  obtain ⟨bc, combined, rfl⟩ := exists_combine_ok.mpr (combineNumberChannels_comm.mp later)
  obtain ⟨other, all_combined, -⟩ := exists_combine_ok.mpr (combineNumberChannels_comm.mp final)
  exact ⟨bc, combined, other, all_combined⟩

theorem combine_empty (a : EventLogIndex) : SameOutcome (combine a .empty) (.ok a) := by
  rw [combine, combineNumberChannels_append]
  refine ⟨union_empty, union_empty, union_empty, union_empty, beq_iff.mpr fun p => ?_,
    union_empty, union_empty, union_empty, union_empty, union_empty, union_empty, rfl⟩
  simp only [mem_combineProducesCopiedByPeek, empty]
  tauto

theorem empty_combine (a : EventLogIndex) : SameOutcome (combine .empty a) (.ok a) := by
  have all : combineNumberChannels .empty a.numberChannelsData.entries =
      .ok a.numberChannelsData := combineNumberChannels_eq_ok.mpr fun _ => rfl
  change SameOutcome (combineNumberChannels .empty a.numberChannelsData.entries >>= _) _
  rw [all]
  refine ⟨empty_union, empty_union, empty_union, empty_union, beq_iff.mpr fun p => ?_,
    empty_union, empty_union, empty_union, empty_union, empty_union, empty_union, rfl⟩
  simp only [mem_combineProducesCopiedByPeek, empty]
  tauto

/-- The order in which event logs are combined does not matter, and the empty log adds
nothing. -/
theorem combine_order_independent (a b c : EventLogIndex) :
    SameOutcome (do combine a (← combine b c)) (do combine (← combine a b) c) ∧
      SameOutcome (combine a b) (combine b a) ∧
      SameOutcome (combine a .empty) (.ok a) ∧ SameOutcome (combine .empty a) (.ok a) := by
  refine ⟨.of_ok (fun abc returned => ?_) (fun abc returned => ?_), .of_ok ?_ ?_,
    combine_empty a, empty_combine a⟩
  · obtain ⟨bc, later, computed⟩ := bind_eq_ok.mp returned
    obtain ⟨ab, earlier, other, combined, same⟩ := combine_assoc_ok later computed
    exact ⟨other, bind_eq_ok.mpr ⟨ab, earlier, combined⟩, same⟩
  · obtain ⟨ab, earlier, computed⟩ := bind_eq_ok.mp returned
    obtain ⟨bc, later, other, combined⟩ := exists_combine_of_combine earlier computed
    exact ⟨other, bind_eq_ok.mpr ⟨bc, later, combined⟩⟩
  · exact fun ab computed => combine_comm_ok computed
  · intro ba computed
    obtain ⟨ab, combined, -⟩ := combine_comm_ok computed
    exact ⟨ab, combined⟩

end EventLogIndex

end F1r3fly.RSpace.Merger
