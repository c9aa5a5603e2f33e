import F1r3fly.Casper.Merging.DagMerger
import F1r3fly.Casper.Merging.Resolution
import F1r3fly.RSpace.Merger.RelationMaps

/-! The branches of deploy chains are a split along the dependencies, and only branches
are in conflict. -/
namespace F1r3fly.Casper.Merging

open HashedSet RSpace RSpace.Merger
open Results

variable [HashMapOrder]

theorem computeBranchesFn_map (mergeSet : HashableSet DeployChainIndex) :
    ∃ map, computeBranchesFn mergeSet = gatherRelatedSets map ∧ Among mergeSet.iter map ∧
      ∀ a ∈ mergeSet.elements, ∀ b ∈ mergeSet.elements, a ≠ b →
        (Relates map a b ↔ dependsFn a b ∨ dependsFn b a) := by
  have distinct : mergeSet.iter.Pairwise _ := mergeSet.reordered.distinct
  obtain ⟨map, computed, related⟩ := relationMapEventIndexed_iff distinct
    (List.length_map (·.eventLogIndex)).symm fun _ _ => linked_dependsPairs
  refine ⟨map, ?_, among_relationMapEventIndexed computed, ?_⟩
  · simp only [computeBranchesFn, computeDependsMapEventIndexed, computed, getD_some]
  · intro a a_member b b_member apart
    obtain ⟨i, at_a⟩ := List.mem_iff_getElem?.mp (mem_iter.mpr a_member)
    obtain ⟨j, at_b⟩ := List.mem_iff_getElem?.mp (mem_iter.mpr b_member)
    have positions : i ≠ j := by
      rintro rfl
      exact apart (Option.some.inj (at_a.symm.trans at_b))
    apply related i j a b _ _ at_a at_b _ _ positions
    · rw [List.getElem?_map, at_a]
      rfl
    · rw [List.getElem?_map, at_b]
      rfl

theorem computeBranchesFn_branching (mergeSet : HashableSet DeployChainIndex) :
    Branching dependsFn mergeSet (computeBranchesFn mergeSet) := by
  obtain ⟨map, branches_eq, among, depends_iff⟩ := computeBranchesFn_map mergeSet
  rw [branches_eq]
  have grouped := gatherRelatedSets_grouped map
  have mem_elements {branch : HashableSet DeployChainIndex} {item : DeployChainIndex}
      (present : branch ∈ (gatherRelatedSets map).elements) :
      item ∈ branch.elements ↔ item ∈ mergeSet.elements ∧ item ∈ branch :=
    grouped.mem_elements_iff among present
  refine ⟨?_, ?_, ?_, ?_⟩
  · intro item known
    have key := among.mem_keys mergeSet.reordered.distinct (mem_iter.mpr known)
    obtain ⟨branch, present, member⟩ := grouped.covers item key
    exact ⟨branch, present, (mem_elements present).mpr ⟨known, member⟩⟩
  · exact fun branch present item member => ((mem_elements present).mp member).1
  · intro branch present other other_present item member in_other
    rw [grouped.disjoint among.symmetric present other_present
      (mem_of_mem_elements member) in_other]
    exact BEq.rfl
  · intro branch present item member other known depends_other
    by_cases equal : item = other
    · rw [← equal]
      exact member
    · obtain ⟨item_known, in_branch⟩ := (mem_elements present).mp member
      have related : Relates map item other :=
        (depends_iff item item_known other known equal).mpr (.inl depends_other)
      exact (mem_elements present).mpr ⟨known, grouped.closed present in_branch related⟩

theorem computeConflictMapFn_among [Debug Blake2b256Hash]
    (computed : computeConflictMapFn branches = .ok conflictMap) :
    Among branches.iter conflictMap := by
  obtain ⟨derived, derivation, computed⟩ := bind_eq_ok.mp computed
  cases computed
  have derived_length : derived.length = branches.iter.length := mapM_length derivation
  have parallel : branches.iter.length = (derived.map (·.combinedEventLog)).length := by
    rw [List.length_map, derived_length]
  obtain ⟨map, mapped, among⟩ := exists_relationMapEventIndexed conflictPairs parallel
    (inRange_conflictPairs _)
  have shared_range : InRange branches.iter.length (sharedDeployPairs derived) := by
    rw [← derived_length]
    exact inRange_sharedPairs fun _ _ _ => rfl
  obtain ⟨final, related, final_among⟩ := among.exists_relateAll shared_range
  rw [computeConflictMapEventIndexed, mapped, getD_some, related, getD_some]
  exact final_among

theorem computeConflictMapFn_within [Debug Blake2b256Hash]
    (computed : computeConflictMapFn branches = .ok conflictMap)
    (branch other : HashableSet DeployChainIndex) (related : Relates conflictMap branch other) :
    other ∈ branches := by
  have among := computeConflictMapFn_among computed
  obtain ⟨items, found, member⟩ := related
  obtain ⟨stored, stored_member, same⟩ := mem_iff.mp member
  have known := among.related stored (mem_relatedItems found stored_member)
  exact mem_iff.mpr ⟨stored, mem_iter.mp known, same⟩

end F1r3fly.Casper.Merging
