import F1r3fly.BlockStorage.BlockDag

/-! Ancestors in a block DAG, and the searches that find them. -/
namespace F1r3fly.BlockStorage.KeyValueDagRepresentation

open HashedSet Relation
open Results (bind_eq_ok)

section

variable (dag : KeyValueDagRepresentation)

def Known (block : BlockHash) : Prop :=
  ∃ metadata, dag.lookup block = some metadata

def ParentOf (child parent : BlockHash) : Prop :=
  ∃ metadata, dag.lookup child = some metadata ∧ parent ∈ metadata.parents

def AncestorOrSelf (ancestor block : BlockHash) : Prop :=
  ReflTransGen dag.ParentOf block ancestor

def number (block : BlockHash) : Int :=
  ((dag.lookup block).map fun metadata => metadata.blockNumber.toInt).getD 0

def ParentsKnown : Prop :=
  ∀ child parent, dag.ParentOf child parent → dag.Known parent

/-- The number of a block is one more than the largest one of its parents, and the map of
numbers has it. -/
structure WellNumbered : Prop where
  closed : dag.ParentsKnown
  indexed : ∀ block metadata, dag.lookup block = some metadata →
    dag.blockNumberMap.get? block = some metadata.blockNumber
  above : ∀ child parent, dag.ParentOf child parent → dag.number parent + 1 ≤ dag.number child
  attained : ∀ block metadata, dag.lookup block = some metadata → metadata.parents ≠ [] →
    ∃ parent ∈ metadata.parents, dag.number block = dag.number parent + 1

end

variable {dag : KeyValueDagRepresentation}

theorem mem_entries_of_lookup (found : dag.lookup block = some metadata) :
    (block, metadata) ∈ dag.blockMetadataIndex.entries := by
  rw [lookup] at found
  split at found
  · obtain ⟨key, entry, same⟩ := HashedMap.get?_eq_some_iff.mp found
    rwa [eq_of_beq same]
  · cases found

theorem wellNumbered_of_entries
    (checked : ∀ entry ∈ dag.blockMetadataIndex.entries,
      dag.blockNumberMap.get? entry.1 = some entry.2.blockNumber ∧
      (∀ parent ∈ entry.2.parents,
        (dag.lookup parent).isSome ∧ dag.number parent + 1 ≤ dag.number entry.1) ∧
      (entry.2.parents ≠ [] →
        ∃ parent ∈ entry.2.parents, dag.number entry.1 = dag.number parent + 1)) :
    dag.WellNumbered where
  closed := by
    rintro child parent ⟨metadata, found, member⟩
    obtain ⟨-, parents_checked, -⟩ := checked _ (mem_entries_of_lookup found)
    exact isSome_iff_exists.mp (parents_checked parent member).1
  indexed block metadata found := (checked _ (mem_entries_of_lookup found)).1
  above := by
    rintro child parent ⟨metadata, found, member⟩
    obtain ⟨-, parents_checked, -⟩ := checked _ (mem_entries_of_lookup found)
    exact (parents_checked parent member).2
  attained block metadata found := (checked _ (mem_entries_of_lookup found)).2.2

theorem number_of_lookup (found : dag.lookup block = some metadata) :
    dag.number block = metadata.blockNumber.toInt := by
  rw [number, found]
  rfl

theorem lookupUnsafe_of_lookup (found : dag.lookup block = some metadata) :
    dag.lookupUnsafe block = .ok metadata := by
  rw [lookupUnsafe, found]

theorem lookup_of_lookupUnsafe (found : dag.lookupUnsafe block = .ok metadata) :
    dag.lookup block = some metadata := by
  rw [lookupUnsafe] at found
  split at found
  · cases found
    assumption
  · cases found

theorem ParentsKnown.of_ancestor (closed : dag.ParentsKnown) (known : dag.Known block)
    (path : dag.AncestorOrSelf ancestor block) : dag.Known ancestor :=
  holds_of_reflTransGen dag.Known (fun child parent _ step => closed child parent step) known path

theorem mem_of_ancestorOrSelf {members : List BlockHash}
    (closed : ∀ entry ∈ dag.blockMetadataIndex.entries, entry.1 ∈ members →
      ∀ parent ∈ entry.2.parents, parent ∈ members)
    (start : block ∈ members) (path : dag.AncestorOrSelf ancestor block) : ancestor ∈ members := by
  refine holds_of_reflTransGen (· ∈ members) ?_ start path
  rintro child parent member ⟨metadata, found, is_parent⟩
  exact closed _ (mem_entries_of_lookup found) member parent is_parent

theorem WellNumbered.number_lt (wellNumbered : dag.WellNumbered)
    (path : TransGen dag.ParentOf block ancestor) : dag.number ancestor < dag.number block := by
  induction path with
  | single step | tail _ step ih =>
    have above := wellNumbered.above _ _ step
    omega

theorem mem_recordedParents (step : dag.ParentOf child parent) : parent ∈ dag.recordedParents := by
  obtain ⟨metadata, found, member⟩ := step
  exact mem_flatMap.mpr ⟨(child, metadata), mem_entries_of_lookup found, member⟩

def parentsWhere (dag : KeyValueDagRepresentation) (filterF : BlockHash → Bool)
    (hash : BlockHash) : Except KvStoreError (List BlockHash) := do
  let metadata ← dag.lookupUnsafe hash
  return metadata.parents.filter filterF

theorem leads_parentsWhere :
    Exploration.Leads (dag.parentsWhere filterF) child parent ↔
      dag.ParentOf child parent ∧ filterF parent := by
  constructor
  · rintro ⟨parents, computed, member⟩
    obtain ⟨metadata, looked_up, computed⟩ := bind_eq_ok.mp computed
    cases computed
    obtain ⟨present, passes⟩ := mem_filter.mp member
    exact ⟨⟨metadata, lookup_of_lookupUnsafe looked_up, present⟩, passes⟩
  · rintro ⟨⟨metadata, found, present⟩, passes⟩
    refine ⟨_, bind_eq_ok.mpr ⟨metadata, lookupUnsafe_of_lookup found, rfl⟩, ?_⟩
    exact mem_filter.mpr ⟨present, passes⟩

/-- The search finds the ancestors that are reached through blocks that pass the filter. -/
theorem ancestors_spec (closed : dag.ParentsKnown) (known : dag.Known block)
    (filterF : BlockHash → Bool) :
    ∃ found, dag.ancestors block filterF = .ok found ∧ ∀ ancestor, ancestor ∈ found ↔
      TransGen (fun child parent => dag.ParentOf child parent ∧ filterF parent) block
        ancestor := by
  have leads_eq : Exploration.Leads (dag.parentsWhere filterF) =
      fun child parent => dag.ParentOf child parent ∧ filterF parent :=
    funext₂ fun _ _ => propext leads_parentsWhere
  have succeeds : ∀ hash, ReflTransGen (Exploration.Leads (dag.parentsWhere filterF)) block hash →
      ∃ parents, dag.parentsWhere filterF hash = .ok parents := by
    intro hash path
    obtain ⟨metadata, found⟩ : dag.Known hash := holds_of_reflTransGen dag.Known
      (fun child parent _ step => closed child parent (leads_parentsWhere.mp step).1) known path
    exact ⟨_, bind_eq_ok.mpr ⟨metadata, lookupUnsafe_of_lookup found, rfl⟩⟩
  have within : ∀ child parent, Exploration.Leads (dag.parentsWhere filterF) child parent →
      parent ∈ dag.recordedParents := fun child parent leads =>
    mem_recordedParents (leads_parentsWhere.mp leads).1
  have invariant : Exploration.LevelsInvariant (dag.parentsWhere filterF) block [block] .empty := by
    refine ⟨fun b member => absurd member (not_mem_empty b), ?_, ?_⟩
    · intro a member
      rw [mem_singleton.mp member]
    · rintro a (rfl | member)
      · exact .inl (.head _)
      · exact absurd member (not_mem_empty a)
  have result := Exploration.exploreLevels_found succeeds within
    (dag.recordedParents.length + 1) [block] .empty invariant
    (.inr (Nat.lt_succ_of_le (missing_le_length _ _)))
  rwa [leads_eq] at result

theorem withAncestors_spec (closed : dag.ParentsKnown) (known : dag.Known block)
    (filterF : BlockHash → Bool) :
    ∃ found, dag.withAncestors block filterF = .ok found ∧ ∀ ancestor, ancestor ∈ found ↔
      ReflTransGen (fun child parent => dag.ParentOf child parent ∧ filterF parent) block
        ancestor := by
  obtain ⟨found, computed, mem_found⟩ := ancestors_spec closed known filterF
  refine ⟨found.insert block, bind_eq_ok.mpr ⟨found, computed, rfl⟩, ?_⟩
  intro ancestor
  rw [mem_insert, mem_found, beq_iff_eq, Relation.reflTransGen_iff_eq_or_transGen]

end F1r3fly.BlockStorage.KeyValueDagRepresentation

namespace F1r3fly.BlockStorage

export KeyValueDagRepresentation (mem_entries_of_lookup number_of_lookup lookupUnsafe_of_lookup
  lookup_of_lookupUnsafe)

end F1r3fly.BlockStorage
