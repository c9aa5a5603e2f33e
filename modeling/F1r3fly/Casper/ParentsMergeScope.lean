import F1r3fly.BlockStorage.Ancestry
import F1r3fly.BlockStorage.KeyValueBlockStore
import F1r3fly.Casper.Merging.RejectionExpansion

/-! The state that a block starts from: the post-state of one of its parents, or a merge of
what its parents can see on top of a common ancestor. -/
namespace F1r3fly.Casper

open Option HashedSet BlockStorage Int64
open Models (BlockMessage)
open RSpace
open Results
open Relation

section Definitions

def maxParentMergeScopeBlocks : Nat := 512

def maxLcaDistanceBlocks : Int64 := 256

def maxFullAncestorScanNodes : Nat := 8192

/-- The queue holds every block once and its parents once for each child, which bounds the
fuel. -/
def walkAncestorsCapped (dag : KeyValueDagRepresentation) (maxNodes : Nat) :
    Nat → List BlockHash → HashedSet BlockHash → Except KvStoreError (Option (HashedSet BlockHash))
  | 0, _, visited => .ok (some visited)
  | _, [], visited => .ok (some visited)
  | fuel + 1, current :: queue, visited =>
    if visited.contains current then walkAncestorsCapped dag maxNodes fuel queue visited
    else
      let visited := visited.insert current
      if visited.size ≥ maxNodes then .ok none
      else do
        let metadata ← dag.lookupUnsafe current
        walkAncestorsCapped dag maxNodes fuel
          (queue ++ metadata.parents.filter fun parent => !visited.contains parent) visited

def withAncestorsCapped (dag : KeyValueDagRepresentation) (blockHash : BlockHash)
    (maxNodes : Nat) : Except KvStoreError (Option (HashedSet BlockHash)) :=
  if maxNodes = 0 then .ok none
  else walkAncestorsCapped dag maxNodes (dag.recordedParents.length + 2) [blockHash] .empty

/-- What the state is computed from. -/
inductive ParentsPlan where
  | emptyState
  | postState (parent : BlockMessage)
  /-- The blocks of the scope are merged on top of the base. -/
  | merge (base : BlockHash) (baseBlock : BlockMessage) (scope : HashedSet BlockHash)

section Parents

variable (dag : KeyValueDagRepresentation) (parents : List BlockMessage)

/-- A parent with all others in its main chain. A failed lookup counts as a no. -/
def mainChainDescendant : Fallible KvStoreError (Option BlockMessage) :=
  parents.findM? fun candidate =>
    (parents.filter fun parent => parent.blockHash != candidate.blockHash).allM fun parent =>
      tryCatch (dag.isInMainChain parent.blockHash candidate.blockHash) fun _ => pure false

/-- A parent with all others among its ancestors. -/
def dagDescendant : Option BlockMessage :=
  if parents.length ≤ 8 then
    parents.find? fun candidate =>
      match withAncestorsCapped dag candidate.blockHash maxFullAncestorScanNodes with
      | .ok (some closure) => parents.all fun parent =>
        parent.blockHash == candidate.blockHash || closure.contains parent.blockHash
      | _ => false
  else none

def maxParentBlockNumber (parents : List BlockMessage) (default : Int64) : Int64 :=
  (parents.map fun parent => parent.body.state.blockNumber).max?.getD default

/-- No bound is the smallest number. -/
def ancestorMinBlockNumber (maxParentDepth : Int32) (parents : List BlockMessage) : Int64 :=
  if maxParentDepth ≤ 0 ∨ maxParentDepth = Int32.maxValue then minValue
  else ofIntClamp ((maxParentBlockNumber parents 0).toInt - maxParentDepth.toInt)

def includeAncestor (minBlockNumber : Int64) (hash : BlockHash) : Bool :=
  minBlockNumber == minValue ||
    match dag.lookup hash with
    | some metadata => metadata.blockNumber ≥ minBlockNumber
    | none => false

variable [HashMapOrder]

def ancestorSets (minBlockNumber : Int64) : Except KvStoreError (List (HashedSet BlockHash)) :=
  parents.mapM fun parent => do
    let ancestors ← dag.withAncestors parent.blockHash (includeAncestor dag minBlockNumber)
    return ancestors.insert parent.blockHash

def intersectAll : List (HashedSet BlockHash) → HashedSet BlockHash
  | [] => .empty
  | first :: rest => rest.foldl intersection first

/-- Nothing when one of the searches has too many ancestors. -/
def fullAncestorSets (dag : KeyValueDagRepresentation) :
    List BlockMessage → Except KvStoreError (Option (List (HashedSet BlockHash)))
  | [] => .ok (some [])
  | parent :: rest => do
    match ← withAncestorsCapped dag parent.blockHash maxFullAncestorScanNodes with
    | none => return none
    | some ancestors => return (← fullAncestorSets dag rest).map (ancestors :: ·)

/-- Without a bound on the depth, if none are found within it. -/
def commonAncestors (sets : List (HashedSet BlockHash)) :
    Except KvStoreError (HashedSet BlockHash) :=
  if (intersectAll sets).isEmpty then do
    match ← fullAncestorSets dag parents with
    | none => return intersectAll sets
    | some fullSets => return intersectAll fullSets
  else return intersectAll sets

/-- By number, and by the smaller hash at the same number. -/
def compareHeights (a b : BlockHash × Int64) : Ordering :=
  (compare a.2.toInt b.2.toInt).then (compareByteVectors b.1 a.1)

def lowestCommonAncestor (common : HashedSet BlockHash) : Option BlockHash :=
  (maxBy compareHeights (common.iter.filterMap fun hash =>
    (dag.lookup hash).map fun metadata => (hash, metadata.blockNumber))).map (·.1)

/-- A block whose metadata is missing stays. -/
def isAtOrAbove (number : Int64) (hash : BlockHash) : Bool :=
  match dag.lookupUnsafe hash with
  | .ok metadata => metadata.blockNumber ≥ number
  | .error _ => true

def compareParents (a b : BlockMessage) : Ordering :=
  (compare a.body.state.blockNumber.toInt b.body.state.blockNumber.toInt).then
    (compareByteVectors a.blockHash b.blockHash)

/-- The last parent, if too much would have to be merged. -/
def boundMerge (base : BlockHash) (baseBlock : BlockMessage) (scope : HashedSet BlockHash) :
    Fallible KvStoreError ParentsPlan := do
  let number := baseBlock.body.state.blockNumber
  if scope.size > maxParentMergeScopeBlocks ∨
      maxParentBlockNumber parents number - number > maxLcaDistanceBlocks then
    return .postState (← ExceptT.lift (maxBy compareParents parents))
  else
    return .merge base baseBlock scope

def planMerge (lastFinalizedBlock : BlockHash) (maxParentDepth : Int32)
    (blockStore : KeyValueBlockStore) : Fallible KvStoreError ParentsPlan := do
  let sets ← liftM (ancestorSets dag parents (ancestorMinBlockNumber maxParentDepth parents))
  let visible := ofList (sets.flatMap iter)
  let common ← liftM (commonAncestors dag parents sets)
  let base := (lowestCommonAncestor dag common).getD lastFinalizedBlock
  let baseBlock ← blockStore.getUnsafe base
  boundMerge parents base baseBlock
    (visible.filter (isAtOrAbove dag baseBlock.body.state.blockNumber))

/-- What `compute_parents_post_state` computes the state from. -/
def computeParentsPlan (lastFinalizedBlock : BlockHash) (maxParentDepth : Int32)
    (blockStore : KeyValueBlockStore) : Fallible KvStoreError ParentsPlan :=
  match parents with
  | [] => return .emptyState
  | [parent] => return .postState parent
  | _ => do
    match ← mainChainDescendant dag parents with
    | some parent => return .postState parent
    | none =>
      match dagDescendant dag parents with
      | some parent => return .postState parent
      | none => planMerge dag parents lastFinalizedBlock maxParentDepth blockStore

end Parents

end Definitions

section Scope

variable {dag : KeyValueDagRepresentation} {parents : List BlockMessage}
  {lastFinalizedBlock : BlockHash} {maxParentDepth : Int32} {blockStore : KeyValueBlockStore}

def StoresNumbers (dag : KeyValueDagRepresentation) (blockStore : KeyValueBlockStore) : Prop :=
  ∀ hash block metadata, blockStore.get? hash = some block → dag.lookup hash = some metadata →
    block.body.state.blockNumber = metadata.blockNumber

def VisibleFrom (dag : KeyValueDagRepresentation) (parents : List BlockMessage)
    (block : BlockHash) : Prop :=
  ∃ parent ∈ parents, dag.AncestorOrSelf block parent.blockHash

/-- The depth bound of the shard does not cut the block off. -/
def WithinDepth (dag : KeyValueDagRepresentation) (parents : List BlockMessage)
    (maxParentDepth : Int32) (block : BlockHash) : Prop :=
  (∃ parent ∈ parents, parent.blockHash = block) ∨
    ancestorMinBlockNumber maxParentDepth parents = minValue ∨
    (ancestorMinBlockNumber maxParentDepth parents).toInt ≤ dag.number block

theorem includeAncestor_iff {hash : BlockHash} (known : dag.Known hash) :
    includeAncestor dag minBlockNumber hash ↔
      minBlockNumber = minValue ∨ minBlockNumber.toInt ≤ dag.number hash := by
  obtain ⟨metadata, found⟩ := known
  simp only [includeAncestor, found, or_eq_true, beq_iff_eq, decide_eq_true_eq, ge_iff_le,
    le_iff_toInt_le, number_of_lookup found]

theorem isAtOrAbove_iff {hash : BlockHash} (known : dag.Known hash) :
    isAtOrAbove dag number hash ↔ number.toInt ≤ dag.number hash := by
  obtain ⟨metadata, found⟩ := known
  simp only [isAtOrAbove, lookupUnsafe_of_lookup found,
    decide_eq_true_eq, ge_iff_le, le_iff_toInt_le,
    number_of_lookup found]

/-- Numbers grow towards the descendants, so a block within the bound is reached through
blocks within the bound. -/
theorem reaches_included_iff (wellNumbered : dag.WellNumbered) :
    ReflTransGen (fun child parent => dag.ParentOf child parent ∧
        includeAncestor dag minBlockNumber parent) block ancestor ↔
      dag.AncestorOrSelf ancestor block ∧ (ancestor = block ∨
        minBlockNumber = minValue ∨ minBlockNumber.toInt ≤ dag.number ancestor) := by
  constructor
  · intro path
    refine ⟨ReflTransGen.mono (fun _ _ step => step.1) _ _ path, ?_⟩
    rcases Relation.ReflTransGen.cases_tail path with same | ⟨child, -, step, included⟩
    · exact .inl same
    · exact .inr ((includeAncestor_iff (wellNumbered.closed _ _ step)).mp included)
  · rintro ⟨path, within⟩
    induction path with
    | refl => exact .refl
    | @tail child parent _ step ih =>
      have above := wellNumbered.above child parent step
      by_cases start : parent = block
      · exact start ▸ .refl
      have bound := within.resolve_left start
      refine .tail (ih (.inr (bound.imp_right fun bound => ?_)))
        ⟨step, (includeAncestor_iff (wellNumbered.closed _ _ step)).mpr bound⟩
      omega

theorem mem_ancestorSets (wellNumbered : dag.WellNumbered)
    (parents_known : ∀ parent ∈ parents, dag.Known parent.blockHash)
    (computed : ancestorSets dag parents (ancestorMinBlockNumber maxParentDepth parents) =
      .ok sets) :
    (∃ set ∈ sets, block ∈ set) ↔
      VisibleFrom dag parents block ∧ WithinDepth dag parents maxParentDepth block := by
  -- What the search from one parent finds.
  have found : ∀ parent ∈ parents, ∃ set, (do
      let ancestors ← dag.withAncestors parent.blockHash
        (includeAncestor dag (ancestorMinBlockNumber maxParentDepth parents))
      return ancestors.insert parent.blockHash) = .ok set ∧
      (block ∈ set ↔ dag.AncestorOrSelf block parent.blockHash ∧ (block = parent.blockHash ∨
        ancestorMinBlockNumber maxParentDepth parents = minValue ∨
        (ancestorMinBlockNumber maxParentDepth parents).toInt ≤ dag.number block)) := by
    intro parent member
    obtain ⟨ancestors, searched, mem_ancestors⟩ :=
      KeyValueDagRepresentation.withAncestors_spec wellNumbered.closed
        (parents_known parent member)
        (includeAncestor dag (ancestorMinBlockNumber maxParentDepth parents))
    refine ⟨_, bind_eq_ok.mpr ⟨ancestors, searched, rfl⟩, ?_⟩
    rw [mem_insert, mem_ancestors, reaches_included_iff wellNumbered, beq_iff_eq]
    constructor
    · rintro (rfl | visible)
      · exact ⟨.refl, .inl rfl⟩
      · exact visible
    · exact .inr
  constructor
  · rintro ⟨set, member, in_set⟩
    obtain ⟨parent, parent_member, searched⟩ := (Results.mem_mapM computed).mp member
    obtain ⟨set', searched', mem_set⟩ := found parent parent_member
    cases searched'.symm.trans searched
    obtain ⟨visible, within⟩ := mem_set.mp in_set
    refine ⟨⟨parent, parent_member, visible⟩, within.imp ?_ id⟩
    rintro rfl
    exact ⟨parent, parent_member, rfl⟩
  · rintro ⟨⟨parent, parent_member, visible⟩, within⟩
    rcases within with ⟨own, own_member, rfl⟩ | within
    · obtain ⟨set, searched, mem_set⟩ := found own own_member
      exact ⟨set, (Results.mem_mapM computed).mpr ⟨own, own_member, searched⟩,
        mem_set.mpr ⟨.refl, .inl rfl⟩⟩
    · obtain ⟨set, searched, mem_set⟩ := found parent parent_member
      exact ⟨set, (Results.mem_mapM computed).mpr ⟨parent, parent_member, searched⟩,
        mem_set.mpr ⟨visible, .inr within⟩⟩

theorem isInMainChain_of_le (wellNumbered : dag.WellNumbered) (block_known : dag.Known block)
    (base_known : dag.Known base) (above : dag.number base ≤ dag.number block) :
    Returns (dag.isInMainChain block base) (block == base) := by
  obtain ⟨metadata, found⟩ := block_known
  obtain ⟨base_metadata, base_found⟩ := base_known
  rw [number_of_lookup found, number_of_lookup base_found, ← le_iff_toInt_le] at above
  have number : dag.blockNumberUnsafe block = .ok metadata.blockNumber := by
    rw [KeyValueDagRepresentation.blockNumberUnsafe, wellNumbered.indexed _ _ found]
  have base_number : dag.blockNumberUnsafe base = .ok base_metadata.blockNumber := by
    rw [KeyValueDagRepresentation.blockNumberUnsafe, wellNumbered.indexed _ _ base_found]
  rw [KeyValueDagRepresentation.isInMainChain]
  split_ifs with same
  · rw [same]; exact returns_pure.mpr rfl
  · refine returns_bind.mpr ⟨_, returns_liftExcept.mpr number, ?_⟩
    refine returns_bind.mpr ⟨_, returns_liftExcept.mpr base_number, ?_⟩
    rw [if_pos above]
    exact returns_pure.mpr (Bool.beq_comm ..)

variable [HashMapOrder]

theorem lowestCommonAncestor_known (found : lowestCommonAncestor dag common = some base) :
    dag.Known base ∧ base ∈ common := by
  obtain ⟨entry, largest, rfl⟩ := map_eq_some_iff.mp found
  obtain ⟨hash, present, looked_up⟩ := mem_filterMap.mp (maxBy_mem largest)
  obtain ⟨metadata, lookup_eq, rfl⟩ := map_eq_some_iff.mp looked_up
  exact ⟨⟨metadata, lookup_eq⟩, mem_of_mem_elements (mem_iter.mp present)⟩

theorem returns_planMerge
    (planned : Returns (planMerge dag parents lastFinalizedBlock maxParentDepth blockStore)
      (.merge base baseBlock scope)) :
    ∃ sets common,
      ancestorSets dag parents (ancestorMinBlockNumber maxParentDepth parents) = .ok sets ∧
      commonAncestors dag parents sets = .ok common ∧
      base = (lowestCommonAncestor dag common).getD lastFinalizedBlock ∧
      blockStore.get? base = some baseBlock ∧
      scope = (ofList (sets.flatMap iter)).filter
        (isAtOrAbove dag baseBlock.body.state.blockNumber) := by
  obtain ⟨sets, searched, planned⟩ := returns_bind.mp planned
  obtain ⟨common, intersected, planned⟩ := returns_bind.mp planned
  obtain ⟨stored, read, planned⟩ := returns_bind.mp planned
  simp only [boundMerge] at planned
  split at planned
  · obtain ⟨parent, -, planned⟩ := returns_bind.mp planned
    cases returns_pure.mp planned
  · cases returns_pure.mp planned
    exact ⟨sets, common, returns_liftExcept.mp searched, returns_liftExcept.mp intersected, rfl,
      KeyValueBlockStore.returns_getUnsafe.mp read, rfl⟩

theorem returns_computeParentsPlan
    (planned : Returns (computeParentsPlan dag parents lastFinalizedBlock maxParentDepth blockStore)
      (.merge base baseBlock scope)) :
    Returns (planMerge dag parents lastFinalizedBlock maxParentDepth blockStore)
      (.merge base baseBlock scope) := by
  rcases parents with _ | ⟨first, _ | ⟨second, rest⟩⟩
  · cases returns_pure.mp planned
  · cases returns_pure.mp planned
  · obtain ⟨covering, -, planned⟩ := returns_bind.mp planned
    cases covering with
    | some parent => cases returns_pure.mp planned
    | none =>
      dsimp only at planned
      split at planned
      · cases returns_pure.mp planned
      · exact planned

theorem actualBlocks_spec (wellNumbered : dag.WellNumbered) (base_known : dag.Known base)
    (known : ∀ block ∈ scope, dag.Known block)
    (above : ∀ block ∈ scope, dag.number base ≤ dag.number block) :
    ∃ handed, Returns (Merging.actualBlocks dag base (some scope)) handed ∧
      ∀ block, block ∈ handed ↔ block ∈ scope ∧ block ≠ base := by
  refine ⟨(scope.iter.filter (· ≠ base)).foldl .insert .empty, ?_, fun block => ?_⟩
  · rw [List.foldl_filter]
    apply foldlM_eq_pure
    intro result candidate present
    have member := mem_of_mem_elements (mem_iter.mp present)
    refine returns_bind.mpr ⟨_, isInMainChain_of_le wellNumbered (known _ member) base_known
      (above _ member), returns_pure.mpr ?_⟩
    by_cases same : candidate = base
    · simp [same]
    · simp [same]
  · rw [mem_foldl_insert, or_iff_right (not_mem_empty block)]
    simp [mem_iter, mem_elements_iff]

theorem mem_scope (wellNumbered : dag.WellNumbered)
    (parents_known : ∀ parent ∈ parents, dag.Known parent.blockHash)
    (computed : ancestorSets dag parents (ancestorMinBlockNumber maxParentDepth parents) = .ok sets)
    (number : Int64) (block : BlockHash) :
    block ∈ (HashedSet.ofList (sets.flatMap HashedSet.iter)).filter (isAtOrAbove dag number) ↔
      (VisibleFrom dag parents block ∧ WithinDepth dag parents maxParentDepth block) ∧
        number.toInt ≤ dag.number block := by
  rw [HashedSet.mem_filter (fun other same => by rw [eq_of_beq same])]
  have visible_iff : block ∈ HashedSet.ofList (sets.flatMap HashedSet.iter) ↔
      VisibleFrom dag parents block ∧ WithinDepth dag parents maxParentDepth block := by
    rw [← mem_ancestorSets wellNumbered parents_known computed]
    simp only [mem_ofList, mem_flatMap, mem_iter, mem_elements_iff, beq_iff_eq, exists_eq_right']
  rw [visible_iff]
  refine and_congr_right fun visible => isAtOrAbove_iff ?_
  obtain ⟨parent, member, path⟩ := visible.1
  exact wellNumbered.closed.of_ancestor (parents_known parent member) path

/-- The merger is handed the blocks that the parents see from the number of the base on and
within the depth bound. None of them is in the past of the base, and nothing that the
parents see outside that past is missing exactly when all of it has at least the number of
the base and is within the bound. -/
theorem mergeScope_complete_iff (dag : KeyValueDagRepresentation) (parents : List BlockMessage)
    (lastFinalizedBlock : BlockHash) (maxParentDepth : Int32) (blockStore : KeyValueBlockStore)
    (wellNumbered : dag.WellNumbered) (stored : StoresNumbers dag blockStore)
    (parents_known : ∀ parent ∈ parents, dag.Known parent.blockHash)
    (finalized_known : dag.Known lastFinalizedBlock) (base : BlockHash) (baseBlock : BlockMessage)
    (scope : HashedSet BlockHash)
    (planned : Returns (computeParentsPlan dag parents lastFinalizedBlock maxParentDepth blockStore)
      (.merge base baseBlock scope)) :
    ∃ handed, Returns (Merging.actualBlocks dag base (some scope)) handed ∧
      (∀ block, dag.AncestorOrSelf block base → block ∉ handed) ∧
      ((∀ block, VisibleFrom dag parents block → ¬dag.AncestorOrSelf block base →
          block ∈ handed) ↔
        ∀ block, VisibleFrom dag parents block → ¬dag.AncestorOrSelf block base →
          dag.number base ≤ dag.number block ∧ WithinDepth dag parents maxParentDepth block) := by
  obtain ⟨sets, common, searched, -, base_eq, read, rfl⟩ :=
    returns_planMerge (returns_computeParentsPlan planned)
  have base_known : dag.Known base := by
    cases found : lowestCommonAncestor dag common with
    | none => rwa [base_eq, found]
    | some lca =>
      rw [base_eq, found]
      exact (lowestCommonAncestor_known found).1
  have base_number : baseBlock.body.state.blockNumber.toInt = dag.number base := by
    obtain ⟨metadata, found⟩ := base_known
    rw [stored base baseBlock metadata read found, number_of_lookup found]
  have mem_scope := mem_scope wellNumbered parents_known searched baseBlock.body.state.blockNumber
  rw [base_number] at mem_scope
  obtain ⟨handed, returned, mem_handed⟩ := actualBlocks_spec wellNumbered base_known
    (fun block member => by
      obtain ⟨parent, present, path⟩ := ((mem_scope block).mp member).1.1
      exact wellNumbered.closed.of_ancestor (parents_known parent present) path)
    (fun block member => ((mem_scope block).mp member).2)
  refine ⟨handed, returned, ?_, ?_, ?_⟩
  · intro block below member
    obtain ⟨in_scope, different⟩ := (mem_handed block).mp member
    rcases Relation.reflTransGen_iff_eq_or_transGen.mp below with same | strict
    · exact different same
    · exact absurd ((mem_scope block).mp in_scope).2 (not_le.mpr (wellNumbered.number_lt strict))
  · intro complete block visible outside
    obtain ⟨in_scope, -⟩ := (mem_handed block).mp (complete block visible outside)
    obtain ⟨⟨-, within⟩, above⟩ := (mem_scope block).mp in_scope
    exact ⟨above, within⟩
  · intro condition block visible outside
    obtain ⟨above, within⟩ := condition block visible outside
    refine (mem_handed block).mpr ⟨(mem_scope block).mpr ⟨⟨visible, within⟩, above⟩, ?_⟩
    rintro rfl
    exact outside .refl

end Scope

section Samples

open Merging

attribute [local instance] insertionOrder

def sampleMetadata (hash : BlockHash) (parents : List BlockHash) (number : Int64) :
    BlockMetadata where
  blockHash := hash
  parents := parents
  sender := []
  justifications := []
  weightMap := .empty
  blockNumber := number
  sequenceNumber := 0
  invalid := false
  directlyFinalized := false
  finalized := false

def sampleDagOf (blocks : List BlockMetadata) : KeyValueDagRepresentation where
  dagSet := .ofList (blocks.map (·.blockHash))
  latestMessagesMap := .empty
  childMap := .empty
  blockNumberMap := .ofList (blocks.map fun block => (block.blockHash, block.blockNumber))
  mainParentMap := .ofList (blocks.filterMap fun block =>
    block.parents.head?.map fun parent => (block.blockHash, parent))
  finalizedBlocksSet := .empty
  blockMetadataIndex := .ofList (blocks.map fun block => (block.blockHash, block))

def sampleMessage (metadata : BlockMetadata) : BlockMessage where
  blockHash := metadata.blockHash
  header := ⟨metadata.parents, 0, 0, []⟩
  body := ⟨⟨[], [], [], metadata.blockNumber⟩, [], [], [], []⟩
  justifications := []
  sender := []
  seqNum := 0
  sig := []
  sigAlgorithm := ""
  shardId := ""
  extraBytes := []

def sampleStoreOf (blocks : List BlockMetadata) : KeyValueBlockStore :=
  .ofList (blocks.map fun block => (block.blockHash, sampleMessage block))

/-- A chain of three blocks, a side branch of one block from its start, a block on top of
both and one on top of the chain only. -/
def sideBranchBlocks : List BlockMetadata :=
  [sampleMetadata [0] [] 0, sampleMetadata [1] [[0]] 1, sampleMetadata [2] [[1]] 2,
    sampleMetadata [3] [[0]] 1, sampleMetadata [4] [[2], [3]] 3, sampleMetadata [5] [[2]] 3]

def sideBranchParents : List BlockMessage :=
  [sampleMessage (sampleMetadata [4] [[2], [3]] 3), sampleMessage (sampleMetadata [5] [[2]] 3)]

theorem sideBranch_wellNumbered : (sampleDagOf sideBranchBlocks).WellNumbered :=
  KeyValueDagRepresentation.wellNumbered_of_entries (by decide)

/-- The side branch is below the common ancestor by number, but not in its past. -/
theorem mergeScope_drops_side_branch :
    (sampleDagOf sideBranchBlocks).WellNumbered ∧
    ∃ baseBlock scope handed,
      Returns (computeParentsPlan (sampleDagOf sideBranchBlocks) sideBranchParents [0] 0
        (sampleStoreOf sideBranchBlocks)) (.merge [2] baseBlock scope) ∧
      Returns (actualBlocks (sampleDagOf sideBranchBlocks) [2] (some scope)) handed ∧
      VisibleFrom (sampleDagOf sideBranchBlocks) sideBranchParents [3] ∧
      ¬(sampleDagOf sideBranchBlocks).AncestorOrSelf [3] [2] ∧ [3] ∉ handed := by
  refine ⟨sideBranch_wellNumbered, _, _, _, rfl, rfl, ?_, ?_, by decide⟩
  · exact ⟨_, (.head _), .single ⟨_, rfl, by decide⟩⟩
  · intro path
    have on_chain : [3] ∈ ([[2], [1], [0]] : List BlockHash) :=
      KeyValueDagRepresentation.mem_of_ancestorOrSelf (by decide) (.head _) path
    revert on_chain
    decide

def forkBlocks : List BlockMetadata :=
  [sampleMetadata [0] [] 0, sampleMetadata [1] [[0]] 1, sampleMetadata [2] [[0]] 1]

def forkParents : List BlockMessage :=
  [sampleMessage (sampleMetadata [1] [[0]] 1), sampleMessage (sampleMetadata [2] [[0]] 1)]

theorem fork_stored : StoresNumbers (sampleDagOf forkBlocks) (sampleStoreOf forkBlocks) := by
  have checked : ∀ entry ∈ (sampleDagOf forkBlocks).blockMetadataIndex.entries,
      ((sampleStoreOf forkBlocks).get? entry.1).map (fun block => block.body.state.blockNumber) =
        some entry.2.blockNumber := by decide
  intro hash block metadata read found
  have recorded := checked _ (mem_entries_of_lookup found)
  rw [read] at recorded
  exact Option.some.inj recorded

theorem mergeScope_of_fork :
    ∃ baseBlock scope handed,
      Returns (computeParentsPlan (sampleDagOf forkBlocks) forkParents [0] 0
        (sampleStoreOf forkBlocks)) (.merge [0] baseBlock scope) ∧
      Returns (actualBlocks (sampleDagOf forkBlocks) [0] (some scope)) handed ∧
      ∀ block, VisibleFrom (sampleDagOf forkBlocks) forkParents block →
        ¬(sampleDagOf forkBlocks).AncestorOrSelf block [0] → block ∈ handed := by
  have wellNumbered : (sampleDagOf forkBlocks).WellNumbered :=
    KeyValueDagRepresentation.wellNumbered_of_entries (by decide)
  have parents_known : ∀ parent ∈ forkParents, (sampleDagOf forkBlocks).Known parent.blockHash := by
    have known : ∀ parent ∈ forkParents,
      ((sampleDagOf forkBlocks).lookup parent.blockHash).isSome := by
      decide
    exact fun parent member => isSome_iff_exists.mp (known parent member)
  obtain ⟨handed, returned, -, complete⟩ := mergeScope_complete_iff (sampleDagOf forkBlocks)
    forkParents [0] 0 (sampleStoreOf forkBlocks) wellNumbered fork_stored parents_known
    ⟨_, rfl⟩ [0] _ _ rfl
  refine ⟨_, _, handed, rfl, returned, complete.mpr ?_⟩
  rintro block ⟨parent, member, path⟩ -
  have numbers : ∀ entry ∈ (sampleDagOf forkBlocks).blockMetadataIndex.entries,
      (sampleDagOf forkBlocks).number [0] ≤ (sampleDagOf forkBlocks).number entry.1 := by decide
  obtain ⟨metadata, found⟩ := wellNumbered.closed.of_ancestor (parents_known parent member) path
  exact ⟨numbers _ (mem_entries_of_lookup found), .inr (.inl rfl)⟩

end Samples

end F1r3fly.Casper
