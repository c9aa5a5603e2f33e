import F1r3fly.BlockStorage.BlockDag

/-! The metadata of the blocks, in a store that stays, and what is derived from it in
memory. Only the store says which blocks are finalized, the set in memory is a cache. -/
namespace F1r3fly.BlockStorage

open HashedMap HashedSet Models
open RSpace
open Results

namespace BlockMetadata

def weightMapOf (state : F1r3flyState) : SortedMap Validator Int64 :=
  state.bonds.foldl (fun map bond => map.insert bond.validator bond.stake) .empty

def fromBlock (b : BlockMessage) (invalid : Bool) (directlyFinalized finalized : Option Bool) :
    BlockMetadata where
  blockHash := b.blockHash
  parents := b.header.parentsHashList
  sender := b.sender
  justifications := b.justifications
  weightMap := weightMapOf b.body.state
  blockNumber := b.body.state.blockNumber
  sequenceNumber := b.seqNum
  invalid := invalid
  directlyFinalized := directlyFinalized.getD false
  finalized := finalized.getD false

@[simp]
theorem fromBlock_blockHash (b : BlockMessage) (invalid : Bool)
    (directlyFinalized finalized : Option Bool) :
    (fromBlock b invalid directlyFinalized finalized).blockHash = b.blockHash :=
  rfl

end BlockMetadata

structure DagState where
  dagSet : HashedSet BlockHash
  childMap : HashedMap BlockHash (HashedSet BlockHash)
  heightMap : SortedMap Int64 (HashedSet BlockHash)
  blockNumberMap : HashedMap BlockHash Int64
  mainParentMap : HashedMap BlockHash BlockHash
  selfJustificationMap : HashedMap BlockHash BlockHash
  /-- There is always one: a new state has the empty hash, which is only ever replaced. -/
  lastFinalizedBlock : BlockHash × Int64
  finalizedBlockSet : HashedSet BlockHash

def DagState.new : DagState :=
  ⟨.empty, .empty, .empty, .empty, .empty, .empty, ([], 0), .empty⟩

def finalizedBlockCacheMax : Nat := 50000

def finalizedBlockCacheRetain : Nat := 25000

structure BlockInfo where
  hash : BlockHash
  parents : List BlockHash
  mainParent : Option BlockHash
  selfJustification : Option BlockHash
  blockNum : Int64
  isInvalid : Bool
  isDirectlyFinalized : Bool
  isFinalized : Bool

structure BlockMetadataStore where
  store : HashedMap BlockHash BlockMetadata
  dagState : DagState

namespace BlockMetadataStore

def new : BlockMetadataStore := ⟨.empty, .new⟩

def blockMetadataToInfo (hash : BlockHash) (blockMetadata : BlockMetadata) : BlockInfo where
  hash := hash
  parents := blockMetadata.parents
  mainParent := blockMetadata.parents.head?
  selfJustification := (blockMetadata.justifications.find? fun justification =>
    justification.validator == blockMetadata.sender).map (·.latestBlockHash)
  blockNum := blockMetadata.blockNumber
  isInvalid := blockMetadata.invalid
  isDirectlyFinalized := blockMetadata.directlyFinalized
  isFinalized := blockMetadata.finalized

/-- The block has no children yet, and is a child of its parents. -/
def addChild (childMap : HashedMap BlockHash (HashedSet BlockHash)) (info : BlockInfo) :
    HashedMap BlockHash (HashedSet BlockHash) :=
  info.parents.foldl (fun map parent => map.upsert parent .empty (·.insert info.hash))
    (childMap.upsert info.hash .empty id)

def addBlockToDagState (state : DagState) (info : BlockInfo) : DagState where
  dagSet := state.dagSet.insert info.hash
  childMap := addChild state.childMap info
  heightMap :=
    if info.isInvalid then state.heightMap
    else state.heightMap.alter info.blockNum fun hashes => (hashes.getD .empty).insert info.hash
  blockNumberMap := state.blockNumberMap.insert info.hash info.blockNum
  mainParentMap :=
    (info.mainParent.map (state.mainParentMap.insert info.hash)).getD state.mainParentMap
  selfJustificationMap :=
    (info.selfJustification.map (state.selfJustificationMap.insert info.hash)).getD
      state.selfJustificationMap
  lastFinalizedBlock :=
    if info.isDirectlyFinalized ∧ state.lastFinalizedBlock.2 ≤ info.blockNum then
      (info.hash, info.blockNum)
    else state.lastFinalizedBlock
  finalizedBlockSet :=
    if info.isFinalized then state.finalizedBlockSet.insert info.hash
    else state.finalizedBlockSet

def heightsInSequence (heightMap : SortedMap Int64 (HashedSet BlockHash)) : Bool :=
  let min := heightMap.keys.head?.getD 0
  let max := (heightMap.keys.getLast?.map (· + 1)).getD 0
  max - min == Int64.ofNat heightMap.entries.length

/-- An assertion that fails stops the program. -/
def validateDagState (state : DagState) : Option DagState :=
  if heightsInSequence state.heightMap then some state else none

def contains (store : BlockMetadataStore) (hash : BlockHash) : Bool :=
  store.dagState.dagSet.contains hash

def get (store : BlockMetadataStore) (hash : BlockHash) : Option BlockMetadata :=
  store.store.get? hash

def add (store : BlockMetadataStore) (blockMetadata : BlockMetadata) :
    Option BlockMetadataStore := do
  let dagState ← validateDagState (addBlockToDagState store.dagState
    (blockMetadataToInfo blockMetadata.blockHash blockMetadata))
  return { store := store.store.insert blockMetadata.blockHash blockMetadata, dagState }

/-- Evicts what comes first in the iteration. -/
def pruneFinalizedCacheIfNeeded [HashMapOrder] (finalizedBlockSet : HashedSet BlockHash) :
    HashedSet BlockHash :=
  if finalizedBlockSet.size ≤ finalizedBlockCacheMax then finalizedBlockSet
  else
    let toRemove := finalizedBlockSet.size - finalizedBlockCacheRetain
    (finalizedBlockSet.iter.take toRemove).foldl HashedSet.erase finalizedBlockSet

theorem mem_of_mem_prune [HashMapOrder] {hash : BlockHash}
    (member : hash ∈ pruneFinalizedCacheIfNeeded s) : hash ∈ s := by
  rw [pruneFinalizedCacheIfNeeded] at member
  split at member
  · exact member
  · exact mem_of_mem_foldl_erase member

/-- The store and the set of all blocks hold the same blocks, each under its own hash. -/
structure Keyed (store : BlockMetadataStore) : Prop where
  hash_eq : ∀ hash metadata, store.get hash = some metadata → metadata.blockHash = hash
  stored : ∀ hash, hash ∈ store.dagState.dagSet ↔ ∃ metadata, store.get hash = some metadata

structure Added (store : BlockMetadataStore) (metadata : BlockMetadata)
    (after : BlockMetadataStore) : Prop where
  get_eq : ∀ hash, after.get hash =
    if hash = metadata.blockHash then some metadata else store.get hash
  mem_dagSet : ∀ hash, hash ∈ after.dagState.dagSet ↔
    hash = metadata.blockHash ∨ hash ∈ store.dagState.dagSet
  heightMap_eq : after.dagState.heightMap =
    (addBlockToDagState store.dagState (blockMetadataToInfo metadata.blockHash metadata)).heightMap
  cached : metadata.finalized = false →
    after.dagState.finalizedBlockSet = store.dagState.finalizedBlockSet
  last_le : store.dagState.lastFinalizedBlock.2 ≤ after.dagState.lastFinalizedBlock.2

variable {store : BlockMetadataStore} {indirectly : HashedSet BlockHash}

theorem added_of_add (added : store.add metadata = some after) : store.Added metadata after := by
  rw [add, validateDagState] at added
  split_ifs at added
  · cases added
    refine ⟨?_, ?_, rfl, ?_, ?_⟩
    · intro hash
      rw [get, get?_insert]
      simp only [beq_iff_eq]
      rfl
    · intro hash
      exact mem_insert.trans (or_congr_left beq_iff_eq)
    · intro open_block
      dsimp only [addBlockToDagState, blockMetadataToInfo]
      rw [if_neg (by rw [open_block]; exact Bool.false_ne_true)]
    · dsimp only [addBlockToDagState, blockMetadataToInfo]
      split
      case isTrue higher => exact higher.2
      case isFalse => exact Std.le_refl _
  · cases added

variable [Debug BlockHash]

def keyNotFound (key : BlockHash) : KvStoreError :=
  .keyNotFound ("Error when reading from KeyValueStore: value for key " ++ Debug.debug key ++
    " not found.")

def getUnsafe (store : BlockMetadataStore) (key : BlockHash) : Except KvStoreError BlockMetadata :=
  match store.get key with
  | some metadata => .ok metadata
  | none => .error (keyNotFound key)

def getBatch (store : BlockMetadataStore) (keys : List BlockHash) :
    Except KvStoreError (List BlockMetadata) :=
  keys.mapM store.getUnsafe

theorem getUnsafe_eq_ok : store.getUnsafe key = .ok metadata ↔ store.get key = some metadata := by
  rw [getUnsafe]
  cases store.get key <;> simp

variable [HashMapOrder]

/-- The directly finalized block is the last finalized one unless that is higher. -/
def recordFinalized (store : BlockMetadataStore) (directly : BlockHash)
    (indirectly : HashedSet BlockHash) : Except KvStoreError BlockMetadataStore := do
  let curMetasForIf ← store.getBatch indirectly.iter
  let curMetaForDf ← store.getUnsafe directly
  let newMetaForDf := { curMetaForDf with finalized := true, directlyFinalized := true }
  let newMetasForIf := curMetasForIf.map fun v => (v.blockHash, { v with finalized := true })
  let finalizedBlockSet :=
    (indirectly.iter.foldl HashedSet.insert store.dagState.finalizedBlockSet).insert directly
  let lastFinalizedBlock :=
    if store.dagState.lastFinalizedBlock.2 ≤ newMetaForDf.blockNumber then
      (directly, newMetaForDf.blockNumber)
    else store.dagState.lastFinalizedBlock
  return {
    store := store.store.insertAll ((directly, newMetaForDf) :: newMetasForIf)
    dagState := { store.dagState with
      lastFinalizedBlock, finalizedBlockSet := pruneFinalizedCacheIfNeeded finalizedBlockSet } }

/-- What becomes of the metadata of a block. -/
def finalizedMetadata (directly : BlockHash) (indirectly : HashedSet BlockHash)
    (metadata : BlockMetadata) : BlockMetadata :=
  if metadata.blockHash ∈ indirectly then { metadata with finalized := true }
  else if metadata.blockHash = directly then
    { metadata with finalized := true, directlyFinalized := true }
  else metadata

structure Recorded (store : BlockMetadataStore) (directly : BlockHash)
    (indirectly : HashedSet BlockHash) (after : BlockMetadataStore) : Prop where
  direct_stored : ∃ metadata, store.get directly = some metadata
  get_eq : ∀ hash, after.get hash = (store.get hash).map (finalizedMetadata directly indirectly)
  dagSet_eq : after.dagState.dagSet = store.dagState.dagSet
  heightMap_eq : after.dagState.heightMap = store.dagState.heightMap
  cached : ∀ hash ∈ after.dagState.finalizedBlockSet,
    hash ∈ store.dagState.finalizedBlockSet ∨ hash = directly ∨ hash ∈ indirectly
  last_le : store.dagState.lastFinalizedBlock.2 ≤ after.dagState.lastFinalizedBlock.2

variable {store : BlockMetadataStore}

theorem recordFinalized_returns (keyed : store.Keyed)
    (direct_known : directly ∈ store.dagState.dagSet)
    (indirect_known : ∀ hash ∈ indirectly, hash ∈ store.dagState.dagSet) :
    ∃ after, store.recordFinalized directly indirectly = .ok after := by
  obtain ⟨metadata, direct_found⟩ := (keyed.stored directly).mp direct_known
  obtain ⟨metas, batch⟩ : ∃ metas, store.getBatch indirectly.iter = .ok metas := by
    refine Results.mapM_ok fun hash present => ?_
    have member := mem_elements_iff.mp (mem_iter.mp present)
    obtain ⟨metadata, found⟩ := (keyed.stored hash).mp (indirect_known hash member)
    exact ⟨metadata, getUnsafe_eq_ok.mpr found⟩
  exact ⟨_, bind_eq_ok.mpr ⟨metas, batch, bind_eq_ok.mpr
    ⟨metadata, getUnsafe_eq_ok.mpr direct_found, rfl⟩⟩⟩

theorem find_batch (keyed : store.Keyed)
    (batch : store.getBatch indirectly.iter = .ok metas) (hash : BlockHash) :
    (((metas.map fun v => (v.blockHash, { v with finalized := true })).reverse.find?
        fun entry => hash == entry.1).map (·.2)) =
      if hash ∈ indirectly then
        (store.get hash).map fun metadata => { metadata with finalized := true }
      else none := by
  have mem_metas (metadata : BlockMetadata) :
      metadata ∈ metas ↔ metadata.blockHash ∈ indirectly ∧
        store.get metadata.blockHash = some metadata := by
    rw [mem_mapM batch]
    constructor
    · rintro ⟨key, present, found⟩
      have found := getUnsafe_eq_ok.mp found
      rw [keyed.hash_eq key metadata found]
      exact ⟨mem_elements_iff.mp (mem_iter.mp present), found⟩
    · rintro ⟨member, found⟩
      exact ⟨metadata.blockHash, mem_iter.mpr (mem_elements_iff.mpr member),
        getUnsafe_eq_ok.mpr found⟩
  cases found : (metas.map fun v => (v.blockHash, { v with finalized := true })).reverse.find?
      fun entry => hash == entry.1 with
  | none =>
    rw [find?_eq_none] at found
    split_ifs with member
    · cases at_hash : store.get hash with
      | none => rfl
      | some metadata =>
        have same := keyed.hash_eq hash metadata at_hash
        have present := (mem_metas metadata).mpr (by rw [same]; exact ⟨member, at_hash⟩)
        have apart := found _ (mem_reverse.mpr (mem_map_of_mem present))
        exact absurd (beq_iff_eq.mpr same.symm) apart
    · rfl
  | some entry =>
    have same := eq_of_beq
      (find?_some (p := fun entry : BlockHash × BlockMetadata => hash == entry.1) found)
    have present := mem_reverse.mp (mem_of_find?_eq_some found)
    obtain ⟨metadata, metadata_present, rfl⟩ := mem_map.mp present
    obtain ⟨member, at_hash⟩ := (mem_metas metadata).mp metadata_present
    rw [same, if_pos member, at_hash]
    rfl

theorem recorded_of_recordFinalized (keyed : store.Keyed) {directly : BlockHash}
    (recorded : store.recordFinalized directly indirectly = .ok after) :
    store.Recorded directly indirectly after := by
  obtain ⟨metas, batch, recorded⟩ := bind_eq_ok.mp recorded
  obtain ⟨metadata, direct_found, recorded⟩ := bind_eq_ok.mp recorded
  have direct_found := getUnsafe_eq_ok.mp direct_found
  have direct_hash := keyed.hash_eq directly metadata direct_found
  cases recorded
  refine ⟨⟨metadata, direct_found⟩, ?_, rfl, rfl, ?_, ?_⟩
  · intro hash
    rw [get, get?_insertAll, List.reverse_cons, List.find?_append, Option.map_or,
      find_batch keyed batch hash]
    cases at_hash : store.get hash with
    | none =>
      have differs : hash ≠ directly := by
        rintro rfl
        rw [direct_found] at at_hash
        cases at_hash
      simp [differs, show store.store.get? hash = none from at_hash]
    | some current =>
      have at_store : store.store.get? hash = some current := at_hash
      simp only [map_some, finalizedMetadata, keyed.hash_eq hash current at_hash]
      by_cases member : hash ∈ indirectly
      · simp [member]
      · by_cases same : hash = directly
        · subst same
          rw [direct_found] at at_hash
          cases at_hash
          simp [member, direct_hash]
        · simp [member, same, at_store]
  · intro hash member
    have member := mem_of_mem_prune member
    rw [mem_insert, beq_iff_eq, mem_foldl_insert] at member
    rcases member with same | old | ⟨other, present, same⟩
    · exact .inr (.inl same)
    · exact .inl old
    · rw [eq_of_beq same]
      exact .inr (.inr (mem_elements_iff.mp (mem_iter.mp present)))
  · dsimp only
    split
    · assumption
    · exact Std.le_refl _

end BlockMetadataStore

end F1r3fly.BlockStorage
