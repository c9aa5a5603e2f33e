import F1r3fly.BlockStorage.Ancestry
import F1r3fly.BlockStorage.BlockMetadataStore

/-! The store of the block DAG: how blocks are inserted, and the latest message of every
validator. -/
namespace F1r3fly.BlockStorage

open Models (BlockMessage)
open RSpace
open Results

structure BlockDagKeyValueStorage where
  latestMessagesIndex : HashedMap Validator BlockHash
  blockMetadataIndex : BlockMetadataStore
  deployIndex : HashedMap DeployId BlockHash
  invalidBlocksIndex : HashedMap BlockHash BlockMetadata

namespace BlockDagKeyValueStorage

def new : BlockDagKeyValueStorage := ⟨.empty, .new, .empty, .empty⟩

variable (storage : BlockDagKeyValueStorage)

def getRepresentation : KeyValueDagRepresentation where
  dagSet := storage.blockMetadataIndex.dagState.dagSet
  latestMessagesMap := storage.latestMessagesIndex
  childMap := storage.blockMetadataIndex.dagState.childMap
  blockNumberMap := storage.blockMetadataIndex.dagState.blockNumberMap
  mainParentMap := storage.blockMetadataIndex.dagState.mainParentMap
  finalizedBlocksSet := storage.blockMetadataIndex.dagState.finalizedBlockSet
  blockMetadataIndex := storage.blockMetadataIndex.store
  lastFinalizedBlockHash := storage.blockMetadataIndex.dagState.lastFinalizedBlock.1
  deployIndex := storage.deployIndex
  selfJustificationMap := storage.blockMetadataIndex.dagState.selfJustificationMap

def malformedSender [Debug BlockMessage] (block : BlockMessage) : KvStoreError :=
  .invalidArgument ("Block sender is malformed., Block: " ++ Debug.debug block)

def incorrectHashLength (blockHash : BlockHash) : KvStoreError :=
  .invalidArgument ("Block hash " ++ PrettyPrinter.buildStringBytes blockHash ++
    " is not correct length.")

/-- A validator without a message that becomes bonded by the block has the block itself as
its latest message. -/
def newlyBonded [HashMapOrder] (latestMessagesIndex : HashedMap Validator BlockHash)
    (block : BlockMessage) : HashedMap Validator BlockHash :=
  let newlyBondedSet : HashedSet Validator := .ofList (block.body.state.bonds.map (·.validator))
  let justificationValidators : HashedSet Validator :=
    .ofList (block.justifications.map (·.validator))
  (newlyBondedSet.difference justificationValidators).iter.foldl (fun result validator =>
    if (latestMessagesIndex.get? validator).isSome then result
    else result.insert validator block.blockHash) .empty

/-- The first message of the sender, or one whose sequence number is not behind. -/
def shouldAddAsLatest (latestMessagesIndex : HashedMap Validator BlockHash)
    (blockMetadataIndex : BlockMetadataStore) (block : BlockMessage) : Bool :=
  match latestMessagesIndex.get? block.sender with
  | some latestMessageHash =>
    match blockMetadataIndex.get latestMessageHash with
    | some metadata => block.seqNum ≥ metadata.sequenceNumber
    | none => true
  | none => true

/-- The entry of the sender replaces that of a newly bonded validator. -/
def newLatestMessages [HashMapOrder] (latestMessagesIndex : HashedMap Validator BlockHash)
    (blockMetadataIndex : BlockMetadataStore) (block : BlockMessage) :
    HashedMap Validator BlockHash :=
  let newLatest := newlyBonded latestMessagesIndex block
  if block.sender ≠ [] ∧ shouldAddAsLatest latestMessagesIndex blockMetadataIndex block then
    newLatest.insert block.sender block.blockHash
  else newLatest

variable [Debug BlockHash] [Debug BlockMessage] [HashMapOrder]

/-- Whether the block is invalid makes no difference to the latest messages. -/
def insertInternal (block : BlockMessage)
    (invalid approved : Bool) : Fallible KvStoreError BlockDagKeyValueStorage :=
  if storage.blockMetadataIndex.contains block.blockHash then pure storage
  else if block.sender ≠ [] ∧ block.sender.length ≠ validatorLength then
    throw (malformedSender block)
  else if block.blockHash.length ≠ blockHashLength then
    throw (incorrectHashLength block.blockHash)
  else do
    let blockMetadata := BlockMetadata.fromBlock block invalid none none
    let blockMetadataIndex ← ExceptT.lift (storage.blockMetadataIndex.add blockMetadata)
    let newLatest :=
      newLatestMessages storage.latestMessagesIndex blockMetadataIndex block
    let finalizedIndex ← liftM (if approved then
      blockMetadataIndex.recordFinalized block.blockHash .empty else .ok blockMetadataIndex)
    return {
      latestMessagesIndex := storage.latestMessagesIndex.insertAll newLatest.iter
      blockMetadataIndex := finalizedIndex
      deployIndex := storage.deployIndex.insertAll
        (block.body.deploys.map fun deploy => (deploy.deploy.sig, block.blockHash))
      invalidBlocksIndex :=
        if invalid then storage.invalidBlocksIndex.insert block.blockHash blockMetadata
        else storage.invalidBlocksIndex }

structure Inserted (storage : BlockDagKeyValueStorage) (block : BlockMessage)
    (invalid approved : Bool) (after : BlockDagKeyValueStorage) : Prop where
  new : block.blockHash ∉ storage.blockMetadataIndex.dagState.dagSet
  stored : ∃ added,
    storage.blockMetadataIndex.add (.fromBlock block invalid none none) = some added ∧
    after.latestMessagesIndex = storage.latestMessagesIndex.insertAll
      (newLatestMessages storage.latestMessagesIndex added block).iter ∧
    (if approved then added.recordFinalized block.blockHash .empty else .ok added) =
      .ok after.blockMetadataIndex

theorem inserted_of_returns {storage after : BlockDagKeyValueStorage}
    (returned : Returns (storage.insertInternal block invalid approved) after) :
    after = storage ∨ storage.Inserted block invalid approved after := by
  rw [insertInternal] at returned
  split at returned
  case isTrue => exact .inl (returns_pure.mp returned).symm
  case isFalse unknown =>
    split at returned
    · cases returned
    split at returned
    · cases returned
    obtain ⟨added, add_returned, returned⟩ := returns_bind.mp returned
    obtain ⟨finalizedIndex, finalized, returned⟩ := returns_bind.mp returned
    obtain rfl := returns_pure.mp returned
    refine .inr ⟨unknown, added, ?_, rfl, Results.returns_liftExcept.mp finalized⟩
    cases add_eq : storage.blockMetadataIndex.add (.fromBlock block invalid none none) with
    | none =>
      rw [add_eq] at add_returned
      cases add_returned
    | some index =>
      rw [add_eq] at add_returned
      cases add_returned
      rfl

theorem insertInternal_returns {storage : BlockDagKeyValueStorage}
    (unknown : block.blockHash ∉ storage.blockMetadataIndex.dagState.dagSet)
    (hash_length : block.blockHash.length = blockHashLength)
    (sender_length : block.sender = [] ∨ block.sender.length = validatorLength)
    (add_eq : storage.blockMetadataIndex.add (.fromBlock block invalid none none) = some added)
    (finalized : (if approved then added.recordFinalized block.blockHash .empty else .ok added) =
      .ok index) :
    ∃ after, Returns (storage.insertInternal block invalid approved) after ∧
      after.latestMessagesIndex = storage.latestMessagesIndex.insertAll
        (newLatestMessages storage.latestMessagesIndex added block).iter ∧
      after.blockMetadataIndex = index := by
  have add_returned : Returns (ExceptT.lift (storage.blockMetadataIndex.add
      (.fromBlock block invalid none none)) : Fallible KvStoreError BlockMetadataStore) added := by
    rw [add_eq]
    rfl
  have not_contained : ¬storage.blockMetadataIndex.contains block.blockHash := unknown
  rw [insertInternal, if_neg not_contained,
    if_neg fun malformed => malformed.2 (sender_length.resolve_left malformed.1),
    if_neg (not_not.mpr hash_length)]
  exact ⟨_, returns_bind.mpr ⟨added, add_returned, returns_bind.mpr
    ⟨index, Results.returns_liftExcept.mpr finalized, returns_pure.mpr rfl⟩⟩, rfl, rfl⟩

def insertBlocks (blocks : List BlockMessage) : Fallible KvStoreError BlockDagKeyValueStorage :=
  blocks.foldlM (fun storage block =>
    storage.insertInternal block false block.header.parentsHashList.isEmpty) storage

end BlockDagKeyValueStorage

section Samples

def sampleHash (byte : UInt8) : BlockHash := List.replicate blockHashLength byte

def sampleValidator (byte : UInt8) : Validator := List.replicate validatorLength byte

def sampleBlock (hash : UInt8) (parents : List UInt8) (number : Int64) (sender : Validator)
    (seqNum : Int32) (justifications : List (UInt8 × UInt8)) (bonded : List UInt8) :
    BlockMessage where
  blockHash := sampleHash hash
  header := ⟨parents.map sampleHash, 0, 0, []⟩
  body := ⟨⟨[], [], bonded.map fun validator => ⟨sampleValidator validator, 1⟩, number⟩,
    [], [], [], []⟩
  justifications := justifications.map fun entry => ⟨sampleValidator entry.1, sampleHash entry.2⟩
  sender := sender
  seqNum := seqNum
  sig := []
  sigAlgorithm := ""
  shardId := ""
  extraBytes := []

@[reducible]
def sampleHashDebug : Debug BlockHash := ⟨toString⟩

@[reducible]
def sampleBlockDebug : Debug BlockMessage := ⟨fun block => toString block.blockHash⟩

end Samples

end F1r3fly.BlockStorage
