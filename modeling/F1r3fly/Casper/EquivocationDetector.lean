import F1r3fly.BlockStorage.Ancestry
import F1r3fly.BlockStorage.KeyValueBlockStore
import F1r3fly.Shared.DagOps

/-! Whether a block shows that its creator could have known of an equivocation. -/
namespace F1r3fly.Casper

open BlockStorage
open Models
open Results (Fallible)
open Shared.DagOps (bfTraverse)

structure EquivocationRecord where
  equivocator : Validator
  equivocationBaseBlockSeqNum : Int32
  equivocationDetectedBlockHashes : HashedSet BlockHash

inductive EquivocationDiscoveryStatus where
  | equivocationDetected
  | equivocationNeglected
  | equivocationOblivious
deriving DecidableEq

namespace ProtoUtil

def getCreatorJustificationAsListUntilGoalInMemory (dag : KeyValueDagRepresentation)
    (blockHash : BlockHash) (goalFunc : BlockHash → Bool) : List BlockHash :=
  match dag.lookup blockHash with
  | none => []
  | some block =>
    match block.justifications.find? fun j => j.validator == block.sender with
    | none => []
    | some justification =>
      match dag.lookup justification.latestBlockHash with
      | none => []
      | some creatorJustification =>
        if goalFunc creatorJustification.blockHash then [] else [creatorJustification.blockHash]

end ProtoUtil

namespace EquivocationDetector

def toLatestMessageHashes (justifications : List Justification) : HashedMap Validator BlockHash :=
  .ofList (justifications.map fun justification =>
    (justification.validator, justification.latestBlockHash))

section Detection

variable (dag : KeyValueDagRepresentation) (blockStore : KeyValueBlockStore)

/-- The block before, by the same validator. -/
def creatorJustifications (blockHash : BlockHash) : List BlockHash :=
  ProtoUtil.getCreatorJustificationAsListUntilGoalInMemory dag blockHash fun _ => false

def isAncestorWithSeqNum (seqNum : Int) (targetValidator : Validator) (candidate : BlockHash) :
    Bool :=
  match dag.lookupUnsafe candidate with
  | .ok metadata => metadata.sequenceNumber.toInt = seqNum && metadata.sender == targetValidator
  | .error _ => false

/-- Every block is expanded once, which bounds the rounds. -/
def findCreatorJustificationAncestorWithSeqNum (block : BlockMessage) (seqNum : Int) :
    Option BlockHash :=
  if block.seqNum.toInt = seqNum then some block.blockHash
  else
    (bfTraverse (dag.blockMetadataIndex.entries.length + 1) [block.blockHash]
      (creatorJustifications dag)).find? (isAncestorWithSeqNum dag seqNum block.sender)

def addEquivocationChild (justificationBlock : BlockMessage) (equivocationBaseBlockSeqNum : Int)
    (equivocationChildren : List BlockMessage) : Fallible KvStoreError (List BlockMessage) := do
  match findCreatorJustificationAncestorWithSeqNum dag justificationBlock
      (equivocationBaseBlockSeqNum + 1) with
  | some equivocationChildHash =>
    let equivocationChild ← blockStore.getUnsafe equivocationChildHash
    return equivocationChildren ++ [equivocationChild]
  | none => throw (.keyNotFound ("creator justification ancestor with lower sequence number " ++
      "hasn't been added to the blockDAG yet."))

variable (genesis : BlockMessage)

def maybeAddEquivocationChild (justificationBlock : BlockMessage)
    (equivocatingValidator : Validator) (equivocationBaseBlockSeqNum : Int)
    (equivocationChildren : List BlockMessage) : Fallible KvStoreError (List BlockMessage) := do
  if justificationBlock.blockHash = genesis.blockHash then return equivocationChildren
  else if justificationBlock.sender = equivocatingValidator then
    if justificationBlock.seqNum.toInt > equivocationBaseBlockSeqNum then
      addEquivocationChild dag blockStore justificationBlock equivocationBaseBlockSeqNum
        equivocationChildren
    else return equivocationChildren
  else
    match (toLatestMessageHashes justificationBlock.justifications).get? equivocatingValidator with
    | some latestHash =>
      let latestEquivocatingValidatorBlock ← blockStore.getUnsafe latestHash
      if latestEquivocatingValidatorBlock.seqNum.toInt > equivocationBaseBlockSeqNum then
        addEquivocationChild dag blockStore latestEquivocatingValidatorBlock
          equivocationBaseBlockSeqNum equivocationChildren
      else return equivocationChildren
    | none => throw (.keyNotFound ("justificationBlock is missing justification pointers to " ++
        "equivocatingValidator even though justificationBlock isn't a part of " ++
        "equivocationDetectedBlockHashes for this equivocation record."))

variable [HashMapOrder] (equivocationRecord : EquivocationRecord)

/-- The messages that are left are put into a map of their own before the next one is taken. -/
def isEquivocationDetectable : Nat → HashedMap Validator BlockHash → List BlockMessage →
    Fallible KvStoreError Bool
  | 0, _, _ => ExceptT.lift none
  | fuel + 1, latestMessages, equivocationChildren =>
    match latestMessages.iter with
    | [] => pure false
    | (_, justificationBlockHash) :: remainder =>
      if equivocationRecord.equivocationDetectedBlockHashes.contains justificationBlockHash then
        pure true
      else do
        let justificationBlock ← blockStore.getUnsafe justificationBlockHash
        let updatedEquivocationChildren ← maybeAddEquivocationChild dag blockStore genesis
          justificationBlock equivocationRecord.equivocator
          equivocationRecord.equivocationBaseBlockSeqNum.toInt equivocationChildren
        if updatedEquivocationChildren.length > 1 then pure true
        else isEquivocationDetectable fuel (.ofList remainder) updatedEquivocationChildren

def getEquivocationDiscoveryStatusForBondedValidator
    (latestMessages : HashedMap Validator BlockHash) (stake : Int64) :
    Fallible KvStoreError EquivocationDiscoveryStatus :=
  if stake > 0 then do
    let equivocationDetectable ← isEquivocationDetectable dag blockStore genesis equivocationRecord
      (latestMessages.entries.length + 1) latestMessages []
    return if equivocationDetectable then .equivocationNeglected else .equivocationOblivious
  else return .equivocationDetected

def getEquivocationDiscoveryStatus (block : BlockMessage) :
    Fallible KvStoreError EquivocationDiscoveryStatus :=
  match block.body.state.bonds.find? fun bond =>
      bond.validator == equivocationRecord.equivocator with
  | some bond => getEquivocationDiscoveryStatusForBondedValidator dag blockStore genesis
      equivocationRecord (toLatestMessageHashes block.justifications) bond.stake
  | none => pure .equivocationDetected

end Detection

end EquivocationDetector

end F1r3fly.Casper
