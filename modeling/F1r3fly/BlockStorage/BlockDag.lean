import F1r3fly.Data.Exploration
import F1r3fly.Models.CasperMessage
import F1r3fly.Data.HashOrder
import F1r3fly.Data.SortedMap

/-! A snapshot of the block DAG: the blocks with their parents, and the maps that are
kept beside them so that common questions need no metadata. -/
namespace F1r3fly.BlockStorage

open Models (Justification)
open RSpace (ByteVector)
open Results (Fallible)

abbrev BlockHash := ByteVector

abbrev Validator := ByteVector

def blockHashLength : Nat := 32

def validatorLength : Nat := 65

structure BlockMetadata where
  blockHash : BlockHash
  parents : List BlockHash
  sender : Validator
  justifications : List Justification
  weightMap : SortedMap Validator Int64
  blockNumber : Int64
  sequenceNumber : Int32
  invalid : Bool
  directlyFinalized : Bool
  finalized : Bool
deriving DecidableEq

abbrev DeployId := ByteVector

inductive KvStoreError where
  | keyNotFound (message : String)
  | invalidArgument (message : String)
  | ioError (message : String)
  | serializationError (message : String)
deriving DecidableEq

namespace PrettyPrinter

def hexDigit (value : Nat) : Char := "0123456789abcdef".toList.getD value '0'

def hexEncode (bytes : ByteVector) : String :=
  String.ofList (bytes.flatMap fun byte => [hexDigit (byte.toNat / 16), hexDigit (byte.toNat % 16)])

def limit (text : String) (maxLength : Nat) : String :=
  if text.length > maxLength then String.ofList (text.toList.take maxLength) ++ "..." else text

def buildStringBytes (bytes : ByteVector) : String := limit (hexEncode bytes) 10

end PrettyPrinter

structure KeyValueDagRepresentation where
  dagSet : HashedSet BlockHash
  latestMessagesMap : HashedMap Validator BlockHash
  childMap : HashedMap BlockHash (HashedSet BlockHash)
  blockNumberMap : HashedMap BlockHash Int64
  mainParentMap : HashedMap BlockHash BlockHash
  finalizedBlocksSet : HashedSet BlockHash
  blockMetadataIndex : HashedMap BlockHash BlockMetadata
  lastFinalizedBlockHash : BlockHash := []
  deployIndex : HashedMap DeployId BlockHash := .empty
  selfJustificationMap : HashedMap BlockHash BlockHash := .empty

namespace KeyValueDagRepresentation

def missingHash (blockHash : BlockHash) : KvStoreError :=
  .invalidArgument ("DAG storage is missing hash " ++ PrettyPrinter.buildStringBytes blockHash)

section

variable (dag : KeyValueDagRepresentation)

variable (blockHash : BlockHash)

def lookup : Option BlockMetadata :=
  if dag.dagSet.contains blockHash then dag.blockMetadataIndex.get? blockHash else none

def lookupUnsafe : Except KvStoreError BlockMetadata :=
  match dag.lookup blockHash with
  | some metadata => .ok metadata
  | none => .error (missingHash blockHash)

/-- The DAG has a block with this hash, which has the length of one. -/
def contains : Bool :=
  blockHash.length == blockHashLength && dag.dagSet.contains blockHash

def latestMessageHash (validator : Validator) : Option BlockHash :=
  dag.latestMessagesMap.get? validator

/-- A block may have no justification for its own sender. -/
def selfJustification : Except KvStoreError (Option BlockHash) :=
  match dag.selfJustificationMap.get? blockHash with
  | some hash => .ok (some hash)
  | none => if dag.contains blockHash then .ok none else .error (missingHash blockHash)

def children : Option (HashedSet BlockHash) :=
  dag.childMap.get? blockHash

def blockNumberUnsafe : Except KvStoreError Int64 :=
  match dag.blockNumberMap.get? blockHash with
  | some number => .ok number
  | none => .error (missingHash blockHash)

def mainParent : Option BlockHash :=
  dag.mainParentMap.get? blockHash

/-- The set only caches some of the finalized blocks. -/
def isFinalized : Bool :=
  dag.finalizedBlocksSet.contains blockHash ||
    ((dag.blockMetadataIndex.get? blockHash).map (·.finalized)).getD false

end

section Walks

variable [HashMapOrder]

variable (dag : KeyValueDagRepresentation)

def latestMessages : Except KvStoreError (HashedMap Validator BlockMetadata) :=
  dag.latestMessagesMap.iter.foldlM (fun result entry => do
    let metadata ← dag.lookupUnsafe entry.2
    return result.insert entry.1 metadata) .empty

def recordedParents : List BlockHash :=
  dag.blockMetadataIndex.entries.flatMap fun entry => entry.2.parents

def recordedChildren : List BlockHash :=
  dag.childMap.entries.flatMap fun entry => entry.2.elements

/-- The main parents are followed down to the height of the ancestor. A walk with more
steps than there are main parents is in a cycle and does not end. -/
def walkMainChain (dag : KeyValueDagRepresentation) (ancestor : BlockHash) (stopHeight : Int64) :
    Nat → BlockHash → Fallible KvStoreError Bool
  | 0, _ => ExceptT.lift none
  | fuel + 1, currentHash => do
    let currentHeight ← liftM (dag.blockNumberUnsafe currentHash)
    if currentHeight ≤ stopHeight then
      return currentHash == ancestor
    else
      match dag.mainParent currentHash with
      | none => return false
      | some mainParent => walkMainChain dag ancestor stopHeight fuel mainParent

def isInMainChain (ancestor descendant : BlockHash) : Fallible KvStoreError Bool :=
  if ancestor == descendant then pure true
  else do
    let stopHeight ← liftM (dag.blockNumberUnsafe ancestor)
    walkMainChain dag ancestor stopHeight (dag.mainParentMap.entries.length + 1) descendant

/-- Breadth first from the latest messages down to finalized blocks. Every block is expanded
once, which bounds the fuel. -/
def walkNonFinalized (dag : KeyValueDagRepresentation) : Nat → List BlockHash →
    HashedSet BlockHash → HashedSet BlockHash → Except KvStoreError (HashedSet BlockHash)
  | 0, _, _, result => .ok result
  | _, [], _, result => .ok result
  | fuel + 1, hash :: tips, visited, result =>
    if visited.contains hash then walkNonFinalized dag fuel tips visited result
    else
      let visited := visited.insert hash
      if dag.isFinalized hash then walkNonFinalized dag fuel tips visited result
      else do
        let metadata ← dag.lookupUnsafe hash
        walkNonFinalized dag fuel
          (tips ++ metadata.parents.filter fun parent => !visited.contains parent) visited
          (result.insert hash)

def nonFinalizedBlocks : Except KvStoreError (HashedSet BlockHash) := do
  let latest ← dag.latestMessages
  let tips := latest.iter.map fun entry => entry.2.blockHash
  walkNonFinalized dag (tips.length + dag.recordedParents.length + 1) tips .empty .empty

def descendants (blockHash : BlockHash) : Except KvStoreError (HashedSet BlockHash) :=
  Exploration.exploreLevels
    (fun hash => .ok (((dag.children hash).map HashedSet.iter).getD []))
    (dag.recordedChildren.length + 1) [blockHash] .empty

def ancestors (blockHash : BlockHash)
    (filterF : BlockHash → Bool) : Except KvStoreError (HashedSet BlockHash) :=
  Exploration.exploreLevels (fun hash => do
      let metadata ← dag.lookupUnsafe hash
      return metadata.parents.filter filterF)
    (dag.recordedParents.length + 1) [blockHash] .empty

def withAncestors (blockHash : BlockHash)
    (filterF : BlockHash → Bool) : Except KvStoreError (HashedSet BlockHash) := do
  let result ← dag.ancestors blockHash filterF
  return result.insert blockHash

end Walks

end KeyValueDagRepresentation

end F1r3fly.BlockStorage
