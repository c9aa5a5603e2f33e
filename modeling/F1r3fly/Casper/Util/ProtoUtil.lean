import F1r3fly.BlockStorage.KeyValueBlockStore
import F1r3fly.RSpace.Hashing.Bincode

/-! Small functions of blocks and their metadata. -/
namespace F1r3fly.Casper.ProtoUtil

open BlockStorage
open Models
open RSpace

class ProstMessage (M : Type) where
  encodeToVec : M → ByteVector
  encodeToVec_injective : Function.Injective encodeToVec

export ProstMessage (encodeToVec encodeToVec_injective)

def asBytes (text : String) : ByteVector := text.toUTF8.data.toList

theorem asBytes_injective : Function.Injective asBytes := by
  intro a b same
  apply String.toByteArray_inj.mp
  exact ByteArray.ext (Array.toList_inj.mp same)

def leBytes (number : Int32) : ByteVector := littleEndian 4 number.toUInt32.toNat

theorem leBytes_injective : Function.Injective leBytes := by
  intro a b same
  have bound (number : Int32) : number.toUInt32.toNat < 256 ^ 4 := number.toUInt32.toNat_lt
  have unsigned := UInt32.toNat_inj.mp (RSpace.littleEndian_inj (bound a) (bound b) same)
  cases a
  cases b
  exact congrArg Int32.ofUInt32 unsigned

theorem length_leBytes (number : Int32) : (leBytes number).length = 4 :=
  RSpace.length_littleEndian _ _

section Hash

variable [ProstMessage Header] [ProstMessage BodyProto]

/-- The bytes under the hash of a block. The justifications are not among them, and no part
comes with its length. -/
def hashedBytes (block : BlockMessage) : ByteVector :=
  encodeToVec block.header ++ encodeToVec block.body.toProto ++ block.sender ++
    asBytes block.sigAlgorithm ++ leBytes block.seqNum ++ asBytes block.shardId ++ block.extraBytes

def hashBlock [Blake2b] (block : BlockMessage) : BlockHash := Blake2b.hash (hashedBytes block)

end Hash

def parentHashes (block : BlockMessage) : List BlockHash := block.header.parentsHashList

def blockNumber (block : BlockMessage) : Int64 := block.body.state.blockNumber

def deploys (block : BlockMessage) : List ProcessedDeploy := block.body.deploys

def getParentsMetadata (dag : KeyValueDagRepresentation) (block : BlockMetadata) :
    Except KvStoreError (List BlockMetadata) :=
  block.parents.mapM dag.lookupUnsafe

def getParentMetadatasAboveBlockNumber (block : BlockMetadata) (blockNumber : Int64)
    (dag : KeyValueDagRepresentation) : Except KvStoreError (List BlockMetadata) := do
  let parents ← getParentsMetadata dag block
  return parents.filter fun parent => parent.blockNumber ≥ blockNumber

def maxBlockNumberMetadata (blocks : List BlockMetadata) : Int64 :=
  blocks.foldl (fun acc block => max acc block.blockNumber) (-1)

end F1r3fly.Casper.ProtoUtil
