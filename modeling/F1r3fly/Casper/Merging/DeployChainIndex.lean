import F1r3fly.BlockStorage.BlockDag
import F1r3fly.RSpace.Merger.EventLogIndex
import F1r3fly.RSpace.Serializers

/-! The deploys of a block that depend on each other, with what they did. -/
namespace F1r3fly.Casper.Merging

open RSpace RSpace.Merger
open BlockStorage (BlockHash)

abbrev DeployId := ByteVector

structure DeployIdWithCost where
  deployId : DeployId
  cost : UInt64
deriving DecidableEq

structure DeployChainIndex where
  deploysWithCost : HashableSet DeployIdWithCost
  postStateHash : Blake2b256Hash
  eventLogIndex : EventLogIndex
  stateChanges : StateChange
  sourceBlockHash : BlockHash
  sourceBlockNumber : Int64

namespace DeployChainIndex

/-- Chains with the same deploys are equal, whichever block they are from. -/
instance : BEq DeployChainIndex := ⟨fun a b => a.deploysWithCost == b.deploysWithCost⟩

instance : EquivBEq DeployChainIndex where
  rfl := BEq.rfl (a := DeployChainIndex.deploysWithCost _)
  symm same := BEq.symm (α := HashableSet DeployIdWithCost) same
  trans first second := BEq.trans (α := HashableSet DeployIdWithCost) first second

variable (chain : DeployChainIndex)

/-- The sum wraps around. -/
def totalCost : UInt64 :=
  (chain.deploysWithCost.elements.map (·.cost)).foldr (· + ·) 0

def maxCost : UInt64 :=
  (chain.deploysWithCost.elements.map (·.cost)).foldr max 0

def minDeployId? : Option DeployId :=
  (chain.deploysWithCost.elements.map (·.deployId)).foldl (fun least id =>
    some ((least.map fun best => if compareByteVectors id best = .lt then id else best).getD id))
    none

def compareDeployIds : Option DeployId → Option DeployId → Ordering
  | some a, some b => compareByteVectors a b
  | some _, none => .gt
  | none, some _ => .lt
  | none, none => .eq

/-- The highest total cost first, then the highest single cost, then the smallest signature,
then the state. -/
instance : Ord DeployChainIndex where
  compare a b :=
    ((compare a.totalCost b.totalCost).swap.then (compare a.maxCost b.maxCost).swap).then
      ((compareDeployIds a.minDeployId? b.minDeployId?).then
        (compareByteVectors a.postStateHash b.postStateHash))

def source : Int64 × BlockHash :=
  (chain.sourceBlockNumber, chain.sourceBlockHash)

def deployIds : List DeployId :=
  chain.deploysWithCost.elements.map (·.deployId)

theorem mem_deployIds_congr {a b : DeployChainIndex} (same : a == b) (id : DeployId) :
    id ∈ a.deployIds ↔ id ∈ b.deployIds := by
  have perm : a.deployIds.Perm b.deployIds :=
    HashedSet.map_perm (fun x y eq => by rw [eq_of_beq eq])
      (s := a.deploysWithCost) (t := b.deploysWithCost) same
  exact perm.mem_iff

end DeployChainIndex

/-- System deploy ids are the hash of a block and a marker. -/
def systemDeployIdLen : Nat := 33

def slashMarker : UInt8 := 0x01
def closeBlockMarker : UInt8 := 0x02
def heartbeatMarker : UInt8 := 0x03

def isSystemDeployId (id : DeployId) : Bool :=
  id.length == systemDeployIdLen &&
    (id[32]? == some slashMarker || id[32]? == some closeBlockMarker ||
      id[32]? == some heartbeatMarker)

def isSlashDeployId (id : DeployId) : Bool :=
  id.length == systemDeployIdLen && id[32]? == some slashMarker

end F1r3fly.Casper.Merging
