import F1r3fly.Data.HashedSet
import F1r3fly.Data.SortedMap
import F1r3fly.RSpace.HotStore
import F1r3fly.RSpace.Merger.StateChange

/-! The events of a deploy, sorted by what became of them. -/
namespace F1r3fly.RSpace

open HashedSet

namespace Merger

abbrev HashableSet (α : Type) [BEq α] := HashedSet α

inductive MergeType where
  | integerAdd
  | bitmaskOr
deriving DecidableEq

instance : Debug MergeType where
  debug
    | .integerAdd => "IntegerAdd"
    | .bitmaskOr => "BitmaskOr"

abbrev NumberChannelsDiff := SortedMap Blake2b256Hash (Int64 × MergeType)

/-- The addition wraps around. -/
def combineMergeableValue (a b : Int64) : MergeType → Int64
  | .integerAdd => a + b
  | .bitmaskOr => a ||| b

/-- Adds the entries one after the other; the strategies of a channel must agree. -/
def combineNumberChannels [Debug Blake2b256Hash] (channels : NumberChannelsDiff)
    (entries : List (Blake2b256Hash × Int64 × MergeType)) :
    Except MergerError NumberChannelsDiff :=
  entries.foldlM (fun channels (key, incomingDiff, incomingMt) =>
    match channels.get? key with
    | some (existing, existingMt) =>
      if existingMt ≠ incomingMt then
        throw (.mergeError ("MergeType mismatch on channel " ++ Debug.debug key ++ ": " ++
          Debug.debug existingMt ++ " vs " ++ Debug.debug incomingMt))
      else
        return channels.insert key (combineMergeableValue existing incomingDiff incomingMt,
          existingMt)
    | none => return channels.insert key (incomingDiff, incomingMt)) channels

structure EventLogIndex where
  producesLinear : HashableSet Produce
  producesPersistent : HashableSet Produce
  producesConsumed : HashableSet Produce
  producesPeeked : HashableSet Produce
  producesCopiedByPeek : HashableSet Produce
  producesTouchingBaseJoins : HashableSet Produce
  consumesLinearAndPeeks : HashableSet Consume
  consumesPersistent : HashableSet Consume
  consumesProduced : HashableSet Consume
  producesMergeable : HashableSet Produce
  consumesMergeable : HashableSet Consume
  numberChannelsData : NumberChannelsDiff

namespace EventLogIndex

def empty : EventLogIndex where
  producesLinear := .empty
  producesPersistent := .empty
  producesConsumed := .empty
  producesPeeked := .empty
  producesCopiedByPeek := .empty
  producesTouchingBaseJoins := .empty
  consumesLinearAndPeeks := .empty
  consumesPersistent := .empty
  consumesProduced := .empty
  producesMergeable := .empty
  consumesMergeable := .empty
  numberChannelsData := .empty

end EventLogIndex

def producesCreated (e : EventLogIndex) : HashableSet Produce :=
  (e.producesLinear.union e.producesPersistent).difference e.producesCopiedByPeek

def producesCreatedAndNotDestroyed (e : EventLogIndex) : HashableSet Produce :=
  ((e.producesLinear.difference e.producesConsumed).union e.producesPersistent).difference
    e.producesCopiedByPeek

def consumesCreatedAndNotDestroyed (e : EventLogIndex) : HashableSet Consume :=
  (e.consumesLinearAndPeeks.difference e.consumesProduced).union e.consumesPersistent

/-- A produce that one index copies by a peek and the other one creates counts as created. -/
def combineProducesCopiedByPeek (x y : EventLogIndex) : HashableSet Produce :=
  (x.producesCopiedByPeek.union y.producesCopiedByPeek).difference
    ((producesCreated x).union (producesCreated y))

def EventLogIndex.combine [Debug Blake2b256Hash] (x y : EventLogIndex) :
    Except MergerError EventLogIndex := do
  let numberChannelsData ← combineNumberChannels .empty
    (x.numberChannelsData.entries ++ y.numberChannelsData.entries)
  return {
    producesLinear := x.producesLinear.union y.producesLinear
    producesPersistent := x.producesPersistent.union y.producesPersistent
    producesConsumed := x.producesConsumed.union y.producesConsumed
    producesPeeked := x.producesPeeked.union y.producesPeeked
    producesCopiedByPeek := combineProducesCopiedByPeek x y
    producesTouchingBaseJoins := x.producesTouchingBaseJoins.union y.producesTouchingBaseJoins
    consumesLinearAndPeeks := x.consumesLinearAndPeeks.union y.consumesLinearAndPeeks
    consumesPersistent := x.consumesPersistent.union y.consumesPersistent
    consumesProduced := x.consumesProduced.union y.consumesProduced
    producesMergeable := x.producesMergeable.union y.producesMergeable
    consumesMergeable := x.consumesMergeable.union y.consumesMergeable
    numberChannelsData }

variable {e : EventLogIndex}

theorem mem_producesCreatedAndNotDestroyed :
    p ∈ producesCreatedAndNotDestroyed e ↔
      (p ∈ e.producesLinear ∧ p ∉ e.producesConsumed ∨ p ∈ e.producesPersistent) ∧
        p ∉ e.producesCopiedByPeek := by
  rw [producesCreatedAndNotDestroyed, mem_difference, mem_union, mem_difference]

theorem mem_consumesCreatedAndNotDestroyed :
    c ∈ consumesCreatedAndNotDestroyed e ↔
      c ∈ e.consumesLinearAndPeeks ∧ c ∉ e.consumesProduced ∨ c ∈ e.consumesPersistent := by
  rw [consumesCreatedAndNotDestroyed, mem_union, mem_difference]

end Merger

end F1r3fly.RSpace
