import F1r3fly.Data.InvertedIndex
import F1r3fly.RSpace.Merger.EventLogIndex

/-! When two branches depend on each other and when they are in conflict: as a
predicate on two event logs, and for many branches at once through indexes of the
events of all of them. -/
namespace F1r3fly.RSpace.Merger

open InvertedIndex

/-- If target depends on source. -/
def depends (target source : EventLogIndex) : Bool :=
  let producesSource := (producesCreatedAndNotDestroyed source).difference source.producesMergeable
  let producesTarget := target.producesConsumed.difference source.producesMergeable
  let consumesSource := consumesCreatedAndNotDestroyed source
  let consumesTarget := target.consumesProduced
  let producesDepends := producesSource.intersection producesTarget
  let consumesDepends := consumesSource.intersection consumesTarget
  !producesDepends.isEmpty || !consumesDepends.isEmpty

/-- The events destroyed in both branches which are not mergeable in both; nobody
races for a persistent one. -/
def races {E : Type} [BEq E] (destroyedA destroyedB mergeableA mergeableB : HashableSet E)
    (persistent : E → Bool) : HashableSet E :=
  ((destroyedA.intersection destroyedB).difference (mergeableA.intersection mergeableB)).filter
    fun event => !persistent event

variable (a b : EventLogIndex)

def consumeRaces : HashableSet Consume :=
  races a.consumesProduced b.consumesProduced a.consumesMergeable b.consumesMergeable
    Consume.persistent

def produceRaces : HashableSet Produce :=
  races a.producesConsumed b.producesConsumed a.producesMergeable b.producesMergeable
    Produce.persistent

def matchFound (consume : Consume) (produce : Produce) : Bool :=
  consume.channelHashes.contains produce.channelHash

/-- The channels on which produces left over on one side meet consumes of the other. -/
def potentialComms (left right : EventLogIndex) : List Blake2b256Hash :=
  (producesCreatedAndNotDestroyed left).elements.flatMap fun produce =>
    ((consumesCreatedAndNotDestroyed right).elements.filter fun consume =>
      matchFound consume produce).map fun _ => produce.channelHash

/-- Channels conflicting between a pair of event logs. -/
def conflicts : HashableSet Blake2b256Hash :=
  let racesForSameIoEvent :=
    (consumeRaces a b).elements.flatMap (·.channelHashes) ++
      (produceRaces a b).elements.map (·.channelHash)
  let potentialComms := potentialComms a b ++ potentialComms b a
  let produceTouchBaseJoin :=
    (a.producesTouchingBaseJoins.elements ++ b.producesTouchingBaseJoins.elements).map
      (·.channelHash)
  .ofList (racesForSameIoEvent ++ potentialComms ++ produceTouchBaseJoin)

def areConflicting : Bool := !(conflicts a b).isEmpty

section Relations

variable {R : Type} [BEq R] [EquivBEq R]

abbrev RelationMap (R : Type) [BEq R] := HashedMap R (HashableSet R)

def RelationMap.relate (result : RelationMap R) (a b : R) : RelationMap R :=
  (result.update a fun related => related.insert b).update b fun related => related.insert a

def RelationMap.unrelated (branches : List R) : RelationMap R :=
  .ofList (branches.map fun branch => (branch, .empty))

/-- A position outside of the list of branches is a panic. -/
def RelationMap.relateAll (branches : List R) (result : RelationMap R) (pairs : List (Nat × Nat)) :
    Option (RelationMap R) :=
  pairs.foldlM (fun result pair => do
    let itemA ← branches[pair.1]?
    let itemB ← branches[pair.2]?
    return result.relate itemA itemB) result

def Relates (map : RelationMap R) (a b : R) : Prop :=
  ∃ related, map.get? a = some related ∧ b ∈ related

end Relations

/-- The channels of the produces that survived: linear ones that were not consumed,
and persistent ones, without those copied by a peek. -/
def unconsumedProduceChannels (e : EventLogIndex) : List Blake2b256Hash :=
  (e.producesLinear.elements.filter fun p =>
      !e.producesConsumed.contains p && !e.producesCopiedByPeek.contains p).map (·.channelHash) ++
    (e.producesPersistent.elements.filter fun p =>
      !e.producesCopiedByPeek.contains p).map (·.channelHash)

def unconsumedConsumeChannels (e : EventLogIndex) : List Blake2b256Hash :=
  (e.consumesLinearAndPeeks.elements.filter fun c =>
      !e.consumesProduced.contains c).flatMap (·.channelHashes) ++
    e.consumesPersistent.elements.flatMap (·.channelHashes)

/-- The pairs of branches that race for an event, from the branches that destroyed it
and those in which it is mergeable. -/
def racePairs {E : Type} [BEq E] (destroyed mergeable : Index E) (persistent : E → Bool) :
    List (Nat × Nat) :=
  sharedPairs destroyed persistent fun event a b =>
    ((mergeable.get? event).map fun branches => branches.contains a && branches.contains b).getD
      false

variable (eventLogs : List EventLogIndex)

/-- Each branch whose produces touch a join of the base state, with every other one. -/
def globalPairs : List (Nat × Nat) :=
  (eventLogs.zipIdx.filter fun entry => !entry.1.producesTouchingBaseJoins.isEmpty).flatMap
    fun entry =>
      ((List.range eventLogs.length).filter fun other => entry.2 ≠ other).map (ordered entry.2)

/-- The pairs of positions in conflict. The indexes are filled in one pass over the
event logs; none of them depends on another. -/
def conflictPairs : List (Nat × Nat) :=
  racePairs (build (·.producesConsumed.elements) eventLogs)
      (build (·.producesMergeable.elements) eventLogs) Produce.persistent ++
    racePairs (build (·.consumesProduced.elements) eventLogs)
      (build (·.consumesMergeable.elements) eventLogs) Consume.persistent ++
    crossPairs (build unconsumedProduceChannels eventLogs)
      (build unconsumedConsumeChannels eventLogs) ++
    globalPairs eventLogs

def dependableProduces (e : EventLogIndex) : List Produce :=
  (e.producesLinear.elements.filter fun p =>
      !e.producesConsumed.contains p && !e.producesCopiedByPeek.contains p &&
        !e.producesMergeable.contains p) ++
    e.producesPersistent.elements.filter fun p =>
      !e.producesCopiedByPeek.contains p && !e.producesMergeable.contains p

def dependableConsumes (e : EventLogIndex) : List Consume :=
  (e.consumesLinearAndPeeks.elements.filter fun c => !e.consumesProduced.contains c) ++
    e.consumesPersistent.elements

def dependsPairs : List (Nat × Nat) :=
  crossPairs (build dependableProduces eventLogs)
      (build (·.producesConsumed.elements) eventLogs) ++
    crossPairs (build dependableConsumes eventLogs) (build (·.consumesProduced.elements) eventLogs)

section Indexed

variable {R : Type} [BEq R] [EquivBEq R]

/-- The branches with their event logs, in parallel lists; other lists are a panic. -/
def relationMapEventIndexed (pairs : List EventLogIndex → List (Nat × Nat)) (branches : List R)
    (eventLogs : List EventLogIndex) : Option (RelationMap R) :=
  if branches.length ≠ eventLogs.length then none
  else if branches.length < 2 then some (.unrelated branches)
  else RelationMap.relateAll branches (.unrelated branches) (pairs eventLogs)

def computeConflictMapEventIndexed (branches : List R) (eventLogs : List EventLogIndex) :
    Option (RelationMap R) :=
  relationMapEventIndexed conflictPairs branches eventLogs

def computeDependsMapEventIndexed (branches : List R) (eventLogs : List EventLogIndex) :
    Option (RelationMap R) :=
  relationMapEventIndexed dependsPairs branches eventLogs

end Indexed

end F1r3fly.RSpace.Merger
