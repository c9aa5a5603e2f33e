import F1r3fly.Data.HashOrder
import F1r3fly.RSpace.Merger.MergingLogic

/-! Groups of related items, and the ways to reject items so that no conflict is left. -/
namespace F1r3fly

open HashedSet

namespace RSpace.Merger

variable {A : Type} [BEq A] [EquivBEq A] [HashMapOrder]

/-- Two items are compared once, the smaller one first, and related if the relation
holds one way or the other. -/
def computeRelationMap [LT A] [DecidableLT A] (items : HashableSet A) (relation : A → A → Bool) :
    RelationMap A :=
  items.iter.zipIdx.foldl (fun map entry1 =>
    items.iter.zipIdx.foldl (fun map entry2 =>
      if entry1.2 = entry2.2 ∨ entry2.1 < entry1.1 then map
      else if relation entry1.1 entry2.1 || relation entry2.1 entry1.1 then
        map.relate entry1.1 entry2.1
      else map) map) (.unrelated items.iter)

variable (relationMap : RelationMap A)

/-- What is related to the items to add and was not found yet. -/
def newRelations (toAdd next : HashableSet A) : HashableSet A :=
  .ofList (toAdd.iter.flatMap fun v =>
    ((relationMap.get? v).map fun related => related.iter.filter fun r => !next.contains r).getD [])

/-- Each call but the last one adds an item of the relation, which bounds the fuel. -/
def addRelations (relationMap : RelationMap A) : Nat → HashableSet A → HashableSet A →
    HashableSet A
  | 0, _, acc => acc
  | fuel + 1, toAdd, acc =>
    let next := toAdd.iter.foldl HashedSet.insert acc
    if next.size = acc.size then next
    else
      let n := newRelations relationMap toAdd next
      if n.isEmpty then next else addRelations relationMap fuel n next

def relationsFuel : Nat :=
  (relationMap.entries.map fun entry => entry.2.size).sum + 1

/-- The group of a key: itself and all that is related to it through others. -/
def component (key : A) : HashableSet A :=
  addRelations relationMap (relationsFuel relationMap) ((relationMap.get? key).getD .empty)
    (empty.insert key)

def gatherRelatedSets : HashableSet (HashableSet A) :=
  (relationMap.iter.foldl (fun (state : HashableSet A × HashableSet (HashableSet A)) entry =>
    if state.1.contains entry.1 then state
    else
      let component := component relationMap entry.1
      (component.iter.foldl insert state.1, state.2.insert component))
    (.empty, .empty)).2

/-- Items rejected on the way, and the conflicts that remain. -/
structure RejectionOption (A : Type) [BEq A] where
  rejectedSoFar : HashableSet A
  remainingConflictsMap : RelationMap A

/-- Only the rejected items count. -/
instance : BEq (RejectionOption A) := ⟨fun a b => a.rejectedSoFar == b.rejectedSoFar⟩

instance : EquivBEq (RejectionOption A) where
  rfl := BEq.rfl (a := RejectionOption.rejectedSoFar _)
  symm same := BEq.symm (α := HashableSet A) same
  trans first second := BEq.trans (α := HashableSet A) first second

def remainingConflicts (conflictsMap : RelationMap A) (toReject : HashableSet A) : RelationMap A :=
  conflictsMap.filterMapValues fun key conflicts =>
    if toReject.contains key then none
    else
      let updatedConflicts := conflicts.filter fun c => !toReject.contains c
      if updatedConflicts.isEmpty then none else some updatedConflicts

/-- Keeping each key, reject what is in conflict with it. -/
def gatherRejOptions (conflictsMap : RelationMap A) : HashableSet (RejectionOption A) :=
  .ofList (conflictsMap.iter.map fun entry =>
    { rejectedSoFar := entry.2, remainingConflictsMap := remainingConflicts conflictsMap entry.2 })

/-- One option of a round: it is complete, or continued in the next round. -/
def expandOption (state : HashableSet (HashableSet A) × HashableSet (RejectionOption A))
    (option : RejectionOption A) :
    HashableSet (HashableSet A) × HashableSet (RejectionOption A) :=
  if option.remainingConflictsMap.entries.isEmpty then
    (state.1.insert option.rejectedSoFar, state.2)
  else
    (state.1, (gatherRejOptions option.remainingConflictsMap).iter.foldl (fun next newOption =>
      next.insert { newOption with
        rejectedSoFar := option.rejectedSoFar.iter.foldl insert newOption.rejectedSoFar })
      state.2)

/-- Each round leaves fewer keys with conflicts, which bounds the fuel. -/
def rejectionRounds : Nat → HashableSet (RejectionOption A) → HashableSet (HashableSet A) →
    HashableSet (HashableSet A)
  | 0, _, result => result
  | fuel + 1, current, result =>
    if current.isEmpty then result
    else
      let state := current.iter.foldl expandOption (result, .empty)
      rejectionRounds fuel state.2 state.1

def computeRejectionOptions (conflictMap : RelationMap A) : HashableSet (HashableSet A) :=
  let conflictsOnlyMap := conflictMap.filterMapValues fun _ conflicts =>
    if conflicts.isEmpty then none else some conflicts
  rejectionRounds (conflictsOnlyMap.entries.length + 2)
    (empty.insert
      { rejectedSoFar := .empty, remainingConflictsMap := conflictsOnlyMap }) .empty

end RSpace.Merger

end F1r3fly
