import F1r3fly.Data.HashOrder
import F1r3fly.RSpace.EagerStore

/-! What a hot store has changed: for every entry it holds, an action that writes
it to the history. And the dump of a store as rows. -/
namespace F1r3fly.RSpace

variable {C P A K : Type}

inductive HotStoreAction (C P A K : Type) where
  | insertData (channel : C) (data : List (Datum A))
  | insertContinuations (channels : List C) (continuations : List (WaitingContinuation P K))
  | insertJoins (channel : C) (joins : List (List C))
  | deleteData (channel : C)
  | deleteContinuations (channels : List C)
  | deleteJoins (channel : C)
deriving DecidableEq

structure Row (P A K : Type) where
  data : List (Datum A)
  wks : List (WaitingContinuation P K)

namespace InMemHotStore

variable [HashMapOrder]

def changes (self : InMemHotStore C P A K) : List (HotStoreAction C P A K) :=
  let continuations := (HashMapOrder.order self.state.continuations.entries).map fun entry =>
    if entry.2.isEmpty then .deleteContinuations entry.1
    else .insertContinuations entry.1 entry.2
  let data := (HashMapOrder.order self.state.data.entries).map fun entry =>
    if entry.2.isEmpty then .deleteData entry.1 else .insertData entry.1 entry.2
  let joins := (HashMapOrder.order self.state.joins.entries).map fun entry =>
    if entry.2.isEmpty then .deleteJoins entry.1 else .insertJoins entry.1 entry.2
  continuations ++ data ++ joins

variable [DecidableEq C] (self : InMemHotStore C P A K)

def allContinuations : AList fun _ : List C => List (WaitingContinuation P K) :=
  (HashMapOrder.order self.state.installedContinuations.entries).foldl
    (fun all entry => all.insert entry.1 ((all.lookup entry.1).getD [] ++ [entry.2]))
    self.state.continuations

def toMap : AList fun _ : List C => Row P A K :=
  (HashMapOrder.order self.state.data.entries).foldl (fun map entry =>
    let row : Row P A K := ⟨entry.2, (self.allContinuations.lookup [entry.1]).getD []⟩
    if row.data.isEmpty && row.wks.isEmpty then map else map.insert [entry.1] row) ∅

end InMemHotStore

end F1r3fly.RSpace
