import F1r3fly.RSpace.History.RadixTree
import Mathlib.Data.List.Count

/-! What a deploy changes in a tuple space, and how the changes of several deploys
are combined: for each channel, the encoded elements that appeared and those that
went away. -/
namespace F1r3fly.RSpace.Merger

/-- The errors of the merger: those of the histories it reads and its own. -/
inductive MergerError where
  | history (error : History.HistoryError)
  | mergeError (message : String)
deriving DecidableEq

structure ChannelChange (A : Type) where
  added : List A
  removed : List A
deriving DecidableEq

namespace ChannelChange

variable {A : Type}

def empty : ChannelChange A where
  added := []
  removed := []

variable [BEq A]

/-- Removes one occurrence, the first one, for each element to remove. -/
def vecDiff (items toRemove : List A) : List A := toRemove.foldl List.erase items

/-- A union of multisets, so that a change made twice by sibling blocks counts once. -/
def combine (self other : ChannelChange A) : ChannelChange A where
  added := self.added ++ vecDiff other.added self.added
  removed := self.removed ++ vecDiff other.removed self.removed

variable [LawfulBEq A]

theorem count_vecDiff (items toRemove : List A) (item : A) :
    (vecDiff items toRemove).count item = items.count item - toRemove.count item := by
  rw [vecDiff, ← List.diff_eq_foldl, List.count_diff]

theorem count_union (items others : List A) (item : A) :
    (items ++ vecDiff others items).count item = max (items.count item) (others.count item) := by
  rw [List.count_append, count_vecDiff]
  omega

end ChannelChange

/-- Data by channel, continuations by the channels of the consume; the last map has
the encoded join of the channels of a consume, of which an event only has hashes. -/
structure StateChange where
  datumsChanges : AList fun _ : Blake2b256Hash => ChannelChange ByteVector
  contChanges : AList fun _ : List Blake2b256Hash => ChannelChange ByteVector
  consumeChannelsToJoinSerializedMap : AList fun _ : List Blake2b256Hash => ByteVector

namespace StateChange

/-- The elements are passed once, with the number of times each is still to be removed. -/
def removeCounted : List ByteVector → (ByteVector → Nat) → List ByteVector
  | [], _ => []
  | item :: rest, removeCounts =>
    if removeCounts item > 0 then
      removeCounted rest (Function.update removeCounts item (removeCounts item - 1))
    else
      item :: removeCounted rest removeCounts

def multisetDiff (items toRemove : List ByteVector) : List ByteVector :=
  removeCounted items fun item => toRemove.count item

def valueChange (start final : List ByteVector) : ChannelChange ByteVector where
  added := multisetDiff final start
  removed := multisetDiff start final

def computeValueChange (historyPointer : Blake2b256Hash)
    (startValue endValue : Blake2b256Hash → Except MergerError (List ByteVector)) :
    Except MergerError (ChannelChange ByteVector) := do
  let start ← startValue historyPointer
  let final ← endValue historyPointer
  return valueChange start final

def empty : StateChange where
  datumsChanges := ∅
  contChanges := ∅
  consumeChannelsToJoinSerializedMap := ∅

section Entries

variable {Key : Type} [DecidableEq Key]

/-- A change of a key that both have is combined, any other one is kept. -/
def combineEntries (changes others : AList fun _ : Key => ChannelChange ByteVector) :
    AList fun _ : Key => ChannelChange ByteVector :=
  others.entries.foldl (fun current entry =>
    current.insert entry.1
      (((current.lookup entry.1).map fun change => change.combine entry.2).getD entry.2)) changes

end Entries

/-- Of two joins for the same channels, the newer one is kept. -/
def combine (self other : StateChange) : StateChange where
  datumsChanges := combineEntries self.datumsChanges other.datumsChanges
  contChanges := combineEntries self.contChanges other.contChanges
  consumeChannelsToJoinSerializedMap :=
    other.consumeChannelsToJoinSerializedMap.entries.foldl
      (fun current entry => current.insert entry.1 entry.2)
      self.consumeChannelsToJoinSerializedMap

theorem count_removeCounted (items : List ByteVector) (removeCounts : ByteVector → Nat)
    (item : ByteVector) :
    (removeCounted items removeCounts).count item = items.count item - removeCounts item := by
  induction items generalizing removeCounts with
  | nil => simp [removeCounted]
  | cons first rest ih =>
    unfold removeCounted
    split_ifs with pending
    · rw [ih, List.count_cons, Function.update_apply]
      by_cases same : item = first
      · subst same
        simp only [if_true, beq_self_eq_true]
        omega
      · have other : ¬(first == item) := by simpa using fun eq => same eq.symm
        simp [same, other]
    · rw [List.count_cons, List.count_cons, ih]
      by_cases same : first = item
      · subst same
        omega
      · simp [same]

theorem count_multisetDiff (items toRemove : List ByteVector) (item : ByteVector) :
    (multisetDiff items toRemove).count item = items.count item - toRemove.count item :=
  count_removeCounted items _ item

end StateChange

end F1r3fly.RSpace.Merger
