import F1r3fly.Data.HashOrder
import F1r3fly.Data.SortBy
import F1r3fly.RSpace.History.HistoryRepository
import F1r3fly.RSpace.Merger.EventLogIndex
import F1r3fly.RSpace.Merger.StateChangeMerger

/-! The actions on the trie of a base state that apply a combined change. -/
namespace F1r3fly.RSpace.Merger

open Results HashMapOrder

variable {C P A K : Type}

/-- What merging reads of the base state, by the hash of a channel or of a join. -/
structure HistoryReader (A : Type) where
  getData : Blake2b256Hash → Except MergerError (List (Datum A))
  getDataProjBinary : Blake2b256Hash → Except MergerError (List ByteVector)
  getContinuationsProjBinary : Blake2b256Hash → Except MergerError (List ByteVector)
  getJoinsProjBinary : Blake2b256Hash → Except MergerError (List ByteVector)

/-- A join is there as long as there are continuations for its channels. -/
inductive JoinActionKind where
  | addJoin (channels : List Blake2b256Hash)
  | removeJoin (channels : List Blake2b256Hash)

namespace JoinActionKind

def channels : JoinActionKind → List Blake2b256Hash
  | addJoin channels => channels
  | removeJoin channels => channels

def record (joinData : ByteVector) (change : ChannelChange ByteVector) :
    JoinActionKind → ChannelChange ByteVector
  | addJoin _ => { change with added := change.added ++ [joinData] }
  | removeJoin _ => { change with removed := change.removed ++ [joinData] }

end JoinActionKind

structure ConsumeAndJoinActions (C P A K : Type) where
  consumeAction : HotStoreTrieAction C P A K
  joinAction : Option JoinActionKind

def sortByKey {α : Type} (key : α → ByteVector) (items : List α) : List α :=
  sortBy (fun a b => compareByteVectors (key a) (key b)) items

def computeConsumeAction [Blake2b] (baseReader : HistoryReader A)
    (consumeChannels : List Blake2b256Hash) (channelChange : ChannelChange ByteVector) :
    Except MergerError (ConsumeAndJoinActions C P A K) := do
  let historyPointer := hashFromHashes consumeChannels
  let init ← baseReader.getContinuationsProjBinary historyPointer
  let newVal := applyChange init channelChange
  if init = newVal then
    throw (.mergeError "Merging logic error: empty consume change when computing trie action.")
  else if init.isEmpty then
    return ⟨.trieInsertBinaryConsume historyPointer newVal, some (.addJoin consumeChannels)⟩
  else if newVal.isEmpty then
    return ⟨.trieDeleteConsume historyPointer, some (.removeJoin consumeChannels)⟩
  else
    return ⟨.trieInsertBinaryConsume historyPointer newVal, none⟩

/-- A channel that the handler does not take is changed like any other one. -/
def computeProduceAction (baseReader : HistoryReader A) (mergeableChs : NumberChannelsDiff)
    (handleChannelChange : Blake2b256Hash → ChannelChange ByteVector → NumberChannelsDiff →
      Fallible MergerError (Option (HotStoreTrieAction C P A K)))
    (historyPointer : Blake2b256Hash) (changes : ChannelChange ByteVector) :
    Fallible MergerError (HotStoreTrieAction C P A K) := do
  let taken ← handleChannelChange historyPointer changes mergeableChs
  taken.elim
    (liftM (makeTrieAction historyPointer baseReader.getDataProjBinary changes
      HotStoreTrieAction.trieDeleteProduce HotStoreTrieAction.trieInsertBinaryProduce))
    pure

/-- The join of the channels, recorded for each of them. -/
def addJoinChanges
    (joinsChannelsToBodyMap : AList fun _ : List Blake2b256Hash => ByteVector)
    (joinsChanges : HashedMap Blake2b256Hash (ChannelChange ByteVector))
    (joinAction : JoinActionKind) :
    Except MergerError (HashedMap Blake2b256Hash (ChannelChange ByteVector)) :=
  match joinsChannelsToBodyMap.lookup joinAction.channels with
  | some joinData => .ok (joinAction.channels.foldl (fun changes channel =>
      changes.upsert channel .empty fun change => joinAction.record joinData change) joinsChanges)
  | none => .error (.mergeError
      "No ByteVector value for join found when merging when computing trie action.")

def computeJoinsActions [HashMapOrder] (baseReader : HistoryReader A)
    (joinsChannelsToBodyMap : AList fun _ : List Blake2b256Hash => ByteVector)
    (joinActions : List JoinActionKind) :
    Except MergerError (List (HotStoreTrieAction C P A K)) := do
  let joinsChanges ← joinActions.foldlM (addJoinChanges joinsChannelsToBodyMap) HashedMap.empty
  (sortByKey (·.1) joinsChanges.iter).mapM fun entry =>
    makeTrieAction entry.1 baseReader.getJoinsProjBinary entry.2
      .trieDeleteJoins .trieInsertBinaryJoins

/-- Data first, then continuations, then joins, each in the order of the hashes. -/
def computeTrieActions [Blake2b] [HashMapOrder] (changes : StateChange)
    (baseReader : HistoryReader A) (mergeableChs : NumberChannelsDiff)
    (handleChannelChange : Blake2b256Hash → ChannelChange ByteVector → NumberChannelsDiff →
      Fallible MergerError (Option (HotStoreTrieAction C P A K))) :
    Fallible MergerError (List (HotStoreTrieAction C P A K)) := do
  let contChangesSorted := sortByKey (fun entry => hashFromHashes entry.1)
    (order changes.contChanges.entries)
  let consumeWithJoinActions ← liftM (contChangesSorted.mapM fun entry =>
    computeConsumeAction (C := C) (P := P) (K := K) baseReader entry.1 entry.2)
  let datumsChangesSorted := sortByKey (·.1) (order changes.datumsChanges.entries)
  let produceTrieActions ← datumsChangesSorted.mapM fun entry =>
    computeProduceAction baseReader mergeableChs handleChannelChange entry.1 entry.2
  let consumeTrieActions := consumeWithJoinActions.map (·.consumeAction)
  let joinsTrieActions ← liftM (computeJoinsActions (C := C) (P := P) (K := K) baseReader
    changes.consumeChannelsToJoinSerializedMap (consumeWithJoinActions.filterMap (·.joinAction)))
  return produceTrieActions ++ consumeTrieActions ++ joinsTrieActions

end F1r3fly.RSpace.Merger
