import F1r3fly.RSpace.ByteSpace
import F1r3fly.RSpace.Changes
import F1r3fly.RSpace.History.RadixHistory
import F1r3fly.RSpace.Serializers

/-! The history repository: the actions of a hot store become leaves in a cold
store and insertions and deletions in the trie, under the hash of the channel and
a byte that says what is stored. -/
namespace F1r3fly.RSpace

variable {C P A K : Type}

/-- The binary actions carry elements that are encoded already. -/
inductive HotStoreTrieAction (C P A K : Type) where
  | trieInsertProduce (hash : Blake2b256Hash) (data : List (Datum A))
  | trieInsertConsume (hash : Blake2b256Hash) (continuations : List (WaitingContinuation P K))
  | trieInsertJoins (hash : Blake2b256Hash) (joins : List (List C))
  | trieInsertBinaryProduce (hash : Blake2b256Hash) (data : List ByteVector)
  | trieInsertBinaryConsume (hash : Blake2b256Hash) (continuations : List ByteVector)
  | trieInsertBinaryJoins (hash : Blake2b256Hash) (joins : List ByteVector)
  | trieDeleteProduce (hash : Blake2b256Hash)
  | trieDeleteConsume (hash : Blake2b256Hash)
  | trieDeleteJoins (hash : Blake2b256Hash)

namespace History

inductive PersistedData where
  | joins (bytes : ByteVector)
  | data (bytes : ByteVector)
  | continuations (bytes : ByteVector)
deriving DecidableEq

/-- The index of the variant, and its leaf. -/
def PersistedData.encode : PersistedData → ByteVector
  | .joins bytes => Bincode.u32 0 ++ Bincode.bytes bytes
  | .data bytes => Bincode.u32 1 ++ Bincode.bytes bytes
  | .continuations bytes => Bincode.u32 2 ++ Bincode.bytes bytes

abbrev ColdAction := Blake2b256Hash × Option PersistedData

def prefixDatum : UInt8 := 0x00
def prefixKont : UInt8 := 0x01
def prefixJoins : UInt8 := 0x02

def prependBytes (element : UInt8) (bytes : ByteVector) : ByteVector := element :: bytes

section Actions

variable [Blake2b]

/-- A leaf is stored under the hash of its encoding, which does not say its kind. -/
def insertLeaf (kind : ByteVector → PersistedData) (element : UInt8) (hash : Blake2b256Hash)
    (bytes : ByteVector) : ColdAction × HistoryAction :=
  let leafHash := Blake2b.hash (Bincode.bytes bytes)
  ((leafHash, some (kind bytes)), .insert (prependBytes element hash) leafHash)

def deleteLeaf (element : UInt8) (hash : Blake2b256Hash) : ColdAction × HistoryAction :=
  ((hash, none), .delete (prependBytes element hash))

variable [Serialize C] [Serialize P] [Serialize A] [Serialize K]

def calculateStorageActions : HotStoreTrieAction C P A K → ColdAction × HistoryAction
  | .trieInsertProduce hash data => insertLeaf .data prefixDatum hash (encodeDatums data)
  | .trieInsertConsume hash continuations =>
    insertLeaf .continuations prefixKont hash (encodeContinuations continuations)
  | .trieInsertJoins hash joins => insertLeaf .joins prefixJoins hash (encodeJoins joins)
  | .trieInsertBinaryProduce hash data =>
    insertLeaf .data prefixDatum hash (Bincode.byteVectors (sortBytes data))
  | .trieInsertBinaryConsume hash continuations =>
    insertLeaf .continuations prefixKont hash (Bincode.byteVectors (sortBytes continuations))
  | .trieInsertBinaryJoins hash joins =>
    insertLeaf .joins prefixJoins hash (Bincode.byteVectors (sortBytes joins))
  | .trieDeleteProduce hash => deleteLeaf prefixDatum hash
  | .trieDeleteConsume hash => deleteLeaf prefixKont hash
  | .trieDeleteJoins hash => deleteLeaf prefixJoins hash

def transform : HotStoreAction C P A K → HotStoreTrieAction C P A K
  | .insertData channel data => .trieInsertProduce (hash channel) data
  | .insertContinuations channels continuations =>
    .trieInsertConsume (hashFromVec channels) continuations
  | .insertJoins channel joins => .trieInsertJoins (hash channel) joins
  | .deleteData channel => .trieDeleteProduce (hash channel)
  | .deleteContinuations channels => .trieDeleteConsume (hashFromVec channels)
  | .deleteJoins channel => .trieDeleteJoins (hash channel)

def historyActions (actions : List (HotStoreAction C P A K)) : List HistoryAction :=
  actions.map fun action => (calculateStorageActions (transform action)).2

end Actions

/-- The three stores of a repository. -/
structure Stores where
  world : World
  leafStore : KeyValueStore
  rootsStore : KeyValueStore

structure HistoryRepository where
  currentHistory : RadixHistory

/-- What is absent is decided before anything is put. -/
def KeyValueStore.putIfAbsent (store : KeyValueStore) (pairs : List (ByteVector × ByteVector)) :
    KeyValueStore :=
  KeyValueStore.put store (pairs.filter fun kv => (store.lookup kv.1).isNone)

instance : Debug RadixTreeError where
  debug
    | .keyNotFound message => "KeyNotFound(\"" ++ message ++ "\")"
    | .prefixError message => "PrefixError(\"" ++ message ++ "\")"
    | .collisionError message => "CollisionError(\"" ++ message ++ "\")"

instance : Debug HistoryError where
  debug
    | .actionError message => "ActionError(\"" ++ message ++ "\")"
    | .radixTreeError error => "RadixTreeError(" ++ Debug.debug error ++ ")"

abbrev RepositoryM := EStateM Failure Stores

/-- A method of the history; an error value that it returns is a panic of the caller. -/
def unwrap (method : HistoryM α) : RepositoryM α := fun stores =>
  match method stores.world with
  | .ok a world => .ok a { stores with world := world }
  | .error (.error error) world =>
    .error (.panic ("called `Result::unwrap()` on an `Err` value: " ++ Debug.debug error))
      { stores with world := world }
  | .error failure world => .error failure { stores with world := world }

/-- The root becomes known, and the current one. -/
def commitRoot (root : Blake2b256Hash) : RepositoryM Unit :=
  modify fun stores => { stores with
    rootsStore := KeyValueStore.put stores.rootsStore
      [(root, "tag".toUTF8.toList), ("current-root".toUTF8.toList, root)] }

namespace HistoryRepository

variable [Blake2b] [DashMapOrder] [Serialize C] [Serialize P] [Serialize A] [Serialize K]

/-- Returns the new repository and what has become of the old one. -/
def doCheckpoint (self : HistoryRepository) (trieActions : List (HotStoreTrieAction C P A K)) :
    RepositoryM (HistoryRepository × HistoryRepository) := do
  if trieActions.isEmpty then pure (self, self)
  else
    let storageActions := trieActions.map calculateStorageActions
    let coldActions := storageActions.filterMap fun entry =>
      entry.1.2.map fun data => (Bincode.bytes entry.1.1, data.encode)
    modify fun stores => { stores with
      leafStore := KeyValueStore.putIfAbsent stores.leafStore coldActions }
    let (newHistory, oldHistory) ← unwrap (self.currentHistory.process (storageActions.map (·.2)))
    commitRoot newHistory.rootHash
    pure (⟨newHistory⟩, ⟨oldHistory⟩)

def checkpoint (self : HistoryRepository) (actions : List (HotStoreAction C P A K)) :
    RepositoryM (HistoryRepository × HistoryRepository) :=
  if actions.isEmpty then pure (self, self) else self.doCheckpoint (actions.map transform)

end HistoryRepository

section Leaves

theorem encodeSorted_of_perm (perm : others.Perm encoded) :
    encodeSorted encoded = Bincode.byteVectors (sortBytes others) := by
  rw [encodeSorted, sortBytes_eq, sortBytes_perm perm]

variable [Blake2b] [Serialize C] [Serialize P] [Serialize A] [Serialize K]

/-- A node that executes and a node that merges write the same leaf: the storage
actions of a typed insertion are those of a binary one that carries the encodings
of the same elements, in whatever order either presents them. -/
theorem typed_insert_eq_binary_insert :
    (∀ (channel : C) (data : List (Datum A)) (binary : List ByteVector),
      binary.Perm (data.map encodeDatum) →
      calculateStorageActions (transform (.insertData channel data : HotStoreAction C P A K)) =
        calculateStorageActions
          (.trieInsertBinaryProduce (hash channel) binary : HotStoreTrieAction C P A K)) ∧
    (∀ (channels : List C) (continuations : List (WaitingContinuation P K))
        (binary : List ByteVector),
      binary.Perm (continuations.map encodeContinuation) →
      calculateStorageActions
          (transform (.insertContinuations channels continuations : HotStoreAction C P A K)) =
        calculateStorageActions
          (.trieInsertBinaryConsume (hashFromVec channels) binary : HotStoreTrieAction C P A K)) ∧
    ∀ (channel : C) (joins : List (List C)) (binary : List ByteVector),
      binary.Perm (joins.map encodeJoin) →
      calculateStorageActions (transform (.insertJoins channel joins : HotStoreAction C P A K)) =
        calculateStorageActions
          (.trieInsertBinaryJoins (hash channel) binary : HotStoreTrieAction C P A K) := by
  refine ⟨fun channel data binary perm => ?_, fun channels continuations binary perm => ?_,
    fun channel joins binary perm => ?_⟩
  all_goals exact congrArg (insertLeaf _ _ _) (encodeSorted_of_perm perm)

end Leaves

open ByteSpace in
theorem typed_insert_eq_binary_insert_sample :
    let data : List (Datum UInt8) := [⟨5, false, .create (1 : UInt8) (5 : UInt8) false⟩,
      ⟨6, true, .create (1 : UInt8) (6 : UInt8) true⟩]
    calculateStorageActions (transform (.insertData 1 data :
      HotStoreAction UInt8 UInt8 UInt8 UInt8))
      = calculateStorageActions (.trieInsertBinaryProduce (hash (1 : UInt8))
        (data.map encodeDatum).reverse : HotStoreTrieAction UInt8 UInt8 UInt8 UInt8) := by
  intro data
  exact typed_insert_eq_binary_insert.1 1 data _ (List.reverse_perm _)

end History

end F1r3fly.RSpace
