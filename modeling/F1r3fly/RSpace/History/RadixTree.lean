import Mathlib.Data.List.AList
import F1r3fly.RSpace.History.HistoryAction

/-! The radix tree of the history: 256-way nodes whose items are leaves or
pointers to other nodes by the hash of their encoding. Methods run over the two
caches of one tree object and the store it shares with others. Panics keep the
state they happened in. -/
namespace F1r3fly.RSpace.History

inductive Item where
  | emptyItem
  | leaf (leafPrefix value : ByteVector)
  | nodePtr (ptrPrefix ptr : ByteVector)
deriving DecidableEq

abbrev numItems : Nat := 256

abbrev Node := Vector Item numItems

inductive RadixTreeError where
  | keyNotFound (message : String)
  | prefixError (message : String)
  | collisionError (message : String)
deriving DecidableEq

inductive HistoryError where
  | actionError (message : String)
  | radixTreeError (error : RadixTreeError)
deriving DecidableEq

/-- How a call can end without a result: an error value, a failed assertion, an
index or slice out of bounds. The model's recursions take fuel; running out of
it has a constructor of its own and is never reached. -/
inductive Failure where
  | error (error : HistoryError)
  | panic (message : String)
  | outOfBounds
  | outOfFuel
deriving DecidableEq

namespace Node

def item (node : Node) (index : UInt8) : Item :=
  have _bound : index.toNat < numItems := index.toNat_lt
  node[index.toNat]

def setItem (node : Node) (index : UInt8) (item : Item) : Node :=
  node.set index.toNat item index.toNat_lt

def ofItems (items : UInt8 → Item) : Node := Vector.ofFn fun i => items (UInt8.ofNat i.val)

@[simp] theorem item_ofItems (items : UInt8 → Item) (index : UInt8) :
    (ofItems items).item index = items index := by
  simp [ofItems, item]

-- Unfolding a 256-way table at a symbolic index is never wanted.
attribute [irreducible] ofItems

theorem item_setItem (node : Node) (index other : UInt8) (item : Item) :
    (node.setItem index item).item other = if other = index then item else node.item other := by
  simp only [setItem, Node.item, Vector.getElem_set, ← UInt8.toNat_inj]
  simp only [eq_comm]

theorem ext {left right : Node} (same : ∀ index, left.item index = right.item index) :
    left = right := by
  apply Vector.ext
  intro i bound
  have here := same (UInt8.ofNat i)
  have index : (UInt8.ofNat i).toNat = i := by
    exact mod_eq_of_lt bound
  simpa only [item, index] using here

end Node

instance : DecidableEq Node := fun left right =>
  decidable_of_iff (left.toList = right.toList) Vector.toList_inj

def emptyNode : Node := Vector.replicate numItems .emptyItem

@[simp] theorem item_emptyNode (index : UInt8) : emptyNode.item index = .emptyItem := by
  simp [emptyNode, Node.item]

def defSize : Nat := 32

def readCacheMaxItems : Nat := 4096

def readCacheTrimTarget : Nat := 2048

def ensure (condition : Bool) (message : String) : Except Failure Unit :=
  if condition then .ok () else .error (.panic message)

/-- The assertions made while the size of the encoding is computed. -/
def checkItem : Item → Except Failure Unit
  | .emptyItem => .ok ()
  | .leaf leafPrefix value => do
    ensure (leafPrefix.length ≤ 127) "Error during serialization: size of prefix more than 127."
    ensure (value.length = defSize) "Error during serialization: size of leafValue not equal 32."
  | .nodePtr ptrPrefix ptr => do
    ensure (ptrPrefix.length ≤ 127) "Error during serialization: size of prefix more than 127."
    ensure (ptr.length = defSize) "Error during serialization: size of ptrPrefix not equal 32."

def encodeLeafSecondByte (prefixSize : Nat) : UInt8 := UInt8.ofNat (prefixSize &&& 0x7F)

def encodeNodePtrSecondByte (prefixSize : Nat) : UInt8 :=
  UInt8.ofNat (0x80 ||| (prefixSize &&& 0x7F))

def putItemIntoArray (index : UInt8) : Item → ByteVector
  | .emptyItem => []
  | .leaf leafPrefix value =>
    index :: encodeLeafSecondByte leafPrefix.length :: (leafPrefix ++ value)
  | .nodePtr ptrPrefix ptr =>
    index :: encodeNodePtrSecondByte ptrPrefix.length :: (ptrPrefix ++ ptr)

def indices : List UInt8 := (List.range numItems).map UInt8.ofNat

/-- What `encode` fills its buffer with. -/
def encodeBytes (node : Node) : ByteVector :=
  (node.toList.zip indices).flatMap fun entry => putItemIntoArray entry.2 entry.1

def encode (node : Node) : Except Failure ByteVector := do
  node.toList.forM checkItem
  .ok (encodeBytes node)

def isLeaf (secondByte : UInt8) : Bool := secondByte &&& 0x80 = 0x00

def decodeLoop : Nat → ByteVector → Node → Except Failure Node
  | _, [], node => .ok node
  | 0, _ :: _, _ => .error .outOfFuel
  | fuel + 1, idxItem :: rest, node =>
    if node.item idxItem ≠ .emptyItem then
      .error (.panic "Error during deserialization: wrong index of item.")
    else
      match rest with
      | [] => .error .outOfBounds
      | secondByte :: body =>
        let prefixSize := (secondByte &&& 0x7F).toNat
        if body.length < prefixSize + defSize then .error .outOfBounds
        else
          let segment := body.take prefixSize
          let valOrPtr := (body.drop prefixSize).take defSize
          let item := if isLeaf secondByte then .leaf segment valOrPtr
            else .nodePtr segment valOrPtr
          decodeLoop fuel (body.drop (prefixSize + defSize)) (node.setItem idxItem item)

def decode (bytes : ByteVector) : Except Failure Node := decodeLoop bytes.length bytes emptyNode

def commonPrefix (b1 b2 : ByteVector) : ByteVector × ByteVector × ByteVector := go [] b1 b2
where
  go (common : ByteVector) : ByteVector → ByteVector → ByteVector × ByteVector × ByteVector
    | l :: ls, r :: rs => if l = r then go (common ++ [l]) ls rs else (common, l :: ls, r :: rs)
    | ls, rs => (common, ls, rs)

/-- The key-value store behind the tree, seen through `get`, `contains` and `put`. -/
abbrev KeyValueStore := AList fun _ : ByteVector => ByteVector

def KeyValueStore.put (store : KeyValueStore) (pairs : List (ByteVector × ByteVector)) :
    KeyValueStore :=
  pairs.foldl (fun store (kv : ByteVector × ByteVector) => AList.insert kv.1 kv.2 store) store

/-- The order in which the concurrent hash maps of the caches enumerate their
keys is not fixed by the source. -/
class DashMapOrder where
  order : List ByteVector → List ByteVector
  perm : ∀ keys, (order keys).Perm keys

/-- The caches of a tree object and the store it shares with others. `hashed`
records every string that was hashed; no function reads it. -/
structure TreeState where
  store : KeyValueStore
  cacheR : AList fun _ : ByteVector => Node
  cacheW : AList fun _ : ByteVector => ByteVector
  hashed : List ByteVector

abbrev RadixM := EStateM Failure TreeState

def lift (result : Except Failure α) : RadixM α :=
  match result with
  | .ok a => pure a
  | .error failure => throw failure

def hexByte (byte : UInt8) : String :=
  String.ofList [Nat.digitChar (byte.toNat / 16), Nat.digitChar (byte.toNat % 16)]

def hexEncode (bytes : ByteVector) : String := String.join (bytes.map hexByte)

def hexList (bytes : ByteVector) : String :=
  "[" ++ ", ".intercalate (bytes.map fun byte => "\"" ++ hexByte byte ++ "\"") ++ "]"

def unwrapNone : Failure := .panic "called `Option::unwrap()` on a `None` value"

def splitFirst : ByteVector → Except Failure (UInt8 × ByteVector)
  | [] => .error unwrapNone
  | head :: tail => .ok (head, tail)

section Impl

variable [Blake2b] [DashMapOrder]

def loadNodeFromStore (nodePtr : ByteVector) : RadixM (Option Node) := do
  match (← get).store.lookup nodePtr with
  | some bytes => some <$> lift (decode bytes)
  | none => pure none

def trimReadCache (cacheR : AList fun _ : ByteVector => Node) : AList fun _ : ByteVector => Node :=
  if cacheR.keys.length ≤ readCacheMaxItems then cacheR
  else
    let numberToRemove := cacheR.keys.length - readCacheTrimTarget
    let keys := (DashMapOrder.order cacheR.keys).take numberToRemove
    keys.foldl (fun cache key => cache.erase key) cacheR

def enforceReadCacheBounds : RadixM Unit :=
  modify fun s => { s with cacheR := trimReadCache s.cacheR }

def insertCacheR (key : ByteVector) (node : Node) : RadixM Unit := do
  modify fun s => { s with cacheR := s.cacheR.insert key node }
  enforceReadCacheBounds

def loadNode (nodePtr : ByteVector) (noAssert : Bool) : RadixM Node := do
  match (← get).cacheR.lookup nodePtr with
  | some node => pure node
  | none =>
    match ← loadNodeFromStore nodePtr with
    | some node =>
      insertCacheR nodePtr node
      pure node
    | none =>
      lift (ensure noAssert ("Missing node in database. ptr=" ++ hexList nodePtr))
      pure emptyNode

def hashNode (node : Node) : RadixM (ByteVector × ByteVector) := do
  let nodeBytes ← lift (encode node)
  modify fun s => { s with hashed := nodeBytes :: s.hashed }
  pure (Blake2b.hash nodeBytes, nodeBytes)

/-- The read cache's part of `save_node`, with its collision check. -/
def cacheSavedNode (nodeBytesHash : ByteVector) (node : Node) : RadixM Unit := do
  match (← get).cacheR.lookup nodeBytesHash with
  | some cached =>
    lift (ensure (cached = node) ("Radix Tree - Collision in cache: record with key = $" ++
      hexEncode nodeBytesHash ++ " has already existed."))
  | none => insertCacheR nodeBytesHash node

def saveNode (node : Node) : RadixM ByteVector := do
  let (nodeBytesHash, nodeBytes) ← hashNode node
  cacheSavedNode nodeBytesHash node
  modify fun s => { s with cacheW := s.cacheW.insert nodeBytesHash nodeBytes }
  pure nodeBytesHash

def kvPairs (s : TreeState) : List (ByteVector × ByteVector) :=
  (DashMapOrder.order s.cacheW.keys).filterMap fun key =>
    (s.cacheW.lookup key).map fun bytes => (key, bytes)

def commit : RadixM Unit := do
  let s ← get
  let kvExist := (kvPairs s).filter fun kv => (s.store.lookup kv.1).isSome
  let kvCollision := kvExist.filter fun kv => kv.2 ≠ (s.store.lookup kv.1).getD []
  match kvCollision with
  | [] =>
    let kvAbsent := (kvPairs s).filter fun kv => (s.store.lookup kv.1).isNone
    modify fun s => { s with store := KeyValueStore.put s.store kvAbsent }
  | first :: _ =>
    throw (.error (.radixTreeError (.collisionError (toString kvCollision.length ++
      " collisions in KVDB (first collision with key = " ++ hexEncode first.1 ++ "."))))

def clearWriteCache : RadixM Unit := modify fun s => { s with cacheW := ∅ }

def clearReadCache : RadixM Unit := modify fun s => { s with cacheR := ∅ }

/-- `read_at_cached` and `read_at_from_ptr`: every pointer followed takes at
least one byte off the key, so its length is fuel enough. -/
def readAtCached : Nat → Node → ByteVector → RadixM (Option ByteVector)
  | _, _, [] => pure none
  | 0, _, _ :: _ => throw .outOfFuel
  | fuel + 1, curNode, head :: prefixTail =>
    match curNode.item head with
    | .emptyItem => pure none
    | .leaf leafPrefix value => pure (if leafPrefix = prefixTail then some value else none)
    | .nodePtr ptrPrefix ptr =>
      match prefixTail.dropPrefix? ptrPrefix with
      | none => pure none
      | some prefixRest =>
        if prefixRest.isEmpty then pure none
        else do
          let node ← loadNode ptr false
          readAtCached fuel node prefixRest

def readAt (startNode : Node) (startPrefix : ByteVector) : RadixM (Option ByteVector) :=
  readAtCached startPrefix.length startNode startPrefix

def createNodeFromItem : Item → Except Failure Node
  | .emptyItem => .ok emptyNode
  | .leaf leafPrefix value => do
    ensure (!leafPrefix.isEmpty) "Impossible to create a node. LeafPrefix should be non empty."
    let (index, leafPrefixTail) ← splitFirst leafPrefix
    .ok (emptyNode.setItem index (.leaf leafPrefixTail value))
  | .nodePtr ptrPrefix ptr => do
    ensure (!ptrPrefix.isEmpty) "Impossible to create a node. NodePtrPrefix should be non empty."
    let (index, ptrPrefixTail) ← splitFirst ptrPrefix
    .ok (emptyNode.setItem index (.nodePtr ptrPrefixTail ptr))

def constructNodeFromItem : Item → RadixM Node
  | .nodePtr [] ptr => loadNode ptr false
  | item => lift (createNodeFromItem item)

/-- The item of a node with a single non-empty item: parent and child are merged. -/
def mergeItem (segment : ByteVector) (idxItem : UInt8) : Item → Item
  | .emptyItem => .emptyItem
  | .leaf leafPrefix value => .leaf (segment ++ [idxItem] ++ leafPrefix) value
  | .nodePtr ptrPrefix ptr => .nodePtr (segment ++ [idxItem] ++ ptrPrefix) ptr

def saveNodeAndCreateItem (node : Node) (segment : ByteVector) (compaction : Bool) : RadixM Item :=
  if compaction then
    match (node.toList.filter (· ≠ .emptyItem)).take 2 with
    | [] => pure .emptyItem
    | [only] => pure (mergeItem segment (UInt8.ofNat (node.toList.idxOf only)) only)
    | _ => do
      let ptr ← saveNode node
      pure (.nodePtr segment ptr)
  else do
    let ptr ← saveNode node
    pure (.nodePtr segment ptr)

/-- Every recursive call takes at least one byte off `insPrefix`. -/
def update : Nat → Item → ByteVector → ByteVector → RadixM (Option Item)
  | 0, _, _, _ => throw .outOfFuel
  | fuel + 1, currItem, insPrefix, insValue =>
    match currItem with
    | .emptyItem => pure (some (.leaf insPrefix insValue))
    | .leaf leafPrefix leafValue => do
      lift (ensure (leafPrefix.length = insPrefix.length)
        "Radix Tree: All Radix keys should be same length.")
      if leafPrefix = insPrefix then
        if insValue = leafValue then pure none
        else pure (some (.leaf insPrefix insValue))
      else
        let (commPrefix, insPrefixRest, leafPrefixRest) := commonPrefix insPrefix leafPrefix
        let (leafHead, leafTail) ← lift (splitFirst leafPrefixRest)
        let (insHead, insTail) ← lift (splitFirst insPrefixRest)
        let newNode := (emptyNode.setItem leafHead (.leaf leafTail leafValue)).setItem insHead
          (.leaf insTail insValue)
        some <$> saveNodeAndCreateItem newNode commPrefix false
    | .nodePtr ptrPrefix ptr => do
      lift (ensure (ptrPrefix.length < insPrefix.length)
        "Radix Tree: Radix key should be longer than NodePtr key.")
      let (commPrefix, insPrefixRest, ptrPrefixRest) := commonPrefix insPrefix ptrPrefix
      if ptrPrefixRest.isEmpty then
        -- Add the new leaf to the existing child node.
        let childNode ← loadNode ptr false
        let (insHead, insTail) ← lift (splitFirst insPrefixRest)
        match ← update fuel (childNode.item insHead) insTail insValue with
        | some childItem =>
          some <$> saveNodeAndCreateItem (childNode.setItem insHead childItem) commPrefix false
        | none => pure none
      else
        let (ptrHead, ptrTail) ← lift (splitFirst ptrPrefixRest)
        let (insHead, insTail) ← lift (splitFirst insPrefixRest)
        let newNode := (emptyNode.setItem ptrHead (.nodePtr ptrTail ptr)).setItem insHead
          (.leaf insTail insValue)
        some <$> saveNodeAndCreateItem newNode commPrefix false

def delete : Nat → Item → ByteVector → RadixM (Option Item)
  | 0, _, _ => throw .outOfFuel
  | fuel + 1, currItem, delPrefix =>
    match currItem with
    | .emptyItem => pure none
    | .leaf leafPrefix _ => pure (if leafPrefix = delPrefix then some .emptyItem else none)
    | .nodePtr ptrPrefix ptr => do
      let (commPrefix, delPrefixRest, ptrPrefixRest) := commonPrefix delPrefix ptrPrefix
      if !ptrPrefixRest.isEmpty || delPrefixRest.isEmpty then pure none
      else
        let childNode ← loadNode ptr false
        let (delHead, delTail) ← lift (splitFirst delPrefixRest)
        match ← delete fuel (childNode.item delHead) delTail with
        | some childItem =>
          some <$> saveNodeAndCreateItem (childNode.setItem delHead childItem) commPrefix true
        | none => pure none

def processOneAction (action : HistoryAction) (item : Item) : RadixM (Option Item) :=
  match action with
  | .insert key hash => do
    let (_, keyTail) ← lift (splitFirst key)
    update (keyTail.length + 1) item keyTail hash
  | .delete key => do
    let (_, keyTail) ← lift (splitFirst key)
    delete (keyTail.length + 1) item keyTail

def clearingDeleteActions (actions : List HistoryAction) (item : Item) : List HistoryAction :=
  if item = .emptyItem ∧ ¬ actions.any HistoryAction.isInsert then [] else actions

def trimKey : HistoryAction → Except Failure HistoryAction
  | .insert key hash => do
    let (_, keyTail) ← splitFirst key
    .ok (.insert keyTail hash)
  | .delete key => do
    let (_, keyTail) ← splitFirst key
    .ok (.delete keyTail)

def trimKeys (actions : List HistoryAction) : Except Failure (List HistoryAction) :=
  actions.mapM trimKey

/-- The actions by the first byte of their key, in the order of that byte. -/
def grouping (actions : List HistoryAction) : Except Failure (List (UInt8 × List HistoryAction)) :=
  if actions.any (·.key.isEmpty) then
    .error (.error (.radixTreeError
      (.prefixError "The length of all prefixes in the subtree must be the same.")))
  else
    .ok ((indices.map fun index =>
      (index, actions.filter fun action => action.key.head? = some index)).filter (!·.2.isEmpty))

section Groups

-- The recursive call of `makeActions`.
variable (recurse : Node → List HistoryAction → RadixM (Option Node))

def processNonEmptyActions (actions : List HistoryAction) (item : Item) : RadixM (Option Item) := do
  let createdNode ← constructNodeFromItem item
  let newActions ← lift (trimKeys actions)
  match ← recurse createdNode newActions with
  | some newNode => some <$> saveNodeAndCreateItem newNode [] true
  | none => pure none

def processSeveralActions (actions : List HistoryAction) (item : Item) : RadixM (Option Item) :=
  let clearedActions := clearingDeleteActions actions item
  if clearedActions.isEmpty then pure none
  else processNonEmptyActions recurse clearedActions item

def processGroup (actions : List HistoryAction) (item : Item) : RadixM (Option Item) :=
  match actions with
  | [action] => processOneAction action item
  | actions => processSeveralActions recurse actions item

end Groups

def setNewItems (node : Node) (newItems : List (UInt8 × Option Item)) : Node :=
  newItems.foldl (fun node (entry : UInt8 × Option Item) =>
    match entry.2 with
    | some item => node.setItem entry.1 item
    | none => node) node

/-- Recursive calls are made on keys that are one byte shorter. -/
def makeActions : Nat → Node → List HistoryAction → RadixM (Option Node)
  | 0, _, _ => throw .outOfFuel
  | fuel + 1, currNode, actions => do
    let groupedActions ← lift (grouping actions)
    let newGroupItems ← groupedActions.mapM fun group => do
      let newItem ← processGroup (makeActions fuel) group.2 (currNode.item group.1)
      pure (group.1, newItem)
    let newCurNode := setNewItems currNode newGroupItems
    pure (if newCurNode ≠ currNode then some newCurNode else none)

end Impl

end F1r3fly.RSpace.History
