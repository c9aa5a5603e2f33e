import F1r3fly.RSpace.History.RadixTree

/-! The sequential export of a tree: nodes and leaves in the order of their keys, from a
given node on, with nodes to skip and nodes to take. -/
namespace F1r3fly.RSpace.History

structure ExportData where
  nodePrefixes : List ByteVector
  nodeKeys : List ByteVector
  nodeValues : List ByteVector
  leafPrefixes : List ByteVector
  leafValues : List ByteVector
deriving DecidableEq

structure ExportDataSettings where
  flagNodePrefixes : Bool
  flagNodeKeys : Bool
  flagNodeValues : Bool
  flagLeafPrefixes : Bool
  flagLeafValues : Bool

def emptyExportData : ExportData := ⟨[], [], [], [], []⟩

def ExportData.append (first second : ExportData) : ExportData where
  nodePrefixes := first.nodePrefixes ++ second.nodePrefixes
  nodeKeys := first.nodeKeys ++ second.nodeKeys
  nodeValues := first.nodeValues ++ second.nodeValues
  leafPrefixes := first.leafPrefixes ++ second.leafPrefixes
  leafValues := first.leafValues ++ second.leafValues

/-- A node on the way from the root, with the item that was processed last. -/
structure NodeData where
  nodePrefix : ByteVector
  decoded : Node
  lastItemIndex : Option UInt8

abbrev Path := List NodeData

structure NodePathData where
  hash : ByteVector
  nodePrefix : ByteVector
  restPrefix : ByteVector
  path : Path

abbrev NodeDataSource := ByteVector → Option ByteVector

def prefixNotFound (p : NodePathData) : Failure :=
  .panic ("Radix Tree - Export error: node with prefix " ++
    hexEncode (p.nodePrefix ++ p.restPrefix) ++
    " not found.")

/-- The path from the root to a node. Every round uses up a byte of the prefix that is
left, which bounds the fuel. -/
def initNodePath (getNodeDataFromStore : NodeDataSource) : Nat → NodePathData → Except Failure Path
  | 0, _ => .error .outOfFuel
  | fuel + 1, p =>
    match getNodeDataFromStore p.hash with
    | none => .error (.error (.radixTreeError (.keyNotFound
        ("Radix Tree - Export error: node with key " ++ hexEncode p.hash ++ " not found."))))
    | some bytes => do
      let decoded ← decode bytes
      match p.restPrefix with
      | [] => .ok (⟨p.nodePrefix, decoded, none⟩ :: p.path)
      | itemIdx :: restPrefixTail =>
        match decoded.item itemIdx with
        | .nodePtr ptrPrefix ptr =>
          let (prefixCommon, prefixRest, ptrPrefixRest) := commonPrefix restPrefixTail ptrPrefix
          if ptrPrefixRest.isEmpty then
            initNodePath getNodeDataFromStore fuel
              { hash := ptr
                nodePrefix := p.nodePrefix ++ itemIdx :: prefixCommon
                restPrefix := prefixRest
                path := ⟨p.nodePrefix, decoded, some itemIdx⟩ :: p.path }
          else .error (prefixNotFound p)
        | _ => .error (prefixNotFound p)

/-- The items after the last one are tried until one is to be exported; there are at most
256 of them. -/
def findNextNonEmptyItem (settings : ExportDataSettings) (node : Node) :
    Nat → Option UInt8 → Option (UInt8 × Item)
  | 0, _ => none
  | fuel + 1, lastIdx =>
    if lastIdx = some 0xFF then none
    else
      let curIdx := UInt8.ofNat ((lastIdx.map fun byte => byte.toNat + 1).getD 0)
      match node.item curIdx with
      | .emptyItem => findNextNonEmptyItem settings node fuel (some curIdx)
      | .leaf leafPrefix value =>
        if settings.flagLeafPrefixes || settings.flagLeafValues then
          some (curIdx, .leaf leafPrefix value)
        else findNextNonEmptyItem settings node fuel (some curIdx)
      | .nodePtr ptrPrefix ptr => some (curIdx, .nodePtr ptrPrefix ptr)

structure StepData where
  path : Path
  skip : Int
  take : Int
  expData : ExportData

section Steps

variable (settings : ExportDataSettings) (getNodeDataFromStore : NodeDataSource)

def addLeaf (p : StepData) (leafPrefix leafValue : ByteVector) (itemIndex : UInt8)
    (currNodePrefix : ByteVector) (newPath : Path) : StepData :=
  if p.skip > 0 then { p with path := newPath }
  else
    { p with
      path := newPath
      expData := { p.expData with
        leafPrefixes :=
          if settings.flagLeafPrefixes then
            p.expData.leafPrefixes ++ [currNodePrefix ++ itemIndex :: leafPrefix]
          else []
        leafValues :=
          if settings.flagLeafValues then p.expData.leafValues ++ [leafValue] else [] } }

def constructNodePtrData (p : StepData) (childPath : Path) (childNP ptr childNV : ByteVector) :
    StepData where
  path := childPath
  skip := p.skip
  take := p.take - 1
  expData := { p.expData with
    nodePrefixes := if settings.flagNodePrefixes then p.expData.nodePrefixes ++ [childNP] else []
    nodeKeys := if settings.flagNodeKeys then p.expData.nodeKeys ++ [ptr] else []
    nodeValues := if settings.flagNodeValues then p.expData.nodeValues ++ [childNV] else [] }

def addNodePtr (p : StepData) (ptrPrefix ptr : ByteVector) (itemIndex : UInt8)
    (currNodePrefix : ByteVector) (newPath : Path) : Except Failure StepData :=
  match getNodeDataFromStore ptr with
  | none => .error (.error (.radixTreeError (.keyNotFound
      ("Radix Tree - Export error: node with key " ++ hexEncode ptr ++ " not found. here"))))
  | some childNV => do
    let childDecoded ← decode childNV
    let childNP := currNodePrefix ++ itemIndex :: ptrPrefix
    let childPath := ⟨childNP, childDecoded, none⟩ :: newPath
    if p.skip > 0 then .ok { p with path := childPath, skip := p.skip - 1 }
    else .ok (constructNodePtrData settings p childPath childNP ptr childNV)

def addElement (p : StepData) (itemIndex : UInt8) (item : Item) (currNode : Node)
    (currNodePrefix : ByteVector) : Except Failure StepData :=
  let newPath := ⟨currNodePrefix, currNode, some itemIndex⟩ :: p.path.tail
  match item with
  | .emptyItem => .ok { p with path := newPath }
  | .leaf leafPrefix value =>
    .ok (addLeaf settings p leafPrefix value itemIndex currNodePrefix newPath)
  | .nodePtr ptrPrefix ptr =>
    addNodePtr settings getNodeDataFromStore p ptrPrefix ptr itemIndex currNodePrefix newPath

abbrev ExportResult := ExportData × Option ByteVector

def exportStep (p : StepData) : Except Failure (StepData ⊕ ExportResult) :=
  match p.path with
  | [] => .ok (.inr (p.expData, none))
  | currNodeData :: pathTail =>
    if p.skip = 0 ∧ p.take = 0 then .ok (.inr (p.expData, some currNodeData.nodePrefix))
    else
      match findNextNonEmptyItem settings currNodeData.decoded (numItems + 1)
        currNodeData.lastItemIndex with
      | none => .ok (.inl { p with path := pathTail })
      | some (itemIndex, item) => do
        let next ← addElement settings getNodeDataFromStore p itemIndex item currNodeData.decoded
          currNodeData.nodePrefix
        .ok (.inl next)

/-- Nothing bounds the loop but the tree, so its fuel is given. -/
def exportLoop : Nat → StepData → Except Failure ExportResult
  | 0, _ => .error .outOfFuel
  | fuel + 1, p => do
    match ← exportStep settings getNodeDataFromStore p with
    | .inl next => exportLoop fuel next
    | .inr result => .ok result

/-- The value of the root goes with the flag of the leaf values. -/
def rootExportData (rootHash rootNodeSer : ByteVector) : ExportData where
  nodePrefixes := if settings.flagNodePrefixes then [[]] else []
  nodeKeys := if settings.flagNodeKeys then [rootHash] else []
  nodeValues := if settings.flagLeafValues then [rootNodeSer] else []
  leafPrefixes := []
  leafValues := []

def startParams (rootHash : ByteVector) (lastPrefix : Option ByteVector) (skipSize takeSize : Int)
    (rootNodeSer : ByteVector) (path : Path) : StepData :=
  match lastPrefix with
  | some _ => ⟨path, skipSize, takeSize, emptyExportData⟩
  | none =>
    if skipSize > 0 then ⟨path, skipSize - 1, takeSize, emptyExportData⟩
    else ⟨path, skipSize, takeSize - 1, rootExportData settings rootHash rootNodeSer⟩

def doExport (fuel : Nat) (rootHash : ByteVector) (lastPrefix : Option ByteVector)
    (skipSize takeSize : Int) (rootNodeSer : ByteVector) : Except Failure ExportResult := do
  let restPrefix := lastPrefix.getD []
  let path ← initNodePath getNodeDataFromStore (restPrefix.length + 1)
    ⟨rootHash, [], restPrefix, []⟩
  exportLoop settings getNodeDataFromStore fuel
    (startParams settings rootHash lastPrefix skipSize takeSize rootNodeSer path)

def sequentialExport (fuel : Nat) (rootHash : ByteVector) (lastPrefix : Option ByteVector)
    (skipSize takeSize : Int) : Except Failure ExportResult :=
  if skipSize = 0 ∧ takeSize = 0 then
    .error (.panic "Export error: invalid initial conditions (skipSize, takeSize)==(0,0).")
  else
    match getNodeDataFromStore rootHash with
    | some bytes =>
      doExport settings getNodeDataFromStore fuel rootHash lastPrefix skipSize takeSize bytes
    | none => .ok (emptyExportData, none)

end Steps

end F1r3fly.RSpace.History
