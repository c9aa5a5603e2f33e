import F1r3fly.Data.Buffer
import F1r3fly.RSpace.History.RadixTreeCodec

/-! The node codec as it runs: nodes are written by positions into a buffer whose size was
computed before, and read back by positions. -/
namespace F1r3fly.RSpace.History

open Option

open Buffer (setAt copyInto)

section Definitions

def headSize : Nat := 2

def itemSize : Item → Nat
  | .emptyItem => 0
  | .leaf leafPrefix _ => headSize + leafPrefix.length + defSize
  | .nodePtr ptrPrefix _ => headSize + ptrPrefix.length + defSize

/-- The size of the serialized data. -/
def calcSize (node : Node) : Except Failure Nat :=
  node.toList.foldlM (fun size item => do
    checkItem item
    return size + itemSize item) 0

def inBounds {α : Type} : Option α → Except Failure α
  | some a => .ok a
  | none => .error .outOfBounds

def putRecord (idxItem pos0 : Nat) (secondByte : UInt8) (segment valOrPtr arr : ByteVector) :
    Except Failure ByteVector := inBounds do
  let arr ← setAt arr pos0 (UInt8.ofNat idxItem)
  let posSecondByte := pos0 + 1
  let arr ← setAt arr posSecondByte secondByte
  let posPrefixStart := posSecondByte + 1
  let arr ← copyInto arr posPrefixStart segment segment.length
  let posValueStart := posPrefixStart + segment.length
  copyInto arr posValueStart valOrPtr defSize

def putItemsIntoArray (node : Node) (size : Nat) :
    Nat → Nat → Nat → ByteVector → Except Failure ByteVector
  | 0, _, _, _ => .error .outOfFuel
  | fuel + 1, idxItem, pos0, arr =>
    if pos0 = size then .ok arr
    else
      match node.toList[idxItem]? with
      | none => .error .outOfBounds
      | some .emptyItem => putItemsIntoArray node size fuel (idxItem + 1) pos0 arr
      | some (.leaf leafPrefix value) => do
        let arr ← putRecord idxItem pos0 (encodeLeafSecondByte leafPrefix.length)
          leafPrefix value arr
        putItemsIntoArray node size fuel (idxItem + 1)
          (pos0 + headSize + leafPrefix.length + defSize) arr
      | some (.nodePtr ptrPrefix ptr) => do
        let arr ← putRecord idxItem pos0 (encodeNodePtrSecondByte ptrPrefix.length)
          ptrPrefix ptr arr
        putItemsIntoArray node size fuel (idxItem + 1)
          (pos0 + headSize + ptrPrefix.length + defSize) arr

def encodeIntoBuffer (node : Node) : Except Failure ByteVector := do
  let size ← calcSize node
  putItemsIntoArray node size (numItems + 1) 0 0 (List.replicate size 0)

def slice (bytes : ByteVector) (first last : Nat) : Except Failure ByteVector :=
  if last ≤ bytes.length then .ok ((bytes.drop first).take (last - first)) else .error .outOfBounds

def decodeAt (bv : ByteVector) : Nat → Nat → Node → Except Failure Node
  | 0, pos0, node => if pos0 < bv.length then .error .outOfFuel else .ok node
  | fuel + 1, pos0, node =>
    if pos0 < bv.length then do
      let idxItem ← inBounds bv[pos0]?
      if node.item idxItem ≠ .emptyItem then
        .error (.panic "Error during deserialization: wrong index of item.")
      else
        let pos1 := pos0 + 1
        let secondByte ← inBounds bv[pos1]?
        let prefixSize := (secondByte &&& 0x7F).toNat
        let posPrefixStart := pos1 + 1
        let segment ← slice bv posPrefixStart (posPrefixStart + prefixSize)
        let posValOrPtrStart := posPrefixStart + prefixSize
        let valOrPtr ← slice bv posValOrPtrStart (posValOrPtrStart + defSize)
        let item := if isLeaf secondByte then .leaf segment valOrPtr else .nodePtr segment valOrPtr
        decodeAt bv fuel (posValOrPtrStart + defSize) (node.setItem idxItem item)
    else .ok node

def decodeFromBuffer (bv : ByteVector) : Except Failure Node := decodeAt bv bv.length 0 emptyNode

end Definitions

section Writing

theorem putRecord_append {segment : ByteVector} (idxItem : Nat) (secondByte : UInt8)
    (written rest : ByteVector)
    (sized : valOrPtr.length = defSize) (fits : room.length = headSize + segment.length + defSize) :
    putRecord idxItem written.length secondByte segment valOrPtr (written ++ (room ++ rest)) =
      .ok (written ++ (UInt8.ofNat idxItem :: secondByte :: (segment ++ valOrPtr) ++ rest)) := by
  obtain ⟨first, second, body, rfl⟩ : ∃ first second body, room = first :: second :: body := by
    rcases room with _ | ⟨first, _ | ⟨second, body⟩⟩
    · rw [length_nil, headSize] at fits
      omega
    · rw [List.length_singleton, headSize, defSize] at fits
      omega
    · exact ⟨first, second, body, rfl⟩
  have body_length : body.length = segment.length + defSize := by
    rw [length_cons, length_cons, headSize] at fits
    omega
  have segment_fits : (body.take segment.length).length = segment.length := by
    rw [List.length_take]
    omega
  have value_fits : (body.drop segment.length).length = valOrPtr.length := by
    rw [List.length_drop]
    omega
  simp only [putRecord]
  generalize UInt8.ofNat idxItem = index
  have index_put : setAt (written ++ (first :: second :: body ++ rest)) written.length index =
      some (written ++ index :: second :: (body ++ rest)) :=
    Buffer.setAt_append written (second :: (body ++ rest)) first index
  have second_put : setAt (written ++ index :: second :: (body ++ rest)) (written.length + 1)
      secondByte = some (written ++ index :: secondByte :: (body ++ rest)) := by
    have put := Buffer.setAt_append (written ++ [index]) (body ++ rest) second secondByte
    rw [length_append, append_assoc, append_assoc] at put
    exact put
  have segment_put : copyInto (written ++ index :: secondByte :: (body ++ rest))
      (written.length + 1 + 1) segment segment.length =
        some (written ++ index :: secondByte ::
          (segment ++ (body.drop segment.length ++ rest))) := by
    have put := Buffer.copyInto_append (written ++ [index, secondByte])
      (body.drop segment.length ++ rest) segment_fits
    rw [length_append, append_assoc, append_assoc,
      ← append_assoc (body.take _), List.take_append_drop] at put
    exact put
  have value_put : copyInto
      (written ++ index :: secondByte :: (segment ++ (body.drop segment.length ++ rest)))
      (written.length + 1 + 1 + segment.length) valOrPtr defSize =
        some (written ++ index :: secondByte :: (segment ++ (valOrPtr ++ rest))) := by
    have put := Buffer.copyInto_append (written ++ index :: secondByte :: segment) rest value_fits
    rw [length_append, append_assoc, append_assoc, sized] at put
    have position : written.length + (index :: secondByte :: segment).length =
        written.length + 1 + 1 + segment.length := by
      rw [length_cons, length_cons]
      omega
    rw [position] at put
    exact put
  rw [index_put, bind_eq_bind, bind_some, second_put, bind_some, segment_put, bind_some, value_put]
  simp [inBounds]

theorem putItemIntoArray_length (encodable : item.Encodable) (index : UInt8) :
    (putItemIntoArray index item).length = itemSize item := by
  cases item with
  | emptyItem => rfl
  | leaf leafPrefix value | nodePtr ptrPrefix ptr =>
    rw [putItemIntoArray, itemSize, ← encodable.2]
    simp only [length_cons, length_append, headSize]
    omega

def Node.entries (node : Node) : List (Item × UInt8) := node.toList.zip indices

theorem Node.entries_map_fst (node : Node) : node.entries.map Prod.fst = node.toList := by
  apply List.map_fst_zip
  simp [indices]

variable {node : Node}

theorem Node.entries_getElem (bound : idxItem < node.entries.length) :
    node.toList[idxItem]? = some node.entries[idxItem].1 ∧
      node.entries[idxItem].2 = UInt8.ofNat idxItem := by
  constructor
  · rw [← node.entries_map_fst, List.getElem?_map, getElem?_eq_getElem bound]
    rfl
  · simp [entries, indices]

theorem Node.Encodable.of_mem_entries (encodable : node.Encodable)
    (member : entry ∈ node.entries) : entry.1.Encodable := by
  have present := mem_map_of_mem (f := Prod.fst) member
  rw [node.entries_map_fst, node.toList_eq] at present
  obtain ⟨index, -, same⟩ := mem_map.mp present
  rw [← same]
  exact encodable index

theorem calcSize_ok (encodable : node.Encodable) :
    calcSize node = .ok (encodeBytes node).length := by
  have summed : ∀ (entries : List (Item × UInt8)) (start : Nat),
      (∀ entry ∈ entries, entry.1.Encodable) →
      (entries.map Prod.fst).foldlM (fun size item => do
        checkItem item
        return size + itemSize item) start =
        (.ok (start + (entries.flatMap fun entry => putItemIntoArray entry.2 entry.1).length) :
          Except Failure Nat) := by
    intro entries
    induction entries with
    | nil => exact fun start _ => rfl
    | cons entry rest ih =>
      intro start each
      obtain ⟨here, later⟩ := forall_mem_cons.mp each
      rw [map_cons, foldlM_cons, checkItem_ok here]
      refine (ih (start + itemSize entry.1) later).trans ?_
      rw [flatMap_cons, length_append, putItemIntoArray_length here, Nat.add_assoc]
  have total := summed node.entries 0 fun entry => encodable.of_mem_entries
  rwa [node.entries_map_fst, Nat.zero_add] at total

/-- One record is written where the next items expect it. -/
theorem putRecord_then {segment : ByteVector} (sized : valOrPtr.length = defSize)
    (fits : room.length = headSize + segment.length + defSize + later.length)
    (next : ∀ written' room' : ByteVector,
      written' = written ++ UInt8.ofNat idxItem :: secondByte :: (segment ++ valOrPtr) →
      room'.length = later.length →
      putItemsIntoArray node (written'.length + room'.length) fuel (idxItem + 1) written'.length
        (written' ++ room') = .ok (written' ++ later)) :
    (do
      let arr ← putRecord idxItem written.length secondByte segment valOrPtr (written ++ room)
      putItemsIntoArray node (written.length + room.length) fuel (idxItem + 1)
        (written.length + headSize + segment.length + defSize) arr) =
      .ok (written ++ (UInt8.ofNat idxItem :: secondByte :: (segment ++ valOrPtr) ++ later)) := by
  have taken : (room.take (headSize + segment.length + defSize)).length =
      headSize + segment.length + defSize := by
    rw [List.length_take]
    omega
  have dropped : (room.drop (headSize + segment.length + defSize)).length = later.length := by
    rw [List.length_drop]
    omega
  have put := putRecord_append idxItem secondByte written
    (room.drop (headSize + segment.length + defSize)) sized taken
  rw [List.take_append_drop] at put
  rw [put]
  have rest := next _ _ rfl dropped
  have position : (written ++ UInt8.ofNat idxItem :: secondByte :: (segment ++ valOrPtr)).length =
      written.length + headSize + segment.length + defSize := by
    simp only [length_append, length_cons, sized, headSize]
    omega
  have size : written.length + headSize + segment.length + defSize +
      (room.drop (headSize + segment.length + defSize)).length = written.length + room.length := by
    omega
  rw [position, size, append_assoc, append_assoc] at rest
  exact rest

/-- The records of the items that are left fill the rest of the buffer. -/
theorem putItemsIntoArray_spec (encodable : node.Encodable) (fuel idxItem : Nat)
    (written room : ByteVector)
    (fits : room.length = ((node.entries.drop idxItem).flatMap fun entry =>
      putItemIntoArray entry.2 entry.1).length)
    (enough : (node.entries.drop idxItem).length < fuel) :
    putItemsIntoArray node (written.length + room.length) fuel idxItem written.length
        (written ++ room) =
      .ok (written ++ (node.entries.drop idxItem).flatMap fun entry =>
        putItemIntoArray entry.2 entry.1) := by
  induction fuel generalizing idxItem written room with
  | zero => omega
  | succ fuel ih =>
    rw [putItemsIntoArray]
    split_ifs with full
    · have no_room : room = [] := List.eq_nil_of_length_eq_zero (by omega)
      rw [no_room, length_nil] at fits
      rw [no_room, List.eq_nil_of_length_eq_zero fits.symm]
    · have bound : idxItem < node.entries.length := by
        by_contra outside
        rw [List.drop_eq_nil_of_le (by omega), List.flatMap_nil, length_nil] at fits
        omega
      obtain ⟨item_at, index_at⟩ := Node.entries_getElem bound
      have here := encodable.of_mem_entries (getElem_mem bound)
      rw [List.drop_eq_getElem_cons bound] at fits enough ⊢
      have enough : (node.entries.drop (idxItem + 1)).length < fuel := by
        rw [length_cons] at enough
        omega
      rw [flatMap_cons, length_append, putItemIntoArray_length here] at fits
      rw [item_at, flatMap_cons, index_at]
      cases item_eq : node.entries[idxItem].1 with
      | emptyItem =>
        rw [item_eq, itemSize, Nat.zero_add] at fits
        exact ih (idxItem + 1) written room fits enough
      | leaf leafPrefix value | nodePtr ptrPrefix ptr =>
        rw [item_eq] at here fits
        refine putRecord_then here.2 fits fun written' room' _ room_fits => ?_
        exact ih (idxItem + 1) written' room' room_fits enough

theorem encodeIntoBuffer_eq (encodable : node.Encodable) : encodeIntoBuffer node = encode node := by
  have length : node.entries.length = numItems := by simp [Node.entries, indices]
  have filled := putItemsIntoArray_spec encodable (numItems + 1) 0 []
    (List.replicate (encodeBytes node).length 0) (List.length_replicate ..)
    (by rw [List.drop_zero, length]; exact Nat.lt_succ_self _)
  rw [List.length_replicate, length_nil, Nat.zero_add] at filled
  rw [encodeIntoBuffer, calcSize_ok encodable, encode_ok encodable]
  exact filled

end Writing

section Reading

/-- Reading by positions is reading what is left. -/
theorem decodeAt_eq (bv : ByteVector) (fuel pos0 : Nat) (node : Node) :
    decodeAt bv fuel pos0 node = decodeLoop fuel (bv.drop pos0) node := by
  induction fuel generalizing pos0 node with
  | zero =>
    rw [decodeAt]
    split_ifs with inside
    · rw [List.drop_eq_getElem_cons inside, decodeLoop]
    · rw [List.drop_eq_nil_of_le (by omega)]; rfl
  | succ fuel ih =>
    rw [decodeAt]
    split_ifs with inside
    · rw [List.drop_eq_getElem_cons inside, getElem?_eq_getElem inside]
      simp only [inBounds, bind, Except.bind, slice, Nat.add_sub_cancel_left]
      by_cases second : pos0 + 1 < bv.length
      · have body_length : (bv.drop (pos0 + 1 + 1)).length = bv.length - (pos0 + 1 + 1) :=
          List.length_drop ..
        rw [List.drop_eq_getElem_cons second, getElem?_eq_getElem second, decodeLoop.eq_def]
        dsimp only
        split
        · rfl
        · generalize (bv[pos0 + 1] &&& 127).toNat = prefixSize
          rw [body_length]
          -- The two slices are within bounds together or the last one is not.
          by_cases room : pos0 + 1 + 1 + prefixSize + defSize ≤ bv.length
          · have prefix_room : pos0 + 1 + 1 + prefixSize ≤ bv.length := by omega
            have enough : ¬bv.length - (pos0 + 1 + 1) < prefixSize + defSize := by omega
            rw [if_pos prefix_room, if_pos room, if_neg enough, List.drop_drop, List.drop_drop]
            dsimp only
            rw [ih, Nat.add_assoc (pos0 + 1 + 1)]
          · have short : bv.length - (pos0 + 1 + 1) < prefixSize + defSize := by omega
            rw [if_neg room, if_pos short]
            by_cases prefix_room : pos0 + 1 + 1 + prefixSize ≤ bv.length
            · rw [if_pos prefix_room]
            · rw [if_neg prefix_room]
      · have none_left : bv.drop (pos0 + 1) = [] := List.drop_eq_nil_of_le (by omega)
        rw [none_left, List.getElem?_eq_none (by omega), decodeLoop.eq_def]
    · rw [List.drop_eq_nil_of_le (by omega)]; rfl

theorem decodeFromBuffer_eq (bv : ByteVector) : decodeFromBuffer bv = decode bv := by
  rw [decodeFromBuffer, decodeAt_eq, List.drop_zero, decode]

/-- Every node with prefixes of at most 127 bytes and values and pointers of 32 bytes is
encoded and read back, so that two such nodes have different encodings. -/
theorem node_codec_round_trip :
    (∀ node : Node, node.Encodable →
      ∃ bytes, encodeIntoBuffer node = .ok bytes ∧ decodeFromBuffer bytes = .ok node) ∧
    ∀ left right : Node, left.Encodable → right.Encodable →
      encodeIntoBuffer left = encodeIntoBuffer right → left = right := by
  constructor
  · intro node encodable
    refine ⟨encodeBytes node, ?_, ?_⟩
    · rw [encodeIntoBuffer_eq encodable, encode_ok encodable]
    · rw [decodeFromBuffer_eq, decode_encodeBytes encodable]
  · intro left right left_encodable right_encodable same
    rw [encodeIntoBuffer_eq left_encodable, encodeIntoBuffer_eq right_encodable,
      encode_ok left_encodable, encode_ok right_encodable] at same
    exact encodeBytes_inj left_encodable right_encodable (Except.ok.inj same)

end Reading

end F1r3fly.RSpace.History
