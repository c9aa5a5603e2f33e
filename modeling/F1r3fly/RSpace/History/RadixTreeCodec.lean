import F1r3fly.RSpace.History.RadixTree

/-! The node codec: encodable nodes are encoded without a failed assertion and
decoded back to themselves. -/
namespace F1r3fly.RSpace.History

/-- The items whose encoding the length byte and the fixed payload size can
carry. -/
def Item.Encodable : Item → Prop
  | .emptyItem => True
  | .leaf leafPrefix value => leafPrefix.length ≤ 127 ∧ value.length = defSize
  | .nodePtr ptrPrefix ptr => ptrPrefix.length ≤ 127 ∧ ptr.length = defSize

def Node.Encodable (node : Node) : Prop := ∀ index, (node.item index).Encodable

theorem checkItem_ok (encodable : item.Encodable) : checkItem item = .ok () := by
  cases item with
  | emptyItem => rfl
  | leaf leafPrefix value | nodePtr ptrPrefix ptr =>
    obtain ⟨short, sized⟩ := encodable
    simp [checkItem, ensure, short, sized, bind, Except.bind]

theorem forM_ok {check : α → Except Failure Unit} {items : List α}
    (each : ∀ item ∈ items, check item = .ok ()) : items.forM check = .ok () := by
  induction items with
  | nil => rfl
  | cons item items ih =>
    have rest := ih fun other member => each other (by simp [member])
    simpa only [List.forM, each item (by simp), bind, Except.bind] using rest

theorem Node.toList_eq (node : Node) : node.toList = indices.map node.item := by
  apply List.ext_getElem
  · simp [indices]
  · intro i hi _
    have small : i < 256 := by simpa using hi
    simp [indices, Node.item, mod_eq_of_lt small]

theorem encodeBytes_eq (node : Node) :
    encodeBytes node = indices.flatMap fun index => putItemIntoArray index (node.item index) := by
  have entries : node.toList.zip indices = indices.map fun index => (node.item index, index) := by
    rw [Node.toList_eq]
    have paired : (indices.map node.item).zip (indices.map id) = _ := List.zip_map'
    simpa using paired
  rw [encodeBytes, entries, List.flatMap_map]

variable {node : Node}

theorem encode_ok (encodable : node.Encodable) : encode node = .ok (encodeBytes node) := by
  have checked : node.toList.forM checkItem = .ok () := by
    apply forM_ok
    intro item member
    rw [Node.toList_eq] at member
    obtain ⟨index, _, rfl⟩ := mem_map.mp member
    exact checkItem_ok (encodable index)
  simp [encode, checked, bind, Except.bind]

theorem leafSecondByte_spec :
    ∀ size < 128, (encodeLeafSecondByte size &&& 0x7F).toNat = size ∧
      isLeaf (encodeLeafSecondByte size) := by
  decide

theorem nodePtrSecondByte_spec :
    ∀ size < 128, (encodeNodePtrSecondByte size &&& 0x7F).toNat = size ∧
      isLeaf (encodeNodePtrSecondByte size) = false := by
  decide

theorem drop_record (key : ByteVector) (sized : value.length = defSize) (rest : ByteVector) :
    ¬ (key ++ (value ++ rest)).length < key.length + defSize ∧
      (key ++ (value ++ rest)).drop (key.length + defSize) = rest := by
  constructor
  · simp only [length_append]
    omega
  · rw [← sized, ← length_append, ← append_assoc, List.drop_left]

theorem decodeLoop_item (encodable : item.Encodable) (inhabited : item ≠ .emptyItem)
    (vacant : node.item index = .emptyItem) (fuel : Nat) (rest : ByteVector) :
    decodeLoop (fuel + 1) (putItemIntoArray index item ++ rest) node =
      decodeLoop fuel rest (node.setItem index item) := by
  cases item with
  | emptyItem => exact absurd rfl inhabited
  | leaf leafPrefix value =>
    obtain ⟨short, sized⟩ := encodable
    obtain ⟨size, kind⟩ := leafSecondByte_spec leafPrefix.length (by omega)
    obtain ⟨room, tail⟩ := drop_record leafPrefix sized rest
    simp only [putItemIntoArray, cons_append, append_assoc, decodeLoop, vacant, size, kind,
      room, tail, List.take_left, List.drop_left, List.take_left' sized, ne_eq, not_true_eq_false,
      if_false, if_true]
  | nodePtr ptrPrefix ptr =>
    obtain ⟨short, sized⟩ := encodable
    obtain ⟨size, kind⟩ := nodePtrSecondByte_spec ptrPrefix.length (by omega)
    obtain ⟨room, tail⟩ := drop_record ptrPrefix sized rest
    simp only [putItemIntoArray, cons_append, append_assoc, decodeLoop, vacant, size, kind,
      room, tail, List.take_left, List.drop_left, List.take_left' sized, ne_eq, not_true_eq_false,
      if_false, false_eq_true]

theorem Node.setItem_self {item : Item} (same : node.item index = item) :
    node.setItem index item = node := by
  apply Node.ext
  intro other
  rw [Node.item_setItem]
  split
  · rename_i eq
    rw [eq, same]
  · rfl

theorem putItemIntoArray_length_pos (index : UInt8) (inhabited : item ≠ .emptyItem) :
    0 < (putItemIntoArray index item).length := by
  cases item <;> simp_all [putItemIntoArray]

/-- The loop fills the slots of the records that are left; nothing has been put
there yet because every index is encoded once. -/
theorem decodeLoop_items (encodable : node.Encodable) {left : List UInt8}
    (distinct : left.Nodup) (vacant : ∀ index ∈ left, filled.item index = .emptyItem)
    (enough : (left.flatMap fun index => putItemIntoArray index (node.item index)).length ≤ fuel) :
    decodeLoop fuel (left.flatMap fun index => putItemIntoArray index (node.item index)) filled =
      .ok (left.foldl (fun filled index => filled.setItem index (node.item index)) filled) := by
  induction left generalizing filled fuel with
  | nil => cases fuel <;> rfl
  | cons index left ih =>
    rw [nodup_cons] at distinct
    have here := vacant index (by simp)
    have others : ∀ other ∈ left,
        (filled.setItem index (node.item index)).item other = .emptyItem := by
      intro other member
      have different : other ≠ index := fun same => distinct.1 (same ▸ member)
      rw [Node.item_setItem, if_neg different]
      exact vacant other (by simp [member])
    rw [flatMap_cons, length_append] at enough
    rw [flatMap_cons, foldl_cons]
    by_cases hole : node.item index = .emptyItem
    · have skipped : filled.setItem index (node.item index) = filled := by
        rw [hole]
        exact Node.setItem_self here
      rw [skipped] at others ⊢
      simp only [hole, putItemIntoArray, nil_append]
      exact ih distinct.2 others (by omega)
    · have progress := putItemIntoArray_length_pos index hole
      obtain ⟨fuel, rfl⟩ : ∃ less, fuel = less + 1 := ⟨fuel - 1, by omega⟩
      rw [decodeLoop_item (encodable index) hole here]
      exact ih distinct.2 others (by omega)

theorem foldl_setItem_item (items : UInt8 → Item) (left : List UInt8) (filled : Node)
    (index : UInt8) :
    (left.foldl (fun filled index => filled.setItem index (items index)) filled).item index =
      if index ∈ left then items index else filled.item index := by
  induction left generalizing filled with
  | nil => simp
  | cons head left ih =>
    rw [foldl_cons, ih, Node.item_setItem]
    by_cases same : index = head <;> by_cases member : index ∈ left <;> simp [same, member]

theorem indices_nodup : indices.Nodup := by
  refine List.Nodup.map_on ?_ List.nodup_range
  intro i hi j hj same
  rw [mem_range] at hi hj
  have values := congrArg UInt8.toNat same
  simpa [mod_eq_of_lt hi, mod_eq_of_lt hj] using values

theorem mem_indices (index : UInt8) : index ∈ indices := by
  simp only [indices, mem_map, mem_range]
  exact ⟨index.toNat, index.toNat_lt, by simp⟩

theorem decode_encodeBytes (encodable : node.Encodable) : decode (encodeBytes node) = .ok node := by
  have vacant : ∀ index ∈ indices, emptyNode.item index = .emptyItem :=
    fun index _ => item_emptyNode index
  have looped := decodeLoop_items encodable indices_nodup vacant le_rfl
  rw [decode, encodeBytes_eq]
  refine looped.trans (congrArg Except.ok (Node.ext ?_))
  intro index
  rw [foldl_setItem_item, if_pos (mem_indices index)]

theorem encodeBytes_inj (hl : left.Encodable) (hr : right.Encodable)
    (same : encodeBytes left = encodeBytes right) : left = right := by
  have decoded := decode_encodeBytes hl
  rw [same, decode_encodeBytes hr] at decoded
  exact (Except.ok.inj decoded).symm

end F1r3fly.RSpace.History
