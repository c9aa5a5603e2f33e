import F1r3fly.Data.PrefixTreeUpdate
import F1r3fly.RSpace.History.RadixTreeState

/-! The radix tree refines the path-compressed tree: an abstract tree has one
item, its nodes are found in the store by their hash, and the methods compute
the item of the abstract tree with the actions applied. -/
namespace F1r3fly.RSpace.History

open Function Assuming PrefixTree

abbrev KeyTree := Tree UInt8 ByteVector

theorem commonPrefix_go (common b1 b2 : ByteVector) :
    commonPrefix.go common b1 b2 = (common ++ (split b1 b2).1, (split b1 b2).2) := by
  induction b1 generalizing common b2 with
  | nil => simp [commonPrefix.go, split]
  | cons head b1 ih =>
    cases b2 with
    | nil => simp [commonPrefix.go, split]
    | cons other b2 =>
      by_cases same : head = other
      · simp [commonPrefix.go, split, same, ih]
      · simp [commonPrefix.go, split, same]

theorem commonPrefix_eq_split (b1 b2 : ByteVector) : commonPrefix b1 b2 = split b1 b2 := by
  rw [commonPrefix, commonPrefix_go]
  rfl

theorem filter_indices_single [DecidablePred p] (here : p a) (others : ∀ b, b ≠ a → ¬ p b) :
    indices.filter p = [a] := by
  have same : ∀ b ∈ indices, decide (p b) = (b == a) := by
    intro b _
    by_cases eq : b = a
    · simp [eq, here]
    · simp [eq, others b eq]
  rw [List.filter_congr same, List.filter_beq]
  rw [List.count_eq_one_of_mem indices_nodup (mem_indices a)]
  rfl

theorem exists_two_of_mem (ha : a ∈ items) (hb : b ∈ items) (different : a ≠ b) :
    ∃ c d rest, items = c :: d :: rest := by
  match items with
  | [] => simp at ha
  | [c] =>
    rw [mem_singleton] at ha hb
    exact absurd (ha.trans hb.symm) different
  | c :: d :: rest => exact ⟨c, d, rest, rfl⟩

variable [Blake2b]

def itemOf : KeyTree → Item
  | .empty => .emptyItem
  | .leaf segment value => .leaf segment value
  | .branch segment children =>
    .nodePtr segment (Blake2b.hash (encodeBytes (Node.ofItems fun i => itemOf (children i))))

def nodeOf (children : UInt8 → KeyTree) : Node := Node.ofItems fun i => itemOf (children i)

theorem itemOf_branch (segment : ByteVector) (children : UInt8 → KeyTree) :
    itemOf (.branch segment children) =
      .nodePtr segment (Blake2b.hash (encodeBytes (nodeOf children))) := rfl

@[simp] theorem item_nodeOf (children : UInt8 → KeyTree) (index : UInt8) :
    (nodeOf children).item index = itemOf (children index) := by
  simp [nodeOf]

theorem itemOf_eq_emptyItem : itemOf tree = .emptyItem ↔ tree = .empty := by
  cases tree <;> simp [itemOf]

theorem nodeOf_update (children : UInt8 → KeyTree) (index : UInt8) (tree : KeyTree) :
    nodeOf (Function.update children index tree) =
      (nodeOf children).setItem index (itemOf tree) := by
  apply Node.ext
  intro other
  rw [Node.item_setItem, item_nodeOf, item_nodeOf]
  by_cases same : other = index
  · rw [if_pos same, same, update_self]
  · rw [if_neg same, update_of_ne same]

theorem nodeOf_empty : nodeOf (fun _ => .empty) = emptyNode := by
  apply Node.ext
  intro index
  rw [item_nodeOf, item_emptyNode]
  rfl

theorem nodeOf_pair (a b : UInt8) (left right : KeyTree) :
    nodeOf (pair a left b right) =
      (emptyNode.setItem a (itemOf left)).setItem b (itemOf right) := by
  rw [pair, nodeOf_update, nodeOf_update, nodeOf_empty]

/-- Every node below the item is available under `held`. -/
def Stored (held : ByteVector → Prop) : KeyTree → Prop
  | .empty => True
  | .leaf _ _ => True
  | .branch _ children => held (encodeBytes (nodeOf children)) ∧ ∀ i, Stored held (children i)

theorem Stored.mono (stored : Stored held tree) (more : ∀ bytes, held bytes → held' bytes) :
    Stored held' tree := by
  induction tree with
  | empty => trivial
  | leaf => trivial
  | branch segment children ih =>
    obtain ⟨here, below⟩ := stored
    exact ⟨more _ here, fun i => ih i (below i)⟩

theorem Stored.prepend (stored : Stored held tree) (front : ByteVector) :
    Stored held (prepend front tree) := by
  cases tree with
  | empty => trivial
  | leaf => trivial
  | branch => exact stored

theorem stored_update (others : ∀ i, Stored held (children i)) (here : Stored held tree)
    (index : UInt8) (i : UInt8) : Stored held (Function.update children index tree i) :=
  (forall_update_iff children fun _ => Stored held).mpr ⟨here, fun i _ => others i⟩ i

/-- The abstract trees the history builds: keys of one length and 32-byte values. -/
structure Fits (n : Nat) (tree : KeyTree) : Prop where
  canonical : Canonical n tree
  sized : ∀ word value, lookup tree word = some value → value.length = defSize

omit [Blake2b] in
theorem Fits.child {segment : ByteVector} (fits : Fits n (.branch segment children))
    (index : UInt8) :
    Fits (n - segment.length - 1) (children index) := by
  refine ⟨fits.canonical.2.1 index, ?_⟩
  intro word value found
  apply fits.sized (segment ++ index :: word)
  rw [lookup_branch_append]
  exact found

omit [Blake2b] in
theorem Fits.of_prepend (fits : Fits n (prepend front tree)) : Fits (n - front.length) tree := by
  refine ⟨fits.canonical.of_prepend, ?_⟩
  intro word value found
  exact fits.sized (front ++ word) value (lookup_prepend_iff.mpr ⟨word, rfl, found⟩)

theorem Fits.encodable (fits : Fits n tree) (small : n ≤ 127) : (itemOf tree).Encodable := by
  cases tree with
  | empty => trivial
  | leaf segment value =>
    have length : segment.length = n := fits.canonical
    exact ⟨by omega, fits.sized segment value (by simp [lookup])⟩
  | branch segment children =>
    have short : segment.length < n := fits.canonical.1
    exact ⟨by omega, Blake2b.length_hash _⟩

theorem encodable_nodeOf (small : n ≤ 127) (fits : ∀ i, Fits n (children i)) :
    (nodeOf children).Encodable := by
  intro index
  rw [item_nodeOf]
  exact (fits index).encodable small

omit [Blake2b] in
theorem Fits.insert (fits : Fits n tree) (length : word.length = n)
    (sized : value.length = defSize) : Fits n (insert tree word value) := by
  obtain ⟨canonical, changed⟩ := insert_spec fits.canonical length value
  refine ⟨canonical, ?_⟩
  intro other found held
  rw [changed] at held
  split at held
  · rw [← Option.some.inj held]; exact sized
  · exact fits.sized other found held

omit [Blake2b] in
theorem Fits.erase (fits : Fits n tree) (word : ByteVector) : Fits n (erase tree word) := by
  obtain ⟨canonical, changed⟩ := erase_spec fits.canonical word
  refine ⟨canonical, ?_⟩
  intro other found held
  rw [changed] at held
  split at held
  · contradiction
  · exact fits.sized other found held

theorem itemOf_inj (coherent : Coherent s) (free : NoCollision s) (small : n ≤ 127)
    (hl : Fits n left) (hr : Fits n right) (sl : Stored (Written s) left)
    (sr : Stored (Written s) right) (same : itemOf left = itemOf right) : left = right := by
  induction left generalizing n right with
  | empty => exact (itemOf_eq_emptyItem.mp same.symm).symm
  | leaf segment value =>
    cases right with
    | empty => simp [itemOf] at same
    | leaf other held => simpa [itemOf] using same
    | branch other children => simp [itemOf] at same
  | branch segment children ih =>
    cases right with
    | empty | leaf other held => simp [itemOf] at same
    | branch other others =>
      rw [itemOf_branch, itemOf_branch, Item.nodePtr.injEq] at same
      obtain ⟨rfl, hashes⟩ := same
      obtain ⟨writtenLeft, belowLeft⟩ := sl
      obtain ⟨writtenRight, belowRight⟩ := sr
      have bytes : encodeBytes (nodeOf children) = encodeBytes (nodeOf others) :=
        free _ (coherent.written_hashed writtenLeft) _ (coherent.written_hashed writtenRight) hashes
      have below : n - segment.length - 1 ≤ 127 := by omega
      have nodes := encodeBytes_inj (encodable_nodeOf below hl.child)
        (encodable_nodeOf below hr.child) bytes
      have childrenEq : children = others := by
        funext i
        refine ih i below (hl.child i) (hr.child i) (belowLeft i) (belowRight i) ?_
        rw [← item_nodeOf, nodes, item_nodeOf]
      rw [childrenEq]

theorem filter_nodeOf (children : UInt8 → KeyTree) :
    (nodeOf children).toList.filter (· ≠ .emptyItem) =
      (indices.filter fun i => itemOf (children i) ≠ .emptyItem).map fun i =>
        itemOf (children i) := by
  rw [Node.toList_eq, List.filter_map]
  simp only [comp_def, item_nodeOf]
  exact map_congr_left fun i _ => item_nodeOf children i

theorem idxOf_single (inhabited : children a ≠ .empty) (others : ∀ b, b ≠ a → children b = .empty) :
    (nodeOf children).toList.idxOf (itemOf (children a)) = a.toNat := by
  have member : itemOf (children a) ∈ (nodeOf children).toList := by
    rw [Node.toList_eq, mem_map]
    exact ⟨a, mem_indices a, item_nodeOf children a⟩
  have bound := List.idxOf_lt_length_of_mem member
  have small : (nodeOf children).toList.idxOf (itemOf (children a)) < 256 := by simpa using bound
  have there := List.getElem_idxOf bound
  generalize (nodeOf children).toList.idxOf (itemOf (children a)) = k at bound small there ⊢
  have found : itemOf (children (UInt8.ofNat k)) = itemOf (children a) := by
    rw [← there, ← item_nodeOf]
    simp [Node.item, mod_eq_of_lt small]
  have index : UInt8.ofNat k = a := by
    by_contra apart
    rw [others _ apart] at found
    exact inhabited (itemOf_eq_emptyItem.mp found.symm)
  rw [← index]
  simp [mod_eq_of_lt small]

section Save

variable [DashMapOrder]

section

variable {children : UInt8 → KeyTree} (small : n ≤ 127) (fits : ∀ i, Fits n (children i))
  (stored : ∀ i, Stored (Written s) (children i)) (coherent : Coherent s) (segment : ByteVector)

include small fits stored coherent

theorem saveBranch_spec :
    Yields NoCollision (do
      let ptr ← saveNode (nodeOf children)
      pure (.nodePtr segment ptr) : RadixM Item) s fun item t =>
        item = itemOf (.branch segment children) ∧
        Stored (Written t) (.branch segment children) ∧ Reached s t := by
  refine .bind (saveNode_spec (encodable_nodeOf small fits) coherent) (fun _ => .pure _) ?_
  rintro ptr t _ ⟨rfl, written, reached⟩
  exact .pure ⟨rfl, ⟨written, fun i => (stored i).mono reached.extended.written⟩, reached⟩

theorem saveCompact_spec :
    Yields NoCollision (saveNodeAndCreateItem (nodeOf children) segment true) s fun item t =>
      item = itemOf (compact segment children) ∧
      Stored (Written t) (compact segment children) ∧ Reached s t := by
  rcases children_cases children with vacant | ⟨a, inhabited, others⟩ | ⟨a, b, different, ha, hb⟩
  · have none : (nodeOf children).toList.filter (· ≠ .emptyItem) = [] := by
      rw [filter_nodeOf]
      simp [vacant, itemOf]
    simp only [saveNodeAndCreateItem, if_true, none, List.take_nil, compact_empty vacant]
    exact .pure ⟨rfl, trivial, coherent, .refl s⟩
  · have one : (nodeOf children).toList.filter (· ≠ .emptyItem) = [itemOf (children a)] := by
      rw [filter_nodeOf, filter_indices_single (a := a)]
      · rfl
      · rwa [ne_eq, itemOf_eq_emptyItem]
      · intro b apart
        simp [others b apart, itemOf]
    have index : UInt8.ofNat ((nodeOf children).toList.idxOf (itemOf (children a))) = a := by
      rw [idxOf_single inhabited others]
      simp
    simp only [saveNodeAndCreateItem, if_true, one, List.take_succ_cons, List.take_nil, index,
      compact_single inhabited others]
    refine .pure ⟨?_, (stored a).prepend _, coherent, .refl s⟩
    cases children a <;> rfl
  · obtain ⟨first, second, rest, several⟩ :
        ∃ c d rest, indices.filter (fun i => itemOf (children i) ≠ .emptyItem) =
          c :: d :: rest := by
      have memberA : a ∈ indices.filter fun i => itemOf (children i) ≠ .emptyItem := by
        simpa [mem_indices, itemOf_eq_emptyItem] using ha
      have memberB : b ∈ indices.filter fun i => itemOf (children i) ≠ .emptyItem := by
        simpa [mem_indices, itemOf_eq_emptyItem] using hb
      exact exists_two_of_mem memberA memberB different
    simp only [saveNodeAndCreateItem, if_true, filter_nodeOf, several, map_cons,
      List.take_succ_cons, List.take_zero, compact_branch different ha hb]
    exact saveBranch_spec small fits stored coherent segment

/-- The tree over new children, compacted where the source asks for it. -/
noncomputable def rebuild (compaction : Bool) (segment : ByteVector)
    (children : UInt8 → KeyTree) : KeyTree :=
  if compaction then compact segment children else .branch segment children

theorem saveNodeAndCreateItem_spec (compaction : Bool) :
    Yields NoCollision (saveNodeAndCreateItem (nodeOf children) segment compaction) s fun item t =>
      item = itemOf (rebuild compaction segment children) ∧
      Stored (Written t) (rebuild compaction segment children) ∧ Reached s t := by
  cases compaction with
  | true => exact saveCompact_spec small fits stored coherent segment
  | false => exact saveBranch_spec small fits stored coherent segment

end

theorem loadChild_spec (small : n ≤ 127) (fits : ∀ i, Fits n (children i))
    (disk : OnDisk s (encodeBytes (nodeOf children))) (coherent : Coherent s)
    (free : NoCollision s) :
    Yields NoCollision (loadNode (Blake2b.hash (encodeBytes (nodeOf children))) false) s
      fun node t => node = nodeOf children ∧ Reached s t ∧ t.hashed = s.hashed :=
  loadNode_spec coherent free disk (decode_encodeBytes (encodable_nodeOf small fits)) false

end Save

/-- What a method reports about a subtree: its new item, or that it has not changed. -/
def Reports (result : Option Item) (old new : KeyTree) : Prop :=
  result = some (itemOf new) ∨ (result = none ∧ new = old)

section Update

theorem Reached.onDisk (reached : Reached s t) (stored : Stored (OnDisk s) tree) :
    Stored (OnDisk t) tree :=
  stored.mono fun _ held => reached.extended.onDisk held

theorem Stored.written (stored : Stored (OnDisk s) tree) : Stored (Written s) tree :=
  stored.mono fun _ held => .inl held

variable [DashMapOrder]

/-- Both methods go through a pointer in the same way: load the node, change one
of its items, save the node. -/
theorem descend_spec {segment : ByteVector} {body : Item → RadixM (Option Item)}
    (fits : Fits n (.branch segment children)) (small : n ≤ 127)
    (stored : Stored (OnDisk s) (.branch segment children)) (coherent : Coherent s)
    (free : NoCollision s) (index : UInt8) (changedFits : Fits (n - segment.length - 1) changed)
    (inherits : ∀ item, Inherits NoCollision (body item))
    (child : ∀ t, Reached s t → NoCollision t →
      Yields NoCollision (body (itemOf (children index))) t fun result u =>
        Reached t u ∧ Stored (Written u) changed ∧ Reports result (children index) changed)
    (compaction : Bool) :
    Yields NoCollision (do
      let childNode ← loadNode (Blake2b.hash (encodeBytes (nodeOf children))) false
      match ← body (childNode.item index) with
      | some childItem =>
        some <$> saveNodeAndCreateItem (childNode.setItem index childItem) segment compaction
      | none => pure none : RadixM (Option Item)) s fun result t =>
        Reached s t ∧
        Stored (Written t) (rebuild compaction segment (Function.update children index changed)) ∧
        Reports result (.branch segment children)
          (rebuild compaction segment (Function.update children index changed)) := by
  obtain ⟨disk, below⟩ := stored
  have bound : n - segment.length - 1 ≤ 127 := by omega
  have finish (result : Option Item) (node : Node) : Inherits NoCollision
      (match result with
        | some childItem =>
          some <$> saveNodeAndCreateItem (node.setItem index childItem) segment compaction
        | none => pure none : RadixM (Option Item)) := by
    cases result with
    | some childItem => exact .map _ (inherits_saveNodeAndCreateItem _ _ _)
    | none => exact .pure _
  refine .bind (loadChild_spec bound fits.child disk coherent free)
    (fun node => .bind (inherits _) fun result => finish result node) ?_
  rintro _ t freeT ⟨rfl, loaded, _⟩
  rw [item_nodeOf]
  refine .bind (child t loaded freeT) (fun result => finish result _) ?_
  rintro result u _ ⟨updated, held, report⟩
  have reached := loaded.trans updated
  have kept : ∀ i, Stored (Written u) (children i) := fun i => (reached.onDisk (below i)).written
  rcases report with rfl | ⟨rfl, same⟩
  · have newFits : ∀ i, Fits (n - segment.length - 1) (Function.update children index changed i) :=
      (forall_update_iff children fun _ => Fits _).mpr ⟨changedFits, fun i _ => fits.child i⟩
    dsimp only
    rw [← nodeOf_update]
    refine .map ((saveNodeAndCreateItem_spec bound newFits (stored_update kept held index)
      reached.coherent segment compaction).weaken ?_)
    rintro item v ⟨rfl, stored, saved⟩
    exact ⟨reached.trans saved, stored, .inl rfl⟩
  · have unchanged : rebuild compaction segment (Function.update children index changed) =
        .branch segment children := by
      rw [same, update_eq_self, rebuild]
      split
      · exact fits.canonical.compact_eq
      · rfl
    rw [unchanged]
    exact .pure ⟨reached, ⟨.inl (reached.extended.onDisk disk), kept⟩, .inr ⟨rfl, rfl⟩⟩

/-- A new node over an old subtree and one new leaf. -/
theorem saveFork_spec (tree : KeyTree) (small : n ≤ 127) (fits : Fits n tree)
    (stored : Stored (Written s) tree) (coherent : Coherent s) (length : fresh.length = n)
    (sized : value.length = defSize) (a b : UInt8) (front : ByteVector) :
    Yields NoCollision (some <$> saveNodeAndCreateItem
      ((emptyNode.setItem a (itemOf tree)).setItem b (.leaf fresh value)) front false) s
      fun result t =>
        Reached s t ∧ Stored (Written t) (.branch front (pair a tree b (.leaf fresh value))) ∧
        result = some (itemOf (.branch front (pair a tree b (.leaf fresh value)))) := by
  have leafFits : Fits n (.leaf fresh value) := by
    refine ⟨length, ?_⟩
    intro word held found
    simp only [lookup] at found
    split at found
    · rw [← Option.some.inj found]; exact sized
    · contradiction
  have emptyFits : Fits n .empty := ⟨trivial, by simp [lookup]⟩
  have childFits : ∀ i, Fits n (pair a tree b (.leaf fresh value) i) :=
    forall_pair (Fits n) emptyFits fits leafFits
  have childStored : ∀ i, Stored (Written s) (pair a tree b (.leaf fresh value) i) :=
    forall_pair (Stored (Written s)) trivial stored trivial
  refine .map ?_
  rw [show Item.leaf fresh value = itemOf (.leaf fresh value) from rfl, ← nodeOf_pair]
  refine (saveBranch_spec small childFits childStored coherent front).weaken ?_
  rintro item t ⟨rfl, held, reached⟩
  exact ⟨reached, held, rfl⟩

theorem update_spec (fits : Fits n tree) (small : n ≤ 127) (stored : Stored (OnDisk s) tree)
    (coherent : Coherent s) (free : NoCollision s) (length : word.length = n)
    (sized : value.length = defSize) (enough : n < fuel) :
    Yields NoCollision (update fuel (itemOf tree) word value) s fun result t =>
      Reached s t ∧ Stored (Written t) (insert tree word value) ∧
      Reports result tree (insert tree word value) := by
  obtain ⟨fuel, rfl⟩ : ∃ less, fuel = less + 1 := ⟨fuel - 1, by omega⟩
  induction tree generalizing n s word fuel with
  | empty => exact .pure ⟨⟨coherent, .refl s⟩, trivial, .inl rfl⟩
  | leaf segment held =>
    have lengths : segment.length = word.length := Eq.trans fits.canonical length.symm
    have checked : ensure (segment.length = word.length)
        "Radix Tree: All Radix keys should be same length." = .ok () := by
      simp [ensure, lengths]
    simp only [itemOf, update, checked, lift_ok, pure_bind]
    rcases eq_or_fork lengths with rfl | ⟨front, a, b, l, r, different, rfl, rfl⟩
    · have whole : split segment segment = (segment, [], []) := by
        simpa using split_front segment []
      have inserted : insert (.leaf segment held) segment value = .leaf segment value := by
        rw [PrefixTree.insert, whole]
      rw [if_pos rfl, inserted]
      split
      · rename_i same
        exact .pure ⟨⟨coherent, .refl s⟩, trivial, .inr ⟨rfl, by rw [same]⟩⟩
      · exact .pure ⟨⟨coherent, .refl s⟩, trivial, .inl rfl⟩
    · have apart : front ++ a :: l ≠ front ++ b :: r := by simp [different]
      have inserted : insert (.leaf (front ++ a :: l) held) (front ++ b :: r) value =
          .branch front (pair a (.leaf l held) b (.leaf r value)) := by
        rw [PrefixTree.insert, split_fork different]
      have joined : Tree.leaf (front ++ a :: l) held = prepend (front ++ [a]) (.leaf l held) := by
        simp [prepend]
      rw [joined] at fits
      simp only [length_append, length_cons] at lengths length
      rw [if_neg apart, commonPrefix_eq_split, split_fork (Ne.symm different), inserted]
      refine (saveFork_spec (.leaf l held) (by simp; omega) fits.of_prepend trivial coherent
        (by simp; omega) sized a b front).weaken ?_
      rintro result t ⟨reached, held, rfl⟩
      exact ⟨reached, held, .inl rfl⟩
  | branch segment children ih =>
    have short : segment.length < word.length := by
      rw [length]
      exact fits.canonical.1
    have checked : ensure (segment.length < word.length)
        "Radix Tree: Radix key should be longer than NodePtr key." = .ok () := by
      simp [ensure, short]
    simp only [itemOf_branch, update, checked, lift_ok, pure_bind, commonPrefix_eq_split]
    rcases split_cases segment word with ⟨rest, rfl⟩ | ⟨rest, rfl⟩ | fork
    · cases rest with
      | nil => simp at short
      | cons b fresh =>
        have width : fresh.length = n - segment.length - 1 := by
          simp only [length_append, length_cons] at length; omega
        have inserted : insert (.branch segment children) (segment ++ b :: fresh) value =
            .branch segment (Function.update children b (insert (children b) fresh value)) := by
          rw [PrefixTree.insert, split_front]
        rw [split_back, inserted]
        obtain ⟨fuel, rfl⟩ : ∃ less, fuel = less + 1 := ⟨fuel - 1, by omega⟩
        have bound : n - segment.length - 1 ≤ 127 := by omega
        refine descend_spec fits small stored coherent free b
          ((fits.child b).insert width sized) (fun item => inherits_update _ item fresh value)
            ?_ false
        intro t reached freeT
        exact ih b (fits.child b) bound (reached.onDisk (stored.2 b)) reached.coherent freeT width
          fuel (by omega)
    · rw [length_append] at short
      omega
    · obtain ⟨front, a, b, l, r, different, rfl, rfl⟩ := fork
      have inserted : insert (.branch (front ++ a :: l) children) (front ++ b :: r) value =
          .branch front (pair a (.branch l children) b (.leaf r value)) := by
        rw [PrefixTree.insert, split_fork different]
      have joined : Tree.branch (front ++ a :: l) children =
          prepend (front ++ [a]) (.branch l children) := by
        simp [prepend]
      have oldStored : Stored (Written s) (.branch l children) := stored.written
      rw [joined] at fits
      simp only [length_append, length_cons] at length
      rw [split_fork (Ne.symm different), inserted]
      refine (saveFork_spec (.branch l children) (by simp; omega) fits.of_prepend oldStored coherent
        (by simp; omega) sized a b front).weaken ?_
      rintro result t ⟨reached, held, rfl⟩
      exact ⟨reached, held, .inl rfl⟩

theorem delete_spec (fits : Fits n tree) (small : n ≤ 127) (stored : Stored (OnDisk s) tree)
    (coherent : Coherent s) (free : NoCollision s) (length : word.length = n) (enough : n < fuel) :
    Yields NoCollision (delete fuel (itemOf tree) word) s fun result t =>
      Reached s t ∧ Stored (Written t) (erase tree word) ∧
        Reports result tree (erase tree word) := by
  obtain ⟨fuel, rfl⟩ : ∃ less, fuel = less + 1 := ⟨fuel - 1, by omega⟩
  induction tree generalizing n s word fuel with
  | empty => exact .pure ⟨⟨coherent, .refl s⟩, trivial, .inr ⟨rfl, rfl⟩⟩
  | leaf segment held =>
    simp only [itemOf, delete, PrefixTree.erase, eq_comm (a := segment)]
    split
    · exact .pure ⟨⟨coherent, .refl s⟩, trivial, .inl rfl⟩
    · exact .pure ⟨⟨coherent, .refl s⟩, trivial, .inr ⟨rfl, rfl⟩⟩
  | branch segment children ih =>
    simp only [itemOf_branch, delete, commonPrefix_eq_split]
    -- Off the pointer's own path nothing is found and nothing is erased.
    have missed (outside : ¬ ∃ letter rest, word = segment ++ letter :: rest) :
        Yields NoCollision (pure none : RadixM (Option Item)) s fun result t =>
          Reached s t ∧ Stored (Written t) (erase (.branch segment children) word) ∧
          Reports result (.branch segment children) (erase (.branch segment children) word) := by
      rw [erase_branch_outside outside]
      exact .pure ⟨⟨coherent, .refl s⟩, stored.written, .inr ⟨rfl, rfl⟩⟩
    rcases split_cases segment word with ⟨rest, rfl⟩ | ⟨rest, rfl⟩ | fork
    · rw [split_back]
      cases rest with
      | nil => exact missed (by simp)
      | cons b fresh =>
        have width : fresh.length = n - segment.length - 1 := by
          simp only [length_append, length_cons] at length; omega
        have dropped : (segment ++ b :: fresh).dropPrefix? segment = some (b :: fresh) :=
          dropPrefix_iff.mpr rfl
        have erased : erase (.branch segment children) (segment ++ b :: fresh) =
            rebuild true segment (Function.update children b (erase (children b) fresh)) := by
          simp only [PrefixTree.erase, dropped, rebuild, if_true]
        have short : segment.length < n := fits.canonical.1
        obtain ⟨fuel, rfl⟩ : ∃ less, fuel = less + 1 := ⟨fuel - 1, by omega⟩
        have bound : n - segment.length - 1 ≤ 127 := by omega
        rw [erased]
        refine descend_spec fits small stored coherent free b ((fits.child b).erase fresh)
          (fun item => inherits_delete _ item fresh) ?_ true
        intro t reached freeT
        exact ih b (fits.child b) bound (reached.onDisk (stored.2 b)) reached.coherent freeT width
          fuel (by omega)
    · rw [split_front]
      simp only [List.isEmpty_nil, Bool.or_true, if_true]
      exact missed (by simp)
    · obtain ⟨front, a, b, l, r, different, rfl, rfl⟩ := fork
      rw [split_fork (Ne.symm different)]
      exact missed (by simp [Ne.symm different])

theorem readAtCached_spec (fits : ∀ i, Fits n (children i)) (small : n ≤ 127)
    (stored : ∀ i, Stored (OnDisk s) (children i)) (coherent : Coherent s) (free : NoCollision s)
    (enough : word.length ≤ fuel) :
    Yields NoCollision (readAtCached fuel (nodeOf children) word) s fun result t =>
      result = lookupFamily children word ∧ Reached s t ∧ t.hashed = s.hashed := by
  induction fuel generalizing n s children word with
  | zero =>
    have vacant : word = [] := length_eq_zero_iff.mp (by omega)
    subst vacant
    exact .pure ⟨rfl, ⟨coherent, .refl s⟩, rfl⟩
  | succ fuel ih =>
    have here : Reached s s := ⟨coherent, .refl s⟩
    cases word with
    | nil => exact .pure ⟨rfl, here, rfl⟩
    | cons head tail =>
      simp only [readAtCached, item_nodeOf, lookupFamily]
      have itemFits := fits head
      have itemStored := stored head
      generalize children head = tree at itemFits itemStored ⊢
      cases tree with
      | empty => exact .pure ⟨rfl, here, rfl⟩
      | leaf segment value =>
        refine .pure ⟨?_, here, rfl⟩
        simp only [lookup, eq_comm]
      | branch segment inner =>
        simp only [itemOf_branch, lookup]
        cases dropped : tail.dropPrefix? segment with
        | none => exact .pure ⟨rfl, here, rfl⟩
        | some rest =>
          cases rest with
          | nil => exact .pure ⟨rfl, here, rfl⟩
          | cons letter rest =>
            obtain ⟨disk, below⟩ := itemStored
            have shorter : (letter :: rest).length ≤ fuel := by
              have joined := dropPrefix_iff.mp dropped
              have lengths := congrArg List.length joined
              simp only [length_append, length_cons] at lengths enough ⊢
              omega
            refine .bind (loadChild_spec (by omega) itemFits.child disk coherent free)
              (fun _ => inherits_readAtCached _ _ _) ?_
            rintro _ t freeT ⟨rfl, loaded, hashed⟩
            refine (ih itemFits.child (by omega) (fun i => loaded.onDisk (below i)) loaded.coherent
              freeT shorter).weaken ?_
            rintro result u ⟨rfl, reached, hashed'⟩
            exact ⟨rfl, loaded.trans reached, hashed'.trans hashed⟩

end Update

end F1r3fly.RSpace.History
