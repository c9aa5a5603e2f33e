import F1r3fly.Data.Paging
import F1r3fly.RSpace.History.RadixExport
import F1r3fly.RSpace.History.RadixTreeRefinement

/-! What an export has left to list from a path, as one list of leaves and nodes. -/
namespace F1r3fly.RSpace.History

open Paging

structure ExportedLeaf where
  leafPrefix : ByteVector
  value : ByteVector

structure ExportedNode where
  nodePrefix : ByteVector
  key : ByteVector
  value : ByteVector

abbrev Exported := ExportedLeaf ⊕ ExportedNode

namespace Exported

abbrev leaves (items : List Exported) : List ExportedLeaf := items.filterMap Sum.getLeft?

abbrev nodes (items : List Exported) : List ExportedNode := items.filterMap Sum.getRight?

/-- Only nodes count for the sizes of pages. -/
abbrev isNode (item : Exported) : Bool := item.isRight

theorem isNode_marks (item : Exported) : isNode item = (item.getRight?).isSome := by
  cases item <;> rfl

end Exported

open Exported

/-- A node whose descendants can all be loaded. The tree is finite. -/
inductive StoredTree (get : NodeDataSource) : ByteVector → Prop where
  | node {hash bytes : ByteVector} {decoded : Node} (found : get hash = some bytes)
      (decodes : decode bytes = .ok decoded)
      (children : ∀ index ptrPrefix ptr, decoded.item index = .nodePtr ptrPrefix ptr →
        StoredTree get ptr) :
      StoredTree get hash

def ChildrenStored (get : NodeDataSource) (node : Node) : Prop :=
  ∀ index ptrPrefix ptr, node.item index = .nodePtr ptrPrefix ptr → StoredTree get ptr

def nextIndex (last : Option UInt8) : Nat := (last.map fun byte => byte.toNat + 1).getD 0

@[simp] theorem nextIndex_none : nextIndex none = 0 := rfl

@[simp] theorem nextIndex_some (byte : UInt8) : nextIndex (some byte) = byte.toNat + 1 := rfl

theorem nextIndex_le (last : Option UInt8) : nextIndex last ≤ numItems := by
  cases last with
  | none => simp
  | some byte => exact byte.toNat_lt

section Search

variable {settings : ExportDataSettings} {node : Node}

def IsNodePtr : Item → Prop
  | .nodePtr _ _ => True
  | _ => False

def Passed (settings : ExportDataSettings) : Item → Prop
  | .emptyItem => True
  | .leaf _ _ => (settings.flagLeafPrefixes || settings.flagLeafValues) = false
  | .nodePtr _ _ => False

theorem exists_index_of_lt (within : position < numItems) :
    ∃ index : UInt8, index.toNat = position :=
  ⟨UInt8.ofNat position, by rw [UInt8.toNat_ofNat']; exact mod_eq_of_lt within⟩

theorem last_eq_of_nextIndex (done : nextIndex last = numItems) : last = some 0xFF := by
  cases last with
  | none => cases done
  | some byte =>
    exact congrArg some (UInt8.toNat_inj.mp (Nat.succ.inj done))

theorem find_end (done : nextIndex last = numItems) (fuel : Nat) :
    findNextNonEmptyItem settings node fuel last = none := by
  cases fuel with
  | zero => rfl
  | succ fuel => simp [findNextNonEmptyItem, last_eq_of_nextIndex done]

theorem find_here (here : index.toNat = nextIndex last) (fuel : Nat) :
    (Passed settings (node.item index) →
      findNextNonEmptyItem settings node (fuel + 1) last =
        findNextNonEmptyItem settings node fuel (some index)) ∧
    (¬ Passed settings (node.item index) →
      findNextNonEmptyItem settings node (fuel + 1) last = some (index, node.item index)) := by
  have notLast : last ≠ some 0xFF := by
    rintro rfl
    exact absurd index.toNat_lt (by rw [here]; decide)
  have current : UInt8.ofNat ((last.map fun byte => byte.toNat + 1).getD 0) = index := by
    rw [← UInt8.ofNat_toNat (x := index), here]
    rfl
  simp only [findNextNonEmptyItem, if_neg notLast, current]
  cases item : node.item index with
  | emptyItem => simp [Passed]
  | leaf leafPrefix value =>
    by_cases exported : (settings.flagLeafPrefixes || settings.flagLeafValues)
    · simp only [Passed, exported, if_true]
      exact ⟨fun passed => absurd passed (by decide), fun _ => trivial⟩
    · simp [Passed, exported]
  | nodePtr ptrPrefix ptr => simp [Passed]

theorem not_isNodePtr_of_passed (passed : Passed settings item) : ¬ IsNodePtr item := by
  cases item with
  | emptyItem => exact id
  | leaf leafPrefix value => exact id
  | nodePtr ptrPrefix ptr => exact passed.elim

/-- What is found stands in the node, after the last item, and no pointer is passed over. -/
theorem find_some (found : findNextNonEmptyItem settings node fuel last = some (index, item)) :
    item = node.item index ∧ ¬ Passed settings item ∧ nextIndex last ≤ index.toNat ∧
      ∀ i : UInt8, nextIndex last ≤ i.toNat → IsNodePtr (node.item i) → index.toNat ≤ i.toNat := by
  induction fuel generalizing last with
  | zero => cases found
  | succ fuel ih =>
    rcases Nat.eq_or_lt_of_le (nextIndex_le last) with done | within
    · rw [find_end done] at found
      cases found
    obtain ⟨current, here⟩ := exists_index_of_lt within
    by_cases passed : Passed settings (node.item current)
    · rw [(find_here here fuel).1 passed] at found
      obtain ⟨same, kept, after, first⟩ := ih found
      rw [nextIndex_some] at after first
      refine ⟨same, kept, by omega, fun i beyond pointer => ?_⟩
      have different : i ≠ current := by
        rintro rfl
        exact not_isNodePtr_of_passed passed pointer
      have apart : i.toNat ≠ current.toNat := fun equal => different (UInt8.toNat_inj.mp equal)
      exact first i (by omega) pointer
    · rw [(find_here here fuel).2 passed] at found
      cases found
      exact ⟨rfl, passed, by omega, fun i beyond _ => by omega⟩

/-- A search that finds nothing has passed all items. -/
theorem find_none (enough : numItems < fuel + nextIndex last)
    (nothing : findNextNonEmptyItem settings node fuel last = none)
    (beyond : nextIndex last ≤ i.toNat) : ¬ IsNodePtr (node.item i) := by
  induction fuel generalizing last with
  | zero =>
    have bound := nextIndex_le last
    omega
  | succ fuel ih =>
    have bound : i.toNat < numItems := i.toNat_lt
    obtain ⟨current, here⟩ := exists_index_of_lt (Nat.lt_of_le_of_lt beyond bound)
    by_cases passed : Passed settings (node.item current)
    · rw [(find_here here fuel).1 passed] at nothing
      by_cases same : i = current
      · rw [same]
        exact not_isNodePtr_of_passed passed
      · have apart : i.toNat ≠ current.toNat := fun equal => same (UInt8.toNat_inj.mp equal)
        exact ih (by rw [nextIndex_some]; omega) nothing (by rw [nextIndex_some]; omega)
    · rw [(find_here here fuel).2 passed] at nothing
      cases nothing

end Search

section Listing

variable (settings : ExportDataSettings) (get : NodeDataSource)

/-- Everything that an export without an end lists from the path on. -/
inductive Lists : Path → List Exported → Prop where
  | done : Lists [] []
  | up {current : NodeData} {path : Path} {items : List Exported}
      (nothing : findNextNonEmptyItem settings current.decoded (numItems + 1)
        current.lastItemIndex = none)
      (rest : Lists path items) : Lists (current :: path) items
  | leaf {current : NodeData} {path : Path} {items : List Exported} {index : UInt8}
      {leafPrefix value : ByteVector}
      (found : findNextNonEmptyItem settings current.decoded (numItems + 1)
        current.lastItemIndex = some (index, .leaf leafPrefix value))
      (rest : Lists ({ current with lastItemIndex := some index } :: path) items) :
      Lists (current :: path) (.inl ⟨current.nodePrefix ++ index :: leafPrefix, value⟩ :: items)
  | down {current : NodeData} {path : Path} {items : List Exported} {index : UInt8}
      {ptrPrefix ptr bytes : ByteVector} {child : Node}
      (found : findNextNonEmptyItem settings current.decoded (numItems + 1)
        current.lastItemIndex = some (index, .nodePtr ptrPrefix ptr))
      (loaded : get ptr = some bytes) (decodes : decode bytes = .ok child)
      (rest : Lists (⟨current.nodePrefix ++ index :: ptrPrefix, child, none⟩ ::
        { current with lastItemIndex := some index } :: path) items) :
      Lists (current :: path) (.inr ⟨current.nodePrefix ++ index :: ptrPrefix, ptr, bytes⟩ :: items)

/-- A list of an export whose flag is off is emptied when something would be added to it. -/
def extendList {α : Type} (exported : Bool) (old new : List α) : List α :=
  if new.isEmpty then old else if exported then old ++ new else []

theorem extendList_append {α : Type} (exported : Bool) (old first second : List α) :
    extendList exported (extendList exported old first) second =
      extendList exported old (first ++ second) := by
  cases exported <;> cases first <;> cases second <;> simp [extendList]

def ExportData.extend (data : ExportData) (items : List Exported) : ExportData where
  nodePrefixes := extendList settings.flagNodePrefixes data.nodePrefixes
    ((nodes items).map (·.nodePrefix))
  nodeKeys := extendList settings.flagNodeKeys data.nodeKeys ((nodes items).map (·.key))
  nodeValues := extendList settings.flagNodeValues data.nodeValues ((nodes items).map (·.value))
  leafPrefixes := extendList settings.flagLeafPrefixes data.leafPrefixes
    ((leaves items).map (·.leafPrefix))
  leafValues := extendList settings.flagLeafValues data.leafValues ((leaves items).map (·.value))

/-- The prefix an export returns when it stops after a number of nodes. -/
def lastPrefix (path : Path) (items : List Exported) : Nat → Option ByteVector
  | 0 => path.head?.map (·.nodePrefix)
  | count + 1 => (nodes items)[count]?.map (·.nodePrefix)

end Listing

section Loop

variable {settings : ExportDataSettings} {get : NodeDataSource}

theorem ExportData.extend_nil (data : ExportData) : data.extend settings [] = data := rfl

theorem ExportData.extend_cons (data : ExportData) (item : Exported) (items : List Exported) :
    data.extend settings (item :: items) = (data.extend settings [item]).extend settings items := by
  cases item <;> simp only [ExportData.extend, extendList_append] <;> rfl

theorem lastPrefix_of_pos (path path' : Path) (items : List Exported) (positive : 0 < count) :
    lastPrefix path items count = lastPrefix path' items count := by
  obtain ⟨count, rfl⟩ := Nat.exists_eq_succ_of_ne_zero (Nat.ne_zero_of_lt positive)
  rfl

theorem lastPrefix_leaf (path : Path) (leaf : ExportedLeaf) (items : List Exported) (count : Nat) :
    lastPrefix path (.inl leaf :: items) count = lastPrefix path items count := by
  cases count <;> rfl

theorem lastPrefix_node (path above : Path) (child : Node) (node : ExportedNode)
    (items : List Exported) (count : Nat) :
    lastPrefix path (.inr node :: items) (count + 1) =
      lastPrefix (⟨node.nodePrefix, child, none⟩ :: above) items count := by
  cases count <;> rfl

/-- What a computation ends with under any fuel that is large enough. -/
def Settles {α : Type} (run : Nat → Except Failure α) (outcome : Except Failure α) : Prop :=
  ∃ enough, ∀ fuel ≥ enough, run fuel = outcome

theorem Settles.of_eq (same : ∀ fuel, run fuel = outcome) : Settles run outcome :=
  ⟨0, fun fuel _ => same fuel⟩

theorem Settles.bind {α β : Type} {run : Nat → Except Failure α} {value : α}
    {next : Nat → α → Except Failure β} {outcome : Except Failure β}
    (first : Settles run (.ok value)) (second : Settles (fun fuel => next fuel value) outcome) :
    Settles (fun fuel => run fuel >>= next fuel) outcome := by
  obtain ⟨enough, returns⟩ := first
  obtain ⟨more, follows⟩ := second
  refine ⟨enough + more, fun fuel bound => ?_⟩
  dsimp only
  rw [returns fuel (by omega)]
  exact follows fuel (by omega)

abbrev Exports (settings : ExportDataSettings) (get : NodeDataSource) (p : StepData)
    (result : ExportResult) : Prop :=
  Settles (fun fuel => exportLoop settings get fuel p) (.ok result)

theorem Exports.of_last (step : exportStep settings get p = .ok (.inr result)) :
    Exports settings get p result := by
  refine ⟨1, fun fuel bound => ?_⟩
  obtain ⟨fuel, rfl⟩ := Nat.exists_eq_add_of_le' bound
  simp [exportLoop, step, bind, Except.bind]

theorem Exports.of_next (step : exportStep settings get p = .ok (.inl next))
    (rest : Exports settings get next result) : Exports settings get p result := by
  obtain ⟨enough, returns⟩ := rest
  refine ⟨enough + 1, fun fuel bound => ?_⟩
  obtain ⟨fuel, rfl⟩ := Nat.exists_eq_add_of_le' (Nat.le_of_add_left_le bound)
  simp only [exportLoop, step, bind, Except.bind]
  exact returns fuel (by omega)

theorem exportStep_of_more {current : NodeData} {path : Path} {skip take : Nat}
    (more : 0 < skip + take) (data : ExportData) :
    exportStep settings get ⟨current :: path, skip, take, data⟩ =
      ((findNextNonEmptyItem settings current.decoded (numItems + 1) current.lastItemIndex).elim
        (.ok (.inl ⟨path, skip, take, data⟩)) fun found => do
          let next ← addElement settings get ⟨current :: path, skip, take, data⟩ found.1 found.2
            current.decoded current.nodePrefix
          .ok (.inl next)) := by
  have counting : ¬ ((skip : Int) = 0 ∧ (take : Int) = 0) := by omega
  simp only [exportStep, if_neg counting]
  cases findNextNonEmptyItem settings current.decoded (numItems + 1) current.lastItemIndex <;> rfl

theorem exports_stopped {skip take : Nat} (stopped : skip + take = 0) (path : Path)
    (items : List Exported) (data : ExportData) :
    Exports settings get ⟨path, skip, take, data⟩
      (data.extend settings (takeMarked isNode take (dropMarked isNode skip items)),
        lastPrefix path items (skip + take)) := by
  obtain ⟨rfl, rfl⟩ : skip = 0 ∧ take = 0 := by omega
  apply Exports.of_last
  cases path <;> simp [exportStep, lastPrefix, ExportData.extend_nil]

/-- An export takes a page out of what there is to list. -/
theorem exportLoop_spec {path : Path} (lists : Lists settings get path items) (skip take : Nat)
    (data : ExportData) :
    Exports settings get ⟨path, skip, take, data⟩
      (data.extend settings (takeMarked isNode take (dropMarked isNode skip items)),
        lastPrefix path items (skip + take)) := by
  induction lists generalizing skip take data with
  | done =>
    apply Exports.of_last
    cases skip + take <;> simp [exportStep, lastPrefix, ExportData.extend_nil]
  | @up current path items nothing rest ih =>
    rcases Nat.eq_zero_or_pos (skip + take) with stopped | more
    · exact exports_stopped stopped _ _ data
    rw [lastPrefix_of_pos _ path items more]
    refine .of_next ?_ (ih skip take data)
    rw [exportStep_of_more more, nothing]
    rfl
  | @leaf current path items index leafPrefix value found rest ih =>
    rcases Nat.eq_zero_or_pos (skip + take) with stopped | more
    · exact exports_stopped stopped _ _ data
    rw [lastPrefix_leaf,
      lastPrefix_of_pos _ ({ current with lastItemIndex := some index } :: path) items more]
    rcases Nat.eq_zero_or_pos skip with rfl | skipping
    · have taking : 0 < take := by omega
      rw [dropMarked_zero, takeMarked_cons_of_not rfl taking, ExportData.extend_cons]
      have rest := ih 0 take
      simp only [dropMarked_zero] at rest
      refine .of_next ?_ (rest _)
      rw [exportStep_of_more more, found]
      rfl
    · rw [dropMarked_cons_of_not rfl skipping]
      refine .of_next ?_ (ih skip take data)
      rw [exportStep_of_more more, found]
      simp [addElement, addLeaf, skipping, bind, Except.bind]
  | @down current path items index ptrPrefix ptr bytes child found loaded decodes rest ih =>
    rcases Nat.eq_zero_or_pos (skip + take) with stopped | more
    · exact exports_stopped stopped _ _ data
    rcases skip with _ | skip
    · obtain ⟨take, rfl⟩ : ∃ n, take = n + 1 := exists_eq_succ_of_ne_zero (by omega)
      rw [dropMarked_zero, takeMarked_cons_of_marked rfl, ExportData.extend_cons,
        show 0 + (take + 1) = 0 + take + 1 from rfl, lastPrefix_node]
      have rest := ih 0 take
      simp only [dropMarked_zero] at rest
      refine .of_next ?_ (rest _)
      rw [exportStep_of_more more, found]
      simp [addElement, addNodePtr, loaded, decodes, constructNodePtrData, bind, Except.bind,
        ExportData.extend, extendList, nodes, leaves]
    · rw [dropMarked_cons_of_marked rfl, Nat.add_right_comm, lastPrefix_node]
      refine .of_next ?_ (ih skip take data)
      rw [exportStep_of_more more, found]
      simp [addElement, addNodePtr, loaded, decodes, bind, Except.bind]

end Loop

end F1r3fly.RSpace.History
