import F1r3fly.RSpace.History.RadixExportWalk

/-! Exporting page by page: every page resumes from the last prefix of the one before. -/
namespace F1r3fly.RSpace.History

open Option Exported Paging PrefixTree

/-- The pages of an export, put together. A page without a last prefix is the last one. -/
def pagedExport (settings : ExportDataSettings) (get : NodeDataSource) (fuel : Nat)
    (rootHash : ByteVector) : Option ByteVector → List Nat → Except Failure ExportResult
  | lastPrefix, [] => .ok (emptyExportData, lastPrefix)
  | lastPrefix, size :: sizes => do
    let page ← sequentialExport settings get fuel rootHash lastPrefix 0 size
    match page.2 with
    | none => .ok page
    | some _ =>
      let rest ← pagedExport settings get fuel rootHash page.2 sizes
      .ok (page.1.append rest.1, rest.2)

def nextPage (settings : ExportDataSettings) (get : NodeDataSource) (fuel : Nat)
    (rootHash : ByteVector) (lastPrefix : Option ByteVector) (take : Nat) :
    Except Failure ExportResult :=
  if lastPrefix.isNone ∨ take = 0 then .ok (emptyExportData, lastPrefix)
  else sequentialExport settings get fuel rootHash lastPrefix 0 take

section Paths

variable {settings : ExportDataSettings} {get : NodeDataSource} {rootHash : ByteVector}

inductive Spine (get : NodeDataSource) (rootHash : ByteVector) : ByteVector → Path → Prop where
  | root {bytes : ByteVector} {node : Node} (found : get rootHash = some bytes)
      (decodes : decode bytes = .ok node) (last : Option UInt8) :
      Spine get rootHash rootHash [⟨[], node, last⟩]
  | child {hash ptrPrefix ptr bytes : ByteVector} {node child : Node} {nodePrefix : ByteVector}
      {index : UInt8} {path : Path}
      (above : Spine get rootHash hash (⟨nodePrefix, node, some index⟩ :: path))
      (points : node.item index = .nodePtr ptrPrefix ptr) (found : get ptr = some bytes)
      (decodes : decode bytes = .ok child) (last : Option UInt8) :
      Spine get rootHash ptr
        (⟨nodePrefix ++ index :: ptrPrefix, child, last⟩ :: ⟨nodePrefix, node, some index⟩ :: path)

variable {hash bytes nodePrefix ptrPrefix rest : ByteVector} {path : Path}

theorem Spine.at_item (spine : Spine get rootHash hash (current :: path)) (last : Option UInt8) :
    Spine get rootHash hash ({ current with lastItemIndex := last } :: path) := by
  cases spine with
  | root found decodes _ => exact .root found decodes last
  | child above points found decodes _ => exact .child above points found decodes last

theorem Spine.loads (spine : Spine get rootHash hash (current :: path)) :
    ∃ bytes, get hash = some bytes ∧ decode bytes = .ok current.decoded := by
  cases spine with
  | root found decodes _ | child above points found decodes _ => exact ⟨_, found, decodes⟩

theorem commonPrefix_append (front rest : ByteVector) :
    commonPrefix (front ++ rest) front = (front, rest, []) := by
  rw [commonPrefix_eq_split, split_back]

section

variable (found : get hash = some bytes) (decodes : decode bytes = .ok node)
include found decodes

theorem initNodePath_descend (points : node.item index = .nodePtr ptrPrefix ptr) :
    initNodePath get (fuel + 1) ⟨hash, nodePrefix, index :: (ptrPrefix ++ rest), path⟩ =
      initNodePath get fuel ⟨ptr, nodePrefix ++ index :: ptrPrefix, rest,
        ⟨nodePrefix, node, some index⟩ :: path⟩ := by
  simp [initNodePath, found, decodes, points, commonPrefix_append, bind, Except.bind]

theorem initNodePath_arrive : initNodePath get (fuel + 1) ⟨hash, nodePrefix, [], path⟩ =
      .ok (⟨nodePrefix, node, none⟩ :: path) := by
  simp [initNodePath, found, decodes, bind, Except.bind]

theorem initNodePath_no_pointer (noPointer : ¬ IsNodePtr (node.item index)) :
    initNodePath get (fuel + 1) ⟨hash, nodePrefix, index :: rest, path⟩ =
      .error (prefixNotFound ⟨hash, nodePrefix, index :: rest, path⟩) := by
  cases item : node.item index with
  | emptyItem | leaf leafPrefix value =>
    simp [initNodePath, found, decodes, item, bind, Except.bind]
  | nodePtr ptrPrefix ptr =>
    rw [item] at noPointer
    exact (noPointer trivial).elim

end

theorem Spine.initNodePath_eq
    (spine : Spine get rootHash hash (current :: path)) (rest : ByteVector)
    (enough : (current.nodePrefix ++ rest).length < fuel) :
    ∃ left, rest.length < left ∧
      initNodePath get fuel ⟨rootHash, [], current.nodePrefix ++ rest, []⟩ =
        initNodePath get left ⟨hash, current.nodePrefix, rest, path⟩ := by
  generalize whole : current :: path = spinePath at spine
  induction spine generalizing current path rest with
  | root found decodes last =>
    cases whole
    exact ⟨fuel, enough, rfl⟩
  | @child hash ptrPrefix ptr bytes node child nodePrefix index above aboveSpine points found
      decodes last ih =>
    cases whole
    have longer : (nodePrefix ++ index :: (ptrPrefix ++ rest)).length < fuel := by
      simpa [Nat.add_assoc] using enough
    obtain ⟨left, more, same⟩ := ih (index :: (ptrPrefix ++ rest)) longer rfl
    obtain ⟨aboveBytes, aboveFound, aboveDecodes⟩ := aboveSpine.loads
    obtain ⟨left, rfl⟩ := Nat.exists_eq_succ_of_ne_zero (Nat.ne_zero_of_lt more)
    refine ⟨left, ?_, ?_⟩
    · simp only [length_cons, length_append] at more
      omega
    · rw [← initNodePath_descend aboveFound aboveDecodes points, ← same, append_assoc]
      rfl

theorem Spine.initNodePath_self
    (spine : Spine get rootHash hash (⟨nodePrefix, node, none⟩ :: path)) :
    initNodePath get (nodePrefix.length + 1) ⟨rootHash, [], nodePrefix, []⟩ =
      .ok (⟨nodePrefix, node, none⟩ :: path) := by
  have enough : (nodePrefix ++ []).length < nodePrefix.length + 1 := by simp
  obtain ⟨left, more, same⟩ := spine.initNodePath_eq [] enough
  obtain ⟨left, rfl⟩ := Nat.exists_eq_succ_of_ne_zero (Nat.ne_zero_of_lt more)
  obtain ⟨bytes, found, decodes⟩ := spine.loads
  rw [append_nil] at same
  rw [same]
  exact initNodePath_arrive found decodes

theorem StoredTree.loads (stored : StoredTree get hash) :
    ∃ bytes node, get hash = some bytes ∧ decode bytes = .ok node ∧ ChildrenStored get node := by
  cases stored with
  | node found decodes children => exact ⟨_, _, found, decodes, children⟩

theorem loads_unique {node node' : Node}
    (found : get hash = some bytes) (decodes : decode bytes = .ok node)
    (found' : get hash = some bytes') (decodes' : decode bytes' = .ok node') : node = node' := by
  rw [found] at found'
  cases found'
  exact Except.ok.inj (decodes.symm.trans decodes')

theorem StoredTree.children {node : Node} (stored : StoredTree get hash)
    (found : get hash = some bytes) (decodes : decode bytes = .ok node) :
    ChildrenStored get node := by
  obtain ⟨_, _, found', decodes', children⟩ := stored.loads
  exact loads_unique found decodes found' decodes' ▸ children

/-- In a stored tree a search fails only for a prefix at which there is no node. -/
theorem initNodePath_spec
    (stored : StoredTree get hash)
    (above : ∀ bytes node, get hash = some bytes → decode bytes = .ok node →
      Spine get rootHash hash (⟨nodePrefix, node, none⟩ :: path)) (enough : rest.length < fuel) :
    (∃ p, initNodePath get fuel ⟨hash, nodePrefix, rest, path⟩ = .error (prefixNotFound p)) ∨
      ∃ hash' node path', initNodePath get fuel ⟨hash, nodePrefix, rest, path⟩ =
          .ok (⟨nodePrefix ++ rest, node, none⟩ :: path') ∧
        Spine get rootHash hash' (⟨nodePrefix ++ rest, node, none⟩ :: path') := by
  induction fuel generalizing hash nodePrefix rest path with
  | zero => cases enough
  | succ fuel ih =>
    obtain ⟨bytes, node, found, decodes, children⟩ := stored.loads
    have spine := above bytes node found decodes
    rcases rest with _ | ⟨index, rest⟩
    · rw [append_nil]
      exact .inr ⟨hash, node, path, initNodePath_arrive found decodes, spine⟩
    cases item : node.item index with
    | emptyItem | leaf leafPrefix value =>
      exact .inl ⟨_, initNodePath_no_pointer found decodes (by rw [item]; exact id)⟩
    | nodePtr ptrPrefix ptr =>
      by_cases differs : (split rest ptrPrefix).2.2 = []
      · obtain ⟨more, rfl⟩ := exists_append_of_split differs
        rw [initNodePath_descend found decodes item]
        have below : ∀ bytes child, get ptr = some bytes → decode bytes = .ok child →
            Spine get rootHash ptr (⟨nodePrefix ++ index :: ptrPrefix, child, none⟩ ::
              ⟨nodePrefix, node, some index⟩ :: path) := fun _ _ childFound childDecodes =>
          .child (spine.at_item (some index)) item childFound childDecodes none
        have shorter : more.length < fuel := by
          simp only [length_cons, length_append] at enough
          omega
        simpa using ih (children index ptrPrefix ptr item) below shorter
      · left
        simp [initNodePath, found, decodes, item, commonPrefix_eq_split, differs, bind, Except.bind]

/-- The path is empty or leads from the root. -/
def OnSpine (get : NodeDataSource) (rootHash : ByteVector) (path : Path) : Prop :=
  path ≠ [] → ∃ hash, Spine get rootHash hash path

section

variable (onSpine : OnSpine get rootHash (current :: path))
include onSpine

theorem OnSpine.up : OnSpine get rootHash path := by
  intro nonempty
  obtain ⟨hash, spine⟩ := onSpine (cons_ne_nil _ _)
  cases spine with
  | root found decodes _ => exact absurd rfl nonempty
  | child above points found decodes _ => exact ⟨_, above⟩

theorem OnSpine.at_item (last : Option UInt8) :
    OnSpine get rootHash ({ current with lastItemIndex := last } :: path) := by
  intro _
  obtain ⟨hash, spine⟩ := onSpine (cons_ne_nil _ _)
  exact ⟨hash, spine.at_item last⟩

theorem OnSpine.down
    (points : current.decoded.item index = .nodePtr ptrPrefix ptr) (found : get ptr = some bytes)
    (decodes : decode bytes = .ok child) :
    Spine get rootHash ptr (⟨current.nodePrefix ++ index :: ptrPrefix, child, none⟩ ::
      { current with lastItemIndex := some index } :: path) := by
  obtain ⟨hash, spine⟩ := onSpine (cons_ne_nil _ _)
  exact .child (spine.at_item (some index)) points found decodes none

end

/-- After a number of nodes a spine to the last of them has the rest to list. -/
theorem Lists.resume (lists : Lists settings get path items) (onSpine : OnSpine get rootHash path)
    (reached : (nodes items)[count]? = some node) :
    ∃ hash decoded above,
      Spine get rootHash hash (⟨node.nodePrefix, decoded, none⟩ :: above) ∧
      Lists settings get (⟨node.nodePrefix, decoded, none⟩ :: above)
        (dropMarked isNode (count + 1) items) := by
  induction lists generalizing count with
  | done => cases reached
  | up nothing rest ih => exact ih onSpine.up reached
  | leaf found rest ih =>
    exact ih (onSpine.at_item _) reached
  | down found loaded decodes rest ih =>
    have points := (find_some found).1.symm
    have spine := onSpine.down points loaded decodes
    rw [dropMarked_cons_of_marked rfl]
    rcases count with _ | count
    · cases reached
      exact ⟨_, _, _, spine, by rw [dropMarked_zero]; exact rest⟩
    · exact ih (fun _ => ⟨_, spine⟩) reached

/-- A node lists what is below it if its children do: every item is passed once. -/
theorem lists_of_children (stored : ChildrenStored get node)
    (children : ∀ index ptrPrefix ptr, node.item index = .nodePtr ptrPrefix ptr →
      ∀ {bytes child}, get ptr = some bytes → decode bytes = .ok child →
        ∀ nodePrefix last path, (∃ items, Lists settings get path items) →
          ∃ items, Lists settings get (⟨nodePrefix, child, last⟩ :: path) items)
    (nodePrefix : ByteVector) (last : Option UInt8) (path : Path)
    (rest : ∃ items, Lists settings get path items) :
    ∃ items, Lists settings get (⟨nodePrefix, node, last⟩ :: path) items := by
  generalize measure : numItems - nextIndex last = left
  induction left using Nat.strong_induction_on generalizing last with
  | _ left ih =>
    cases found : findNextNonEmptyItem settings node (numItems + 1) last with
    | none =>
      obtain ⟨items, lists⟩ := rest
      exact ⟨items, .up found lists⟩
    | some next =>
      obtain ⟨index, item⟩ := next
      obtain ⟨same, kept, after, -⟩ := find_some found
      have bound : index.toNat < numItems := index.toNat_lt
      have smaller : numItems - nextIndex (some index) < left := by
        rw [nextIndex_some]
        omega
      obtain ⟨items, lists⟩ := ih _ smaller (some index) rfl
      cases item with
      | emptyItem => exact absurd trivial kept
      | leaf leafPrefix value => exact ⟨_, .leaf found lists⟩
      | nodePtr ptrPrefix ptr =>
        obtain ⟨bytes, child, loaded, decodes, -⟩ := (stored index ptrPrefix ptr same.symm).loads
        obtain ⟨items, lists⟩ := children index ptrPrefix ptr same.symm loaded decodes
          (nodePrefix ++ index :: ptrPrefix) none _ ⟨items, lists⟩
        exact ⟨_, .down found loaded decodes lists⟩

theorem StoredTree.lists {node : Node} (stored : StoredTree get hash)
    (found : get hash = some bytes) (decodes : decode bytes = .ok node)
    (nodePrefix : ByteVector) (last : Option UInt8) (path : Path)
    (rest : ∃ items, Lists settings get path items) :
    ∃ items, Lists settings get (⟨nodePrefix, node, last⟩ :: path) items := by
  induction stored generalizing bytes node nodePrefix last path with
  | node found' decodes' children ih =>
    obtain rfl := loads_unique found' decodes' found decodes
    exact lists_of_children children ih nodePrefix last path rest

theorem Spine.stored (spine : Spine get rootHash hash path)
    (stored : StoredTree get rootHash) : StoredTree get hash := by
  induction spine with
  | root found decodes last => exact stored
  | @child hash ptrPrefix ptr bytes node child nodePrefix index path above points found decodes
      last ih =>
    obtain ⟨bytes, aboveFound, aboveDecodes⟩ := above.loads
    exact ih.children aboveFound aboveDecodes index ptrPrefix ptr points

theorem Spine.lists (settings : ExportDataSettings)
    (spine : Spine get rootHash hash path) (stored : StoredTree get rootHash) :
    ∃ items, Lists settings get path items := by
  induction spine with
  | root found decodes last => exact stored.lists found decodes [] last [] ⟨[], .done⟩
  | child above points found decodes last ih =>
    have here := (above.child points found decodes last).stored stored
    exact here.lists found decodes _ last _ ih

/-- From a path of one node some node is listed if a pointer comes after the last item. -/
theorem Lists.nodes_ne_nil_iff (lists : Lists settings get [current] items) :
    nodes items ≠ [] ↔ ∃ index : UInt8, nextIndex current.lastItemIndex ≤ index.toNat ∧
      IsNodePtr (current.decoded.item index) := by
  generalize whole : [current] = path at lists
  induction lists generalizing current with
  | done => cases whole
  | up nothing rest ih =>
    cases whole
    cases rest
    constructor
    · intro listed
      exact absurd rfl listed
    · rintro ⟨index, after, pointer⟩
      exact absurd pointer (find_none (by omega) nothing after)
  | @leaf _ path items index leafPrefix value found rest ih =>
    obtain ⟨rfl, rfl⟩ := List.cons.inj whole
    obtain ⟨same, kept, after, first⟩ := find_some found
    have isLeaf : ¬ IsNodePtr (current.decoded.item index) := by
      rw [← same]
      exact id
    rw [show nodes (.inl _ :: items) = nodes items from rfl, ih rfl]
    constructor
    · rintro ⟨i, beyond, pointer⟩
      rw [nextIndex_some] at beyond
      exact ⟨i, by omega, pointer⟩
    · rintro ⟨i, beyond, pointer⟩
      have different : i.toNat ≠ index.toNat := by
        intro equal
        rw [UInt8.toNat_inj.mp equal] at pointer
        exact isLeaf pointer
      have later := first i beyond pointer
      exact ⟨i, by rw [nextIndex_some]; omega, pointer⟩
  | @down _ path items index ptrPrefix ptr bytes child found loaded decodes rest ih =>
    obtain ⟨rfl, rfl⟩ := List.cons.inj whole
    obtain ⟨same, kept, after, -⟩ := find_some found
    constructor
    · intro _
      exact ⟨index, after, by rw [← same]; trivial⟩
    · intro _
      exact cons_ne_nil _ _

end Paths

/-- An export that starts after the node at a prefix, with what it has to list. -/
structure Opens (settings : ExportDataSettings) (get : NodeDataSource) (rootHash start : ByteVector)
    (path : Path) (items : List Exported) : Prop where
  found : initNodePath get (start.length + 1) ⟨rootHash, [], start, []⟩ = .ok path
  lists : Lists settings get path items
  onSpine : OnSpine get rootHash path
  head : path.head?.map (·.nodePrefix) = some start

section Pages

variable {settings : ExportDataSettings} {get : NodeDataSource} {rootHash start : ByteVector}
  {path : Path} {items : List Exported}

theorem opens_of_spine {hash nodePrefix : ByteVector}
    (spine : Spine get rootHash hash (⟨nodePrefix, node, none⟩ :: above))
    (lists : Lists settings get (⟨nodePrefix, node, none⟩ :: above) items) :
    Opens settings get rootHash nodePrefix (⟨nodePrefix, node, none⟩ :: above) items where
  found := spine.initNodePath_self
  lists := lists
  onSpine := fun _ => ⟨hash, spine⟩
  head := rfl

theorem opens_or_missing (settings : ExportDataSettings) (stored : StoredTree get rootHash)
    (start : ByteVector) :
    (∃ p, initNodePath get (start.length + 1) ⟨rootHash, [], start, []⟩ =
      .error (prefixNotFound p)) ∨ ∃ path items, Opens settings get rootHash start path items := by
  have root : ∀ bytes node, get rootHash = some bytes → decode bytes = .ok node →
      Spine get rootHash rootHash [⟨[], node, none⟩] := fun _ _ found decodes =>
    .root found decodes none
  rcases initNodePath_spec stored root (Nat.lt_succ_self start.length) with
    missing | ⟨hash, node, above, -, spine⟩
  · exact .inl missing
  · obtain ⟨items, lists⟩ := spine.lists settings stored
    exact .inr ⟨_, items, opens_of_spine spine lists⟩

/-- After a page the export opens again at the prefix of its last node. -/
theorem Opens.resume (opens : Opens settings get rootHash start path items)
    (stops : lastPrefix path items count = some last) :
    ∃ path', Opens settings get rootHash last path' (dropMarked isNode count items) := by
  rcases count with _ | count
  · rw [lastPrefix, opens.head] at stops
    cases stops
    exact ⟨path, by rw [dropMarked_zero]; exact opens⟩
  · obtain ⟨node, reached, rfl⟩ := map_eq_some_iff.mp stops
    obtain ⟨hash, decoded, above, spine, lists⟩ := opens.lists.resume opens.onSpine reached
    exact ⟨_, opens_of_spine spine lists⟩

section Results

variable {rootBytes : ByteVector} (present : get rootHash = some rootBytes)

include present

theorem sequentialExport_eq (start : Option ByteVector)
    (opens : Opens settings get rootHash (start.getD []) path items)
    (valid : ¬ (skip = 0 ∧ take = 0)) (fuel : Nat) :
    sequentialExport settings get fuel rootHash start skip take =
      exportLoop settings get fuel
        (startParams settings rootHash start skip take rootBytes path) := by
  simp only [sequentialExport, if_neg valid, present, doExport, opens.found, bind, Except.bind]

theorem sequentialExport_some (opens : Opens settings get rootHash start path items)
    (skip take : Nat) (more : 0 < skip + take) :
    Settles (fun fuel => sequentialExport settings get fuel rootHash (some start) skip take)
      (.ok (emptyExportData.extend settings (takeMarked isNode take (dropMarked isNode skip items)),
        lastPrefix path items (skip + take))) := by
  have valid : ¬ ((skip : Int) = 0 ∧ (take : Int) = 0) := by omega
  simp only [sequentialExport_eq present (some start) opens valid]
  exact exportLoop_spec opens.lists skip take emptyExportData

theorem sequentialExport_root (opens : Opens settings get rootHash [] path items) (take : Nat) :
    Settles (fun fuel => sequentialExport settings get fuel rootHash none 0
      ((take + 1 : Nat) : Int))
      (.ok ((rootExportData settings rootHash rootBytes).extend settings
        (takeMarked isNode take items), lastPrefix path items take)) := by
  have valid : ¬ ((0 : Int) = 0 ∧ ((take + 1 : Nat) : Int) = 0) := by omega
  simp only [sequentialExport_eq present none opens valid]
  simpa [startParams] using
    exportLoop_spec opens.lists 0 take (rootExportData settings rootHash rootBytes)

theorem sequentialExport_skipped (opens : Opens settings get rootHash [] path items)
    (skip take : Nat) :
    Settles
      (fun fuel => sequentialExport settings get fuel rootHash none ((skip + 1 : Nat) : Int) take)
      (.ok (emptyExportData.extend settings (takeMarked isNode take (dropMarked isNode skip items)),
        lastPrefix path items (skip + take))) := by
  have valid : ¬ (((skip + 1 : Nat) : Int) = 0 ∧ (take : Int) = 0) := by omega
  have skipping : ((skip + 1 : Nat) : Int) > 0 := by omega
  have rest : ((skip + 1 : Nat) : Int) - 1 = skip := by omega
  simp only [sequentialExport_eq present none opens valid, startParams, if_pos skipping, rest]
  exact exportLoop_spec opens.lists skip take emptyExportData

end Results

theorem extendList_append_iff {α : Type} (exported : Bool) (old first second : List α) :
    extendList exported old first ++ extendList exported [] second =
        extendList exported old (first ++ second) ↔
      exported ∨ old = [] ∨ first ≠ [] ∨ second = [] := by
  cases exported <;> cases first <;> cases second <;> simp [extendList]

theorem emptyExportData_append (first second : List Exported) :
    (emptyExportData.extend settings first).append (emptyExportData.extend settings second) =
      emptyExportData.extend settings (first ++ second) := by
  have joins {α : Type} (exported : Bool) (left right : List α) :
      extendList exported [] left ++ extendList exported [] right =
        extendList exported [] (left ++ right) :=
    (extendList_append_iff exported [] left right).mpr (.inr (.inl rfl))
  simp only [ExportData.append, ExportData.extend, emptyExportData, joins, List.filterMap_append,
    map_append]

/-- A page with the root loses the value of the root to the next node if node values are not
exported. -/
theorem rootExportData_append_iff (rootBytes : ByteVector) (first second : List Exported) :
    ((rootExportData settings rootHash rootBytes).extend settings first).append
        (emptyExportData.extend settings second) =
        (rootExportData settings rootHash rootBytes).extend settings (first ++ second) ↔
      ¬ (settings.flagLeafValues ∧ settings.flagNodeValues = false ∧
        nodes first = [] ∧ nodes second ≠ []) := by
  simp only [ExportData.append, ExportData.extend, emptyExportData, rootExportData, nodes,
    ExportData.mk.injEq, List.filterMap_append, map_append, extendList_append_iff, ne_eq,
    List.map_eq_nil_iff]
  generalize List.filterMap Sum.getRight? first = firstNodes
  generalize List.filterMap Sum.getRight? second = secondNodes
  cases settings.flagNodePrefixes <;> cases settings.flagNodeKeys <;>
    cases settings.flagNodeValues <;> cases settings.flagLeafValues <;> simp
  all_goals tauto

theorem lastPrefix_dropMarked (stops : lastPrefix path items first = some last)
    (head : path'.head?.map (·.nodePrefix) = some last) (second : Nat) :
    lastPrefix path' (dropMarked isNode first items) second =
      lastPrefix path items (first + second) := by
  rcases second with _ | second
  · rw [lastPrefix, head, Nat.add_zero, stops]
  · rw [lastPrefix, ← Nat.add_assoc, lastPrefix, nodes, filterMap_dropMarked isNode_marks,
      List.getElem?_drop]

theorem few_of_lastPrefix_none (head : path.head?.map (·.nodePrefix) = some start)
    (ends : lastPrefix path items count = none) : (nodes items).length < count := by
  rcases count with _ | count
  · rw [lastPrefix, head] at ends
    cases ends
  · exact Nat.lt_succ_of_le (List.getElem?_eq_none_iff.mp (map_eq_none_iff.mp ends))

theorem lastPrefix_none_of_few (few : (nodes items).length < count) :
    lastPrefix path items count = none := by
  obtain ⟨count, rfl⟩ := Nat.exists_eq_succ_of_ne_zero (Nat.ne_zero_of_lt few)
  rw [lastPrefix, List.getElem?_eq_none_iff.mpr (Nat.le_of_lt_succ few)]
  rfl

theorem pagedExport_cons {size : Nat} {start : Option ByteVector}
    (page : Settles (fun fuel => sequentialExport settings get fuel rootHash start 0 size)
      (.ok (data, some last)))
    (pages : Settles (fun fuel => pagedExport settings get fuel rootHash (some last) sizes)
      (.ok rest)) :
    Settles (fun fuel => pagedExport settings get fuel rootHash start (size :: sizes))
      (.ok (data.append rest.1, rest.2)) := by
  refine page.bind ?_
  refine Settles.bind pages ?_
  exact .of_eq fun _ => rfl

theorem pagedExport_last {size : Nat} {start : Option ByteVector}
    (page : Settles (fun fuel => sequentialExport settings get fuel rootHash start 0 size)
      (.ok (data, none))) :
    Settles (fun fuel => pagedExport settings get fuel rootHash start (size :: sizes))
      (.ok (data, none)) := by
  refine page.bind ?_
  exact .of_eq fun _ => rfl

section

variable (present : get rootHash = some rootBytes)
include present

/-- Pages from a node on are one page of their total size. -/
theorem pagedExport_some
    (opens : Opens settings get rootHash start path items) (positive : ∀ size ∈ sizes, 1 ≤ size) :
    Settles (fun fuel => pagedExport settings get fuel rootHash (some start) sizes)
      (.ok (emptyExportData.extend settings (takeMarked isNode sizes.sum items),
        lastPrefix path items sizes.sum)) := by
  induction sizes generalizing start path items with
  | nil =>
    apply Settles.of_eq
    intro fuel
    simp only [pagedExport, sum_nil, takeMarked_zero, lastPrefix, opens.head]
    rfl
  | cons size sizes ih =>
    obtain ⟨here, later⟩ := forall_mem_cons.mp positive
    have page := sequentialExport_some present opens 0 size (by omega)
    rw [Nat.zero_add, dropMarked_zero] at page
    rw [sum_cons, takeMarked_add]
    cases stops : lastPrefix path items size with
    | none =>
      have few := few_of_lastPrefix_none opens.head stops
      rw [(page_of_few isNode_marks few).2, takeMarked_nil, append_nil,
        lastPrefix_none_of_few (Nat.lt_add_right _ few)]
      rw [stops] at page
      exact pagedExport_last page
    | some last =>
      obtain ⟨path', resumed⟩ := opens.resume stops
      rw [← lastPrefix_dropMarked stops resumed.head, ← emptyExportData_append]
      rw [stops] at page
      exact pagedExport_cons page (ih resumed later)

/-- What follows the first nodes is listed from the prefix of the last of them. -/
theorem nextPage_of_resumed (resumed : Opens settings get rootHash last path items) (take : Nat) :
    Settles (fun fuel => nextPage settings get fuel rootHash (some last) take)
      (.ok (emptyExportData.extend settings (takeMarked isNode take items),
        lastPrefix path items take)) := by
  rcases Nat.eq_zero_or_pos take with rfl | positive
  · apply Settles.of_eq
    intro fuel
    simp only [nextPage, takeMarked_zero, lastPrefix, resumed.head, or_true, if_true]
    rfl
  · have goesOn : ¬ ((some last).isNone ∨ take = 0) := by
      simp only [isNone_some, false_eq_true, false_or]
      omega
    simp only [nextPage, if_neg goesOn]
    simpa using sequentialExport_some present resumed 0 take (by omega)

/-- A page after a number of nodes, whichever way the first of them are passed. -/
theorem nextPage_spec (opens : Opens settings get rootHash start path items) (skip take : Nat) :
    Settles (fun fuel => nextPage settings get fuel rootHash (lastPrefix path items skip) take)
      (.ok (emptyExportData.extend settings (takeMarked isNode take (dropMarked isNode skip items)),
        lastPrefix path items (skip + take))) := by
  cases stops : lastPrefix path items skip with
  | none =>
    have few := few_of_lastPrefix_none opens.head stops
    rw [(page_of_few isNode_marks few).2, takeMarked_nil,
      lastPrefix_none_of_few (Nat.lt_add_right _ few)]
    apply Settles.of_eq
    intro fuel
    rfl
  | some last =>
    obtain ⟨path', resumed⟩ := opens.resume stops
    rw [← lastPrefix_dropMarked stops resumed.head]
    exact nextPage_of_resumed present resumed take

end

end Pages

/-- The first page has the value of the root alone, and no other value is exported. -/
structure SplitsRootValue (settings : ExportDataSettings) (get : NodeDataSource)
    (rootHash : ByteVector) (start : Option ByteVector) (sizes : List Nat) (take : Nat) : Prop where
  atRoot : start = none
  leafValues : settings.flagLeafValues = true
  noNodeValues : settings.flagNodeValues = false
  alone : sizes.head? = some 1
  further : 2 ≤ take
  child : ∃ bytes node index, get rootHash = some bytes ∧ decode bytes = .ok node ∧
    IsNodePtr (node.item index)

section Equivalence

variable {settings : ExportDataSettings} {get : NodeDataSource} {rootHash rootBytes : ByteVector}
  {path : Path} {items : List Exported}

theorem Opens.root_child_iff (stored : StoredTree get rootHash)
    (opens : Opens settings get rootHash [] path items) :
    nodes items ≠ [] ↔ ∃ bytes node index, get rootHash = some bytes ∧ decode bytes = .ok node ∧
      IsNodePtr (node.item index) := by
  obtain ⟨bytes, node, found, decodes, -⟩ := stored.loads
  have arrived := opens.found
  rw [length_nil, initNodePath_arrive found decodes] at arrived
  cases arrived
  rw [opens.lists.nodes_ne_nil_iff]
  constructor
  · rintro ⟨index, -, pointer⟩
    exact ⟨bytes, node, index, found, decodes, pointer⟩
  · rintro ⟨bytes', node', index, found', decodes', pointer⟩
    obtain rfl := loads_unique found decodes found' decodes'
    exact ⟨index, Nat.zero_le _, pointer⟩

/-- Two sizes give one page if they are equal or both reach behind the last node. -/
theorem same_page (path : Path)
    (sizes : one = other ∨ (nodes items).length < other ∧ (nodes items).length < one) :
    takeMarked isNode one items = takeMarked isNode other items ∧
      lastPrefix path items one = lastPrefix path items other := by
  rcases sizes with rfl | ⟨otherLarge, oneLarge⟩
  · exact ⟨rfl, rfl⟩
  · rw [(page_of_few isNode_marks otherLarge).1, (page_of_few isNode_marks oneLarge).1,
      lastPrefix_none_of_few otherLarge, lastPrefix_none_of_few oneLarge]
    exact ⟨rfl, rfl⟩

theorem splitsRootValue_iff (stored : StoredTree get rootHash)
    (opens : Opens settings get rootHash [] path items)
    (total : take = size + sizes.sum ∨
      (nodes items).length < size + sizes.sum ∧ (nodes items).length < take) :
    SplitsRootValue settings get rootHash none ((size + 1) :: sizes) (take + 1) ↔
      settings.flagLeafValues ∧ settings.flagNodeValues = false ∧
        nodes (takeMarked isNode size items) = [] ∧
        nodes (takeMarked isNode sizes.sum (dropMarked isNode size items)) ≠ [] := by
  have child := opens.root_child_iff stored
  simp only [nodes, filterMap_takeMarked isNode_marks, filterMap_dropMarked isNode_marks,
    ne_eq, ← length_eq_zero_iff, List.length_take, List.length_drop] at total child ⊢
  generalize (items.filterMap Sum.getRight?).length = count at total child ⊢
  constructor
  · intro splits
    have alone : size = 0 := by simpa using splits.alone
    have further := splits.further
    have inhabited := child.mpr splits.child
    refine ⟨splits.leafValues, splits.noNodeValues, by omega, by omega⟩
  · rintro ⟨leafValues, noNodeValues, noneFirst, someLater⟩
    have alone : size = 0 := by omega
    subst alone
    exact ⟨rfl, leafValues, noNodeValues, rfl, by omega, child.mp (by omega)⟩

/-- The pages from some start and one export of their size, or of any size that reaches the end,
stop at one prefix. Their data agree unless the value of the root is split off. -/
def PagesAgree (settings : ExportDataSettings) (get : NodeDataSource) (rootHash : ByteVector)
    (start : Option ByteVector) (large : Nat) : Prop :=
  ∀ sizes : List Nat, sizes ≠ [] → (∀ size ∈ sizes, 1 ≤ size) →
    ∀ take : Nat, take = sizes.sum ∨ large ≤ sizes.sum ∧ large ≤ take →
      ∃ paged once : ExportResult,
        Settles (fun fuel => pagedExport settings get fuel rootHash start sizes) (.ok paged) ∧
        Settles (fun fuel => sequentialExport settings get fuel rootHash start 0 take) (.ok once) ∧
        paged.2 = once.2 ∧ (large ≤ take → once.2 = none) ∧
        (paged.1 = once.1 ↔ ¬ SplitsRootValue settings get rootHash start sizes take)

/-- Skipping nodes gives the page that follows them. -/
def SkipFollows (settings : ExportDataSettings) (get : NodeDataSource) (rootHash : ByteVector)
    (start : Option ByteVector) : Prop :=
  ∀ skip take : Nat, 0 < skip → ∃ outcome,
    Settles (fun fuel => sequentialExport settings get fuel rootHash start skip take) outcome ∧
    Settles (fun fuel => do
      let first ← sequentialExport settings get fuel rootHash start 0 skip
      nextPage settings get fuel rootHash first.2 take) outcome

theorem pagesAgree_some (present : get rootHash = some rootBytes)
    (opens : Opens settings get rootHash start path items) :
    PagesAgree settings get rootHash (some start) ((nodes items).length + 1) := by
  intro sizes nonempty positive take total
  have some_size : 0 < sizes.sum := by
    obtain ⟨size, rest, rfl⟩ := exists_cons_of_ne_nil nonempty
    have here := positive size (.head _)
    rw [sum_cons]
    omega
  have page := sequentialExport_some present opens 0 take (by omega)
  rw [Nat.zero_add, dropMarked_zero] at page
  have large : take = sizes.sum ∨
      (nodes items).length < sizes.sum ∧ (nodes items).length < take := total
  obtain ⟨same, stops⟩ := same_page path large
  refine ⟨_, _, pagedExport_some present opens positive, page, stops.symm, ?_, ?_⟩
  · exact fun large => lastPrefix_none_of_few large
  · rw [same]
    exact ⟨fun _ splits => some_ne_none _ splits.atRoot, fun _ => rfl⟩

theorem pagesAgree_none (stored : StoredTree get rootHash)
    (present : get rootHash = some rootBytes) (opens : Opens settings get rootHash [] path items) :
    PagesAgree settings get rootHash none ((nodes items).length + 2) := by
  intro sizes nonempty positive take total
  obtain ⟨size, sizes, rfl⟩ := exists_cons_of_ne_nil nonempty
  obtain ⟨here, later⟩ := forall_mem_cons.mp positive
  obtain ⟨size, rfl⟩ : ∃ n, size = n + 1 := exists_eq_succ_of_ne_zero (by omega)
  rw [sum_cons] at total
  obtain ⟨take, rfl⟩ : ∃ n, take = n + 1 := exists_eq_succ_of_ne_zero (by omega)
  have total : take = size + sizes.sum ∨
      (nodes items).length < size + sizes.sum ∧ (nodes items).length < take := by omega
  obtain ⟨same, stops⟩ := same_page path total
  have page := sequentialExport_root present opens size
  have once := sequentialExport_root present opens take
  have ends : (nodes items).length + 2 ≤ take + 1 → lastPrefix path items take = none :=
    fun large => lastPrefix_none_of_few (by omega)
  rw [splitsRootValue_iff stored opens total]
  cases last : lastPrefix path items size with
  | none =>
    -- The first page reaches the end, so it is not the root alone.
    have few := few_of_lastPrefix_none opens.head last
    rw [last] at page
    refine ⟨_, _, pagedExport_last page, once, ?_, ends, ?_⟩
    · rw [stops, lastPrefix_none_of_few (Nat.lt_add_right _ few)]
    · rw [same, takeMarked_add, (page_of_few isNode_marks few).2, takeMarked_nil,
        append_nil]
      exact ⟨fun _ split => split.2.2.2 rfl, fun _ => rfl⟩
  | some reached =>
    obtain ⟨path', resumed⟩ := opens.resume last
    rw [last] at page
    refine ⟨_, _, pagedExport_cons page (pagedExport_some present resumed later), once, ?_, ends,
      ?_⟩
    · rw [stops]
      exact lastPrefix_dropMarked last resumed.head sizes.sum
    · rw [same, takeMarked_add]
      exact rootExportData_append_iff rootBytes _ _

theorem skipFollows_some (present : get rootHash = some rootBytes)
    (opens : Opens settings get rootHash start path items) :
    SkipFollows settings get rootHash (some start) := by
  intro skip take positive
  refine ⟨_, sequentialExport_some present opens skip take (by omega), ?_⟩
  have first := sequentialExport_some present opens 0 skip (by omega)
  rw [Nat.zero_add] at first
  exact first.bind (nextPage_spec present opens skip take)

theorem skipFollows_none (present : get rootHash = some rootBytes)
    (opens : Opens settings get rootHash [] path items) :
    SkipFollows settings get rootHash none := by
  intro skip take positive
  obtain ⟨skip, rfl⟩ := Nat.exists_eq_succ_of_ne_zero (Nat.ne_zero_of_lt positive)
  exact ⟨_, sequentialExport_skipped present opens skip take,
    (sequentialExport_root present opens skip).bind (nextPage_spec present opens skip take)⟩

section

variable (absent : get rootHash = none) (start : Option ByteVector)
include absent

theorem sequentialExport_absent (valid : ¬ (skip = 0 ∧ take = 0)) :
    Settles (fun fuel => sequentialExport settings get fuel rootHash start skip take)
      (.ok (emptyExportData, none)) := by
  apply Settles.of_eq
  intro fuel
  simp only [sequentialExport, if_neg valid, absent]

theorem pagesAgree_absent : PagesAgree settings get rootHash start 1 := by
  intro sizes nonempty positive take total
  obtain ⟨size, sizes, rfl⟩ := exists_cons_of_ne_nil nonempty
  have here := positive size (.head _)
  rw [sum_cons] at total
  refine ⟨_, _, pagedExport_last (sequentialExport_absent absent start (by omega)),
    sequentialExport_absent absent start (by omega), rfl, fun _ => rfl, fun _ splits => ?_,
    fun _ => rfl⟩
  obtain ⟨bytes, node, index, found, -⟩ := splits.child
  rw [absent] at found
  cases found

theorem skipFollows_absent : SkipFollows settings get rootHash start := by
  intro skip take positive
  refine ⟨_, sequentialExport_absent absent start (by omega), ?_⟩
  exact (sequentialExport_absent absent start (by omega)).bind (.of_eq fun _ => rfl)

end

section

variable (missing : ∀ fuel (skip take : Nat), 0 < skip + take →
  sequentialExport settings get fuel rootHash start skip take = .error (prefixNotFound p))

include missing

theorem pagedExport_missing
    (nonempty : sizes ≠ []) (positive : ∀ size ∈ sizes, 1 ≤ size) (fuel : Nat) :
    pagedExport settings get fuel rootHash start sizes = .error (prefixNotFound p) := by
  obtain ⟨size, sizes, rfl⟩ := exists_cons_of_ne_nil nonempty
  have here := positive size (.head _)
  have fails := missing fuel 0 size (by omega)
  rw [Int.ofNat_zero] at fails
  simp only [pagedExport, fails, bind, Except.bind]

theorem skipFollows_missing : SkipFollows settings get rootHash start := by
  intro skip take positive
  refine ⟨_, .of_eq fun fuel => missing fuel skip take (by omega), .of_eq fun fuel => ?_⟩
  have fails := missing fuel 0 skip (by omega)
  rw [Int.ofNat_zero] at fails
  simp only [fails, bind, Except.bind]

end

end Equivalence

/-- Export of a stored tree. From a prefix without a node every export fails alike. From any
other start, pages and one export list the same and stop at the same prefix, except that the
value of the root is dropped by one export and kept by a first page of one node; and skipping
nodes gives the page that follows them, except that nothing skipped and nothing taken is
refused. -/
theorem sequentialExport_pages_iff (settings : ExportDataSettings) (get : NodeDataSource)
    (rootHash : ByteVector) (start : Option ByteVector)
    (stored : ∀ bytes, get rootHash = some bytes → StoredTree get rootHash) :
    ((∃ p, (∀ fuel sizes, sizes ≠ [] → (∀ size ∈ sizes, 1 ≤ size) →
          pagedExport settings get fuel rootHash start sizes = .error (prefixNotFound p)) ∧
        ∀ fuel (skip take : Nat), 0 < skip + take →
          sequentialExport settings get fuel rootHash start skip take =
            .error (prefixNotFound p)) ∨
      ∃ large, PagesAgree settings get rootHash start large) ∧
    SkipFollows settings get rootHash start ∧
    ∀ fuel, sequentialExport settings get fuel rootHash start 0 0 = .error (.panic
      "Export error: invalid initial conditions (skipSize, takeSize)==(0,0).") := by
  have refused : ∀ fuel, sequentialExport settings get fuel rootHash start 0 0 = .error (.panic
      "Export error: invalid initial conditions (skipSize, takeSize)==(0,0).") := by
    intro fuel
    simp [sequentialExport]
  cases root : get rootHash with
  | none =>
    exact ⟨.inr ⟨1, pagesAgree_absent root start⟩, skipFollows_absent root start, refused⟩
  | some rootBytes =>
    have tree := stored rootBytes root
    rcases opens_or_missing settings tree (start.getD []) with
      ⟨p, missing⟩ | ⟨path, items, opens⟩
    · have fails : ∀ fuel (skip take : Nat), 0 < skip + take →
          sequentialExport settings get fuel rootHash start skip take =
            .error (prefixNotFound p) := by
        intro fuel skip take positive
        have valid : ¬ ((skip : Int) = 0 ∧ (take : Int) = 0) := by omega
        simp only [sequentialExport, if_neg valid, root, doExport, missing, bind, Except.bind]
      exact ⟨.inl ⟨p, fun fuel sizes nonempty positive =>
        pagedExport_missing fails nonempty positive fuel, fails⟩,
        skipFollows_missing fails, refused⟩
    · cases start with
      | none => exact ⟨.inr ⟨_, pagesAgree_none tree root opens⟩,
        skipFollows_none root opens, refused⟩
      | some start =>
        exact ⟨.inr ⟨_, pagesAgree_some root opens⟩, skipFollows_some root opens, refused⟩

/-- A tree of two nodes; the root points to an empty one. -/
def samplePointer : ByteVector := List.replicate 32 7

def sampleRoot : Node := emptyNode.setItem 0 (.nodePtr [] samplePointer)

def sampleRootHash : ByteVector := List.replicate 32 1

def sampleSource : NodeDataSource := fun key =>
  if key = sampleRootHash then some (encodeBytes sampleRoot)
  else if key = samplePointer then some (encodeBytes emptyNode)
  else none

/-- The settings of the exporter of the tuple space. -/
def exporterSettings : ExportDataSettings where
  flagNodePrefixes := false
  flagNodeKeys := true
  flagNodeValues := false
  flagLeafPrefixes := false
  flagLeafValues := true

theorem paged_root_value_kept :
    pagedExport exporterSettings sampleSource 10 sampleRootHash none [1, 1] =
        .ok (⟨[], [sampleRootHash, samplePointer], [encodeBytes sampleRoot], [], []⟩, some [0]) ∧
      sequentialExport exporterSettings sampleSource 10 sampleRootHash none 0 2 =
        .ok (⟨[], [sampleRootHash, samplePointer], [], [], []⟩, some [0]) := by
  decide +kernel

theorem sampleSource_stored : StoredTree sampleSource sampleRootHash := by
  have child : StoredTree sampleSource samplePointer := by
    have found : sampleSource samplePointer = some (encodeBytes emptyNode) := by decide +kernel
    have decodes : decode (encodeBytes emptyNode) = .ok emptyNode := by decide +kernel
    refine .node found decodes ?_
    intro index ptrPrefix ptr points
    rw [item_emptyNode] at points
    cases points
  have found : sampleSource sampleRootHash = some (encodeBytes sampleRoot) := by decide +kernel
  have decodes : decode (encodeBytes sampleRoot) = .ok sampleRoot := by decide +kernel
  refine .node found decodes ?_
  intro index ptrPrefix ptr points
  rw [sampleRoot, Node.item_setItem] at points
  split at points
  · cases points
    exact child
  · rw [item_emptyNode] at points
    cases points

theorem sequentialExport_pages_of_sample :
    ((∃ p, (∀ fuel sizes, sizes ≠ [] → (∀ size ∈ sizes, 1 ≤ size) →
          pagedExport exporterSettings sampleSource fuel sampleRootHash (some [0]) sizes =
            .error (prefixNotFound p)) ∧
        ∀ fuel (skip take : Nat), 0 < skip + take →
          sequentialExport exporterSettings sampleSource fuel sampleRootHash (some [0]) skip take =
            .error (prefixNotFound p)) ∨
      ∃ large, PagesAgree exporterSettings sampleSource sampleRootHash (some [0]) large) ∧
    SkipFollows exporterSettings sampleSource sampleRootHash (some [0]) ∧
    ∀ fuel, sequentialExport exporterSettings sampleSource fuel sampleRootHash (some [0]) 0 0 =
      .error (.panic "Export error: invalid initial conditions (skipSize, takeSize)==(0,0).") :=
  sequentialExport_pages_iff exporterSettings sampleSource sampleRootHash (some [0])
    fun _ _ => sampleSource_stored

end F1r3fly.RSpace.History
