import F1r3fly.BlockStorage.BlockDag
import F1r3fly.Data.Adjacency

/-! The blocks that wait for others, with the links between them in both directions and
the blocks that wait for nothing. -/
namespace F1r3fly.BlockStorage

open HashedSet Adjacency

structure BlockDependencyDag where
  parentToChildAdjacencyList : Adjacency BlockHash
  childToParentAdjacencyList : Adjacency BlockHash
  dependencyFree : HashedSet BlockHash

structure RemovalEffects where
  childrenAffected : HashedSet BlockHash
  childrenRemoved : HashedSet BlockHash
  orphanedParents : HashedSet BlockHash

namespace BlockDependencyDag

def empty : BlockDependencyDag := ⟨.empty, .empty, .empty⟩

def add (dag : BlockDependencyDag) (parent child : BlockHash) : BlockDependencyDag :=
  let childToParent := dag.childToParentAdjacencyList.link child parent
  let dependencyFree :=
    if (childToParent.get? parent).isSome then dag.dependencyFree
    else dag.dependencyFree.insert parent
  { parentToChildAdjacencyList := dag.parentToChildAdjacencyList.link parent child
    childToParentAdjacencyList := childToParent
    dependencyFree := dependencyFree.erase child }

def unlinkParent (element : BlockHash) (state : BlockDependencyDag × HashedSet BlockHash)
    (parent : BlockHash) : BlockDependencyDag × HashedSet BlockHash :=
  match state.1.parentToChildAdjacencyList.get? parent with
  | none => state
  | some children =>
    let dag := { state.1 with
      parentToChildAdjacencyList :=
        state.1.parentToChildAdjacencyList.assign parent (children.erase element) }
    if (children.erase element).isEmpty then
      ({ dag with dependencyFree := dag.dependencyFree.erase parent }, state.2.insert parent)
    else (dag, state.2)

/-- The children that keep a parent are affected, the others are removed. -/
structure ChildLinks where
  childToParent : Adjacency BlockHash
  affected : HashedSet BlockHash
  removed : HashedSet BlockHash

def unlinkChild (element : BlockHash) (links : ChildLinks) (child : BlockHash) : ChildLinks :=
  let updatedParents := ((links.childToParent.get? child).getD .empty).erase element
  let childToParent := links.childToParent.assign child updatedParents
  if updatedParents.isEmpty then
    { links with childToParent, removed := links.removed.insert child }
  else { links with childToParent, affected := links.affected.insert child }

section Links

section

variable (element : BlockHash)

structure UnlinksParents (parents : List BlockHash)
    (before after : BlockDependencyDag × HashedSet BlockHash) : Prop where
  childToParent : after.1.childToParentAdjacencyList = before.1.childToParentAdjacencyList
  linked : ∀ parent child, Linked after.1.parentToChildAdjacencyList parent child ↔
    Linked before.1.parentToChildAdjacencyList parent child ∧ ¬(parent ∈ parents ∧ child = element)
  noEmpty : NoEmpty after.1.parentToChildAdjacencyList
  orphaned : ∀ block, block ∈ after.2 ↔ block ∈ before.2 ∨
    block ∈ parents ∧ LinkedOnlyTo before.1.parentToChildAdjacencyList block element
  free : ∀ block, block ∈ after.1.dependencyFree ↔ block ∈ before.1.dependencyFree ∧
    ¬(block ∈ parents ∧ LinkedOnlyTo before.1.parentToChildAdjacencyList block element)

theorem unlinkParent_spec
    (noEmpty : NoEmpty state.1.parentToChildAdjacencyList) (parent : BlockHash) :
    UnlinksParents element [parent] state (unlinkParent element state parent) := by
  obtain ⟨dag, orphans⟩ := state
  rw [unlinkParent]
  split
  case h_1 missing =>
    have unlinked {child} := not_linked_of_get? (b := child) missing
    refine ⟨rfl, ?_, noEmpty, ?_, ?_⟩ <;> simp only [mem_singleton, LinkedOnlyTo] <;> grind
  case h_2 children found =>
    have linked {child} := linked_iff_of_get? (b := child) found
    have only_iff : (children.erase element).isEmpty ↔
        LinkedOnlyTo dag.parentToChildAdjacencyList parent element := by
      rw [isEmpty_erase_iff found, LinkedOnlyTo, iff_and_self]
      intro only
      obtain ⟨child, member⟩ := noEmpty parent children found
      rwa [← only child (linked.mpr member), linked]
    have links_iff : ∀ block child,
        Linked (dag.parentToChildAdjacencyList.assign parent (children.erase element)) block child ↔
          Linked dag.parentToChildAdjacencyList block child ∧
            ¬(block ∈ [parent] ∧ child = element) := by
      intro block child
      rw [linked_assign, mem_erase, beq_eq_false_iff_ne, mem_singleton]
      grind
    split_ifs with last
    · refine ⟨rfl, links_iff, noEmpty.assign, ?_, ?_⟩
      · intro block
        simp only [mem_insert, beq_iff_eq, mem_singleton]
        grind
      · intro block
        simp only [mem_erase, beq_eq_false_iff_ne, mem_singleton]
        grind
    · refine ⟨rfl, links_iff, noEmpty.assign, ?_, ?_⟩ <;> simp only [mem_singleton] <;> grind

theorem foldl_unlinkParent (parents : List BlockHash)
    (state : BlockDependencyDag × HashedSet BlockHash)
    (noEmpty : NoEmpty state.1.parentToChildAdjacencyList) :
    UnlinksParents element parents state (parents.foldl (unlinkParent element) state) := by
  induction parents generalizing state with
  | nil => exact ⟨rfl, by simp, noEmpty, by simp, by simp⟩
  | cons parent rest ih =>
    have first := unlinkParent_spec element noEmpty parent
    have later := ih _ first.noEmpty
    rw [foldl_cons]
    refine ⟨later.childToParent.trans first.childToParent, ?_, later.noEmpty, ?_, ?_⟩
    all_goals
      simp only [later.linked, later.orphaned, later.free, first.linked, first.orphaned, first.free,
        LinkedOnlyTo, mem_cons]
      grind

structure UnlinksChildren (children : List BlockHash)
    (before after : ChildLinks) : Prop where
  linked : ∀ child parent, Linked after.childToParent child parent ↔
    Linked before.childToParent child parent ∧ ¬(child ∈ children ∧ parent = element)
  noEmpty : NoEmpty before.childToParent → NoEmpty after.childToParent
  affected : ∀ block, block ∈ after.affected ↔ block ∈ before.affected ∨
    block ∈ children ∧ ∃ parent, Linked before.childToParent block parent ∧ parent ≠ element
  removed : ∀ block, block ∈ after.removed ↔ block ∈ before.removed ∨
    block ∈ children ∧ ∀ parent, Linked before.childToParent block parent → parent = element

theorem unlinkChild_spec (links : ChildLinks) (child : BlockHash) :
    UnlinksChildren element [child] links (unlinkChild element links child) := by
  -- The parents that are left, also if none were recorded.
  have mem_left : ∀ parent,
      parent ∈ ((links.childToParent.get? child).getD .empty).erase element ↔
        Linked links.childToParent child parent ∧ parent ≠ element := by
    intro parent
    rw [mem_erase, mem_getD, beq_eq_false_iff_ne]
  have links_iff : ∀ block parent, Linked (links.childToParent.assign child
      (((links.childToParent.get? child).getD .empty).erase element)) block parent ↔
        Linked links.childToParent block parent ∧ ¬(block ∈ [child] ∧ parent = element) := by
    intro block parent
    rw [linked_assign, mem_left, mem_singleton]
    grind
  simp only [unlinkChild]
  split_ifs with none_left
  all_goals
    rw [HashedSet.isEmpty_iff] at none_left
    refine ⟨links_iff, NoEmpty.assign, ?_, ?_⟩
    all_goals
      intro block
      simp only [mem_insert, beq_iff_eq, mem_singleton]
      grind

theorem foldl_unlinkChild (children : List BlockHash) (links : ChildLinks) :
    UnlinksChildren element children links (children.foldl (unlinkChild element) links) := by
  induction children generalizing links with
  | nil => exact ⟨by simp, id, by simp, by simp⟩
  | cons child rest ih =>
    have first := unlinkChild_spec element links child
    have later := ih (unlinkChild element links child)
    rw [foldl_cons]
    refine ⟨?_, later.noEmpty ∘ first.noEmpty, ?_, ?_⟩
    all_goals
      simp only [later.linked, later.affected, later.removed, first.linked, first.affected,
        first.removed, mem_cons]
      grind

end

theorem mem_foldl_erase {free : HashedSet BlockHash} {keep : BlockHash → Bool}
    {blocks : List BlockHash} :
    block ∈ blocks.foldl (fun free other => if keep other then free else free.erase other) free ↔
      block ∈ free ∧ (block ∈ blocks → keep block) := by
  induction blocks generalizing free with
  | nil => simp
  | cons other rest ih =>
    rw [foldl_cons, ih, mem_cons]
    split
    · grind
    · rw [mem_erase, beq_eq_false_iff_ne]
      grind

end Links

/-- The links mirror one another, and what waits for nothing is known. -/
structure Invariant (dag : BlockDependencyDag) : Prop where
  mirrored : ∀ parent child, Linked dag.parentToChildAdjacencyList parent child ↔
    Linked dag.childToParentAdjacencyList child parent
  children_noEmpty : NoEmpty dag.parentToChildAdjacencyList
  parents_noEmpty : NoEmpty dag.childToParentAdjacencyList
  free_sound : ∀ block ∈ dag.dependencyFree, dag.childToParentAdjacencyList.get? block = none
  free_complete : ∀ parent, (dag.parentToChildAdjacencyList.get? parent).isSome →
    dag.childToParentAdjacencyList.get? parent = none → parent ∈ dag.dependencyFree

theorem Invariant.empty : Invariant empty where
  mirrored _ _ := by simp [BlockDependencyDag.empty]
  children_noEmpty := noEmpty_empty
  parents_noEmpty := noEmpty_empty
  free_sound block member := absurd member (not_mem_empty block)
  free_complete _ present := by cases present

variable {dag : BlockDependencyDag}

theorem mem_dependencyFree_add :
    block ∈ (dag.add parent child).dependencyFree ↔
      (block ∈ dag.dependencyFree ∨
        block = parent ∧ (dag.childToParentAdjacencyList.link child parent).get? parent = none) ∧
      block ≠ child := by
  simp only [add]
  rw [mem_erase, beq_eq_false_iff_ne]
  refine and_congr_left fun _ => ?_
  cases (dag.childToParentAdjacencyList.link child parent).get? parent with
  | none => simp [mem_insert, or_comm]
  | some parents => simp

theorem Invariant.add (invariant : dag.Invariant)
    (parent child : BlockHash) : (dag.add parent child).Invariant where
  mirrored p c := by
    simp only [BlockDependencyDag.add, linked_link, invariant.mirrored]
    tauto
  children_noEmpty := invariant.children_noEmpty.link
  parents_noEmpty := invariant.parents_noEmpty.link
  free_sound block member := by
    obtain ⟨free, different⟩ := mem_dependencyFree_add.mp member
    rcases free with before | ⟨rfl, missing⟩
    · have none_before := invariant.parents_noEmpty.get?_eq_none_iff.mp
        (invariant.free_sound block before)
      refine invariant.parents_noEmpty.link.get?_eq_none_iff.mpr fun other linked => ?_
      rcases linked_link.mp linked with ⟨same, -⟩ | linked
      · exact different same
      · exact none_before other linked
    · exact missing
  free_complete block present missing := by
    have no_parents := invariant.parents_noEmpty.link.get?_eq_none_iff.mp missing
    rw [mem_dependencyFree_add]
    refine ⟨?_, ?_⟩
    · obtain ⟨other, linked⟩ := invariant.children_noEmpty.link.get?_isSome_iff.mp present
      rcases linked_link.mp linked with ⟨rfl, -⟩ | linked
      · exact .inr ⟨rfl, missing⟩
      · refine .inl (invariant.free_complete block
          (invariant.children_noEmpty.get?_isSome_iff.mpr ⟨other, linked⟩) ?_)
        exact invariant.parents_noEmpty.get?_eq_none_iff.mpr fun p linked =>
          no_parents p (linked_link.mpr (.inr linked))
    · rintro rfl
      exact no_parents parent (linked_link.mpr (.inl ⟨rfl, rfl⟩))

variable [HashMapOrder]

def linksOf (links : Adjacency BlockHash) (element : BlockHash) : List BlockHash :=
  ((links.get? element).map HashedSet.iter).getD []

def remove (dag : BlockDependencyDag) (element : BlockHash) : BlockDependencyDag × RemovalEffects :=
  let (unlinked, orphanedParents) :=
    (linksOf dag.childToParentAdjacencyList element).foldl (unlinkParent element) (dag, .empty)
  let links := (linksOf unlinked.parentToChildAdjacencyList element).foldl (unlinkChild element)
    ⟨unlinked.childToParentAdjacencyList.erase element, .empty, .empty⟩
  let dependencyFree :=
    (links.removed.iter.foldl HashedSet.insert unlinked.dependencyFree).erase element
  ({ parentToChildAdjacencyList := unlinked.parentToChildAdjacencyList.erase element
     childToParentAdjacencyList := links.childToParent
     dependencyFree := orphanedParents.iter.foldl (fun free parent =>
       if (links.childToParent.get? parent).isSome then free else free.erase parent)
       dependencyFree },
    ⟨links.affected, links.removed, orphanedParents⟩)

theorem mem_linksOf : block ∈ linksOf links element ↔ Linked links element block := by
  rw [linksOf]
  cases found : links.get? element with
  | none => simp [not_linked_of_get? found]
  | some set =>
    simp [linked_iff_of_get? found, mem_iter, mem_elements_iff]

structure Removes (dag : BlockDependencyDag) (element : BlockHash)
    (result : BlockDependencyDag × RemovalEffects) : Prop where
  children : ∀ parent child, Linked result.1.parentToChildAdjacencyList parent child ↔
    Linked dag.parentToChildAdjacencyList parent child ∧ parent ≠ element ∧ child ≠ element
  parents : ∀ child parent, Linked result.1.childToParentAdjacencyList child parent ↔
    Linked dag.childToParentAdjacencyList child parent ∧ child ≠ element ∧ parent ≠ element
  children_noEmpty : NoEmpty result.1.parentToChildAdjacencyList
  parents_noEmpty : NoEmpty result.1.childToParentAdjacencyList
  affected : ∀ block, block ∈ result.2.childrenAffected ↔ block ≠ element ∧
    Linked dag.childToParentAdjacencyList block element ∧
    ∃ parent, Linked dag.childToParentAdjacencyList block parent ∧ parent ≠ element
  removed : ∀ block, block ∈ result.2.childrenRemoved ↔ block ≠ element ∧
    LinkedOnlyTo dag.childToParentAdjacencyList block element
  orphaned : ∀ block, block ∈ result.2.orphanedParents ↔
    LinkedOnlyTo dag.parentToChildAdjacencyList block element
  free : ∀ block, block ∈ result.1.dependencyFree ↔ block ≠ element ∧
    ((block ∈ dag.dependencyFree ∧ block ∉ result.2.orphanedParents) ∨
      block ∈ result.2.childrenRemoved) ∧
    (block ∈ result.2.orphanedParents →
      (result.1.childToParentAdjacencyList.get? block).isSome = true)

theorem Invariant.removes (invariant : dag.Invariant)
    (element : BlockHash) : dag.Removes element (dag.remove element) := by
  have parents := foldl_unlinkParent element (linksOf dag.childToParentAdjacencyList element)
    (dag, .empty) invariant.children_noEmpty
  rw [remove]
  generalize (linksOf dag.childToParentAdjacencyList element).foldl (unlinkParent element)
    (dag, .empty) = state at parents ⊢
  obtain ⟨unlinked, orphans⟩ := state
  have children := foldl_unlinkChild element (linksOf unlinked.parentToChildAdjacencyList element)
    ⟨unlinked.childToParentAdjacencyList.erase element, .empty, .empty⟩
  dsimp only
  generalize (linksOf unlinked.parentToChildAdjacencyList element).foldl (unlinkChild element)
    ⟨unlinked.childToParentAdjacencyList.erase element, .empty, .empty⟩ = links at children ⊢
  have same := parents.childToParent
  have mirrored := invariant.mirrored
  -- The links back to the element itself are gone before its children are looked up.
  have mem_children : ∀ child, Linked unlinked.parentToChildAdjacencyList element child ↔
      Linked dag.childToParentAdjacencyList child element ∧ child ≠ element := by
    intro child
    rw [parents.linked, mem_linksOf]
    grind
  have mem_orphans : ∀ block, block ∈ orphans ↔
      LinkedOnlyTo dag.parentToChildAdjacencyList block element := by
    intro block
    rw [parents.orphaned, mem_linksOf, ← mirrored, LinkedOnlyTo]
    simp
  have mem_removed : ∀ block, block ∈ links.removed ↔ block ≠ element ∧
      LinkedOnlyTo dag.childToParentAdjacencyList block element := by
    intro block
    rw [children.removed, mem_linksOf, mem_children, same]
    simp only [linked_erase, LinkedOnlyTo, not_mem_empty]
    grind
  refine ⟨?_, ?_, parents.noEmpty.erase, children.noEmpty (same ▸ invariant.parents_noEmpty.erase),
    ?_, mem_removed, mem_orphans, ?_⟩
  · intro parent child
    simp only [linked_erase, parents.linked, mem_linksOf]
    grind
  · intro child parent
    simp only [children.linked, linked_erase, mem_linksOf, mem_children]
    grind
  · intro block
    simp only [children.affected, mem_linksOf, mem_children, linked_erase, not_mem_empty]
    grind
  · intro block
    simp only [mem_foldl_erase, mem_erase, mem_foldl_insert,
      mem_iter, mem_elements_iff, beq_iff_eq, exists_eq_right',
      beq_eq_false_iff_ne, parents.free, mem_linksOf, mem_orphans]
    grind [LinkedOnlyTo]

theorem Invariant.remove (invariant : dag.Invariant)
    (element : BlockHash) : (dag.remove element).1.Invariant := by
  have removes := invariant.removes element
  refine ⟨?_, removes.children_noEmpty, removes.parents_noEmpty, ?_, ?_⟩
  · intro parent child
    rw [removes.children, removes.parents, invariant.mirrored]
    tauto
  · intro block member
    obtain ⟨different, free, -⟩ := (removes.free block).mp member
    refine removes.parents_noEmpty.get?_eq_none_iff.mpr fun parent linked => ?_
    obtain ⟨linked, -, other⟩ := (removes.parents block parent).mp linked
    rcases free with ⟨before, -⟩ | removed
    · exact invariant.parents_noEmpty.get?_eq_none_iff.mp
        (invariant.free_sound block before) parent linked
    · exact other (((removes.removed block).mp removed).2.2 parent linked)
  · intro parent present missing
    obtain ⟨child, linked⟩ := removes.children_noEmpty.get?_isSome_iff.mp present
    obtain ⟨linked, different, other⟩ := (removes.children parent child).mp linked
    -- A parent that has a child other than the element is no orphan.
    have kept : parent ∉ (dag.remove element).2.orphanedParents := fun orphaned =>
      other (((removes.orphaned parent).mp orphaned).2 child linked)
    refine (removes.free parent).mpr ⟨different, ?_, fun orphaned => absurd orphaned kept⟩
    have no_parents := removes.parents_noEmpty.get?_eq_none_iff.mp missing
    by_cases waited : Linked dag.childToParentAdjacencyList parent element
    · refine .inr ((removes.removed parent).mpr ⟨different, waited, fun p linked => ?_⟩)
      by_contra other_parent
      exact no_parents p ((removes.parents parent p).mpr ⟨linked, different, other_parent⟩)
    · refine .inl ⟨invariant.free_complete parent
        (invariant.children_noEmpty.get?_isSome_iff.mpr ⟨child, linked⟩) ?_, kept⟩
      refine invariant.parents_noEmpty.get?_eq_none_iff.mpr fun p has_parent => ?_
      refine no_parents p ((removes.parents parent p).mpr ⟨has_parent, different, ?_⟩)
      rintro rfl
      exact waited has_parent

inductive Operation where
  | add (parent child : BlockHash)
  | remove (element : BlockHash)

def run (dag : BlockDependencyDag) : Operation → BlockDependencyDag
  | .add parent child => dag.add parent child
  | .remove element => (dag.remove element).1

theorem Invariant.run (invariant : dag.Invariant)
    (operation : Operation) : (dag.run operation).Invariant := by
  cases operation with
  | add parent child => exact invariant.add parent child
  | remove element => exact invariant.remove element

theorem Invariant.foldl_run (invariant : dag.Invariant)
    (operations : List Operation) : (operations.foldl BlockDependencyDag.run dag).Invariant := by
  induction operations generalizing dag with
  | nil => exact invariant
  | cons operation rest ih => exact ih (invariant.run operation)

/-- The invariant holds after any additions and removals, also when links go round in
circles. -/
theorem invariant_of_reachable (operations : List Operation) :
    (operations.foldl run empty).Invariant :=
  Invariant.empty.foldl_run operations

end BlockDependencyDag

end F1r3fly.BlockStorage
