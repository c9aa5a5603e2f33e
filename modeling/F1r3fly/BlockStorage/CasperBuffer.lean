import F1r3fly.BlockStorage.BlockDependencyDag

/-! The buffer of blocks that wait for others. The parents are also kept in a persistent
store, from which the links are built again when the node starts. -/
namespace F1r3fly.BlockStorage

open HashedSet Adjacency

structure CasperBufferKeyValueStorage where
  parentsStore : Adjacency BlockHash
  blockDependencyDag : BlockDependencyDag

namespace CasperBufferKeyValueStorage

section Definitions

/-- The bytes of `tempblock`. -/
def tempBlock : BlockHash := [116, 101, 109, 112, 98, 108, 111, 99, 107]

def addRelation (buffer : CasperBufferKeyValueStorage) (parent child : BlockHash) :
    CasperBufferKeyValueStorage where
  parentsStore := buffer.parentsStore.insert child
    (((buffer.parentsStore.get? child).getD .empty).insert parent)
  blockDependencyDag := buffer.blockDependencyDag.add parent child

variable [HashMapOrder]

def addParents (dag : BlockDependencyDag) (entry : BlockHash × HashedSet BlockHash) :
    BlockDependencyDag :=
  entry.2.iter.foldl (fun dag parent => dag.add parent entry.1) dag

def newFromKvStore (kvStore : Adjacency BlockHash) : CasperBufferKeyValueStorage where
  parentsStore := kvStore
  blockDependencyDag := kvStore.iter.foldl addParents .empty

def remove (buffer : CasperBufferKeyValueStorage) (hash : BlockHash) :
    CasperBufferKeyValueStorage :=
  let (dag, effects) := buffer.blockDependencyDag.remove hash
  let changes := effects.childrenAffected.iter.map fun child =>
    (child, (dag.childToParentAdjacencyList.get? child).getD .empty)
  let parentsStore := changes.foldl (fun store change => store.insert change.1 change.2)
    buffer.parentsStore
  let hashesToDelete := effects.childrenRemoved.iter ++ hash :: effects.orphanedParents.iter
  { parentsStore := hashesToDelete.foldl HashedMap.erase parentsStore
    blockDependencyDag := dag }

/-- A block without parents gets one that is removed at once. -/
def putPendant (buffer : CasperBufferKeyValueStorage) (block : BlockHash) :
    CasperBufferKeyValueStorage :=
  (buffer.addRelation tempBlock block).remove tempBlock

inductive Operation where
  | addRelation (parent child : BlockHash)
  | putPendant (block : BlockHash)
  | remove (hash : BlockHash)

def run (buffer : CasperBufferKeyValueStorage) : Operation → CasperBufferKeyValueStorage
  | .addRelation parent child => buffer.addRelation parent child
  | .putPendant block => buffer.putPendant block
  | .remove hash => buffer.remove hash

def states (buffer : CasperBufferKeyValueStorage) :
    List Operation → List CasperBufferKeyValueStorage
  | [] => [buffer]
  | operation :: rest => buffer :: (buffer.run operation).states rest

end Definitions

section Persistence

/-- The store has the recorded parents of every block, and nothing else. -/
structure Persisted (buffer : CasperBufferKeyValueStorage) : Prop where
  keys : ∀ hash, (buffer.parentsStore.get? hash).isSome =
    (buffer.blockDependencyDag.childToParentAdjacencyList.get? hash).isSome
  parents : ∀ hash parent, Linked buffer.parentsStore hash parent ↔
    Linked buffer.blockDependencyDag.childToParentAdjacencyList hash parent

def SameRelations (dag other : BlockDependencyDag) : Prop :=
  (∀ parent child, Linked dag.parentToChildAdjacencyList parent child ↔
    Linked other.parentToChildAdjacencyList parent child) ∧
  ∀ child parent, Linked dag.childToParentAdjacencyList child parent ↔
    Linked other.childToParentAdjacencyList child parent

/-- No other block that loses its last child still waits for a parent. -/
def RemovesCleanly (dag : BlockDependencyDag) (hash : BlockHash) : Prop :=
  ∀ orphan, orphan ≠ hash → LinkedOnlyTo dag.parentToChildAdjacencyList orphan hash →
    ∀ parent, Linked dag.childToParentAdjacencyList orphan parent → parent = hash

def Clean (buffer : CasperBufferKeyValueStorage) : Operation → Prop
  | .addRelation _ _ => True
  | .putPendant block => RemovesCleanly (buffer.blockDependencyDag.add tempBlock block) tempBlock
  | .remove hash => RemovesCleanly buffer.blockDependencyDag hash

variable {buffer : CasperBufferKeyValueStorage}

theorem persisted_iff (invariant : buffer.blockDependencyDag.Invariant) :
    Persisted buffer ↔ NoEmpty buffer.parentsStore ∧
      ∀ hash parent, Linked buffer.parentsStore hash parent ↔
        Linked buffer.blockDependencyDag.childToParentAdjacencyList hash parent := by
  constructor
  · rintro ⟨keys, parents⟩
    refine ⟨fun hash set found => ?_, parents⟩
    have recorded := keys hash
    rw [found, isSome_some] at recorded
    obtain ⟨parent, linked⟩ := invariant.parents_noEmpty.get?_isSome_iff.mp recorded.symm
    exact ⟨parent, (Adjacency.linked_iff_of_get? found).mp ((parents hash parent).mpr linked)⟩
  · rintro ⟨noEmpty, parents⟩
    refine ⟨fun hash => ?_, parents⟩
    rw [eq_iff_iff, noEmpty.get?_isSome_iff, invariant.parents_noEmpty.get?_isSome_iff]
    exact exists_congr (parents hash)

theorem Persisted.addRelation (persisted : Persisted buffer)
    (invariant : buffer.blockDependencyDag.Invariant) (parent child : BlockHash) :
    Persisted (buffer.addRelation parent child) := by
  obtain ⟨noEmpty, parents⟩ := (persisted_iff invariant).mp persisted
  refine (persisted_iff (invariant.add parent child)).mpr ⟨?_, ?_⟩
  · exact noEmpty.insert ⟨parent, mem_insert.mpr (.inl BEq.rfl)⟩
  · intro hash other
    refine Iff.trans ?_ Adjacency.linked_link.symm
    rw [← parents, CasperBufferKeyValueStorage.addRelation, Adjacency.linked_insert, mem_insert,
      Adjacency.mem_getD, beq_iff_eq]
    grind

variable [HashMapOrder]

section

variable (invariant : buffer.blockDependencyDag.Invariant)

include invariant

/-- What the store has after a removal: the children of the block get the parents that are
left, and the block, children without parents and orphaned parents are deleted. -/
theorem linked_remove {hash block parent : BlockHash} :
    Linked (buffer.remove hash).parentsStore block parent ↔
      block ≠ hash ∧ ¬LinkedOnlyTo buffer.blockDependencyDag.parentToChildAdjacencyList block hash ∧
      (Linked buffer.blockDependencyDag.childToParentAdjacencyList block hash ∧
          Linked buffer.blockDependencyDag.childToParentAdjacencyList block parent ∧
            parent ≠ hash ∨
        ¬Linked buffer.blockDependencyDag.childToParentAdjacencyList block hash ∧
          Linked buffer.parentsStore block parent) := by
  have removes := invariant.removes hash
  rw [remove]
  generalize buffer.blockDependencyDag.remove hash = result at removes ⊢
  dsimp only
  rw [foldl_map, Adjacency.linked_foldl_erase, Adjacency.linked_foldl_insert]
  simp only [mem_append, mem_cons, mem_iter, mem_elements_iff,
    Adjacency.mem_getD, removes.parents, removes.affected, removes.removed, removes.orphaned]
  grind [LinkedOnlyTo]

theorem noEmpty_remove (noEmpty : NoEmpty buffer.parentsStore) (hash : BlockHash) :
    NoEmpty (buffer.remove hash).parentsStore := by
  have removes := invariant.removes hash
  rw [remove]
  generalize buffer.blockDependencyDag.remove hash = result at removes ⊢
  dsimp only
  rw [foldl_map]
  refine (noEmpty.foldl_insert fun child member => ?_).foldl_erase _
  rw [mem_iter, mem_elements_iff] at member
  obtain ⟨different, -, parent, linked, other⟩ := (removes.affected child).mp member
  exact ⟨parent, Adjacency.mem_getD.mpr ((removes.parents child parent).mpr
    ⟨linked, different, other⟩)⟩

/-- A removal keeps store and memory in step exactly when it is clean. -/
theorem persisted_remove_iff (persisted : Persisted buffer) (hash : BlockHash) :
    Persisted (buffer.remove hash) ↔ RemovesCleanly buffer.blockDependencyDag hash := by
  obtain ⟨noEmpty, parents⟩ := (persisted_iff invariant).mp persisted
  have recorded : ∀ block parent,
      Linked (buffer.remove hash).blockDependencyDag.childToParentAdjacencyList block parent ↔
        Linked buffer.blockDependencyDag.childToParentAdjacencyList block parent ∧
          block ≠ hash ∧ parent ≠ hash := (invariant.removes hash).parents
  have kept : (buffer.remove hash).blockDependencyDag.Invariant := invariant.remove hash
  rw [persisted_iff kept]
  simp only [noEmpty_remove invariant noEmpty hash, true_and, linked_remove invariant, parents,
    recorded, RemovesCleanly]
  constructor
  · intro agree orphan different only parent linked
    by_contra other
    exact ((agree orphan parent).mpr ⟨linked, different, other⟩).2.1 only
  · intro clean block parent
    grind

theorem persisted_run_iff (persisted : Persisted buffer) (operation : Operation) :
    Persisted (buffer.run operation) ↔ Clean buffer operation := by
  cases operation with
  | addRelation parent child => exact iff_of_true (persisted.addRelation invariant _ _) trivial
  | putPendant block =>
    exact persisted_remove_iff (invariant.add tempBlock block)
      (persisted.addRelation invariant _ _) tempBlock
  | remove hash => exact persisted_remove_iff invariant persisted hash

theorem invariant_run (operation : Operation) :
    (buffer.run operation).blockDependencyDag.Invariant := by
  cases operation with
  | addRelation parent child => exact invariant.add parent child
  | putPendant block => exact (invariant.add tempBlock block).remove tempBlock
  | remove hash => exact invariant.remove hash

end

theorem addParents_spec (invariant : dag.Invariant) (entry : BlockHash × HashedSet BlockHash) :
    (addParents dag entry).Invariant ∧
      ∀ child parent, Linked (addParents dag entry).childToParentAdjacencyList child parent ↔
        child = entry.1 ∧ parent ∈ entry.2 ∨
          Linked dag.childToParentAdjacencyList child parent := by
  rw [addParents]
  simp only [← mem_elements_iff (s := entry.2), ← mem_iter]
  generalize entry.2.iter = parents
  induction parents generalizing dag with
  | nil => exact ⟨invariant, by simp⟩
  | cons first rest ih =>
    obtain ⟨later, linked⟩ := ih (invariant.add first entry.1)
    refine ⟨later, fun child parent => ?_⟩
    rw [foldl_cons, linked, BlockDependencyDag.add, Adjacency.linked_link, mem_cons]
    tauto

theorem foldl_addParents_spec (entries : List (BlockHash × HashedSet BlockHash))
    (invariant : dag.Invariant) :
    (entries.foldl addParents dag).Invariant ∧
      ∀ child parent,
        Linked (entries.foldl addParents dag).childToParentAdjacencyList child parent ↔
          (∃ parents, (child, parents) ∈ entries ∧ parent ∈ parents) ∨
            Linked dag.childToParentAdjacencyList child parent := by
  induction entries generalizing dag with
  | nil => exact ⟨invariant, by simp⟩
  | cons entry rest ih =>
    obtain ⟨first, first_linked⟩ := addParents_spec invariant entry
    obtain ⟨later, linked⟩ := ih first
    refine ⟨later, fun child parent => ?_⟩
    grind

/-- The links that are built from the store are those of the store. -/
theorem newFromKvStore_spec (kvStore : Adjacency BlockHash) :
    (newFromKvStore kvStore).blockDependencyDag.Invariant ∧
      ∀ child parent,
        Linked (newFromKvStore kvStore).blockDependencyDag.childToParentAdjacencyList child parent ↔
          Linked kvStore child parent := by
  obtain ⟨invariant, linked⟩ := foldl_addParents_spec kvStore.iter .empty
  refine ⟨invariant, fun child parent => (linked child parent).trans ?_⟩
  rw [or_iff_left (by simp [BlockDependencyDag.empty])]
  refine exists_congr fun parents => and_congr_left fun _ => ?_
  rw [HashedMap.mem_iter]
  constructor
  · exact HashedMap.get?_of_mem
  · intro found
    obtain ⟨key, entry, same⟩ := HashedMap.get?_eq_some_iff.mp found
    rwa [eq_of_beq same]

theorem Persisted.rebuilt (persisted : Persisted buffer)
    (invariant : buffer.blockDependencyDag.Invariant) :
    SameRelations (newFromKvStore buffer.parentsStore).blockDependencyDag
      buffer.blockDependencyDag := by
  obtain ⟨rebuilt_invariant, linked⟩ := newFromKvStore_spec buffer.parentsStore
  have same_parents := fun child parent => (linked child parent).trans (persisted.parents _ _)
  refine ⟨fun parent child => ?_, same_parents⟩
  rw [rebuilt_invariant.mirrored, invariant.mirrored]
  exact same_parents child parent

def CleanRun (buffer : CasperBufferKeyValueStorage) : List Operation → Prop
  | [] => True
  | operation :: rest => Clean buffer operation ∧ CleanRun (buffer.run operation) rest

theorem states_persisted_iff (operations : List Operation)
    (invariant : buffer.blockDependencyDag.Invariant) :
    (∀ state ∈ buffer.states operations, Persisted state ∧
        SameRelations (newFromKvStore state.parentsStore).blockDependencyDag
          state.blockDependencyDag) ↔ Persisted buffer ∧ CleanRun buffer operations := by
  induction operations generalizing buffer with
  | nil =>
    rw [states, forall_mem_singleton, CleanRun, and_true]
    exact and_iff_left_of_imp fun persisted => persisted.rebuilt invariant
  | cons operation rest ih =>
    rw [states, forall_mem_cons, ih (invariant_run invariant operation), CleanRun]
    constructor
    · rintro ⟨⟨persisted, -⟩, next, clean⟩
      exact ⟨persisted, (persisted_run_iff invariant persisted operation).mp next, clean⟩
    · rintro ⟨persisted, clean, later⟩
      exact ⟨⟨persisted, persisted.rebuilt invariant⟩,
        (persisted_run_iff invariant persisted operation).mpr clean, later⟩

/-- Store and memory agree in every state of a run, and the links can be built again,
exactly when the initial store has no empty set and every operation is clean. -/
theorem buffer_persisted_iff (kvStore : Adjacency BlockHash) (operations : List Operation) :
    (∀ state ∈ (newFromKvStore kvStore).states operations, Persisted state ∧
        SameRelations (newFromKvStore state.parentsStore).blockDependencyDag
          state.blockDependencyDag) ↔
      NoEmpty kvStore ∧ CleanRun (newFromKvStore kvStore) operations := by
  obtain ⟨invariant, linked⟩ := newFromKvStore_spec kvStore
  rw [states_persisted_iff operations invariant, persisted_iff invariant]
  refine and_congr_left fun _ => and_iff_left fun hash parent => ?_
  exact (linked hash parent).symm

end Persistence

section Samples

attribute [local instance] storedOrder

/-- A block that loses its only child is deleted from the store with the parents that it
still waits for. -/
theorem remove_deletes_waiting_parent :
    ∃ state ∈ (newFromKvStore .empty).states
        [.addRelation [1] [2], .addRelation [2] [3], .remove [3]], ¬Persisted state := by
  refine ⟨_, mem_cons_of_mem _ (.tail _ (.tail _ (.head _))), fun persisted => ?_⟩
  have same := persisted.keys [2]
  revert same
  decide

end Samples

end CasperBufferKeyValueStorage

end F1r3fly.BlockStorage
