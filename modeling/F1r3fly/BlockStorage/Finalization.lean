import F1r3fly.BlockStorage.BlockDagKeyValueStorage

/-! Finalized blocks. A block that is found to be finalized makes all its ancestors
finalized. Other calls may insert and finalize blocks while the ancestors are collected,
so the collection is repeated until nothing new is found. -/
namespace F1r3fly.BlockStorage

open Option HashedSet Results KeyValueDagRepresentation

open Models (BlockMessage)
open RSpace
open Relation

namespace BlockMetadataStore

def Parent (store : BlockMetadataStore) (child parent : BlockHash) : Prop :=
  ∃ metadata, store.get child = some metadata ∧ parent ∈ metadata.parents

def Finalized (store : BlockMetadataStore) (hash : BlockHash) : Prop :=
  ∃ metadata, store.get hash = some metadata ∧ metadata.finalized = true

def Past (store : BlockMetadataStore) (block ancestor : BlockHash) : Prop :=
  ReflTransGen store.Parent block ancestor

/-- The DAG is closed under parents, its finalized blocks are, and the cache has none but
finalized blocks. -/
structure Consistent (store : BlockMetadataStore) : Prop where
  keyed : store.Keyed
  parents_known : ∀ child parent, store.Parent child parent → parent ∈ store.dagState.dagSet
  finalized_closed : ∀ child parent, store.Finalized child → store.Parent child parent →
    store.Finalized parent
  cached : ∀ hash ∈ store.dagState.finalizedBlockSet, store.Finalized hash

/-- No block, parent or finalization is lost. -/
structure Evolves (before after : BlockMetadataStore) : Prop where
  known : ∀ hash ∈ before.dagState.dagSet, hash ∈ after.dagState.dagSet
  parents : ∀ child ∈ before.dagState.dagSet, ∀ parent,
    after.Parent child parent ↔ before.Parent child parent
  finalized : ∀ hash, before.Finalized hash → after.Finalized hash
  last_le : before.dagState.lastFinalizedBlock.2 ≤ after.dagState.lastFinalizedBlock.2

variable {store before after : BlockMetadataStore}

theorem Keyed.known_of_get (keyed : store.Keyed) {hash : BlockHash}
    (found : store.get hash = some metadata) : hash ∈ store.dagState.dagSet :=
  (keyed.stored hash).mpr ⟨metadata, found⟩

theorem Consistent.known_of_past (consistent : store.Consistent)
    (known : block ∈ store.dagState.dagSet) (path : store.Past block ancestor) :
    ancestor ∈ store.dagState.dagSet :=
  holds_of_reflTransGen (· ∈ store.dagState.dagSet)
    (fun child parent _ step => consistent.parents_known child parent step) known path

theorem Evolves.refl (store : BlockMetadataStore) : store.Evolves store :=
  ⟨fun _ known => known, fun _ _ _ => .rfl, fun _ finalized => finalized, Std.le_refl _⟩

theorem Evolves.trans (first : before.Evolves after) (second : after.Evolves later) :
    before.Evolves later where
  known hash known := second.known hash (first.known hash known)
  parents child known parent :=
    (second.parents child (first.known child known) parent).trans (first.parents child known parent)
  finalized hash finalized := second.finalized hash (first.finalized hash finalized)
  last_le := Std.le_trans first.last_le second.last_le

/-- The past of a block is settled when it is inserted. -/
theorem Evolves.past_iff (evolves : before.Evolves after) (consistent : before.Consistent)
    (known : block ∈ before.dagState.dagSet) :
    after.Past block ancestor ↔ before.Past block ancestor := by
  constructor
  · exact reflTransGen_of_agree (· ∈ before.dagState.dagSet)
      (fun child parent inside step =>
        consistent.parents_known child parent ((evolves.parents child inside parent).mp step))
      (fun child parent inside step => (evolves.parents child inside parent).mp step) known
  · exact reflTransGen_of_agree (· ∈ before.dagState.dagSet)
      (fun child parent _ step => consistent.parents_known child parent step)
      (fun child parent inside step => (evolves.parents child inside parent).mpr step) known

theorem consistent_new : new.Consistent where
  keyed := by
    constructor
    · intro hash metadata found
      cases found
    · intro hash
      constructor
      · exact fun member => absurd member (not_mem_empty hash)
      · rintro ⟨metadata, found⟩
        cases found
  parents_known := by
    rintro child parent ⟨metadata, found, -⟩
    cases found
  finalized_closed := by
    rintro child parent ⟨metadata, found, -⟩
    cases found
  cached hash member := absurd member (not_mem_empty hash)

section Insert

variable {metadata : BlockMetadata}

section

variable (added : store.Added metadata after)

include added

theorem Added.get_of_known
    (fresh : metadata.blockHash ∉ store.dagState.dagSet) {hash : BlockHash}
    (known : hash ∈ store.dagState.dagSet) : after.get hash = store.get hash := by
  rw [added.get_eq, if_neg]
  rintro rfl
  exact fresh known

theorem Added.evolves (keyed : store.Keyed)
    (fresh : metadata.blockHash ∉ store.dagState.dagSet) : store.Evolves after where
  known hash known := (added.mem_dagSet hash).mpr (.inr known)
  parents child known parent := by
    rw [Parent, added.get_of_known fresh known, Parent]
  finalized := by
    rintro hash ⟨current, found, finalized⟩
    refine ⟨current, ?_, finalized⟩
    rwa [added.get_of_known fresh (keyed.known_of_get found)]
  last_le := added.last_le

theorem Added.keyed (keyed : store.Keyed) : after.Keyed where
  hash_eq hash current found := by
    rw [added.get_eq] at found
    split_ifs at found with same
    · cases found
      exact same.symm
    · exact keyed.hash_eq hash current found
  stored hash := by
    rw [added.mem_dagSet, added.get_eq, keyed.stored hash]
    by_cases same : hash = metadata.blockHash
    · simp [same]
    · simp [same]

theorem Added.consistent (consistent : store.Consistent)
    (fresh : metadata.blockHash ∉ store.dagState.dagSet) (open_block : metadata.finalized = false)
    (parents_known : ∀ parent ∈ metadata.parents, parent ∈ store.dagState.dagSet) :
    after.Consistent := by
  have evolves := added.evolves consistent.keyed fresh
  have cases_of_parent {child parent : BlockHash} (step : after.Parent child parent) :
      child = metadata.blockHash ∧ parent ∈ metadata.parents ∨
        child ∈ store.dagState.dagSet ∧ store.Parent child parent := by
    obtain ⟨current, found, member⟩ := step
    rw [added.get_eq] at found
    split_ifs at found with same
    · cases found
      exact .inl ⟨same, member⟩
    · exact .inr ⟨consistent.keyed.known_of_get found, current, found, member⟩
  refine ⟨added.keyed consistent.keyed, ?_, ?_, ?_⟩
  · intro child parent step
    rcases cases_of_parent step with ⟨-, member⟩ | ⟨-, step⟩
    · exact evolves.known parent (parents_known parent member)
    · exact evolves.known parent (consistent.parents_known child parent step)
  · rintro child parent ⟨current, found, finalized⟩ step
    rcases cases_of_parent step with ⟨rfl, -⟩ | ⟨known, step⟩
    · rw [added.get_eq, if_pos rfl] at found
      cases found
      rw [open_block] at finalized
      cases finalized
    · rw [added.get_of_known fresh known] at found
      exact evolves.finalized parent
        (consistent.finalized_closed child parent ⟨current, found, finalized⟩ step)
  · intro hash member
    rw [added.cached open_block] at member
    exact evolves.finalized hash (consistent.cached hash member)

end

end Insert

section Record

variable {directly : BlockHash} {indirectly : HashedSet BlockHash}

theorem finalizedMetadata_parents (metadata : BlockMetadata) :
    (finalizedMetadata directly indirectly metadata).parents = metadata.parents := by
  rw [finalizedMetadata]
  split
  · rfl
  split <;> rfl

theorem finalizedMetadata_finalized (metadata : BlockMetadata) :
    (finalizedMetadata directly indirectly metadata).finalized ↔
      metadata.finalized ∨ metadata.blockHash = directly ∨ metadata.blockHash ∈ indirectly := by
  rw [finalizedMetadata]
  split
  case isTrue member => simp [member]
  case isFalse absent =>
    split
    case isTrue same => simp [same]
    case isFalse differs => simp [differs, absent]

section

variable (recorded : store.Recorded directly indirectly after)

include recorded

theorem Recorded.parent_iff : after.Parent child parent ↔ store.Parent child parent := by
  simp only [Parent, recorded.get_eq, map_eq_some_iff]
  constructor
  · rintro ⟨-, ⟨metadata, found, rfl⟩, member⟩
    rw [finalizedMetadata_parents] at member
    exact ⟨metadata, found, member⟩
  · rintro ⟨metadata, found, member⟩
    refine ⟨_, ⟨metadata, found, rfl⟩, ?_⟩
    rwa [finalizedMetadata_parents]

theorem Recorded.finalized_iff (keyed : store.Keyed) {hash : BlockHash} :
    after.Finalized hash ↔ store.Finalized hash ∨
      (hash = directly ∨ hash ∈ indirectly) ∧ hash ∈ store.dagState.dagSet := by
  simp only [Finalized, recorded.get_eq, map_eq_some_iff]
  constructor
  · rintro ⟨-, ⟨metadata, found, rfl⟩, finalized⟩
    rw [finalizedMetadata_finalized, keyed.hash_eq hash metadata found] at finalized
    rcases finalized with already | named
    · exact .inl ⟨metadata, found, already⟩
    · exact .inr ⟨named, keyed.known_of_get found⟩
  · rintro (⟨metadata, found, finalized⟩ | ⟨named, known⟩)
    · exact ⟨_, ⟨metadata, found, rfl⟩, (finalizedMetadata_finalized metadata).mpr (.inl finalized)⟩
    · obtain ⟨metadata, found⟩ := (keyed.stored hash).mp known
      refine ⟨_, ⟨metadata, found, rfl⟩, (finalizedMetadata_finalized metadata).mpr (.inr ?_)⟩
      rwa [keyed.hash_eq hash metadata found]

theorem Recorded.evolves (keyed : store.Keyed) : store.Evolves after where
  known hash known := by rwa [recorded.dagSet_eq]
  parents _ _ _ := recorded.parent_iff
  finalized hash finalized := (recorded.finalized_iff keyed).mpr (.inl finalized)
  last_le := recorded.last_le

theorem Recorded.keyed (keyed : store.Keyed) : after.Keyed where
  hash_eq hash metadata found := by
    rw [recorded.get_eq, map_eq_some_iff] at found
    obtain ⟨current, found, rfl⟩ := found
    rw [← keyed.hash_eq hash current found, finalizedMetadata]
    split_ifs <;> rfl
  stored hash := by
    rw [recorded.dagSet_eq, recorded.get_eq, keyed.stored hash]
    simp

theorem Recorded.consistent
    (consistent : store.Consistent)
    (complete : ∀ child parent, child = directly ∨ child ∈ indirectly →
      store.Parent child parent →
      store.Finalized parent ∨ parent = directly ∨ parent ∈ indirectly)
    (known : ∀ hash ∈ indirectly, hash ∈ store.dagState.dagSet) : after.Consistent := by
  have keyed := consistent.keyed
  have direct_known : directly ∈ store.dagState.dagSet :=
    (keyed.stored directly).mpr recorded.direct_stored
  refine ⟨recorded.keyed keyed, ?_, ?_, ?_⟩
  · intro child parent step
    rw [recorded.dagSet_eq]
    exact consistent.parents_known child parent (recorded.parent_iff.mp step)
  · intro child parent finalized step
    have step := recorded.parent_iff.mp step
    have parent_known := consistent.parents_known child parent step
    rw [recorded.finalized_iff keyed] at finalized ⊢
    rcases finalized with already | ⟨named, -⟩
    · exact .inl (consistent.finalized_closed child parent already step)
    · exact (complete child parent named step).imp_right fun named => ⟨named, parent_known⟩
  · intro hash member
    rw [recorded.finalized_iff keyed]
    rcases recorded.cached hash member with old | rfl | new
    · exact .inl (consistent.cached hash old)
    · exact .inr ⟨.inl rfl, direct_known⟩
    · exact .inr ⟨.inr new, known hash new⟩

end

end Record

end BlockMetadataStore

namespace BlockDagKeyValueStorage

open BlockMetadataStore

def maxFinalizationReconcileLoops : Nat := 128

def nonexistentHash (hash : BlockHash) : KvStoreError :=
  .invalidArgument ("Attempting to finalize nonexistent hash " ++
    PrettyPrinter.buildStringBytes hash)

def exceededLoops (hash : BlockHash) : KvStoreError :=
  .ioError ("record_directly_finalized exceeded " ++ toString maxFinalizationReconcileLoops ++
    " reconcile loops for " ++ PrettyPrinter.buildStringBytes hash)

def pendingEffect (dag : KeyValueDagRepresentation) (directlyFinalizedHash : BlockHash)
    (effectApplied : HashedSet BlockHash) : Except KvStoreError (HashedSet BlockHash) :=
  if dag.contains directlyFinalizedHash then do
    let indirectlyFinalized ← dag.ancestors directlyFinalizedHash fun hash => !dag.isFinalized hash
    return (indirectlyFinalized.insert directlyFinalizedHash).difference effectApplied
  else .error (nonexistentHash directlyFinalizedHash)

variable {storage : BlockDagKeyValueStorage} {hash : BlockHash}
  {effectApplied pending : HashedSet BlockHash}

section

variable (keyed : storage.blockMetadataIndex.Keyed)
include keyed

theorem lookup_getRepresentation (hash : BlockHash) :
    storage.getRepresentation.lookup hash = storage.blockMetadataIndex.get hash := by
  rw [lookup]
  split_ifs with unknown
  · rfl
  · cases found : storage.blockMetadataIndex.get hash with
    | none => rfl
    | some metadata => exact absurd (keyed.known_of_get found) unknown

theorem parentOf_iff : storage.getRepresentation.ParentOf child parent ↔
      storage.blockMetadataIndex.Parent child parent := by
  rw [KeyValueDagRepresentation.ParentOf, lookup_getRepresentation keyed, BlockMetadataStore.Parent]

theorem ancestorOrSelf_iff : storage.getRepresentation.AncestorOrSelf ancestor block ↔
      storage.blockMetadataIndex.Past block ancestor := by
  have same : storage.getRepresentation.ParentOf = storage.blockMetadataIndex.Parent :=
    funext₂ fun _ _ => propext (parentOf_iff keyed)
  rw [KeyValueDagRepresentation.AncestorOrSelf, same, BlockMetadataStore.Past]

end

section

variable (consistent : storage.blockMetadataIndex.Consistent)

include consistent

theorem isFinalized_iff {hash : BlockHash} :
    storage.getRepresentation.isFinalized hash ↔ storage.blockMetadataIndex.Finalized hash := by
  have from_metadata :
      ((storage.blockMetadataIndex.get hash).map (·.finalized)).getD false ↔
        storage.blockMetadataIndex.Finalized hash := by
    rw [BlockMetadataStore.Finalized]
    cases storage.blockMetadataIndex.get hash with
    | none => simp
    | some metadata => simp
  rw [isFinalized, or_eq_true]
  refine Iff.trans (or_congr_right from_metadata) (or_iff_right_of_imp ?_)
  exact consistent.cached hash

theorem pendingEffect_eq
    (contained : storage.getRepresentation.contains hash) :
    ∃ allFinalized : HashedSet BlockHash,
      (∀ effectApplied, pendingEffect storage.getRepresentation hash effectApplied =
        .ok (allFinalized.difference effectApplied)) ∧
      ∀ ancestor, ancestor ∈ allFinalized ↔
        ReflTransGen (fun child parent => storage.blockMetadataIndex.Parent child parent ∧
          ¬storage.blockMetadataIndex.Finalized parent) hash ancestor := by
  have keyed := consistent.keyed
  have known : hash ∈ storage.blockMetadataIndex.dagState.dagSet :=
    (and_eq_true_iff.mp contained).2
  have closed : storage.getRepresentation.ParentsKnown := by
    intro child parent step
    have parent_known := consistent.parents_known child parent ((parentOf_iff keyed).mp step)
    obtain ⟨metadata, found⟩ := (keyed.stored parent).mp parent_known
    exact ⟨metadata, (lookup_getRepresentation keyed parent).trans found⟩
  obtain ⟨metadata, found⟩ := (keyed.stored hash).mp known
  obtain ⟨ancestors, searched, mem_ancestors⟩ :=
    ancestors_spec closed
      ⟨metadata, (lookup_getRepresentation keyed hash).trans found⟩
      fun ancestor => !storage.getRepresentation.isFinalized ancestor
  have steps_eq : (fun child parent => storage.getRepresentation.ParentOf child parent ∧
        !storage.getRepresentation.isFinalized parent) =
      fun child parent => storage.blockMetadataIndex.Parent child parent ∧
        ¬storage.blockMetadataIndex.Finalized parent := by
    funext child parent
    rw [parentOf_iff keyed, not_eq_true', ← not_eq_true, isFinalized_iff consistent]
  rw [steps_eq] at mem_ancestors
  refine ⟨ancestors.insert hash, ?_, ?_⟩
  · intro effectApplied
    rw [pendingEffect, if_pos contained, searched]
    rfl
  · intro ancestor
    rw [mem_insert, beq_iff_eq, mem_ancestors, Relation.reflTransGen_iff_eq_or_transGen]

theorem pendingEffect_spec
    (computed : pendingEffect storage.getRepresentation hash effectApplied = .ok pending) :
    hash ∈ storage.blockMetadataIndex.dagState.dagSet ∧
    (∀ ancestor ∈ pending, storage.blockMetadataIndex.Past hash ancestor) ∧
    (hash ∈ effectApplied ∨ hash ∈ pending) ∧
    ∀ ancestor, storage.blockMetadataIndex.Past hash ancestor →
      storage.blockMetadataIndex.Finalized ancestor ∨ ancestor ∈ effectApplied ∨
        ancestor ∈ pending := by
  have contained : storage.getRepresentation.contains hash := by
    by_contra absent
    rw [pendingEffect, if_neg absent] at computed
    cases computed
  obtain ⟨allFinalized, computes, mem_all⟩ := pendingEffect_eq consistent contained
  obtain rfl : allFinalized.difference effectApplied = pending :=
    Except.ok.inj ((computes effectApplied).symm.trans computed)
  have mem_pending_of_mem_all {ancestor : BlockHash} (member : ancestor ∈ allFinalized) :
      ancestor ∈ effectApplied ∨ ancestor ∈ allFinalized.difference effectApplied := by
    rw [mem_difference]
    by_cases applied : ancestor ∈ effectApplied
    · exact .inl applied
    · exact .inr ⟨member, applied⟩
  refine ⟨(and_eq_true_iff.mp contained).2, ?_, ?_, ?_⟩
  · intro ancestor member
    exact ReflTransGen.mono (fun _ _ step => step.1) _ _
      ((mem_all ancestor).mp (mem_difference.mp member).1)
  · exact mem_pending_of_mem_all ((mem_all hash).mpr .refl)
  · intro ancestor path
    rcases holds_or_avoids consistent.finalized_closed path with finalized | avoiding
    · exact .inl finalized
    · exact .inr (mem_pending_of_mem_all ((mem_all ancestor).mpr avoiding))

end

variable [Debug BlockHash] [HashMapOrder]

def persistEffectApplied (storage : BlockDagKeyValueStorage) (directlyFinalizedHash : BlockHash)
    (forceDirect : Bool) (effectApplied : HashedSet BlockHash) :
    Except KvStoreError BlockDagKeyValueStorage :=
  if !forceDirect && effectApplied.isEmpty then .ok storage
  else do
    let blockMetadataIndex ← storage.blockMetadataIndex.recordFinalized directlyFinalizedHash
      (effectApplied.filter fun hash => hash != directlyFinalizedHash)
    return { storage with blockMetadataIndex }

/-- The storage after an attempt to persist, and the outcome of a call that ends with it. -/
def persisted (storage : BlockDagKeyValueStorage) (outcome : Except KvStoreError Unit) :
    Except KvStoreError BlockDagKeyValueStorage → BlockDagKeyValueStorage × Except KvStoreError Unit
  | .ok after => (after, outcome)
  | .error failure => (storage, .error failure)

/-- Reconciles up to as many times as are left. The effect is an asynchronous call that
does not hold the lock. -/
def reconcile (effect : HashedSet BlockHash → Except KvStoreError Unit)
    (storage : BlockDagKeyValueStorage) (directlyFinalizedHash : BlockHash) :
    Nat → HashedSet BlockHash → BlockDagKeyValueStorage × Except KvStoreError Unit
  | 0, effectApplied =>
    storage.persisted (.error (exceededLoops directlyFinalizedHash))
      (storage.persistEffectApplied directlyFinalizedHash false effectApplied)
  | attempts + 1, effectApplied =>
    match pendingEffect storage.getRepresentation directlyFinalizedHash effectApplied with
    | .error failure => (storage, .error failure)
    | .ok pending =>
      if pending.isEmpty then
        storage.persisted (.ok ())
          (storage.persistEffectApplied directlyFinalizedHash true effectApplied)
      else
        match effect pending with
        | .error failure =>
          storage.persisted (.error failure)
            (storage.persistEffectApplied directlyFinalizedHash false effectApplied)
        | .ok () =>
          reconcile effect storage directlyFinalizedHash attempts (effectApplied.union pending)

variable (effect : HashedSet BlockHash → Except KvStoreError Unit)

/-- A call that no other call disturbs. -/
def recordDirectlyFinalized
    (storage : BlockDagKeyValueStorage) (directlyFinalizedHash : BlockHash) :
    BlockDagKeyValueStorage × Except KvStoreError Unit :=
  reconcile effect storage directlyFinalizedHash maxFinalizationReconcileLoops .empty

/-- Where a call is between two of its critical sections. -/
inductive Phase where
  | reconciling (attempts : Nat)
  | ending (forceDirect : Bool)

structure FinalizationCall where
  directlyFinalizedHash : BlockHash
  effectApplied : HashedSet BlockHash
  phase : Phase

/-- What happens to the storage while it is locked once, and what is left of the call. -/
def FinalizationCall.advance (storage : BlockDagKeyValueStorage) (call : FinalizationCall) :
    BlockDagKeyValueStorage × Option FinalizationCall :=
  match call.phase with
  | .reconciling 0 => (storage, some { call with phase := .ending false })
  | .reconciling (attempts + 1) =>
    match pendingEffect storage.getRepresentation call.directlyFinalizedHash call.effectApplied with
    | .error _ => (storage, none)
    | .ok pending =>
      if pending.isEmpty then (storage, some { call with phase := .ending true })
      else
        match effect pending with
        | .error _ => (storage, some { call with phase := .ending false })
        | .ok () =>
          (storage, some { call with
            effectApplied := call.effectApplied.union pending, phase := .reconciling attempts })
  | .ending forceDirect =>
    match storage.persistEffectApplied call.directlyFinalizedHash forceDirect
      call.effectApplied with
    | .ok after => (after, none)
    | .error _ => (storage, none)

structure Node where
  storage : BlockDagKeyValueStorage
  calls : List FinalizationCall

/-- Blocks have seen the effect only if they are to be finalized with the block of the
call, and from then on no block that is not finalized is missing. -/
structure FinalizationCall.Covers (call : FinalizationCall) (store : BlockMetadataStore) :
    Prop where
  known : ∀ applied ∈ call.effectApplied, call.directlyFinalizedHash ∈ store.dagState.dagSet
  within : ∀ applied ∈ call.effectApplied, store.Past call.directlyFinalizedHash applied
  complete : ∀ applied ∈ call.effectApplied, ∀ ancestor,
    store.Past call.directlyFinalizedHash ancestor →
      store.Finalized ancestor ∨ ancestor ∈ call.effectApplied
  direct : call.phase = .ending true → call.directlyFinalizedHash ∈ call.effectApplied

omit [HashMapOrder] [Debug BlockHash] in
theorem FinalizationCall.Covers.evolve {call : FinalizationCall} (covers : call.Covers before)
    (evolves : before.Evolves after) (consistent : before.Consistent) : call.Covers after where
  known applied member := evolves.known _ (covers.known applied member)
  within applied member :=
    (evolves.past_iff consistent (covers.known applied member)).mpr (covers.within applied member)
  complete applied member ancestor path := by
    have path := (evolves.past_iff consistent (covers.known applied member)).mp path
    exact (covers.complete applied member ancestor path).imp_left (evolves.finalized ancestor)
  direct := covers.direct

/-- What is persisted is finalized together with all its ancestors, and nothing else is. -/
theorem persistEffectApplied_spec {after : BlockDagKeyValueStorage}
    (consistent : storage.blockMetadataIndex.Consistent)
    (covers : FinalizationCall.Covers ⟨hash, effectApplied, .ending forceDirect⟩
      storage.blockMetadataIndex)
    (persists : storage.persistEffectApplied hash forceDirect effectApplied = .ok after) :
    after.blockMetadataIndex.Consistent ∧
    storage.blockMetadataIndex.Evolves after.blockMetadataIndex ∧
    ∀ applied ∈ effectApplied, ∀ block, after.blockMetadataIndex.Finalized block ↔
      storage.blockMetadataIndex.Finalized block ∨ storage.blockMetadataIndex.Past hash block := by
  rw [persistEffectApplied] at persists
  split at persists
  case isTrue skipped =>
    rw [and_eq_true, HashedSet.isEmpty_iff] at skipped
    cases persists
    exact ⟨consistent, .refl _, fun applied member => absurd member (skipped.2 applied)⟩
  case isFalse recorded =>
    obtain ⟨index, record, persists⟩ := bind_eq_ok.mp persists
    cases persists
    have recorded_spec := recorded_of_recordFinalized consistent.keyed record
    obtain ⟨applied, applied_member⟩ : ∃ applied, applied ∈ effectApplied := by
      cases forceDirect with
      | true => exact ⟨hash, covers.direct rfl⟩
      | false =>
        rw [Bool.not_false, Bool.true_and, HashedSet.isEmpty_iff, not_forall] at recorded
        simpa using recorded
    have known := covers.known applied applied_member
    have mem_indirectly (block : BlockHash) :
        block ∈ effectApplied.filter (fun other => other != hash) ↔
          block ∈ effectApplied ∧ block ≠ hash := by
      rw [HashedSet.mem_filter fun b same => by rw [eq_of_beq same], bne_iff_ne]
    have named_iff (block : BlockHash) :
        block = hash ∨ block ∈ effectApplied.filter (fun other => other != hash) ↔
          block = hash ∨ block ∈ effectApplied := by
      rw [mem_indirectly]
      by_cases same : block = hash
      · simp [same]
      · simp [same]
    have past_of_named {block : BlockHash} (named : block = hash ∨ block ∈ effectApplied) :
        storage.blockMetadataIndex.Past hash block := by
      rcases named with rfl | member
      · exact .refl
      · exact covers.within block member
    have named_of_past {block : BlockHash} (path : storage.blockMetadataIndex.Past hash block) :
        storage.blockMetadataIndex.Finalized block ∨ block = hash ∨ block ∈ effectApplied :=
      (covers.complete applied applied_member block path).imp_right .inr
    refine ⟨recorded_spec.consistent consistent ?_ ?_, recorded_spec.evolves consistent.keyed, ?_⟩
    · intro child parent named step
      rw [named_iff] at named ⊢
      exact named_of_past ((past_of_named named).tail step)
    · intro block member
      exact consistent.known_of_past known (past_of_named
        (.inr ((mem_indirectly block).mp member).1))
    · intro _ _ block
      rw [recorded_spec.finalized_iff consistent.keyed, named_iff]
      constructor
      · exact Or.imp_right fun named => past_of_named named.1
      · rintro (finalized | path)
        · exact .inl finalized
        · exact (named_of_past path).imp_right fun named =>
            ⟨named, consistent.known_of_past known path⟩

structure FinalizationCall.Advanced (storage after : BlockDagKeyValueStorage)
    (rest : Option FinalizationCall) : Prop where
  consistent : after.blockMetadataIndex.Consistent
  evolves : storage.blockMetadataIndex.Evolves after.blockMetadataIndex
  covers : ∀ call ∈ rest, call.Covers after.blockMetadataIndex

theorem FinalizationCall.advanced
    {call : FinalizationCall} (consistent : storage.blockMetadataIndex.Consistent)
    (covers : call.Covers storage.blockMetadataIndex) :
    Advanced storage (call.advance effect storage).1 (call.advance effect storage).2 := by
  obtain ⟨hash, effectApplied, phase⟩ := call
  have unchanged {rest : Option FinalizationCall}
      (rest_covers : ∀ call ∈ rest, call.Covers storage.blockMetadataIndex) :
      Advanced storage storage rest :=
    ⟨consistent, .refl _, rest_covers⟩
  have ends : ∀ call ∈ (none : Option FinalizationCall),
      call.Covers storage.blockMetadataIndex := by
    intro call member
    cases member
  -- a call that gives up keeps what has seen the effect
  have gives_up : ∀ call ∈ some (FinalizationCall.mk hash effectApplied (.ending false)),
      call.Covers storage.blockMetadataIndex := by
    intro call member
    cases member
    exact ⟨covers.known, covers.within, covers.complete, fun force => by cases force⟩
  rw [advance]
  split
  case h_1 => exact unchanged gives_up
  case h_2 attempts _ =>
    split
    case h_1 => exact unchanged ends
    case h_2 pending computed =>
      obtain ⟨known, pending_past, direct, complete⟩ := pendingEffect_spec consistent computed
      split_ifs with stable
      · have none_pending := isEmpty_iff.mp stable
        refine unchanged fun call member => ?_
        cases member
        exact ⟨covers.known, covers.within, covers.complete,
          fun _ => direct.resolve_right (none_pending hash)⟩
      · split
        case h_1 => exact unchanged gives_up
        case h_2 =>
          refine unchanged fun call member => ?_
          cases member
          refine ⟨fun _ _ => known, ?_, ?_, fun force => by cases force⟩
          · intro applied member
            rcases mem_union.mp member with old | new
            · exact covers.within applied old
            · exact pending_past applied new
          · intro _ _ ancestor path
            rw [mem_union]
            exact complete ancestor path
  case h_3 forceDirect phase_eq =>
    subst phase_eq
    split
    case h_1 after persists =>
      obtain ⟨after_consistent, evolves, -⟩ := persistEffectApplied_spec consistent covers persists
      exact ⟨after_consistent, evolves, fun call member => by cases member⟩
    case h_2 => exact unchanged ends

variable [Debug BlockMessage]

/-- Blocks come after their parents, and the genesis block is the approved one. The calls
take turns in any order, and nothing is known about the effects. -/
inductive Step : Node → Node → Prop where
  | insert {storage after calls block invalid approved} :
    (∀ parent ∈ block.header.parentsHashList,
      parent ∈ storage.blockMetadataIndex.dagState.dagSet) →
    (approved = true → block.header.parentsHashList = []) →
    Returns (storage.insertInternal block invalid approved) after →
    Step ⟨storage, calls⟩ ⟨after, calls⟩
  | call {storage calls} (hash : BlockHash) :
    Step ⟨storage, calls⟩
      ⟨storage, ⟨hash, .empty, .reconciling maxFinalizationReconcileLoops⟩ :: calls⟩
  | advance {storage before call after} (effect : HashedSet BlockHash → Except KvStoreError Unit) :
    Step ⟨storage, before ++ call :: after⟩
      ⟨(call.advance effect storage).1, before ++ (call.advance effect storage).2.toList ++ after⟩

/-- What holds of the storage and of every call, whatever the others do. -/
structure Node.Sound (node : Node) : Prop where
  consistent : node.storage.blockMetadataIndex.Consistent
  covers : ∀ call ∈ node.calls, call.Covers node.storage.blockMetadataIndex

theorem insertInternal_sound (consistent : storage.blockMetadataIndex.Consistent)
    (parents_known : ∀ parent ∈ block.header.parentsHashList,
      parent ∈ storage.blockMetadataIndex.dagState.dagSet)
    (genesis : approved = true → block.header.parentsHashList = [])
    (returned : Returns (storage.insertInternal block invalid approved) after) :
    after.blockMetadataIndex.Consistent ∧
      storage.blockMetadataIndex.Evolves after.blockMetadataIndex := by
  rcases inserted_of_returns returned with rfl | inserted
  · exact ⟨consistent, .refl _⟩
  · obtain ⟨added, add_eq, -, finalized⟩ := inserted.stored
    have added_spec := added_of_add add_eq
    have added_consistent := added_spec.consistent consistent inserted.new rfl parents_known
    have added_evolves := added_spec.evolves consistent.keyed inserted.new
    split_ifs at finalized with is_approved
    · have recorded :=
        recorded_of_recordFinalized added_consistent.keyed finalized
      refine ⟨recorded.consistent added_consistent ?_ ?_,
        added_evolves.trans (recorded.evolves added_consistent.keyed)⟩
      · rintro child parent named ⟨metadata, found, member⟩
        -- the approved block has no parents
        obtain rfl := named.resolve_right (not_mem_empty child)
        rw [added_spec.get_eq, BlockMetadata.fromBlock_blockHash, if_pos rfl] at found
        cases found
        rw [BlockMetadata.fromBlock, genesis is_approved] at member
        cases member
      · exact fun block member => absurd member (not_mem_empty block)
    · cases finalized
      exact ⟨added_consistent, added_evolves⟩

theorem Step.sound {node next : Node} (step : Step node next) (sound : node.Sound) :
    next.Sound ∧ node.storage.blockMetadataIndex.Evolves next.storage.blockMetadataIndex := by
  cases step with
  | insert parents_known genesis returned =>
    obtain ⟨consistent, evolves⟩ :=
      insertInternal_sound sound.consistent parents_known genesis returned
    exact ⟨⟨consistent, fun call member =>
      (sound.covers call member).evolve evolves sound.consistent⟩, evolves⟩
  | call hash =>
    refine ⟨⟨sound.consistent, fun call member => ?_⟩, .refl _⟩
    rcases mem_cons.mp member with rfl | old
    · exact ⟨fun applied member => absurd member (not_mem_empty applied),
        fun applied member => absurd member (not_mem_empty applied),
        fun applied member => absurd member (not_mem_empty applied),
        fun ends => by cases ends⟩
    · exact sound.covers call old
  | @advance storage before call after effect =>
    have advanced := call.advanced effect sound.consistent
      (sound.covers call (mem_append_right before (.head _)))
    refine ⟨⟨advanced.consistent, fun other member => ?_⟩, advanced.evolves⟩
    have kept (present : other ∈ before ++ call :: after) :=
      (sound.covers other present).evolve advanced.evolves sound.consistent
    rw [mem_append, mem_append] at member
    rcases member with (earlier | rest) | later
    · exact kept (mem_append_left _ earlier)
    · exact advanced.covers other (mem_toList.mp rest)
    · exact kept (mem_append_right _ (.tail _ later))

theorem evolves_of_run (sound : node.Sound) (run : ReflTransGen Step node later) :
    later.Sound ∧ node.storage.blockMetadataIndex.Evolves later.storage.blockMetadataIndex := by
  induction run with
  | refl => exact ⟨sound, .refl _⟩
  | tail _ last ih =>
    obtain ⟨last_sound, evolves⟩ := last.sound ih.1
    exact ⟨last_sound, ih.2.trans evolves⟩

/-- A call that is not disturbed does in its turns what the whole function does. -/
theorem reconcile_run (effect : HashedSet BlockHash → Except KvStoreError Unit)
    (storage : BlockDagKeyValueStorage) (hash : BlockHash) (attempts : Nat)
    (effectApplied : HashedSet BlockHash) (before after : List FinalizationCall) :
    ReflTransGen Step ⟨storage, before ++ ⟨hash, effectApplied, .reconciling attempts⟩ :: after⟩
      ⟨(reconcile effect storage hash attempts effectApplied).1, before ++ after⟩ := by
  have turn (call : FinalizationCall) {next : BlockDagKeyValueStorage}
      {rest : Option FinalizationCall} (advances : call.advance effect storage = (next, rest)) :
      Step ⟨storage, before ++ call :: after⟩ ⟨next, before ++ (rest.toList ++ after)⟩ := by
    have step := @Step.advance _ _ _ storage before call after effect
    rwa [advances, append_assoc] at step
  have continued (call next : FinalizationCall)
      (advances : call.advance effect storage = (storage, some next)) :
      Step ⟨storage, before ++ call :: after⟩ ⟨storage, before ++ next :: after⟩ :=
        turn call advances
  have ending (outcome : Except KvStoreError Unit) (forceDirect : Bool)
      (effectApplied : HashedSet BlockHash) :
      ReflTransGen Step ⟨storage, before ++ ⟨hash, effectApplied, .ending forceDirect⟩ :: after⟩
        ⟨(storage.persisted outcome
          (storage.persistEffectApplied hash forceDirect effectApplied)).1, before ++ after⟩ := by
    refine .single (turn _ (?_ : _ = (_, none)))
    rw [FinalizationCall.advance]
    dsimp only
    cases storage.persistEffectApplied hash forceDirect effectApplied with
    | ok next => rfl
    | error failure => rfl
  -- each round of the loop is the first turn of the call
  fun_induction reconcile effect storage hash attempts effectApplied with
  | case1 => exact .head (turn _ rfl) (ending _ false _)
  | case2 attempts effectApplied failure computed =>
    refine .single (turn _ (?_ : _ = (storage, none)))
    simp [FinalizationCall.advance, computed]
  | case3 attempts effectApplied pending computed stable =>
    refine .head (continued _ _ ?_) (ending _ true _)
    simp [FinalizationCall.advance, computed, stable]
  | case4 attempts effectApplied pending computed unstable failure failed =>
    refine .head (continued _ _ ?_) (ending _ false _)
    simp [FinalizationCall.advance, computed, unstable, failed]
  | case5 attempts effectApplied pending computed unstable applied ih =>
    refine .head (continued _ _ ?_) ih
    simp [FinalizationCall.advance, computed, unstable, applied]

/-- In every state that insertions and finalizations lead to, in whatever order they take
their turns, the ancestors of a finalized block are finalized. From there on the number of
the last finalized block never decreases. -/
theorem finalized_ancestors_of_run {node : Node} (run : ReflTransGen Step ⟨new, []⟩ node) :
    (∀ block ancestor, node.storage.getRepresentation.AncestorOrSelf ancestor block →
      node.storage.blockMetadataIndex.Finalized block →
      node.storage.blockMetadataIndex.Finalized ancestor) ∧
    ∀ later, ReflTransGen Step node later →
      node.storage.blockMetadataIndex.dagState.lastFinalizedBlock.2 ≤
        later.storage.blockMetadataIndex.dagState.lastFinalizedBlock.2 := by
  have initial : Node.Sound ⟨new, []⟩ :=
    ⟨consistent_new, fun call member => by cases member⟩
  obtain ⟨sound, -⟩ := evolves_of_run initial run
  refine ⟨?_, fun later run => (evolves_of_run sound run).2.last_le⟩
  intro block ancestor path finalized
  exact holds_of_reflTransGen _ sound.consistent.finalized_closed finalized
    ((ancestorOrSelf_iff sound.consistent.keyed).mp path)

end BlockDagKeyValueStorage

namespace BlockDagKeyValueStorage

attribute [local instance] storedOrder sampleHashDebug sampleBlockDebug

def sampleGenesis : BlockMessage := sampleBlock 0 [] 0 [] 0 [] [7]

def sampleChild : BlockMessage := sampleBlock 1 [0] 1 (sampleValidator 7) 1 [(7, 0)] [7]

def sampleGrandchild : BlockMessage := sampleBlock 2 [1] 2 (sampleValidator 7) 2 [(7, 1)] [7]

def genesisStorage : BlockDagKeyValueStorage :=
  (returned? (new.insertInternal sampleGenesis false true)).getD new

def childStorage : BlockDagKeyValueStorage :=
  (returned? (genesisStorage.insertInternal sampleChild false false)).getD new

def grandchildStorage : BlockDagKeyValueStorage :=
  (returned? (childStorage.insertInternal sampleGrandchild false false)).getD new

theorem grandchild_run : ReflTransGen Step ⟨new, []⟩ ⟨grandchildStorage, []⟩ := by
  have genesis : Step ⟨new, []⟩ ⟨genesisStorage, []⟩ :=
    .insert (by decide +kernel) (fun _ => rfl) (returns_getD new (by decide +kernel))
  have child : Step ⟨genesisStorage, []⟩ ⟨childStorage, []⟩ :=
    .insert (by decide +kernel) (by decide) (returns_getD new (by decide +kernel))
  have grandchild : Step ⟨childStorage, []⟩ ⟨grandchildStorage, []⟩ :=
    .insert (by decide +kernel) (by decide) (returns_getD new (by decide +kernel))
  exact .head genesis (.head child (.single grandchild))

theorem finalized_ancestors_of_sample :
    (recordDirectlyFinalized (fun _ => .ok ()) grandchildStorage
      (sampleHash 2)).1.blockMetadataIndex.Finalized (sampleHash 1) := by
  have called : Step ⟨grandchildStorage, []⟩ ⟨grandchildStorage,
      [] ++ ⟨sampleHash 2, .empty, .reconciling maxFinalizationReconcileLoops⟩ :: []⟩ :=
    .call (sampleHash 2)
  have run := (grandchild_run.tail called).trans
    (reconcile_run (fun _ => .ok ()) grandchildStorage (sampleHash 2)
      maxFinalizationReconcileLoops .empty [] [])
  refine (finalized_ancestors_of_run run).1 (sampleHash 2) (sampleHash 1) ?_ ?_
  · exact .single ⟨_, get_mem (by decide +kernel), by decide +kernel⟩
  · exact ⟨_, get_mem (by decide +kernel), by decide +kernel⟩

end BlockDagKeyValueStorage

end F1r3fly.BlockStorage
