import F1r3fly.BlockStorage.Finalization

/-! What the storage holds after a sequence of valid blocks was inserted: the blocks, heights
without holes, and for every validator the block that a comparison of sequence numbers leaves
as its latest message. -/
namespace F1r3fly.BlockStorage

open Option HashedSet BlockMetadataStore Int64

open Models (BlockMessage)
open RSpace
open Results

namespace BlockMetadataStore

theorem ends_of_attained {keys : List Int64} (sorted : keys.Pairwise (· < ·))
    (attained : ∀ key ∈ keys, key.toInt = start ∨ ∃ below ∈ keys, key.toInt = below.toInt + 1) :
    (∀ first ∈ keys.head?, first.toInt = start) ∧
      ∀ last ∈ keys.getLast?, last.toInt + 1 = start + keys.length := by
  induction keys generalizing start with
  | nil => simp
  | cons first rest ih =>
    obtain ⟨above, rest_sorted⟩ := pairwise_cons.mp sorted
    have first_least : ∀ key ∈ first :: rest, first.toInt ≤ key.toInt := by
      intro key member
      rcases mem_cons.mp member with rfl | later
      · exact Int.le_refl _
      · exact Int.le_of_lt (lt_iff_toInt_lt.mp (above key later))
    have first_eq : first.toInt = start := by
      rcases attained first (.head _) with at_start | ⟨below, member, is_next⟩
      · exact at_start
      · have least := first_least below member
        omega
    have rest_attained : ∀ key ∈ rest, key.toInt = start + 1 ∨
        ∃ below ∈ rest, key.toInt = below.toInt + 1 := by
      intro key later
      have key_above := lt_iff_toInt_lt.mp (above key later)
      rcases attained key (.tail first later) with
        at_start | ⟨below, member, is_next⟩
      · omega
      · rcases mem_cons.mp member with rfl | below_later
        · exact .inl (by omega)
        · exact .inr ⟨below, below_later, is_next⟩
    obtain ⟨-, rest_last⟩ := ih rest_sorted rest_attained
    refine ⟨fun head at_head => ?_, fun last at_last => ?_⟩
    · cases at_head
      exact first_eq
    · cases rest with
      | nil =>
        cases at_last
        simp [first_eq]
      | cons second others =>
        have next := rest_last last at_last
        simp only [length_cons] at next ⊢
        omega

/-- The heights are in sequence when each is the lowest one or follows another one. The
count may wrap around, which does not tell the two sides apart. -/
theorem heightsInSequence_of_attained {heightMap : SortedMap Int64 (HashedSet BlockHash)}
    (attained : ∀ key ∈ heightMap.keys, key.toInt = 0 ∨
      ∃ below ∈ heightMap.keys, key.toInt = below.toInt + 1) :
    heightsInSequence heightMap := by
  have sorted : heightMap.keys.Pairwise (· < ·) := pairwise_map.mpr heightMap.sorted
  obtain ⟨at_first, at_last⟩ := ends_of_attained sorted attained
  have same_length : heightMap.entries.length = heightMap.keys.length := by
    rw [SortedMap.keys, List.length_map]
  rw [heightsInSequence, same_length]
  cases keys_eq : heightMap.keys with
  | nil => rfl
  | cons first rest =>
    rw [keys_eq] at at_first at_last
    obtain ⟨last, is_last⟩ : ∃ last, (first :: rest).getLast? = some last :=
      isSome_iff_exists.mp (by simp)
    have first_eq := at_first first rfl
    have last_eq := at_last last is_last
    have last_next : last + 1 = ofNat (first :: rest).length := by
      rw [← ofInt_toInt last, ← ofInt_eq_ofNat]
      calc ofInt last.toInt + 1
        _ = ofInt (last.toInt + 1) := (ofInt_add last.toInt 1).symm
        _ = ofInt (first :: rest).length := by rw [last_eq, Int.zero_add]
    have first_zero : first = 0 := toInt_inj.mp first_eq
    rw [is_last]
    simp [last_next, first_zero]

theorem add_returns {store : BlockMetadataStore}
    (inSequence : heightsInSequence (addBlockToDagState store.dagState
      (blockMetadataToInfo metadata.blockHash metadata)).heightMap) :
    ∃ after, store.add metadata = some after := by
  rw [add, validateDagState, if_pos inSequence]
  exact ⟨_, rfl⟩

end BlockMetadataStore

/-- The block bonds the validator and has no justification for it. -/
def Introduces (validator : Validator) (block : BlockMessage) : Prop :=
  validator ∈ block.body.state.bonds.map (·.validator) ∧
    validator ∉ block.justifications.map (·.validator)

instance (validator : Validator) (block : BlockMessage) : Decidable (Introduces validator block) :=
  inferInstanceAs (Decidable (_ ∧ _))

/-- The latest message of a validator after one more block. A block of another sender is
taken only if there was none. -/
def latestStep (validator : Validator) (latest : Option BlockMessage) (block : BlockMessage) :
    Option BlockMessage :=
  if block.sender = validator ∧ ∀ message ∈ latest, message.seqNum ≤ block.seqNum then some block
  else if latest = none ∧ Introduces validator block then some block
  else latest

def latestOf (validator : Validator) (blocks : List BlockMessage) : Option BlockMessage :=
  blocks.foldl (latestStep validator) none

theorem latestOf_append_singleton (validator : Validator) (blocks : List BlockMessage)
    (block : BlockMessage) :
    latestOf validator (blocks ++ [block]) =
      latestStep validator (latestOf validator blocks) block := by
  rw [latestOf, foldl_append, latestOf]
  rfl

theorem latestStep_mem (found : message ∈ latestStep validator latest block) :
    message = block ∨ message ∈ latest := by
  rw [latestStep] at found
  split at found
  · cases found
    exact .inl rfl
  split at found
  · cases found
    exact .inl rfl
  · exact .inr found

theorem latestOf_mem (found : message ∈ latestOf validator blocks) : message ∈ blocks := by
  induction blocks using List.reverseRecOn with
  | nil => cases found
  | append_singleton blocks block ih =>
    rw [latestOf_append_singleton] at found
    rcases latestStep_mem found with rfl | earlier
    · exact mem_append_right _ (.head _)
    · exact mem_append_left _ (ih earlier)

namespace BlockDagKeyValueStorage

theorem get?_newlyBonded [HashMapOrder] (latestMessagesIndex : HashedMap Validator BlockHash)
    (block : BlockMessage) (validator : Validator) :
    (newlyBonded latestMessagesIndex block).get? validator =
      if latestMessagesIndex.get? validator = none ∧ Introduces validator block then
        some block.blockHash else none := by
  let new : HashedSet Validator := (HashedSet.ofList (block.body.state.bonds.map
    (·.validator))).difference (.ofList (block.justifications.map (·.validator)))
  have inserted : newlyBonded latestMessagesIndex block = HashedMap.empty.insertAll
      ((new.iter.filter fun validator => (latestMessagesIndex.get? validator).isNone).map
        (·, block.blockHash)) := by
    rw [HashedMap.insertAll, foldl_map, List.foldl_filter]
    refine congrArg (List.foldl · _ _) (funext₂ fun result validator => ?_)
    cases latestMessagesIndex.get? validator <;> rfl
  rw [inserted, HashedMap.get?_insertAll_map]
  refine if_congr ?_ rfl rfl
  simp [new, mem_iter, mem_elements_iff, mem_difference, mem_ofList, Introduces, and_comm]

/-- What the storage holds after blocks were inserted. -/
structure Holds (storage : BlockDagKeyValueStorage) (blocks : List BlockMessage) : Prop where
  keyed : storage.blockMetadataIndex.Keyed
  known : ∀ hash, hash ∈ storage.blockMetadataIndex.dagState.dagSet ↔
    ∃ block ∈ blocks, block.blockHash = hash
  sequence : ∀ block ∈ blocks, ∃ metadata,
    storage.blockMetadataIndex.get block.blockHash = some metadata ∧
      metadata.sequenceNumber = block.seqNum
  heights : ∀ key, key ∈ storage.blockMetadataIndex.dagState.heightMap.keys ↔
    ∃ block ∈ blocks, block.body.state.blockNumber = key
  attained : ∀ block ∈ blocks, block.body.state.blockNumber.toInt = 0 ∨
    ∃ below ∈ blocks, block.body.state.blockNumber.toInt = below.body.state.blockNumber.toInt + 1
  latest : ∀ validator, validator ≠ [] → storage.latestMessagesIndex.get? validator =
    (latestOf validator blocks).map (·.blockHash)

theorem holds_new : new.Holds [] where
  keyed := BlockMetadataStore.consistent_new.keyed
  known hash := by simp [new, BlockMetadataStore.new, DagState.new]
  sequence block member := by cases member
  heights key := by
    simp [new, BlockMetadataStore.new, DagState.new, SortedMap.keys, SortedMap.empty]
  attained block member := by cases member
  latest validator _ := rfl

section Insert

variable {storage : BlockDagKeyValueStorage} {blocks : List BlockMessage} {block : BlockMessage}

theorem Holds.added {added : BlockMetadataStore} (holds : storage.Holds blocks)
    (add_eq : storage.blockMetadataIndex.add (.fromBlock block false none none) = some added)
    (new : ∀ other ∈ blocks, other.blockHash ≠ block.blockHash) :
    ∀ other ∈ blocks ++ [block], ∃ metadata, added.get other.blockHash = some metadata ∧
      metadata.sequenceNumber = other.seqNum := by
  have spec := added_of_add add_eq
  intro other member
  rw [spec.get_eq, BlockMetadata.fromBlock_blockHash]
  rcases mem_append.mp member with old | is_new
  · rw [if_neg (new other old)]
    exact holds.sequence other old
  · obtain rfl := mem_singleton.mp is_new
    exact ⟨_, if_pos rfl, rfl⟩

theorem Holds.shouldAddAsLatest_iff {added : BlockMetadataStore} (holds : storage.Holds blocks)
    (sequence : ∀ other ∈ blocks, ∃ metadata, added.get other.blockHash = some metadata ∧
      metadata.sequenceNumber = other.seqNum) (signed : block.sender ≠ []) :
    shouldAddAsLatest storage.latestMessagesIndex added block ↔
      ∀ message ∈ latestOf block.sender blocks, message.seqNum ≤ block.seqNum := by
  rw [shouldAddAsLatest, holds.latest block.sender signed]
  cases found : latestOf block.sender blocks with
  | none => simp
  | some message =>
    obtain ⟨metadata, at_hash, same⟩ := sequence message (latestOf_mem found)
    simp [at_hash, same]

theorem Holds.latest_step [HashMapOrder] {added : BlockMetadataStore}
    (holds : storage.Holds blocks)
    (sequence : ∀ other ∈ blocks, ∃ metadata, added.get other.blockHash = some metadata ∧
      metadata.sequenceNumber = other.seqNum) (signed : validator ≠ []) :
    (storage.latestMessagesIndex.insertAll
      (newLatestMessages storage.latestMessagesIndex added block).iter).get? validator =
      (latestOf validator (blocks ++ [block])).map (·.blockHash) := by
  have entry := holds.latest validator signed
  rw [HashedMap.get?_insertAll_iter, latestOf_append_singleton, latestStep]
  -- a block that is not the sender's next message counts only where there was none
  have otherwise : ((newlyBonded storage.latestMessagesIndex block).get? validator).or
      (storage.latestMessagesIndex.get? validator) =
        (if latestOf validator blocks = none ∧ Introduces validator block then some block
        else latestOf validator blocks).map (·.blockHash) := by
    simp only [get?_newlyBonded, entry, map_eq_none_iff]
    split <;> rfl
  by_cases own : block.sender = validator
  · subst own
    have adds := holds.shouldAddAsLatest_iff sequence signed
    by_cases advances : ∀ message ∈ latestOf block.sender blocks, message.seqNum ≤ block.seqNum
    · rw [newLatestMessages, if_pos ⟨signed, adds.mpr advances⟩, if_pos ⟨rfl, advances⟩,
        HashedMap.get?_insert, if_pos BEq.rfl]
      rfl
    · rw [newLatestMessages, if_neg fun both => advances (adds.mp both.2),
        if_neg fun both => advances both.2]
      exact otherwise
  · have others : (newLatestMessages storage.latestMessagesIndex added block).get? validator =
        (newlyBonded storage.latestMessagesIndex block).get? validator := by
      rw [newLatestMessages]
      split
      · rw [HashedMap.get?_insert, if_neg (by simpa using Ne.symm own)]
      · rfl
    rw [others, if_neg fun both => own both.1]
    exact otherwise

variable [Debug BlockHash] [Debug BlockMessage] [HashMapOrder]

structure Approved (added index : BlockMetadataStore) : Prop where
  keyed : index.Keyed
  dagSet_eq : index.dagState.dagSet = added.dagState.dagSet
  heightMap_eq : index.dagState.heightMap = added.dagState.heightMap
  sequence : ∀ hash metadata, added.get hash = some metadata →
    ∃ kept, index.get hash = some kept ∧ kept.sequenceNumber = metadata.sequenceNumber

omit [Debug BlockMessage] in
theorem approvedIndex (keyed : added.Keyed) {hash : BlockHash}
    (known : hash ∈ added.dagState.dagSet) (approved : Bool) :
    ∃ index, (if approved then added.recordFinalized hash .empty else .ok added) = .ok index ∧
      Approved added index := by
  cases approved with
  | false => exact ⟨added, rfl, keyed, rfl, rfl, fun _ metadata found => ⟨metadata, found, rfl⟩⟩
  | true =>
    obtain ⟨index, recorded⟩ := recordFinalized_returns keyed known
      fun other member => absurd member (not_mem_empty other)
    have spec := recorded_of_recordFinalized keyed recorded
    refine ⟨index, recorded, spec.keyed keyed, spec.dagSet_eq, spec.heightMap_eq, ?_⟩
    intro other metadata found
    refine ⟨_, by rw [spec.get_eq, found, map_some], ?_⟩
    rw [finalizedMetadata]
    split
    · rfl
    split <;> rfl

/-- A block whose hash and sender are well formed, and whose number follows that of a block
before it, is inserted. -/
theorem Holds.insertInternal (holds : storage.Holds blocks) (approved : Bool)
    (new : ∀ other ∈ blocks, other.blockHash ≠ block.blockHash)
    (hash_length : block.blockHash.length = blockHashLength)
    (sender_length : block.sender = [] ∨ block.sender.length = validatorLength)
    (attained : block.body.state.blockNumber.toInt = 0 ∨ ∃ below ∈ blocks,
      block.body.state.blockNumber.toInt = below.body.state.blockNumber.toInt + 1) :
    ∃ after, Returns (storage.insertInternal block false approved) after ∧
      after.Holds (blocks ++ [block]) := by
  have unknown : block.blockHash ∉ storage.blockMetadataIndex.dagState.dagSet := by
    rw [holds.known]
    rintro ⟨other, member, same⟩
    exact new other member same
  have all_attained : ∀ other ∈ blocks ++ [block], other.body.state.blockNumber.toInt = 0 ∨
      ∃ below ∈ blocks ++ [block],
        other.body.state.blockNumber.toInt = below.body.state.blockNumber.toInt + 1 := by
    intro other member
    have lift (some_below : ∃ below ∈ blocks,
        other.body.state.blockNumber.toInt = below.body.state.blockNumber.toInt + 1) :
        ∃ below ∈ blocks ++ [block],
          other.body.state.blockNumber.toInt = below.body.state.blockNumber.toInt + 1 := by
      obtain ⟨below, present, is_next⟩ := some_below
      exact ⟨below, mem_append_left _ present, is_next⟩
    rcases mem_append.mp member with old | is_new
    · exact (holds.attained other old).imp_right lift
    · obtain rfl := mem_singleton.mp is_new
      exact attained.imp_right lift
  have heights (key : Int64) :
      key ∈ (addBlockToDagState storage.blockMetadataIndex.dagState
        (blockMetadataToInfo block.blockHash
          (.fromBlock block false none none))).heightMap.keys ↔
        ∃ other ∈ blocks ++ [block], other.body.state.blockNumber = key := by
    refine SortedMap.mem_keys_alter.trans ?_
    rw [holds.heights]
    simp only [mem_append, mem_singleton, or_and_right, exists_or, exists_eq_left]
    rw [or_comm, eq_comm]
    rfl
  have inSequence := heightsInSequence_of_attained (by
    intro key member
    obtain ⟨other, present, rfl⟩ := (heights key).mp member
    refine (all_attained other present).imp_right ?_
    rintro ⟨below, below_present, is_next⟩
    exact ⟨_, (heights _).mpr ⟨below, below_present, rfl⟩, is_next⟩)
  obtain ⟨added, add_eq⟩ := add_returns inSequence
  have spec := added_of_add add_eq
  have sequence := holds.added add_eq new
  obtain ⟨index, finalized, index_spec⟩ := approvedIndex (spec.keyed holds.keyed)
    ((spec.mem_dagSet block.blockHash).mpr (.inl rfl)) approved
  obtain ⟨after, returned, latest_eq, rfl⟩ :=
    insertInternal_returns unknown hash_length sender_length add_eq finalized
  refine ⟨after, returned, index_spec.keyed, ?_, ?_, ?_, all_attained, ?_⟩
  · intro hash
    rw [index_spec.dagSet_eq, spec.mem_dagSet, holds.known]
    simp only [mem_append, mem_singleton, or_and_right, exists_or, exists_eq_left]
    rw [or_comm, eq_comm]
    rfl
  · intro other member
    obtain ⟨metadata, found, same⟩ := sequence other member
    obtain ⟨kept, kept_found, kept_same⟩ := index_spec.sequence _ _ found
    exact ⟨kept, kept_found, kept_same.trans same⟩
  · intro key
    rw [index_spec.heightMap_eq, spec.heightMap_eq]
    exact heights key
  · intro validator signed
    rw [latest_eq]
    exact holds.latest_step (fun other member => sequence other (mem_append_left _ member)) signed

end Insert

end BlockDagKeyValueStorage

end F1r3fly.BlockStorage
