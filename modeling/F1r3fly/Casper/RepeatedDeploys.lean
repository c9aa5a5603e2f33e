import F1r3fly.Casper.Validate

/-! A deploy is included once along every chain of blocks. -/
namespace F1r3fly.Casper.Validate

open HashedMap HashedSet BlockStorage Int64
open Models
open ProtoUtil
open Relation
open Results
open Shared

/-- The DAG holds blocks of the store together with their parents. -/
structure Known (dag : KeyValueDagRepresentation) (blockStore : KeyValueBlockStore) : Prop where
  stored : ∀ hash metadata, dag.lookup hash = some metadata →
    ∃ block, blockStore.get? hash = some block ∧ metadata.blockHash = hash ∧
      metadata.parents = parentHashes block ∧ metadata.blockNumber = ProtoUtil.blockNumber block
  closed : ∀ hash metadata, dag.lookup hash = some metadata →
    ∀ parent ∈ metadata.parents, ∃ before, dag.lookup parent = some before

/-- The block was validated with some of the blocks, its parents among them, and without a
rejection of one of its deploys. -/
structure Passed [HashMapOrder] (blocks : KeyValueBlockStore) (expirationThreshold : Int32)
    (block : BlockMessage) (s : CasperSnapshot) (blockStore : KeyValueBlockStore) : Prop where
  known : Known s.dag blockStore
  within : ∀ hash stored, blockStore.get? hash = some stored → blocks.get? hash = some stored
  parents : ∀ parent ∈ parentHashes block, ∃ metadata, s.dag.lookup parent = some metadata
  notRejected : ∀ processed ∈ deploys block, processed.deploy.sig ∉ s.rejectedInScope
  blockNumber : blockNumber block s = .ok .valid
  futureTransaction : futureTransaction block = .ok .valid
  transactionExpiration : transactionExpiration block expirationThreshold = .ok .valid
  repeatDeploy : Returns (repeatDeploy block s blockStore expirationThreshold) .valid

/-- All the blocks but the genesis block were validated. -/
structure ValidatedDag [HashMapOrder] (blocks : KeyValueBlockStore) (genesis : BlockHash)
    (expirationThreshold : Int32) : Prop where
  root : ∀ block, blocks.get? genesis = some block → parentHashes block = []
  passed : ∀ hash block, blocks.get? hash = some block → hash ≠ genesis →
    ∃ s blockStore, Passed blocks expirationThreshold block s blockStore

def Parent (blocks : KeyValueBlockStore) (child parent : BlockHash) : Prop :=
  ∃ block, blocks.get? child = some block ∧ parent ∈ parentHashes block

instance lawfulOrderMaxInt64 : Std.LawfulOrderMax Int64 where
  max_le_iff a b c := by
    change (if a ≤ b then b else a) ≤ c ↔ a ≤ c ∧ b ≤ c
    grind
  max_eq_or a b := by
    change (if a ≤ b then b else a) = a ∨ (if a ≤ b then b else a) = b
    grind

theorem number_lt_of_max {parents : List BlockMetadata}
    (next : parents.foldl (fun acc parent => max acc parent.blockNumber) (-1) + 1 = number)
    (below : ∀ parent ∈ parents, parent.blockNumber ≠ maxValue) (present : parent ∈ parents) :
    parent.blockNumber.toInt < number.toInt := by
  have maximum := List.max?_eq_some_iff.mp (@List.max?_cons' _ (-1) _ (parents.map (·.blockNumber)))
  rw [foldl_map] at maximum
  generalize parents.foldl (fun acc parent => max acc parent.blockNumber) (-1) = highest at *
  obtain ⟨source, le⟩ := maximum
  have parent_le := le_iff_toInt_le.mp (le _ (mem_cons_of_mem _ (mem_map_of_mem present)))
  have not_max : highest ≠ maxValue := by
    rcases mem_cons.mp source with rfl | listed
    · decide
    · obtain ⟨parent, member, rfl⟩ := mem_map.mp listed
      exact below parent member
  have upper := highest.toInt_lt
  have lower := highest.le_toInt
  have not_upper : highest.toInt ≠ 9223372036854775807 := fun same =>
    not_max (toInt_inj.mp (same.trans (by decide)))
  have sum : number.toInt = highest.toInt + 1 := by
    rw [← next, toInt_add, show (1 : Int64).toInt = 1 from by decide]
    apply Int.bmod_eq_of_le
    · omega
    · omega
  omega

theorem lookupUnsafe_eq_ok {dag : KeyValueDagRepresentation} {hash : BlockHash} :
    dag.lookupUnsafe hash = .ok metadata ↔ dag.lookup hash = some metadata := by
  rw [KeyValueDagRepresentation.lookupUnsafe]
  cases dag.lookup hash <;> simp

theorem length_parentsAbove_le (metadata : BlockMetadata) (earliest : Int64)
    (dag : KeyValueDagRepresentation) :
    (((getParentMetadatasAboveBlockNumber metadata earliest dag).toOption).getD []).length ≤
      metadata.parents.length := by
  rw [getParentMetadatasAboveBlockNumber, getParentsMetadata]
  cases looked_up : metadata.parents.mapM dag.lookupUnsafe with
  | error failure => exact Nat.zero_le _
  | ok parents =>
    have same_length := congrArg List.length (mapM_eq_ok.mp looked_up)
    rw [List.length_map, List.length_map] at same_length
    exact same_length ▸ List.length_filter_le _ _

theorem mem_parentsAbove {dag : KeyValueDagRepresentation} {parent : BlockMetadata}
    (listed : parent ∈
      ((getParentMetadatasAboveBlockNumber metadata earliest dag).toOption).getD []) :
    ∃ hash, dag.lookup hash = some parent := by
  rw [getParentMetadatasAboveBlockNumber, getParentsMetadata] at listed
  cases looked_up : metadata.parents.mapM dag.lookupUnsafe with
  | error failure =>
    rw [looked_up] at listed
    cases listed
  | ok parents =>
    rw [looked_up] at listed
    obtain ⟨hash, -, found⟩ := (mem_mapM looked_up).mp (mem_filter.mp listed).1
    exact ⟨hash, lookupUnsafe_eq_ok.mp found⟩

theorem blockNumber_valid {block : BlockMessage} (valid : blockNumber block s = .ok .valid) :
    ∃ parents, (parentHashes block).mapM s.dag.lookupUnsafe = .ok parents ∧
      parents.foldl (fun acc parent => max acc parent.blockNumber) (-1) + 1 =
        ProtoUtil.blockNumber block := by
  rw [blockNumber] at valid
  obtain ⟨parents, looked_up, valid⟩ := bind_eq_ok.mp valid
  have same (hash : BlockHash) (metadata : BlockMetadata) :
      lookupParent s hash = .ok metadata ↔ s.dag.lookupUnsafe hash = .ok metadata := by
    rw [lookupUnsafe_eq_ok, lookupParent]
    cases s.dag.lookup hash <;> simp
  refine ⟨parents, (Results.mapM_ok_congr same _ parents).mp looked_up, ?_⟩
  by_contra wrong
  rw [if_neg wrong] at valid
  cases valid

section Valid

variable {processed : ProcessedDeploy} (listed : processed ∈ deploys block)

include listed

theorem futureTransaction_valid (valid : futureTransaction block = .ok .valid) :
    processed.deploy.data.validAfterBlockNumber < ProtoUtil.blockNumber block := by
  rw [futureTransaction] at valid
  split at valid
  case h_1 => cases valid
  case h_2 none_found => simpa using find?_eq_none.mp none_found processed listed

theorem transactionExpiration_valid
    (valid : transactionExpiration block expirationThreshold = .ok .valid) :
    ProtoUtil.blockNumber block - expirationThreshold.toInt64 <
      processed.deploy.data.validAfterBlockNumber := by
  rw [transactionExpiration] at valid
  split at valid
  case h_1 => cases valid
  case h_2 none_found => simpa using find?_eq_none.mp none_found processed listed

end Valid

section Repeated

variable {block : BlockMessage} {s : CasperSnapshot}
  {blockStore : KeyValueBlockStore} {expirationThreshold : Int32}

def InWindow (s : CasperSnapshot) (expirationThreshold : Int32) (parents : List BlockMetadata)
    (reached : BlockMetadata) : Prop :=
  ∃ first ∈ parents, ReflTransGen (fun a b => b ∈ ((getParentMetadatasAboveBlockNumber a
    (maxBlockNumberMetadata parents + 1 - expirationThreshold.toInt64) s.dag).toOption).getD [])
      first reached

/-- The search comes to its end, and then it has looked at the whole window. -/
theorem findDuplicate_none_iff {keys : HashedSet DeployId} (asked : ¬keys.isEmpty)
    (looked_up : (parentHashes block).mapM s.dag.lookupUnsafe = .ok parents) :
    Returns (findDuplicate s.dag blockStore parents
        (maxBlockNumberMetadata parents + 1 - expirationThreshold.toInt64) keys) none ↔
      ∀ reached, InWindow s expirationThreshold parents reached → ∀ ancestor,
        blockStore.get? reached.blockHash = some ancestor → ∀ other ∈ deploys ancestor,
          KeyValueBlockStore.minDeploySigBytes ≤ other.deploy.sig.length ∧
            other.deploy.sig ∉ keys := by
  have known {hash : BlockHash} {metadata : BlockMetadata}
      (found : s.dag.lookup hash = some metadata) :
      metadata ∈ s.dag.blockMetadataIndex.entries.map (·.2) :=
    mem_map.mpr ⟨(hash, metadata), mem_entries_of_lookup found, rfl⟩
  have closed : ∀ metadata ∈ s.dag.blockMetadataIndex.entries.map (·.2),
      ∀ parent ∈ ((getParentMetadatasAboveBlockNumber metadata (maxBlockNumberMetadata parents + 1 -
        expirationThreshold.toInt64) s.dag).toOption).getD [],
        parent ∈ s.dag.blockMetadataIndex.entries.map (·.2) := by
    intro metadata _ parent listed
    obtain ⟨hash, found⟩ := mem_parentsAbove listed
    exact known found
  rw [findDuplicate, DagOps.bfTraverseFind_none_iff closed]
  · simp only [KeyValueBlockStore.returns_hasAnyDeploySigUnsafe,
      KeyValueBlockStore.hasAnyDeploySig_eq_false_iff asked]
    exact ⟨fun clean reached ⟨first, listed, path⟩ => clean first listed reached path,
      fun clean first listed reached path => clean reached ⟨first, listed, path⟩⟩
  · intro parent listed
    obtain ⟨hash, -, found⟩ := (mem_mapM looked_up).mp listed
    exact known (lookupUnsafe_eq_ok.mp found)
  · rw [KeyValueDagRepresentation.recordedParents, List.length_flatMap, map_map, Nat.lt_succ_iff]
    exact Nat.add_le_add_left (List.sum_le_sum fun entry _ => length_parentsAbove_le _ _ _) _

variable [HashMapOrder]

/-- It is known of every deploy whether it is exempt. If one is not, then the parents are known,
and each block of the window can be read and has none of the deploys that are not exempt. -/
structure Unrepeated (block : BlockMessage) (s : CasperSnapshot) (blockStore : KeyValueBlockStore)
    (expirationThreshold : Int32) : Prop where
  answered : ∀ processed ∈ deploys block,
    (mustCheck s blockStore expirationThreshold processed).isSome
  window : ∀ processed ∈ deploys block,
    mustCheck s blockStore expirationThreshold processed = some true →
      ∃ parents, (parentHashes block).mapM s.dag.lookupUnsafe = .ok parents ∧
        ∀ reached, InWindow s expirationThreshold parents reached → ∀ ancestor,
          blockStore.get? reached.blockHash = some ancestor → ∀ other ∈ deploys ancestor,
            KeyValueBlockStore.minDeploySigBytes ≤ other.deploy.sig.length ∧
              ∀ checked ∈ deploys block,
                mustCheck s blockStore expirationThreshold checked = some true →
                  other.deploy.sig ≠ checked.deploy.sig

theorem deployKeySet_eq
    (answered : ∀ processed ∈ deploys block,
      (mustCheck s blockStore expirationThreshold processed).isSome) :
    deployKeySet s blockStore expirationThreshold block =
      some (HashedSet.ofList (((deploys block).filter fun processed =>
        mustCheck s blockStore expirationThreshold processed = some true).map (·.deploy.sig))) := by
  rw [deployKeySet, HashedSet.ofList, foldl_map, List.foldl_filter]
  apply foldlM_eq_pure
  intro keys processed present
  obtain ⟨checked, answer⟩ := isSome_iff_exists.mp (answered processed present)
  rw [answer]
  cases checked <;> rfl

theorem answered_of_deployKeySet {keys : HashedSet DeployId}
    (collected : deployKeySet s blockStore expirationThreshold block = some keys) :
    ∀ processed ∈ deploys block,
      (mustCheck s blockStore expirationThreshold processed).isSome := by
  rw [deployKeySet] at collected
  generalize (HashedSet.empty : HashedSet DeployId) = start at collected
  generalize deploys block = items at collected ⊢
  induction items generalizing start with
  | nil => exact nofun
  | cons first rest ih =>
    rw [foldlM_cons] at collected
    obtain ⟨next, stepped, collected⟩ := Option.bind_eq_some_iff.mp collected
    obtain ⟨checked, answer, -⟩ := Option.bind_eq_some_iff.mp stepped
    exact forall_mem_cons.mpr ⟨answer ▸ rfl, ih next collected⟩

/-- A block that was found is an error. -/
theorem repeatDeploy_of_keys {keys : HashedSet DeployId}
    (collected : deployKeySet s blockStore expirationThreshold block = some keys) :
    Returns (repeatDeploy block s blockStore expirationThreshold) .valid ↔
      keys.isEmpty ∨ ∃ parents, (parentHashes block).mapM s.dag.lookupUnsafe = .ok parents ∧
        Returns (findDuplicate s.dag blockStore parents
          (maxBlockNumberMetadata parents + 1 - expirationThreshold.toInt64) keys) none := by
  have lifted :
      Returns (ExceptT.lift (some keys) : Fallible BlockError (HashedSet DeployId)) keys := rfl
  have parents_iff (parents : List BlockMetadata) :
      Returns (liftM ((getParentsMetadata s.dag (.fromBlock block false none none)).mapError
        fun error => BlockError.blockException (.kvStoreError error)) :
          Fallible BlockError (List BlockMetadata)) parents ↔
        (parentHashes block).mapM s.dag.lookupUnsafe = .ok parents := by
    change _ ↔ getParentsMetadata s.dag (.fromBlock block false none none) = .ok parents
    rw [returns_liftExcept]
    cases getParentsMetadata s.dag (.fromBlock block false none none) <;> simp [Except.mapError]
  rw [repeatDeploy, collected, lifted.bind_iff]
  by_cases empty : keys.isEmpty
  · rw [if_pos empty]
    exact iff_of_true (returns_pure.mpr rfl) (.inl empty)
  · rw [if_neg empty, or_iff_right empty]
    simp only [returns_bind, parents_iff]
    refine exists_congr fun parents => and_congr_right fun _ => ?_
    constructor
    · rintro ⟨_ | metadata, searched, valid⟩
      · exact searched
      · obtain ⟨duplicated, -, valid⟩ := returns_bind.mp valid
        obtain ⟨deploy, -, valid⟩ := returns_bind.mp valid
        cases valid
    · exact fun searched => ⟨none, searched, returns_pure.mpr rfl⟩

theorem repeatDeploy_valid_iff :
    Returns (repeatDeploy block s blockStore expirationThreshold) .valid ↔
      Unrepeated block s blockStore expirationThreshold := by
  by_cases answered : ∀ processed ∈ deploys block,
    (mustCheck s blockStore expirationThreshold processed).isSome
  case neg =>
    refine iff_of_false (fun valid => answered ?_) fun unrepeated => answered unrepeated.answered
    obtain ⟨keys, lifted, -⟩ := returns_bind.mp valid
    rw [Returns, ExceptT.run_lift] at lifted
    obtain ⟨collected, collected_eq, -⟩ := Option.map_eq_some_iff.mp lifted
    exact answered_of_deployKeySet collected_eq
  rw [repeatDeploy_of_keys (deployKeySet_eq answered)]
  generalize keys_eq : HashedSet.ofList (((deploys block).filter fun processed =>
    mustCheck s blockStore expirationThreshold processed = some true).map (·.deploy.sig)) = keys
  have mem_keys (sig : DeployId) : sig ∈ keys ↔ ∃ processed ∈ deploys block,
      mustCheck s blockStore expirationThreshold processed = some true ∧
        sig = processed.deploy.sig := by
    rw [← keys_eq, mem_ofList]
    simp [and_assoc, @eq_comm _ sig]
  by_cases empty : keys.isEmpty
  · refine iff_of_true (.inl empty) ⟨answered, fun processed listed checked => ?_⟩
    exact absurd ((mem_keys _).mpr ⟨processed, listed, checked, rfl⟩) (isEmpty_iff.mp empty _)
  · rw [or_iff_right empty]
    constructor
    · rintro ⟨parents, looked_up, searched⟩
      have clean := (findDuplicate_none_iff empty looked_up).mp searched
      refine ⟨answered, fun processed listed checked => ⟨parents, looked_up, ?_⟩⟩
      intro reached window ancestor stored other other_listed
      obtain ⟨long, not_key⟩ := clean reached window ancestor stored other other_listed
      exact ⟨long, fun checked listed must same =>
        not_key ((mem_keys _).mpr ⟨_, listed, must, same⟩)⟩
    · intro unrepeated
      obtain ⟨sig, member⟩ : ∃ sig, sig ∈ keys := by
        by_contra nothing
        exact empty (isEmpty_iff.mpr fun sig member => nothing ⟨sig, member⟩)
      obtain ⟨processed, listed, checked, -⟩ := (mem_keys sig).mp member
      obtain ⟨parents, looked_up, clean⟩ := unrepeated.window processed listed checked
      refine ⟨parents, looked_up, (findDuplicate_none_iff empty looked_up).mpr ?_⟩
      intro reached window ancestor stored other other_listed
      obtain ⟨long, differs⟩ := clean reached window ancestor stored other other_listed
      refine ⟨long, fun is_key => ?_⟩
      obtain ⟨again, again_listed, must, same⟩ := (mem_keys _).mp is_key
      exact differs again again_listed must same

/-- A valid block repeats no deploy of the blocks that its search reaches. -/
theorem repeatDeploy_valid {processed : ProcessedDeploy}
    (notRejected : ∀ processed ∈ deploys block, processed.deploy.sig ∉ s.rejectedInScope)
    (looked_up : (parentHashes block).mapM s.dag.lookupUnsafe = .ok parents)
    (valid : Returns (repeatDeploy block s blockStore expirationThreshold) .valid)
    (listed : processed ∈ deploys block) (window : InWindow s expirationThreshold parents reached)
    (found : blockStore.get? reached.blockHash = some stored)
    (other_listed : other ∈ deploys stored) : other.deploy.sig ≠ processed.deploy.sig := by
  have checked (processed : ProcessedDeploy) (present : processed ∈ deploys block) :
      mustCheck s blockStore expirationThreshold processed = some true :=
    if_neg (notRejected processed present)
  obtain ⟨found_parents, again, clean⟩ :=
    (repeatDeploy_valid_iff.mp valid).window processed listed (checked processed listed)
  cases looked_up.symm.trans again
  exact (clean reached window stored found other other_listed).2 processed listed
    (checked processed listed)

/-- The check keeps out a repeated signature exactly when it does not pass the block for another
reason: nothing compares the deploys of the block with one another. -/
theorem repeatDeploy_distinct_iff (block : BlockMessage) (s : CasperSnapshot)
    (blockStore : KeyValueBlockStore) (expirationThreshold : Int32) :
    (Returns (repeatDeploy block s blockStore expirationThreshold) .valid →
        ((deploys block).map (·.deploy.sig)).Nodup) ↔
      ((deploys block).map (·.deploy.sig)).Nodup ∨
        ¬Unrepeated block s blockStore expirationThreshold := by
  rw [repeatDeploy_valid_iff]
  exact imp_iff_or_not

end Repeated

section Chains

variable [HashMapOrder] {blocks : KeyValueBlockStore} {genesis : BlockHash}
  {expirationThreshold : Int32}

theorem Passed.lookup_parent (passed : Passed blocks expirationThreshold block s blockStore)
    (found : s.dag.lookup child = some metadata) (step : Parent blocks child parent) :
    parent ∈ metadata.parents ∧ ∃ before, s.dag.lookup parent = some before := by
  obtain ⟨stored_child, present, listed⟩ := step
  obtain ⟨stored, known, -, parents_eq, -⟩ := passed.known.stored child metadata found
  cases present.symm.trans (passed.within child stored known)
  have parent_listed : parent ∈ metadata.parents := parents_eq ▸ listed
  exact ⟨parent_listed, passed.known.closed child metadata found parent parent_listed⟩

section

variable (validated : ValidatedDag blocks genesis expirationThreshold)
  (bounded : ∀ child parent block, Parent blocks child parent →
    blocks.get? parent = some block → ProtoUtil.blockNumber block ≠ maxValue)

include validated bounded

theorem ValidatedDag.number_lt {child parent : BlockHash} (step : Parent blocks child parent) :
    ∃ block before, blocks.get? child = some block ∧ blocks.get? parent = some before ∧
      (ProtoUtil.blockNumber before).toInt < (ProtoUtil.blockNumber block).toInt := by
  obtain ⟨block, present, listed⟩ := step
  have not_genesis : child ≠ genesis := by
    rintro rfl
    rw [validated.root block present] at listed
    cases listed
  obtain ⟨s, blockStore, passed⟩ := validated.passed child block present not_genesis
  obtain ⟨parents, looked_up, next⟩ := blockNumber_valid passed.blockNumber
  have below : ∀ metadata ∈ parents, metadata.blockNumber ≠ maxValue := by
    intro metadata member
    obtain ⟨hash, hash_listed, found⟩ := (mem_mapM looked_up).mp member
    obtain ⟨stored, known, -, -, number_eq⟩ :=
      passed.known.stored hash metadata (lookupUnsafe_eq_ok.mp found)
    rw [number_eq]
    exact bounded child hash stored ⟨block, present, hash_listed⟩ (passed.within hash stored known)
  obtain ⟨metadata, found⟩ := passed.parents parent listed
  obtain ⟨before, known, -, -, number_eq⟩ := passed.known.stored parent metadata found
  have member : metadata ∈ parents := (mem_mapM looked_up).mpr
    ⟨parent, listed, lookupUnsafe_eq_ok.mpr found⟩
  refine ⟨block, before, present, passed.within parent before known, ?_⟩
  rw [← number_eq]
  exact number_lt_of_max next below member

theorem ValidatedDag.number_le
    {hash ancestor : BlockHash} (path : ReflTransGen (Parent blocks) hash ancestor)
    (present : blocks.get? hash = some block)
    (ancestor_present : blocks.get? ancestor = some before) :
    (ProtoUtil.blockNumber before).toInt ≤ (ProtoUtil.blockNumber block).toInt := by
  induction path using ReflTransGen.head_induction_on generalizing block with
  | refl =>
    cases present.symm.trans ancestor_present
    exact le_refl _
  | head step _ ih =>
    obtain ⟨child_block, parent_block, child_present, parent_present, less⟩ :=
      validated.number_lt bounded step
    cases present.symm.trans child_present
    exact (ih parent_present).trans less.le

/-- The search of a validated block follows every chain that stays above its lower bound. -/
theorem Passed.search_path
    {block ancestor_block : BlockMessage}
    (passed : Passed blocks expirationThreshold block s blockStore) {hash ancestor : BlockHash}
    (path : ReflTransGen (Parent blocks) hash ancestor)
    (present : blocks.get? ancestor = some ancestor_block)
    (reaches : earliest.toInt ≤ (ProtoUtil.blockNumber ancestor_block).toInt)
    (found : s.dag.lookup hash = some metadata) :
    ∃ reached, s.dag.lookup ancestor = some reached ∧
      ReflTransGen (fun a b => b ∈ ((getParentMetadatasAboveBlockNumber a earliest
        s.dag).toOption).getD []) metadata reached := by
  induction path using ReflTransGen.head_induction_on generalizing metadata with
  | refl => exact ⟨metadata, found, .refl⟩
  | @head child parent step rest ih =>
    obtain ⟨listed, before, before_found⟩ := passed.lookup_parent found step
    obtain ⟨reached, reached_found, rest_path⟩ := ih before_found
    refine ⟨reached, reached_found, .head ?_ rest_path⟩
    have all_found : ∀ parent ∈ metadata.parents, ∃ before,
        s.dag.lookupUnsafe parent = .ok before := by
      intro parent parent_listed
      obtain ⟨before, found_before⟩ := passed.known.closed child metadata found parent parent_listed
      exact ⟨before, lookupUnsafe_eq_ok.mpr found_before⟩
    obtain ⟨parents, looked_up⟩ := Results.mapM_ok all_found
    have member : before ∈ parents := (mem_mapM looked_up).mpr
      ⟨parent, listed, lookupUnsafe_eq_ok.mpr before_found⟩
    obtain ⟨stored, known, -, -, number_eq⟩ := passed.known.stored parent before before_found
    have above := validated.number_le bounded rest (passed.within parent stored known) present
    have kept : before.blockNumber ≥ earliest := by
      rw [number_eq]
      exact le_iff_toInt_le.mpr (reaches.trans above)
    rw [getParentMetadatasAboveBlockNumber, getParentsMetadata, looked_up]
    exact mem_filter.mpr ⟨member, decide_eq_true kept⟩

end

/-- No deploy is in two blocks of which one is an ancestor of the other, when the deploys of
the genesis block are valid after at most the next number, and no block with the last number
has a child. -/
theorem ValidatedDag.no_double_inclusion
    (validated : ValidatedDag blocks genesis expirationThreshold)
    (determined : ∀ hash other block other_block, blocks.get? hash = some block →
      blocks.get? other = some other_block → ∀ processed ∈ deploys block,
        ∀ other_processed ∈ deploys other_block,
          processed.deploy.sig = other_processed.deploy.sig →
            processed.deploy.data = other_processed.deploy.data)
    (genesis_deploys : ∀ block, blocks.get? genesis = some block → ∀ processed ∈ deploys block,
      processed.deploy.data.validAfterBlockNumber.toInt ≤ (ProtoUtil.blockNumber block).toInt + 1)
    (bounded : ∀ child parent block, Parent blocks child parent →
      blocks.get? parent = some block → ProtoUtil.blockNumber block ≠ maxValue)
    {hash ancestor : BlockHash} {block ancestor_block : BlockMessage}
    (present : blocks.get? hash = some block)
    (ancestor_present : blocks.get? ancestor = some ancestor_block)
    (path : TransGen (Parent blocks) hash ancestor) {processed other : ProcessedDeploy}
    (listed : processed ∈ deploys block) (other_listed : other ∈ deploys ancestor_block) :
    other.deploy.sig ≠ processed.deploy.sig := by
  intro same
  have same_data := determined ancestor hash ancestor_block block ancestor_present present other
    other_listed processed listed same
  obtain ⟨parent, step, rest⟩ := TransGen.head'_iff.mp path
  obtain ⟨child_block, child_present, parent_listed⟩ := step
  cases present.symm.trans child_present
  have not_genesis : hash ≠ genesis := by
    rintro rfl
    rw [validated.root block present] at parent_listed
    cases parent_listed
  obtain ⟨s, blockStore, passed⟩ := validated.passed hash block present not_genesis
  obtain ⟨parents, looked_up, next⟩ := blockNumber_valid passed.blockNumber
  -- the search goes down to the number up to which the deploy is expired
  have not_expired := transactionExpiration_valid listed passed.transactionExpiration
  rw [lt_iff_toInt_lt, ← next, ← same_data] at not_expired
  have reaches : (maxBlockNumberMetadata parents + 1 - expirationThreshold.toInt64).toInt ≤
      (ProtoUtil.blockNumber ancestor_block).toInt := by
    rw [maxBlockNumberMetadata]
    by_cases at_genesis : ancestor = genesis
    · subst at_genesis
      have valid_after := genesis_deploys ancestor_block ancestor_present other other_listed
      omega
    · obtain ⟨_, _, ancestor_passed⟩ :=
        validated.passed ancestor ancestor_block ancestor_present at_genesis
      have not_future := futureTransaction_valid other_listed ancestor_passed.futureTransaction
      rw [lt_iff_toInt_lt] at not_future
      omega
  obtain ⟨first, first_found⟩ := passed.parents parent parent_listed
  obtain ⟨reached, reached_found, search⟩ :=
    passed.search_path validated bounded rest ancestor_present reaches first_found
  obtain ⟨stored, known, hash_eq, -, -⟩ := passed.known.stored ancestor reached reached_found
  cases ancestor_present.symm.trans (passed.within ancestor stored known)
  exact repeatDeploy_valid passed.notRejected looked_up passed.repeatDeploy listed
    ⟨first, (mem_mapM looked_up).mpr ⟨parent, parent_listed, lookupUnsafe_eq_ok.mpr first_found⟩,
      search⟩
    (hash_eq ▸ known) other_listed same

end Chains

/-! A chain of four blocks. The first one and the last one have a deploy. -/

def chainDeploy (sig : UInt8) (validAfterBlockNumber : Int64) : ProcessedDeploy where
  deploy := ⟨⟨"Nil", 0, 1, 1, validAfterBlockNumber, "root", none⟩, [],
    List.replicate KeyValueBlockStore.minDeploySigBytes sig, "secp256k1"⟩
  cost := 0
  deployLog := []
  isFailed := false
  systemDeployError := none

def chainBlock (hash : UInt8) (parents : List BlockHash) (deploys : List ProcessedDeploy) :
    BlockMessage where
  blockHash := [hash]
  header := ⟨parents, 0, 1, []⟩
  body := ⟨⟨[], [], [], hash.toUInt64.toInt64⟩, deploys, [], [], []⟩
  justifications := []
  sender := []
  seqNum := 0
  sig := []
  sigAlgorithm := ""
  shardId := "root"
  extraBytes := []

variable (first last : ProcessedDeploy)

def chainBlocks : KeyValueBlockStore := .ofList [ ([0], chainBlock 0 [] [first]),
  ([1], chainBlock 1 [[0]] []),
  ([2], chainBlock 2 [[1]] []),
  ([3], chainBlock 3 [[2]] [last])]

def chainDag : KeyValueDagRepresentation where
  dagSet := .ofList [[0], [1], [2], [3]]
  latestMessagesMap := .empty
  childMap := .empty
  blockNumberMap := .empty
  mainParentMap := .empty
  finalizedBlocksSet := .empty
  blockMetadataIndex := .ofList ((chainBlocks first last).entries.map fun entry =>
    (entry.1, .fromBlock entry.2 false none none))

attribute [local instance] storedOrder

/-- A block of two deploys with one signature passes. -/
theorem deploy_repeated_in_block :
    let repeating := chainBlock 1 [[0]] [chainDeploy 5 0, chainDeploy 5 0]
    Returns (repeatDeploy repeating ⟨chainDag (chainDeploy 1 0) (chainDeploy 2 0), .empty⟩
        (chainBlocks (chainDeploy 1 0) (chainDeploy 2 0)) 2) .valid ∧
      ¬((deploys repeating).map (·.deploy.sig)).Nodup :=
  ⟨returns_iff_returned?.mpr (by decide +kernel), by decide +kernel⟩

theorem validatedDag_of_entries (dag : KeyValueDagRepresentation)
    (root : ∀ block ∈ blocks.get? genesis, parentHashes block = [])
    (known : ∀ entry ∈ dag.blockMetadataIndex.entries, ∃ block ∈ blocks.get? entry.1,
      entry.2.blockHash = entry.1 ∧ entry.2.parents = parentHashes block ∧
        entry.2.blockNumber = ProtoUtil.blockNumber block ∧
          ∀ parent ∈ entry.2.parents, (dag.lookup parent).isSome)
    (checked : ∀ entry ∈ blocks.entries, entry.1 ≠ genesis →
      (∀ parent ∈ parentHashes entry.2, (dag.lookup parent).isSome) ∧
      blockNumber entry.2 ⟨dag, .empty⟩ = .ok .valid ∧
      futureTransaction entry.2 = .ok .valid ∧
      transactionExpiration entry.2 expirationThreshold = .ok .valid ∧
      Results.returned? (repeatDeploy entry.2 ⟨dag, .empty⟩ blocks expirationThreshold) =
        some .valid) : ValidatedDag blocks genesis expirationThreshold := by
  have dag_known : Known dag blocks := by
    constructor
    · intro hash metadata found
      obtain ⟨block, stored, hash_eq, parents_eq, number_eq, -⟩ :=
        known _ (mem_entries_of_lookup found)
      exact ⟨block, stored, hash_eq, parents_eq, number_eq⟩
    · intro hash metadata found parent listed
      obtain ⟨-, -, -, -, -, closed⟩ :=
        known _ (mem_entries_of_lookup found)
      exact isSome_iff_exists.mp (closed parent listed)
  refine ⟨root, ?_⟩
  intro hash block present not_genesis
  obtain ⟨parents, number, future, expiration, repeated⟩ :=
    checked (hash, block) (mem_entries_iff.mpr present) not_genesis
  exact ⟨⟨dag, .empty⟩, blocks, dag_known, fun _ _ stored => stored,
    fun parent listed => isSome_iff_exists.mp (parents parent listed),
    fun processed _ => not_mem_empty _, number, future, expiration,
    Results.returns_iff_returned?.mpr repeated⟩

theorem path_of_chain : TransGen (Parent (chainBlocks first last)) [3] [0] :=
  .head ⟨chainBlock 3 [[2]] [last], rfl, mem_singleton_self _⟩
    (.head ⟨chainBlock 2 [[1]] [], rfl, mem_singleton_self _⟩
      (.single ⟨chainBlock 1 [[0]] [], rfl, mem_singleton_self _⟩))

/-- A deploy of the genesis block that is valid after block 2 is not found from block 3. -/
theorem genesis_deploy_repeated :
    ValidatedDag (chainBlocks (chainDeploy 1 2) (chainDeploy 1 2)) [0] 2 ∧
      TransGen (Parent (chainBlocks (chainDeploy 1 2) (chainDeploy 1 2))) [3] [0] ∧
      (∀ entry ∈ (chainBlocks (chainDeploy 1 2) (chainDeploy 1 2)).entries,
        ∀ processed ∈ deploys entry.2, processed = chainDeploy 1 2) ∧
      ∃ ancestor block, (chainBlocks (chainDeploy 1 2) (chainDeploy 1 2)).get? [0] = some ancestor ∧
        (chainBlocks (chainDeploy 1 2) (chainDeploy 1 2)).get? [3] = some block ∧
        chainDeploy 1 2 ∈ deploys ancestor ∧ chainDeploy 1 2 ∈ deploys block := by
  refine ⟨validatedDag_of_entries (chainDag (chainDeploy 1 2) (chainDeploy 1 2))
    (by decide +kernel) (by decide +kernel) (by decide +kernel),
    path_of_chain (chainDeploy 1 2) (chainDeploy 1 2), by decide +kernel, ?_⟩
  exact ⟨_, _, rfl, rfl, mem_singleton_self _, mem_singleton_self _⟩

theorem ValidatedDag.no_double_inclusion_of_chain :
    (chainDeploy 5 0).deploy.sig ≠ (chainDeploy 1 2).deploy.sig := by
  set blocks := chainBlocks (chainDeploy 5 0) (chainDeploy 1 2) with blocks_eq
  have validated : ValidatedDag blocks [0] 2 :=
    validatedDag_of_entries (chainDag (chainDeploy 5 0) (chainDeploy 1 2))
      (by decide +kernel) (by decide +kernel) (by decide +kernel)
  have determined : ∀ entry ∈ blocks.entries, ∀ other ∈ blocks.entries,
      ∀ processed ∈ deploys entry.2, ∀ other_processed ∈ deploys other.2,
        processed.deploy.sig = other_processed.deploy.sig →
          processed.deploy.data = other_processed.deploy.data := by decide +kernel
  have genesis_deploys : ∀ block ∈ blocks.get? [0], ∀ processed ∈ deploys block,
      processed.deploy.data.validAfterBlockNumber.toInt ≤
        (ProtoUtil.blockNumber block).toInt + 1 := by decide +kernel
  have bounded : ∀ entry ∈ blocks.entries, ProtoUtil.blockNumber entry.2 ≠ maxValue := by
    decide +kernel
  have last_stored : blocks.get? [3] = some (chainBlock 3 [[2]] [chainDeploy 1 2]) := rfl
  have first_stored : blocks.get? [0] = some (chainBlock 0 [] [chainDeploy 5 0]) := rfl
  exact validated.no_double_inclusion
    (fun hash other _ _ stored other_stored =>
      determined (hash, _) (mem_entries_iff.mpr stored) (other, _)
        (mem_entries_iff.mpr other_stored))
    genesis_deploys
    (fun _ parent _ _ stored => bounded (parent, _) (mem_entries_iff.mpr stored))
    last_stored first_stored (path_of_chain _ _)
    (mem_singleton_self _) (mem_singleton_self _)

end F1r3fly.Casper.Validate
