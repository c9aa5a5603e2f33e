import F1r3fly.Casper.Merging.ChainBranches
import F1r3fly.Casper.Merging.RejectionExpansion
import F1r3fly.Rholang.NumberProcesses

/-! What becomes of the user deploys of the merged blocks: none is lost, and none is both
merged and reported as rejected unless one block has two chains with it. -/
namespace F1r3fly.Casper.Merging

open HashedSet RSpace RSpace.Merger DeployChainIndex
open BlockStorage
open Results
open Rholang

section Chains

variable [HashMapOrder]

def ChainOf (index : BlockHash → Except CasperError (List DeployChainIndex))
    (blocks : HashedSet BlockHash) (chain : DeployChainIndex) : Prop :=
  ∃ block ∈ blocks, ∃ chains, index block = .ok chains ∧ chain ∈ chains

theorem mem_collectChains (collected : collectChains index blocks = .ok chains) :
    chain ∈ chains ↔ ChainOf index blocks chain := by
  obtain ⟨indices, computed, collected⟩ := bind_eq_ok.mp collected
  cases collected
  have mem_block (block : BlockHash) : block ∈ sortBytes blocks.iter ↔ block ∈ blocks := by
    rw [sortBytes, List.mem_insertionSort, mem_iter, mem_iff]
    simp
  simp only [mem_flatten, mem_mapM computed, mem_block, ChainOf]
  constructor
  · rintro ⟨chains, ⟨block, present, indexed⟩, member⟩
    exact ⟨block, present, chains, indexed, member⟩
  · rintro ⟨block, present, chains, indexed, member⟩
    exact ⟨chains, ⟨block, present, indexed⟩, member⟩

end Chains

section Dedup

theorem recordSource_cases (chain : DeployChainIndex) (latest : LatestForDeploy)
    (deploy : DeployIdWithCost) :
    recordSource chain latest deploy = latest.insert deploy.deployId chain.source ∨
      recordSource chain latest deploy = latest ∧ (latest.get? deploy.deployId).isSome := by
  rw [recordSource]
  split
  case h_1 best found =>
    split
    · exact .inl rfl
    · exact .inr ⟨rfl, by rw [found, isSome_some]⟩
  case h_2 => exact .inl rfl

theorem isLatest_congr (source_eq : a.source = b.source) (id : DeployId) :
    isLatest latest a id = isLatest latest b id := by
  obtain ⟨number_eq, hash_eq⟩ := Prod.ext_iff.mp source_eq
  rw [isLatest, isLatest]
  dsimp only [source] at number_eq hash_eq
  rw [number_eq, hash_eq]

variable [HashMapOrder]

variable {id : DeployId}

theorem mem_deployIds {chain : DeployChainIndex} :
    id ∈ chain.deployIds ↔ ∃ deploy ∈ chain.deploysWithCost.iter, deploy.deployId = id := by
  simp only [deployIds, mem_map, mem_iter]

/-- Every recorded source is that of a chain with the deploy. -/
structure Recorded (known : DeployId → DeployChainIndex → Prop) (latest : LatestForDeploy) :
    Prop where
  found : ∀ id chain, known id chain → (latest.get? id).isSome = true
  source : ∀ id best, latest.get? id = some best → ∃ chain, known id chain ∧ chain.source = best

theorem latestForDeploy_recorded (chains : List DeployChainIndex) :
    Recorded (fun id chain => chain ∈ chains ∧ id ∈ chain.deployIds) (latestForDeploy chains) := by
  -- The two loops are one over the deploys with their chains.
  let copies := chains.flatMap fun chain => chain.deploysWithCost.iter.map (chain, ·)
  have folded : latestForDeploy chains =
      copies.foldl (fun latest copy => recordSource copy.1 latest copy.2) .empty := by
    rw [List.foldl_flatMap]
    simp only [foldl_map]
    rfl
  rw [folded]
  constructor
  · rintro id chain ⟨present, has_deploy⟩
    obtain ⟨deploy, member, rfl⟩ := mem_deployIds.mp has_deploy
    refine (foldl_iff_or
      (fun latest : LatestForDeploy => (latest.get? deploy.deployId).isSome)
      (deploy.deployId = ·.2.deployId) fun latest copy => ?_).mpr (.inr ⟨(chain, deploy),
        mem_flatMap.mpr ⟨chain, present, mem_map_of_mem member⟩, rfl⟩)
    rcases recordSource_cases copy.1 latest copy.2 with inserted | ⟨unchanged, known⟩
    · rw [inserted, HashedMap.get?_insert]
      split <;> simp_all
    · rw [unchanged, iff_self_or]
      exact fun same => same.symm ▸ known
  · intro id
    refine foldlRecOn (motive := fun (latest : LatestForDeploy) => ∀ best,
      latest.get? id = some best →
        ∃ chain, (chain ∈ chains ∧ id ∈ chain.deployIds) ∧ chain.source = best) copies _ ?_ ?_
    · rintro _ ⟨⟩
    intro latest sources copy present best found
    rcases recordSource_cases copy.1 latest copy.2 with inserted | ⟨unchanged, -⟩
    · rw [inserted, HashedMap.get?_insert] at found
      split at found
      · rename_i same
        obtain ⟨chain, chain_present, deployed⟩ := mem_flatMap.mp present
        obtain ⟨deploy, member, rfl⟩ := mem_map.mp deployed
        exact ⟨chain, ⟨chain_present, mem_deployIds.mpr ⟨deploy, member, (eq_of_beq same).symm⟩⟩,
          Option.some.inj found⟩
      · exact sources best found
    · rw [unchanged] at found
      exact sources best found

omit [HashMapOrder] in
theorem isLatest_iff (found : latest.get? id = some best) :
    isLatest latest chain id ↔ chain.source = best := by
  simp only [isLatest, found, and_eq_true, beq_iff_eq, source, Prod.ext_iff]

theorem exists_latest (present : chain ∈ chains) (member : id ∈ chain.deployIds) :
    ∃ fresh ∈ chains, id ∈ fresh.deployIds ∧ isLatest (latestForDeploy chains) fresh id := by
  have recorded := latestForDeploy_recorded chains
  obtain ⟨best, found⟩ := isSome_iff_exists.mp (recorded.found id chain ⟨present, member⟩)
  obtain ⟨fresh, ⟨fresh_present, fresh_member⟩, source_eq⟩ := recorded.source id best found
  exact ⟨fresh, fresh_present, fresh_member, (isLatest_iff found).mpr source_eq⟩

theorem source_eq_of_isLatest (present : a ∈ chains) (member : id ∈ a.deployIds)
    (first : isLatest (latestForDeploy chains) a id)
    (second : isLatest (latestForDeploy chains) b id) : a.source = b.source := by
  have recorded := latestForDeploy_recorded chains
  obtain ⟨best, found⟩ := isSome_iff_exists.mp (recorded.found id a ⟨present, member⟩)
  rw [isLatest_iff found] at first second
  rw [first, second]

theorem isRetained_iff {latest : LatestForDeploy} :
    isRetained latest chain ↔ ∀ id ∈ chain.deployIds, isLatest latest chain id := by
  simp only [isRetained, all_eq_true, mem_deployIds, forall_exists_index, and_imp,
    forall_apply_eq_imp_iff₂]

theorem mem_collateralLostPairs {chains : List DeployChainIndex} :
    id ∈ (collateralLostPairs chains).map (·.1) ↔
      ∃ chain ∈ chains, isRetained (latestForDeploy chains) chain = false ∧
        id ∈ chain.deployIds ∧ isSystemDeployId id = false ∧
        isLatest (latestForDeploy chains) chain id := by
  simp only [collateralLostPairs, mem_map, mem_flatMap, mem_filter,
    not_eq_true', and_eq_true, mem_deployIds]
  constructor
  · rintro ⟨-, ⟨chain, ⟨present, dropped⟩, deploy, ⟨member, user, fresh⟩, rfl⟩, rfl⟩
    exact ⟨chain, present, dropped, ⟨deploy, member, rfl⟩, user, fresh⟩
  · rintro ⟨chain, present, dropped, ⟨deploy, member, rfl⟩, user, fresh⟩
    exact ⟨_, ⟨chain, ⟨present, dropped⟩, deploy, ⟨member, user, fresh⟩, rfl⟩, rfl⟩

end Dedup

section Report

variable [HashMapOrder]

theorem mem_rejectedUserDeploys {rejected : HashableSet DeployChainIndex} {id : DeployId} :
    id ∈ (rejectedUserDeploys rejected collateral).map (·.1) ↔
      (∃ chain ∈ rejected.elements, id ∈ chain.deployIds ∧ isSystemDeployId id = false) ∨
        id ∈ collateral.map (·.1) := by
  rw [rejectedUserDeploys, ((sortBy_perm comparePairs _).map _).mem_iff, map_append, mem_append]
  set users := (rejectedPairs rejected).filter fun pair => !isSystemDeployId pair.1
  have mem_users : id ∈ users.map (·.1) ↔
      ∃ chain ∈ rejected.elements, id ∈ chain.deployIds ∧ isSystemDeployId id = false := by
    simp only [users, rejectedPairs, mem_map, mem_filter, mem_flatMap, mem_iter,
      not_eq_true', mem_deployIds]
    constructor
    · rintro ⟨-, ⟨⟨chain, present, deploy, member, rfl⟩, user⟩, rfl⟩
      exact ⟨chain, present, ⟨deploy, member, rfl⟩, user⟩
    · rintro ⟨chain, present, ⟨deploy, member, rfl⟩, user⟩
      exact ⟨_, ⟨⟨chain, present, deploy, member, rfl⟩, user⟩, rfl⟩
  rw [← mem_users]
  -- A lost deploy is left out of the report only if it is there already.
  by_cases existing : id ∈ users.map (·.1)
  · simp [existing]
  · simp only [existing, false_or, mem_map, mem_filter]
    refine exists_congr fun pair => and_congr_left fun is_id => and_iff_left ?_
    rw [is_id, not_eq_true', ← not_eq_true, contains_iff, mem_ofList]
    simpa using existing

end Report

section Placement

/-- Every actual chain is in a merged branch or rejected, and a merged one that is not late
is not rejected. -/
structure Placed (actual late : List DeployChainIndex)
    (resolved : ResolvedConflicts DeployChainIndex) : Prop where
  covered : ∀ chain ∈ actual,
    (∃ branch ∈ resolved.toMerge, chain ∈ branch) ∨ chain ∈ resolved.rejected
  stored : ∀ branch ∈ resolved.toMerge, ∀ chain ∈ branch.elements, chain ∈ actual
  known : ∀ chain ∈ resolved.rejected, ∃ other ∈ late ++ actual, (chain == other) = true
  exclusive : ∀ branch ∈ resolved.toMerge, ∀ chain ∈ branch,
    (∀ other ∈ late, (chain == other) = false) → chain ∉ resolved.rejected
  disjoint : ∀ branch ∈ resolved.toMerge, ∀ other ∈ resolved.toMerge, ∀ chain ∈ branch,
    chain ∈ other → branch = other

variable [HashMapOrder]

theorem resolveChains_placed [Debug Blake2b256Hash] {Par : Type} [RhoNumber Par]
    {reader : HistoryReader (ListParWithRandom Par)}
    (computed : resolveChains reader rejectionCostF actual late = .ok resolved) :
    Placed actual late resolved := by
  obtain ⟨conflictMap, optimal, mapped, resolves⟩ := resolveConflicts_resolves _ computed
  have branching := computeBranchesFn_branching
    (mergeSet (sortBy compare actual) (sortBy compare late) dependsFn)
  have within := computeConflictMapFn_within mapped
  have of_actual {chain : DeployChainIndex}
      (member : chain ∈ (HashedSet.ofList (sortBy compare actual)).elements) : chain ∈ actual :=
    mem_sortBy.mp (mem_elements_ofList member)
  have branch_of {branch : HashableSet DeployChainIndex} (merged : branch ∈ resolved.toMerge) :
      branch ∈ (computeBranchesFn
        (mergeSet (sortBy compare actual) (sortBy compare late) dependsFn)).elements :=
    ((resolves.toMerge branch).mp merged).1
  refine ⟨?_, ?_, ?_, ?_, ?_⟩
  · intro chain present
    apply resolves.covered branching
    exact mem_ofList.mpr ⟨chain, mem_sortBy.mpr present, BEq.rfl⟩
  · intro branch merged chain member
    exact of_actual (mem_split_iff.mpr (.inr (branching.within branch (branch_of merged) chain
      member)))
  · intro chain rejected
    rcases resolves.rejected_known branching within rejected with is_late | is_actual
    · obtain ⟨other, present, same⟩ := mem_ofList.mp is_late
      exact ⟨other, mem_append_left _ (mem_sortBy.mp present), same⟩
    · obtain ⟨other, present, same⟩ := mem_ofList.mp is_actual
      exact ⟨other, mem_append_right _ (mem_sortBy.mp present), same⟩
  · intro branch merged chain member not_late
    apply resolves.exclusive branching within merged member
    rw [mem_ofList]
    rintro ⟨other, present, same⟩
    rw [not_late other (mem_sortBy.mp present)] at same
    cases same
  · intro branch merged other other_merged chain member in_other
    obtain ⟨stored, stored_present, same⟩ := mem_iff.mp member
    apply eq_of_mem_elements (branch_of merged) (branch_of other_merged)
    exact branching.disjoint branch (branch_of merged) other (branch_of other_merged) stored
      stored_present ((mem_congr same).mp in_other)

theorem Placed.expandRejection (placed : Placed actual late resolved)
    (dag : KeyValueDagRepresentation) (scope : HashedSet BlockHash) :
    Placed actual late (expandRejection dag scope resolved) where
  covered chain present := by
    rw [mem_rejected_expandRejection]
    rcases placed.covered chain present with ⟨branch, merged, member⟩ | rejected
    · by_cases stale : Stale dag scope resolved branch
      · exact .inr (.inr ⟨branch, merged, stale, member⟩)
      · exact .inl ⟨branch, mem_toMerge_expandRejection.mpr ⟨merged, stale⟩, member⟩
    · exact .inr (.inl rejected)
  stored branch merged := placed.stored branch (mem_toMerge_expandRejection.mp merged).1
  known chain rejected := by
    rcases mem_rejected_expandRejection.mp rejected with before | ⟨branch, merged, -, member⟩
    · exact placed.known chain before
    · obtain ⟨stored, stored_present, same⟩ := mem_iff.mp member
      exact ⟨stored, mem_append_right _ (placed.stored branch merged stored stored_present), same⟩
  exclusive branch merged chain member not_late := by
    obtain ⟨was_merged, fresh⟩ := mem_toMerge_expandRejection.mp merged
    rw [mem_rejected_expandRejection]
    rintro (before | ⟨other, other_merged, stale, in_other⟩)
    · exact placed.exclusive branch was_merged chain member not_late before
    · rw [placed.disjoint branch was_merged other other_merged chain member in_other] at fresh
      exact fresh stale
  disjoint branch merged other other_merged :=
    placed.disjoint branch (mem_toMerge_expandRejection.mp merged).1 other
      (mem_toMerge_expandRejection.mp other_merged).1

end Placement

section Accounting

def MergedDeploy (resolved : ResolvedConflicts DeployChainIndex) (id : DeployId) : Prop :=
  ∃ branch ∈ resolved.toMerge, ∃ chain ∈ branch.elements, id ∈ chain.deployIds

/-- No block has a user deploy in two of its chains, and no late block has one of the
actual blocks. -/
structure SingleCopies (index : BlockHash → Except CasperError (List DeployChainIndex))
    (actual late : HashedSet BlockHash) : Prop where
  perBlock : ∀ a b, ChainOf index actual a → ChainOf index actual b →
    a.sourceBlockHash = b.sourceBlockHash → ∀ id, isSystemDeployId id = false →
      id ∈ a.deployIds → id ∈ b.deployIds → (a == b) = true
  notLate : ∀ a b, ChainOf index actual a → ChainOf index late b →
    ∀ id, isSystemDeployId id = false → id ∈ a.deployIds → id ∉ b.deployIds

variable [HashMapOrder] {index : BlockHash → Except CasperError (List DeployChainIndex)}
  {actual late : HashedSet BlockHash} {actualChains lateChains : List DeployChainIndex}
  {resolved : ResolvedConflicts DeployChainIndex} {id : DeployId}

theorem Placed.not_lost (placed : Placed (retainedChains actualChains) lateChains resolved)
    (present : chain ∈ actualChains) (member : id ∈ chain.deployIds)
    (user : isSystemDeployId id = false) :
    MergedDeploy resolved id ∨ id ∈ (rejectedUserDeploys resolved.rejected
      (collateralLostPairs actualChains)).map (·.1) := by
  rw [mem_rejectedUserDeploys, mem_collateralLostPairs]
  obtain ⟨fresh, fresh_present, fresh_member, latest⟩ := exists_latest present member
  cases retained : isRetained (latestForDeploy actualChains) fresh with
  | false => exact .inr (.inr ⟨fresh, fresh_present, retained, fresh_member, user, latest⟩)
  | true =>
    have kept : fresh ∈ retainedChains actualChains :=
      mem_filter.mpr ⟨fresh_present, retained⟩
    rcases placed.covered fresh kept with ⟨branch, merged, in_branch⟩ | rejected
    · obtain ⟨stored, stored_present, same⟩ := mem_iff.mp in_branch
      exact .inl ⟨branch, merged, stored, stored_present,
        (mem_deployIds_congr same id).mp fresh_member⟩
    · obtain ⟨stored, stored_present, same⟩ := mem_iff.mp rejected
      exact .inr (.inl ⟨stored, stored_present,
        (mem_deployIds_congr same id).mp fresh_member, user⟩)

theorem Placed.not_both (placed : Placed (retainedChains actualChains) lateChains resolved)
    (collected : collectChains index actual = .ok actualChains)
    (late_collected : collectChains index late = .ok lateChains)
    (single : SingleCopies index actual late) (user : isSystemDeployId id = false)
    (is_merged : MergedDeploy resolved id) :
    id ∉ (rejectedUserDeploys resolved.rejected (collateralLostPairs actualChains)).map (·.1) := by
  obtain ⟨branch, merged, chain, in_branch, member⟩ := is_merged
  obtain ⟨present, retained⟩ := mem_filter.mp (placed.stored branch merged chain in_branch)
  have latest := isRetained_iff.mp retained
  have chain_of := (mem_collectChains collected).mp present
  -- Another freshest copy of the deploy is a copy of the whole chain.
  have same_chain {other : DeployChainIndex} (other_present : other ∈ actualChains)
      (other_member : id ∈ other.deployIds)
      (other_latest : isLatest (latestForDeploy actualChains) other id) :
      chain.source = other.source ∧ chain == other := by
    have source_eq := source_eq_of_isLatest present member (latest id member) other_latest
    exact ⟨source_eq, single.perBlock chain other chain_of
      ((mem_collectChains collected).mp other_present) (congrArg Prod.snd source_eq) id user member
      other_member⟩
  rw [mem_rejectedUserDeploys, mem_collateralLostPairs]
  rintro (⟨rejected, is_rejected, rejected_member, -⟩ |
    ⟨dropped, dropped_present, not_retained, dropped_member, -, dropped_latest⟩)
  · have rejected_mem := mem_of_mem_elements is_rejected
    have not_late : ∀ other ∈ lateChains, (chain == other) = false := by
      intro other other_late
      by_contra same
      rw [Bool.not_eq_false] at same
      exact single.notLate chain other chain_of ((mem_collectChains late_collected).mp other_late)
        id user member ((mem_deployIds_congr same id).mp member)
    obtain ⟨other, other_known, same⟩ := placed.known rejected rejected_mem
    have other_member := (mem_deployIds_congr same id).mp rejected_member
    rcases mem_append.mp other_known with other_late | other_retained
    · exact single.notLate chain other chain_of ((mem_collectChains late_collected).mp other_late)
        id user member other_member
    · obtain ⟨other_present, retained_other⟩ := mem_filter.mp other_retained
      obtain ⟨-, equal⟩ := same_chain other_present other_member
        (isRetained_iff.mp retained_other id other_member)
      apply placed.exclusive branch merged chain (mem_of_mem_elements in_branch) not_late
      rw [mem_congr equal, ← mem_congr same]
      exact rejected_mem
  · obtain ⟨source_eq, equal⟩ := same_chain dropped_present dropped_member dropped_latest
    have dropped_retained : isRetained (latestForDeploy actualChains) dropped := by
      rw [isRetained_iff]
      intro other_id other_member
      have in_chain := (mem_deployIds_congr equal other_id).mpr other_member
      rw [← isLatest_congr source_eq]
      exact latest other_id in_chain
    rw [dropped_retained] at not_retained
    cases not_retained

variable {C P K Par Random : Type} [RhoNumber Par] [Blake2b] [Serialize (ListParWithRandom Par)]
  [DecodeDatum (ListParWithRandom Par)] [Debug Blake2b256Hash] [Blake2b512Random Random]
  [DecidableEq Random]

/-- A merge loses no user deploy of the actual blocks: each is in a merged chain or reported
as rejected. With single copies it is not both. -/
theorem merge_places_user_deploys (dag : KeyValueDagRepresentation) (lfb : BlockHash)
    (lfbPostState : Blake2b256Hash)
    (index : BlockHash → Except CasperError (List DeployChainIndex))
    (historyRepository : RhoHistoryRepository C P (ListParWithRandom Par) K)
    (rejectionCostF : DeployChainIndex → UInt64) (scope : Option (HashedSet BlockHash))
    (disableLateBlockFiltering : Bool) (outcome : MergeOutcome C P (ListParWithRandom Par) K)
    (returned : Returns (merge Random dag lfb lfbPostState index historyRepository rejectionCostF
      scope disableLateBlockFiltering) outcome) :
    ∃ actual late, Returns (actualBlocks dag lfb scope) actual ∧
      lateBlocks dag scope disableLateBlockFiltering actual = .ok late ∧
      ∀ chain, ChainOf index actual chain → ∀ id ∈ chain.deployIds, isSystemDeployId id = false →
        (MergedDeploy outcome.resolved id ∨ id ∈ outcome.rejectedUserDeploys.map (·.1)) ∧
        (SingleCopies index actual late →
          Xor (MergedDeploy outcome.resolved id) (id ∈ outcome.rejectedUserDeploys.map (·.1))) := by
  obtain ⟨actual, late, actualChains, lateChains, reader, resolution, actual_returned, late_ok,
    collected, late_collected, -, resolved_ok, resolved_eq, -, reported_eq, -⟩ :=
    merge_returns returned
  refine ⟨actual, late, actual_returned, late_ok, ?_⟩
  intro chain chain_of id member user
  have placed : Placed (retainedChains actualChains) lateChains outcome.resolved := by
    rw [resolved_eq]
    exact (resolveChains_placed resolved_ok).expandRejection dag actual
  rw [reported_eq]
  have not_lost := placed.not_lost ((mem_collectChains collected).mpr chain_of) member user
  refine ⟨not_lost, ?_⟩
  intro single
  have not_both := placed.not_both collected late_collected single user
  rcases not_lost with merged | reported
  · exact .inl ⟨merged, not_both merged⟩
  · exact .inr ⟨reported, fun merged => not_both merged reported⟩

end Accounting

section Samples

open scoped Rholang.NumberProcesses

attribute [local instance] insertionOrder

local instance noData : DecodeDatum (ListParWithRandom Int64) := ⟨fun _ => none⟩

def twoBlockDag : KeyValueDagRepresentation where
  dagSet := .ofList [[0], [1]]
  latestMessagesMap := .empty
  childMap := .ofList [([0], .ofList [[1]])]
  blockNumberMap := .ofList [([0], 0), ([1], 1)]
  mainParentMap := .ofList [([1], [0])]
  finalizedBlocksSet := .empty
  blockMetadataIndex := .empty

def emptyRepository : RhoHistoryRepository Unit Unit (ListParWithRandom Int64) Unit where
  getHistoryReader _ := .ok ⟨fun _ => .ok [], fun _ => .ok [], fun _ => .ok [], fun _ => .ok []⟩
  checkpoint root _ := pure root

def siblingsDag : KeyValueDagRepresentation := { twoBlockDag with
  dagSet := .ofList [[0], [1], [2]]
  childMap := .ofList [([0], .ofList [[1], [2]])]
  blockNumberMap := .ofList [([0], 0), ([1], 1), ([2], 1)]
  mainParentMap := .ofList [([1], [0]), ([2], [0])] }

/-- A chain that consumes a certain datum. -/
def racingChain (deployId : DeployId) (source : BlockHash) : DeployChainIndex :=
  { sampleChain deployId source with
    eventLogIndex.producesConsumed := .ofList [⟨[5], [5], false, true, [], false⟩] }

/-- The blocks have one deploy in common, and another chain each that are in conflict. -/
def siblingChains (block : BlockHash) : List DeployChainIndex :=
  [sampleChain [7] block, racingChain (if block = [1] then [8] else [9]) block]

theorem siblingChains_single :
    SingleCopies (fun block => .ok (siblingChains block)) (.ofList [[1], [2]]) .empty where
  perBlock := by
    have among {chain : DeployChainIndex}
        (here : ChainOf (fun block => .ok (siblingChains block)) (.ofList [[1], [2]]) chain) :
        chain ∈ siblingChains [1] ++ siblingChains [2] := by
      obtain ⟨block, present, _, ⟨⟩, member⟩ := here
      obtain ⟨other, listed, same⟩ := HashedSet.mem_ofList.mp present
      obtain rfl := eq_of_beq same
      rw [mem_append]
      simpa using mem_flatMap.mpr ⟨block, listed, member⟩
    have single : ∀ a ∈ siblingChains [1] ++ siblingChains [2],
        ∀ b ∈ siblingChains [1] ++ siblingChains [2], a.sourceBlockHash = b.sourceBlockHash →
          ∀ id ∈ a.deployIds, id ∈ b.deployIds → (a == b) = true := by decide
    intro a b a_here b_here same id _ a_member b_member
    exact single a (among a_here) b (among b_here) same id a_member b_member
  notLate := by
    rintro a b - ⟨block, absurd_member, -⟩
    cases absurd_member

theorem merge_places_racing_deploys :
    ∃ outcome, Returns (merge ByteVector siblingsDag [0] [] (fun block => .ok (siblingChains block))
        emptyRepository costOptimalRejectionAlg (some (.ofList [[0], [1], [2]])) false) outcome ∧
      outcome.rejectedUserDeploys.map (·.1) = [[8]] ∧
      ∀ id ∈ [[7], [8], [9]],
        Xor (MergedDeploy outcome.resolved id) (id ∈ outcome.rejectedUserDeploys.map (·.1)) := by
  obtain ⟨outcome, returned, rejected⟩ : ∃ outcome, Returns (merge ByteVector siblingsDag [0] []
      (fun block => .ok (siblingChains block)) emptyRepository costOptimalRejectionAlg
      (some (.ofList [[0], [1], [2]])) false) outcome ∧
      outcome.rejectedUserDeploys.map (·.1) = [[8]] := ⟨_, rfl, by decide⟩
  refine ⟨outcome, returned, rejected, ?_⟩
  obtain ⟨actual, late, actual_returned, late_ok, placed⟩ := merge_places_user_deploys siblingsDag
    [0] [] (fun block => .ok (siblingChains block)) emptyRepository costOptimalRejectionAlg
    (some (.ofList [[0], [1], [2]])) false outcome returned
  have actual_eq : actual = .ofList [[1], [2]] := by
    cases actual_returned
    rfl
  have late_eq : late = .empty := by
    cases late_ok
    rfl
  subst actual_eq late_eq
  have copied : ∀ id ∈ [[7], [8], [9]], ∃ block ∈ [[1], [2]], ∃ chain ∈ siblingChains block,
      id ∈ chain.deployIds ∧ isSystemDeployId id = false := by decide
  intro id member
  obtain ⟨block, listed, chain, here, inside, user⟩ := copied id member
  have present := HashedSet.mem_ofList.mpr ⟨block, listed, BEq.rfl⟩
  exact (placed chain ⟨block, present, _, rfl, here⟩ id inside user).2 siblingChains_single

def repeatingChains : List DeployChainIndex :=
  [sampleChain [7] [1],
    { sampleChain [7] [1] with deploysWithCost := .ofList [⟨[7], 1⟩, ⟨[8], 1⟩] }]

/-- The chains are in conflict, and the deploy is in the one that is merged and in the one
that is rejected. -/
theorem merge_rejects_merged_deploy :
    isSystemDeployId [7] = false ∧
    ∃ outcome, Returns (merge ByteVector twoBlockDag [0] [] (fun _ => .ok repeatingChains)
        emptyRepository costOptimalRejectionAlg (some (.ofList [[0], [1]])) false) outcome ∧
      MergedDeploy outcome.resolved [7] ∧ [7] ∈ outcome.rejectedUserDeploys.map (·.1) := by
  refine ⟨by decide, _, rfl, ⟨_, (.head _), _, (.head _), ?_⟩, ?_⟩
  · decide
  · decide

end Samples

end F1r3fly.Casper.Merging
