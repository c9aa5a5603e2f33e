import F1r3fly.Casper.Finality.AgreementLayers

/-! The finalizer finds the highest one of the blocks that the safety oracle finds safe enough. -/
namespace F1r3fly.Casper.Finalizer

open Option HashedMap BlockStorage Results Int64
open CliqueOracle
open Memo
open Relation (ReflTransGen)

section Stakes

variable [HashMapOrder] {messageWeightMap agreeingWeightMap weights : WeightMap}

theorem cannotBeOrphaned_iff (message_fits : Fits messageWeightMap)
    (agreeing_fits : Fits agreeingWeightMap) (positive : Positive agreeingWeightMap) :
    cannotBeOrphaned messageWeightMap agreeingWeightMap ↔
      0 < stakeSum messageWeightMap ∧
        stakeSum messageWeightMap < stakeSum agreeingWeightMap * 2 := by
  obtain ⟨agreeing, agreeing_eq, agreeing_toInt⟩ :=
    checkedStakeSum_of_fits agreeing_fits positive.stakeSum_nonneg
  have none_nonpositive : ¬ (agreeingWeightMap.entries.any fun entry => entry.2 ≤ 0) := by
    rw [any_eq_true]
    rintro ⟨entry, present, nonpositive⟩
    have le : entry.2.toInt ≤ (0 : Int64).toInt :=
      le_iff_toInt_le.mp (of_decide_eq_true nonpositive)
    exact absurd (positive entry present) (not_lt.mpr le)
  rw [cannotBeOrphaned, if_neg none_nonpositive, agreeing_eq]
  cases total_eq : checkedStakeSum messageWeightMap with
  | none =>
    -- only a sum of negative stakes can overflow
    simp only [Bool.false_eq_true, false_iff, not_and]
    intro total_pos
    obtain ⟨total, returned, -⟩ := checkedStakeSum_of_fits message_fits total_pos.le
    cases total_eq.symm.trans returned
  | some total =>
    have total_toInt := checkedStakeSum_toInt total_eq
    simp only [le_iff_toInt_le, toInt_zero, total_toInt]
    split_ifs with nonpositive
    · simp only [false_iff]
      omega
    · rw [decide_eq_true_iff]
      omega

theorem faultToleranceUpperBound_eq (message_fits : Fits messageWeightMap)
    (agreeing_fits : Fits agreeingWeightMap) (positive : Positive agreeingWeightMap)
    (total_pos : 0 < stakeSum messageWeightMap) :
    faultToleranceUpperBound messageWeightMap agreeingWeightMap =
      ((stakeSum agreeingWeightMap : ℚ) * 2 - stakeSum messageWeightMap) /
        stakeSum messageWeightMap := by
  obtain ⟨total, total_eq, total_toInt⟩ := checkedStakeSum_of_fits message_fits total_pos.le
  obtain ⟨agreeing, agreeing_eq, agreeing_toInt⟩ :=
    checkedStakeSum_of_fits agreeing_fits positive.stakeSum_nonneg
  have total_not_le : ¬ total ≤ 0 := by
    rw [le_iff_toInt_le, toInt_zero]
    omega
  rw [faultToleranceUpperBound, total_eq, agreeing_eq]
  dsimp only
  rw [if_neg total_not_le, total_toInt, agreeing_toInt]
  push_cast
  rfl

end Stakes

variable {dag : KeyValueDagRepresentation} {height : Int64}

section Chains

theorem Visits.supports {hash : BlockHash} (visits : Visits dag height v hash) :
    Supports dag hash v := by
  obtain ⟨latest, is_latest, path⟩ := visits
  exact ⟨latest, is_latest, ReflTransGen.mono (fun _ _ step => step.1) _ _ path⟩

theorem visits_of_supports (complete : Complete dag) {hash : BlockHash}
    (found : dag.lookup hash = some metadata) (high : height < metadata.blockNumber)
    (supports : Supports dag hash v) : Visits dag height v hash := by
  obtain ⟨latest, is_latest, path⟩ := supports
  refine ⟨latest, is_latest, ?_⟩
  induction path generalizing metadata with
  | refl => exact .refl
  | tail _ step ih =>
    obtain ⟨child, child_found⟩ := complete.recorded _ _ step
    rw [(complete.indexed _ _ child_found).2.2.2] at step
    obtain ⟨parent, parent_found, below⟩ := complete.numbered _ _ _ child_found step
    cases found.symm.trans parent_found
    refine (ih child_found (Int64.lt_trans high below)).tail ⟨?_, metadata, found, high⟩
    rw [(complete.indexed _ _ child_found).2.2.2]
    exact step

end Chains

section Selection

variable [HashMapOrder]

def Passes (dag : KeyValueDagRepresentation) (threshold : ℚ) (candidate : Agreement) : Prop :=
  threshold < faultToleranceUpperBound candidate.messageWeightMap candidate.agreeingWeightMap ∧
    ∃ ft, Returns (computeOutputWithCache (CliqueOracle.direct dag) (walkRounds dag)
      candidate.message.blockHash candidate.messageWeightMap candidate.agreeingWeightMap) ft ∧
        threshold < ft

theorem implements_select (threshold : ℚ) (candidates : List Agreement) :
    Implements (RunCache.Sound dag)
      (select (CliqueOracle.cached dag) (walkRounds dag) threshold candidates)
      (select (CliqueOracle.direct dag) (walkRounds dag) threshold candidates) := by
  induction candidates with
  | nil => exact implements_pure none
  | cons candidate rest ih =>
    rw [select, select]
    split
    · exact ih
    · refine implements_bind (implements_computeOutputWithCache (walkRounds dag) _ _ _)
        fun outcome _ => ?_
      cases outcome with
      | error failed => exact ih
      | ok faultTolerance =>
        dsimp only
        split
        · exact implements_pure _
        · exact ih

open Classical in
theorem select_direct (threshold : ℚ)
    (computed : ∀ candidate ∈ candidates, ∃ ft,
      Returns (computeOutputWithCache (CliqueOracle.direct dag) (walkRounds dag)
        candidate.message.blockHash candidate.messageWeightMap candidate.agreeingWeightMap) ft) :
    ∃ result, select (CliqueOracle.direct dag) (walkRounds dag) threshold candidates =
        some result ∧
      result.map (·.1) = (candidates.find? fun candidate =>
        decide (Passes dag threshold candidate)).map (·.message.blockHash) := by
  induction candidates with
  | nil => exact ⟨none, rfl, rfl⟩
  | cons candidate rest ih =>
    obtain ⟨ft, returned⟩ := computed candidate (.head _)
    obtain ⟨result, rest_eq, first_passes⟩ := ih fun other present =>
      computed other (.tail candidate present)
    rw [select]
    split_ifs with low
    · refine ⟨result, rest_eq, first_passes.trans ?_⟩
      rw [List.find?_cons_of_neg (by simpa using fun passes => absurd passes.1 (not_lt.mpr low))]
    · rw [returned, bind_eq_bind, bind_some]
      dsimp only
      split
      case isTrue safe =>
        have passes : Passes dag threshold candidate := ⟨not_le.mp low, ft, returned, safe⟩
        exact ⟨_, rfl, by rw [List.find?_cons_of_pos (by simpa using passes)]; rfl⟩
      case isFalse not_safe =>
        refine ⟨result, rest_eq, first_passes.trans ?_⟩
        rw [List.find?_cons_of_neg]
        rw [decide_eq_true_eq]
        rintro ⟨-, other, other_returned, safe⟩
        exact not_safe (returned.unique other_returned ▸ safe)

end Selection

section Candidates

variable [HashMapOrder]

def Safe (dag : KeyValueDagRepresentation) (threshold : ℚ) (hash : BlockHash) : Prop :=
  ∃ ft, Returns (faultTolerance hash dag) ft ∧ threshold < ft

structure Recorded (dag : KeyValueDagRepresentation) (height : Int64) (agreement : Agreement) :
    Prop where
  lookup : dag.lookup agreement.message.blockHash = some agreement.message
  weights : getCorrespondingWeightMap agreement.message.blockHash dag =
    .ok agreement.messageWeightMap
  agreeing : ∀ v stake, agreement.agreeingWeightMap.get? v = some stake ↔
    Visits dag height v agreement.message.blockHash ∧
      agreement.messageWeightMap.get? v = some stake ∧ 0 < stake.toInt
  fits : Fits agreement.messageWeightMap

variable {agreement : Agreement} {threshold : ℚ}

omit [HashMapOrder] in
theorem Recorded.positive (recorded : Recorded dag height agreement) :
    Positive agreement.agreeingWeightMap :=
  fun entry present => ((recorded.agreeing entry.1 entry.2).mp (mem_entries_iff.mp present)).2.2

omit [HashMapOrder] in
theorem Recorded.agreeing_fits (recorded : Recorded dag height agreement) :
    Fits agreement.agreeingWeightMap :=
  recorded.fits.of_extends (fun v stake found => ((recorded.agreeing v stake).mp found).2.1)
    recorded.positive

/-- The oracle counts the validators that the layers have recorded and, for a block that is not
above the height, perhaps some more. -/
theorem Recorded.tolerance_eq (recorded : Recorded dag height agreement) (complete : Complete dag)
    (total_pos : 0 < stakeSum agreement.messageWeightMap) :
    ∃ stake agreeing' stake',
      Heaviest dag agreement.message.blockHash agreement.agreeingWeightMap stake ∧
      Returns (computeOutputWithCache (CliqueOracle.direct dag) (walkRounds dag)
        agreement.message.blockHash agreement.messageWeightMap agreement.agreeingWeightMap)
        (tolerance (stakeSum agreement.messageWeightMap) (stakeSum agreement.agreeingWeightMap)
          stake) ∧
      Returns (faultTolerance agreement.message.blockHash dag)
        (tolerance (stakeSum agreement.messageWeightMap) agreeing' stake') ∧
      0 ≤ stake' ∧ stakeSum agreement.agreeingWeightMap ≤ agreeing' ∧ stake ≤ stake' ∧
      (height < agreement.message.blockNumber →
        agreeing' = stakeSum agreement.agreeingWeightMap ∧ stake' = stake) := by
  have known : dag.Known agreement.message.blockHash := ⟨_, recorded.lookup⟩
  obtain ⟨supporting, supporting_iff, faultTolerance_iff⟩ :=
    complete.faultTolerance_returns known recorded.weights
  have extended : Extends agreement.agreeingWeightMap supporting := by
    intro v stake found
    obtain ⟨visits, listed, positive⟩ := (recorded.agreeing v stake).mp found
    exact (supporting_iff v stake).mpr ⟨listed, positive, visits.supports⟩
  have positive : Positive supporting := fun entry present =>
    ((supporting_iff entry.1 entry.2).mp (mem_entries_iff.mp present)).2.1
  obtain ⟨stake, heaviest, returned⟩ :=
    complete.output_returns known recorded.fits recorded.agreeing_fits recorded.positive total_pos
  obtain ⟨stake', heaviest', returned'⟩ := complete.exactOutput_returns known positive total_pos
  refine ⟨stake, stakeSum supporting, stake', heaviest, returned,
    (faultTolerance_iff _).mpr returned', heaviest'.nonneg, extended.stakeSum_le positive,
    heaviest.mono heaviest' extended, fun high => ?_⟩
  have extended' : Extends supporting agreement.agreeingWeightMap := by
    intro v stake found
    obtain ⟨listed, stake_pos, supports⟩ := (supporting_iff v stake).mp found
    exact (recorded.agreeing v stake).mpr
      ⟨visits_of_supports complete recorded.lookup high supports, listed, stake_pos⟩
  exact ⟨le_antisymm (extended'.stakeSum_le recorded.positive) (extended.stakeSum_le positive),
    le_antisymm (heaviest'.mono heaviest extended') (heaviest.mono heaviest' extended)⟩

/-- The oracle has no answer when the stakes do not add up to a positive total. -/
theorem total_pos_of_returns
    (returned : Returns (exactOutput (CliqueOracle.direct dag) (walkRounds dag)
      targetMsg weights agreeing) ft) : 0 < stakeSum weights := by
  by_contra not_pos
  have panics : (stakeSum weights : ℚ) ≤ 0 := by exact_mod_cast not_lt.mp not_pos
  rw [exactOutput] at returned
  rw [if_pos panics] at returned
  cases returned

theorem Recorded.safe_of_passes (recorded : Recorded dag height agreement)
    (complete : Complete dag) (passes : Passes dag threshold agreement) :
    Safe dag threshold agreement.message.blockHash := by
  obtain ⟨-, ft, returned, above⟩ := passes
  have total_pos := total_pos_of_returns (exactOutput_of_returns returned)
  obtain ⟨stake, agreeing', stake', -, computed, safe, stake_nonneg, agreeing_le, stake_le, -⟩ :=
    recorded.tolerance_eq complete total_pos
  rw [computed.unique returned] at above
  exact ⟨_, safe, above.trans_le (tolerance_mono total_pos stake_nonneg agreeing_le stake_le)⟩

/-- Neither of the two prunings loses a block above the height that is safe. -/
theorem Recorded.passes_of_safe (recorded : Recorded dag height agreement)
    (complete : Complete dag) (threshold_ge : minFaultTolerance ≤ threshold)
    (high : height < agreement.message.blockNumber)
    (safe : Safe dag threshold agreement.message.blockHash) :
    cannotBeOrphaned agreement.messageWeightMap agreement.agreeingWeightMap ∧
      Passes dag threshold agreement := by
  obtain ⟨ft, ft_returned, above⟩ := safe
  have total_pos : 0 < stakeSum agreement.messageWeightMap := by
    obtain ⟨_, -, faultTolerance_iff⟩ :=
      complete.faultTolerance_returns ⟨_, recorded.lookup⟩ recorded.weights
    exact total_pos_of_returns ((faultTolerance_iff ft).mp ft_returned)
  obtain ⟨stake, agreeing', stake', heaviest, computed, returned, -, -, -, same⟩ :=
    recorded.tolerance_eq complete total_pos
  obtain ⟨rfl, rfl⟩ := same high
  obtain rfl := returned.unique ft_returned
  have more_than_half : ¬ (stakeSum agreement.agreeingWeightMap : ℚ) ≤
      (stakeSum agreement.messageWeightMap : ℚ) / 2 := by
    intro half
    rw [tolerance, if_pos half] at above
    exact absurd above (not_lt.mpr threshold_ge)
  constructor
  · rw [cannotBeOrphaned_iff recorded.fits recorded.agreeing_fits recorded.positive]
    refine ⟨total_pos, ?_⟩
    have doubled : (stakeSum agreement.messageWeightMap : ℚ) <
        stakeSum agreement.agreeingWeightMap * 2 := by linarith
    exact_mod_cast doubled
  · refine ⟨?_, _, computed, above⟩
    rw [faultToleranceUpperBound_eq recorded.fits recorded.agreeing_fits
      recorded.positive total_pos]
    refine above.trans_le ?_
    rw [tolerance, if_neg more_than_half]
    gcongr
    exact heaviest.le_stakeSum recorded.positive

end Candidates

theorem toNat_lt_toNat {a b : BlockHash} : a.map UInt8.toNat < b.map UInt8.toNat ↔ a < b := by
  induction a generalizing b with
  | nil => cases b <;> simp
  | cons x a ih =>
    cases b with
    | nil => simp
    | cons y b =>
      rw [map_cons, map_cons, List.cons_lt_cons_iff, List.cons_lt_cons_iff, ih,
        UInt8.lt_iff_toNat_lt, UInt8.toNat_inj]

/-- Higher blocks come first, then those with more stake, with fewer validators and with the
smaller hash. -/
def candidateKey (candidate : Agreement) : ℤᵒᵈ ×ₗ ℤᵒᵈ ×ₗ ℕ ×ₗ List ℕ :=
  toLex (OrderDual.toDual candidate.message.blockNumber.toInt,
    toLex (OrderDual.toDual (stakeSum candidate.agreeingWeightMap),
      toLex (candidate.agreeingWeightMap.entries.length,
        candidate.message.blockHash.map UInt8.toNat)))

theorem compareCandidates_follows : FollowsKey compareCandidates candidateKey := by
  intro a b
  have hashes : (RSpace.compareByteVectors a.message.blockHash b.message.blockHash).isLE ↔
      a.message.blockHash.map UInt8.toNat ≤ b.message.blockHash.map UInt8.toNat := by
    rw [← not_lt, toNat_lt_toNat, List.not_lt, ← RSpace.compareByteVectors_ne_gt]
    exact Ordering.isLE_iff_ne_gt
  rw [compareCandidates, isLE_then, isLE_then, isLE_then, hashes, candidateKey, candidateKey,
    Prod.Lex.toLex_le_toLex, Prod.Lex.toLex_le_toLex, Prod.Lex.toLex_le_toLex]
  simp only [OrderDual.toDual_lt_toDual, OrderDual.toDual_inj,
    @eq_comm _ b.message.blockNumber.toInt, @eq_comm _ (stakeSum b.agreeingWeightMap)]

theorem sorted_candidates
    (sorted_eq : sortBy compareCandidates candidates = before ++ candidate :: after) :
    ∀ later ∈ after, later.message.blockNumber ≤ candidate.message.blockNumber := by
  intro later present
  have sorted := compareCandidates_follows.sorted candidates
  rw [sorted_eq] at sorted
  have key_le := (pairwise_cons.mp (pairwise_append.mp sorted).2.1).1 later present
  rw [candidateKey, candidateKey, Prod.Lex.toLex_le_toLex] at key_le
  rw [le_iff_toInt_le]
  rcases key_le with higher | ⟨same, -⟩
  · exact (OrderDual.toDual_lt_toDual.mp higher).le
  · exact (OrderDual.toDual_inj.mp same).ge

section Run

theorem announce_returns :
    Returns (announce dag effect found) result ↔ result = found ∧
      ∀ block, found = some block → dag.isFinalized block.1 = false →
        Returns (effect block) () := by
  cases found with
  | none => simp [announce, returns_pure, @eq_comm _ result]
  | some block =>
    cases is_finalized : dag.isFinalized block.1 with
    | true => simp [announce, is_finalized, returns_pure, @eq_comm _ result]
    | false =>
      simp [announce, is_finalized, returns_map, @eq_comm _ result, and_comm, Unique.exists_iff]

variable [HashMapOrder] {threshold : ℚ}

def Contender (dag : KeyValueDagRepresentation) (height : Int64) (hash : BlockHash)
    (metadata : BlockMetadata) : Prop :=
  dag.lookup hash = some metadata ∧ height < metadata.blockNumber ∧ ∃ v, Supports dag hash v

theorem run_returns (aggregated_eq : Returns (aggregate dag height) aggregated)
    (selected : select (CliqueOracle.direct dag) (walkRounds dag) threshold
      ((sortBy compareCandidates (filteredAgreements aggregated)).take maxCliqueCandidates) =
        some found) (result : Option (BlockHash × ℚ)) :
    Returns (run dag threshold height effect) result ↔ result = found ∧
      ∀ block, found = some block → dag.isFinalized block.1 = false →
        Returns (effect block) () := by
  have lifted : ExceptT.lift ((select (CliqueOracle.cached dag) (walkRounds dag) threshold
      ((sortBy compareCandidates (filteredAgreements aggregated)).take
        maxCliqueCandidates)).run' newRunCache) = (pure found : Fallible KvStoreError _) := by
    rw [(implements_select threshold _).run'_eq sound_newRunCache, selected]
    rfl
  rw [← announce_returns, run, aggregated_eq.bind_iff]
  dsimp only
  rw [lifted, pure_bind]

/-- The finalizer agrees with the safety oracle. It returns, unless its effect does not, and what
it returns is decided by the fault tolerance of the blocks. -/
theorem run_highest_safe (complete : Complete dag) (threshold_ge : -1 ≤ threshold)
    (fits : ∀ hash weights, getCorrespondingWeightMap hash dag = .ok weights → Fits weights)
    (few : ∀ aggregated, Returns (aggregate dag height) aggregated →
      (filteredAgreements aggregated).length ≤ maxCliqueCandidates)
    (effect : BlockHash × ℚ → Fallible KvStoreError Unit) :
    ∃ found, (∀ result, Returns (run dag threshold height effect) result ↔ result = found ∧
        ∀ block, found = some block → dag.isFinalized block.1 = false →
          Returns (effect block) ()) ∧
      (∀ block, found = some block → Safe dag threshold block.1 ∧
        ∃ metadata, dag.lookup block.1 = some metadata ∧
          ∀ other above, Contender dag height other above →
            metadata.blockNumber < above.blockNumber → ¬ Safe dag threshold other) ∧
      (found = none → ∀ other above, Contender dag height other above →
        ¬ Safe dag threshold other) := by
  classical
  obtain ⟨aggregated, aggregated_eq, described⟩ := aggregate_returns complete height
  have recorded (agreement : Agreement) (hash : BlockHash)
      (listed : aggregated.get? hash = some agreement) :
      agreement.message.blockHash = hash ∧ Recorded dag height agreement := by
    obtain ⟨found, weights_eq, agreeing_iff⟩ := described.recorded hash agreement listed
    obtain rfl := (complete.indexed _ _ found).1
    exact ⟨rfl, found, weights_eq, agreeing_iff, fits _ _ weights_eq⟩
  have capped_eq : (sortBy compareCandidates (filteredAgreements aggregated)).take
      maxCliqueCandidates = sortBy compareCandidates (filteredAgreements aggregated) :=
    List.take_of_length_le ((sortBy_perm _ _).length_eq.trans_le (few _ aggregated_eq))
  have candidate_iff (agreement : Agreement) :
      agreement ∈ sortBy compareCandidates (filteredAgreements aggregated) ↔
        (∃ hash, aggregated.get? hash = some agreement) ∧
          cannotBeOrphaned agreement.messageWeightMap agreement.agreeingWeightMap = true := by
    rw [mem_sortBy, filteredAgreements, mem_filter, mem_map]
    refine and_congr_left fun _ => ?_
    constructor
    · rintro ⟨entry, present, rfl⟩
      exact ⟨entry.1, mem_entries_iff.mp (mem_iter.mp present)⟩
    · rintro ⟨hash, listed⟩
      exact ⟨(hash, agreement), mem_iter.mpr (mem_entries_iff.mpr listed), rfl⟩
  have computed : ∀ candidate ∈ sortBy compareCandidates (filteredAgreements aggregated), ∃ ft,
      Returns (computeOutputWithCache (CliqueOracle.direct dag) (walkRounds dag)
        candidate.message.blockHash candidate.messageWeightMap candidate.agreeingWeightMap) ft := by
    intro candidate present
    obtain ⟨⟨hash, listed⟩, not_orphaned⟩ := (candidate_iff candidate).mp present
    have facts := (recorded candidate hash listed).2
    rw [cannotBeOrphaned_iff facts.fits facts.agreeing_fits facts.positive] at not_orphaned
    obtain ⟨stake, -, -, -, returned, -⟩ := facts.tolerance_eq complete not_orphaned.1
    exact ⟨_, returned⟩
  obtain ⟨found, selected, first_passes⟩ := select_direct threshold computed
  -- a safe contender is one of the candidates, and passes
  have contends (other : BlockHash) (above : BlockMetadata)
      (contender : Contender dag height other above) (safe : Safe dag threshold other) :
      ∃ candidate ∈ sortBy compareCandidates (filteredAgreements aggregated),
        candidate.message = above ∧ Passes dag threshold candidate := by
    obtain ⟨above_found, high, v, supports⟩ := contender
    have visited := visits_of_supports complete above_found high supports
    obtain ⟨candidate, listed⟩ :=
      isSome_iff_exists.mp ((described.present other).mpr ⟨v, visited⟩)
    obtain ⟨rfl, facts⟩ := recorded candidate other listed
    cases above_found.symm.trans facts.lookup
    obtain ⟨not_orphaned, passes⟩ := facts.passes_of_safe complete threshold_ge high safe
    exact ⟨candidate, (candidate_iff candidate).mpr ⟨⟨_, listed⟩, not_orphaned⟩, rfl, passes⟩
  rw [← capped_eq] at selected
  refine ⟨found, run_returns aggregated_eq selected, ?_, ?_⟩
  · intro block is_found
    rw [is_found, map_some, eq_comm, map_eq_some_iff] at first_passes
    obtain ⟨chosen, first_found, same⟩ := first_passes
    obtain ⟨passes, before, after, split_eq, fail⟩ :=
      List.find?_eq_some_iff_append.mp first_found
    have chosen_present : chosen ∈ sortBy compareCandidates (filteredAgreements aggregated) := by
      rw [split_eq]
      exact mem_append_right _ (.head _)
    obtain ⟨⟨hash, listed⟩, -⟩ := (candidate_iff chosen).mp chosen_present
    have facts := (recorded chosen hash listed).2
    rw [← same]
    refine ⟨facts.safe_of_passes complete (of_decide_eq_true passes),
      chosen.message, facts.lookup, ?_⟩
    intro other above contender higher safe
    obtain ⟨candidate, present, rfl, candidate_passes⟩ := contends other above contender safe
    rw [split_eq] at present
    rcases mem_append.mp present with earlier | later
    · simpa [candidate_passes] using fail candidate earlier
    · rcases mem_cons.mp later with rfl | later
      · exact Int64.lt_irrefl higher
      · exact Int64.not_lt.mpr (sorted_candidates split_eq candidate later) higher
  · intro is_none other above contender safe
    obtain ⟨candidate, present, -, passes⟩ := contends other above contender safe
    rw [is_none, map_none, eq_comm, map_eq_none_iff, find?_eq_none] at first_passes
    exact first_passes candidate present (decide_eq_true passes)

end Run

section Samples

instance (weights : WeightMap) : Decidable (Fits weights) :=
  inferInstanceAs (Decidable ((weights.entries.map fun entry => max entry.2.toInt 0).sum < 2 ^ 63))

theorem complete_of_entries
    (checked : (∀ entry ∈ dag.blockMetadataIndex.entries,
        (entry.2.blockHash = entry.1 ∧ entry.1.length = blockHashLength ∧
          dag.blockNumberMap.get? entry.1 = some entry.2.blockNumber ∧
            dag.mainParent entry.1 = entry.2.parents.head?) ∧
        (∀ parent ∈ entry.2.parents.head?, ((dag.lookup parent).map fun before =>
          decide (before.blockNumber < entry.2.blockNumber)) = some true) ∧
        entry.2.justifications = []) ∧
      (∀ entry ∈ dag.mainParentMap.entries, (dag.lookup entry.1).isSome) ∧
      (∀ entry ∈ dag.latestMessagesMap.entries, (dag.lookup entry.2).isSome) ∧
      dag.selfJustificationMap.entries = []) : Complete dag := by
  obtain ⟨blocks, recorded, latest, no_self⟩ := checked
  have block {hash : BlockHash} {metadata : BlockMetadata}
    (found : dag.lookup hash = some metadata) :=
    blocks (hash, metadata) (mem_entries_of_lookup found)
  have none_self (hash previous : BlockHash) :
      dag.selfJustificationMap.get? hash ≠ some previous := by
    rw [HashedMap.get?, no_self]
    exact Option.some_ne_none _ ∘ Eq.symm
  constructor
  case indexed => exact fun hash metadata found => (block found).1
  case recorded =>
    exact fun child parent step => isSome_iff_exists.mp
      (recorded (child, parent) (mem_entries_iff.mpr step))
  case numbered =>
    intro hash metadata parent found is_parent
    obtain ⟨before, before_found, below⟩ :=
      map_eq_some_iff.mp ((block found).2.1 parent is_parent)
    exact ⟨before, before_found, of_decide_eq_true below⟩
  case latest =>
    exact fun v hash is_latest => isSome_iff_exists.mp
      (latest (v, hash) (mem_entries_iff.mpr is_latest))
  case justified =>
    intro hash metadata found justification listed
    rw [(block found).2.2] at listed
    cases listed
  case selfJustified => exact fun hash previous found => absurd found (none_self hash previous)
  case acyclic => exact ⟨fun _ => 0, fun hash previous found =>
    absurd found (none_self hash previous)⟩

def bytes32 (byte : UInt8) : RSpace.ByteVector := List.replicate blockHashLength byte

def bondedMetadata (hash : UInt8) (parents : List UInt8) (number stake other : Int64) :
    BlockMetadata where
  blockHash := bytes32 hash
  parents := parents.map bytes32
  sender := bytes32 7
  justifications := []
  weightMap := (SortedMap.empty.insert (bytes32 7) stake).insert (bytes32 8) other
  blockNumber := number
  sequenceNumber := 0
  invalid := false
  directlyFinalized := false
  finalized := false

/-- A block with one child. The latest message of the validator 7 is the child. -/
def bondedDag (stake other : Int64) (latest : UInt8) : KeyValueDagRepresentation where
  dagSet := .ofList [bytes32 0, bytes32 1]
  latestMessagesMap := .ofList [(bytes32 7, bytes32 1), (bytes32 8, bytes32 latest)]
  childMap := .empty
  blockNumberMap := .ofList [(bytes32 0, 0), (bytes32 1, 1)]
  mainParentMap := .ofList [(bytes32 1, bytes32 0)]
  finalizedBlocksSet := .empty
  blockMetadataIndex := .ofList [(bytes32 0, bondedMetadata 0 [] 0 stake other),
    (bytes32 1, bondedMetadata 1 [0] 1 stake other)]

attribute [local instance] storedOrder

/-- Half of the stake agrees on the child, so its fault tolerance is the least one. It is above
the threshold, and the finalizer does not consider it. Nor does it when the stakes do not add up
to a number of 64 bits. -/
theorem pruned_of_safe :
    (Complete (bondedDag 1 1 0) ∧
      Returns (run (bondedDag 1 1 0) (-2) 0 fun _ => pure ()) none ∧
        Contender (bondedDag 1 1 0) 0 (bytes32 1) (bondedMetadata 1 [0] 1 1 1) ∧
          Safe (bondedDag 1 1 0) (-2) (bytes32 1)) ∧
    Complete (bondedDag maxValue 1 1) ∧
      Returns (run (bondedDag maxValue 1 1) 0 0 fun _ => pure ()) none ∧
        Contender (bondedDag maxValue 1 1) 0 (bytes32 1)
            (bondedMetadata 1 [0] 1 maxValue 1) ∧
          Safe (bondedDag maxValue 1 1) 0 (bytes32 1) := by
  have complete_half : Complete (bondedDag 1 1 0) :=
    complete_of_entries (by decide +kernel)
  have complete_large : Complete (bondedDag maxValue 1 1) :=
    complete_of_entries (by decide +kernel)
  refine ⟨⟨complete_half, returns_iff_returned?.mpr (by decide +kernel),
    ⟨by decide +kernel, by decide, bytes32 7, bytes32 1, by decide +kernel, .refl⟩,
    -1, returns_iff_returned?.mpr (by decide +kernel), by norm_num⟩,
    complete_large, returns_iff_returned?.mpr (by decide +kernel),
    ⟨by decide +kernel, by decide, bytes32 7, bytes32 1, by decide +kernel, .refl⟩,
    (2 ^ 63 - 2) / 2 ^ 63, returns_iff_returned?.mpr (by decide +kernel), by norm_num⟩

theorem run_highest_safe_of_child :
    ∃ found, (∀ result, Returns (run (bondedDag 1 1 1) (-1 / 2) 0 fun _ => pure ()) result ↔
        result = found ∧ ∀ block, found = some block →
          (bondedDag 1 1 1).isFinalized block.1 = false →
            Returns (pure () : Fallible KvStoreError Unit) ()) ∧
      (∀ block, found = some block → Safe (bondedDag 1 1 1) (-1 / 2) block.1 ∧
        ∃ metadata, (bondedDag 1 1 1).lookup block.1 = some metadata ∧
          ∀ other above, Contender (bondedDag 1 1 1) 0 other above →
            metadata.blockNumber < above.blockNumber → ¬ Safe (bondedDag 1 1 1) (-1 / 2) other) ∧
      (found = none → ∀ other above, Contender (bondedDag 1 1 1) 0 other above →
        ¬ Safe (bondedDag 1 1 1) (-1 / 2) other) := by
  have complete : Complete (bondedDag 1 1 1) :=
    complete_of_entries (by decide +kernel)
  refine run_highest_safe complete (by norm_num) ?_ ?_ fun _ => pure ()
  · have checked : ∀ entry ∈ (bondedDag 1 1 1).blockMetadataIndex.entries,
        ∀ weights ∈ (getCorrespondingWeightMap entry.1 (bondedDag 1 1 1)).toOption,
          Fits weights := by decide +kernel
    intro hash weights weights_eq
    obtain ⟨metadata, found, -⟩ := bind_eq_ok.mp weights_eq
    refine checked (hash, metadata) (mem_entries_of_lookup
      (lookup_of_lookupUnsafe found)) weights ?_
    rw [weights_eq]
    rfl
  · have checked : ∀ aggregated ∈ returned? (aggregate (bondedDag 1 1 1) 0),
        (filteredAgreements aggregated).length ≤ maxCliqueCandidates := by decide +kernel
    exact fun aggregated returned =>
      checked aggregated (returns_iff_returned?.mp returned)

theorem normalizedFaultTolerance_of_child :
    ∃ agreeing stake, Returns (normalizedFaultTolerance (bytes32 1) (bondedDag 1 1 1))
      (tolerance 2 (stakeSum agreeing) stake) := by
  have weights_eq : getCorrespondingWeightMap (bytes32 1) (bondedDag 1 1 1) =
    .ok (.ofList [(bytes32 7, 1), (bytes32 8, 1)]) := rfl
  obtain ⟨agreeing, stake, -, -, returned⟩ := normalizedFaultTolerance_heaviest
    (complete_of_entries (by decide +kernel)) ⟨bondedMetadata 1 [0] 1 1 1, by decide +kernel⟩
    weights_eq (by rw [Positive]; decide +kernel) (by decide +kernel) (by decide +kernel)
  exact ⟨agreeing, stake, returned⟩

end Samples

end F1r3fly.Casper.Finalizer
