import Mathlib.Tactic.Linarith
import F1r3fly.Casper.Safety.AgreeingPairs

/-! The fault tolerance of a block in a complete DAG, from the heaviest set of validators that
will not disagree. -/
namespace F1r3fly.Casper.CliqueOracle

open Option HashedMap BlockStorage Finset Int64
open Clique (weight)
open Results

variable {dag : KeyValueDagRepresentation}

section Weights

/-- Validators of the weight map of which every two agree. -/
def AgreeingSet (dag : KeyValueDagRepresentation) (targetMsg : BlockHash) (weights : WeightMap)
    (validators : Finset Validator) : Prop :=
  ∀ v ∈ validators, v ∈ weights.keys ∧ ∀ w ∈ validators, v ≠ w → Agrees dag targetMsg v w

def Heaviest (dag : KeyValueDagRepresentation) (targetMsg : BlockHash) (weights : WeightMap)
    (stake : Int) : Prop :=
  IsGreatest {total | ∃ validators, AgreeingSet dag targetMsg weights validators ∧
    ∑ v ∈ validators, weight weights v = total} stake

def Positive (weights : WeightMap) : Prop := ∀ entry ∈ weights.entries, 0 < entry.2.toInt

def Extends (small large : WeightMap) : Prop :=
  ∀ v stake, small.get? v = some stake → large.get? v = some stake

variable {targetMsg : BlockHash} {weights small large : WeightMap}

theorem weight_eq_zero (missing : v ∉ weights.keys) : weight weights v = 0 := by
  have not_found : weights.get? v = none := by
    rw [← not_isSome_iff_eq_none]
    exact fun found => missing (mem_keys_iff.mpr found)
  rw [weight, not_found]
  rfl

theorem Extends.weight_eq (extended : Extends small large) (listed : v ∈ small.keys) :
    weight small v = weight large v ∧ v ∈ large.keys := by
  obtain ⟨stake, found⟩ := isSome_iff_exists.mp (mem_keys_iff.mp listed)
  have found_large := extended v stake found
  refine ⟨by rw [weight, weight, found, found_large], mem_keys_iff.mpr ?_⟩
  rw [found_large]
  rfl

theorem stakeSum_eq_sum (weights : WeightMap) :
    stakeSum weights = ∑ v ∈ weights.keys.toFinset, weight weights v := by
  rw [List.sum_toFinset _ weights.nodup_keys, HashedMap.keys, map_map, stakeSum]
  refine congrArg List.sum (map_congr_left fun entry present => ?_)
  rw [Function.comp_apply, weight, get?_of_mem present]
  rfl

theorem Positive.nonneg (positive : Positive weights) (v : Validator) : 0 ≤ weight weights v :=
  Clique.weight_nonneg (fun entry present => (positive entry present).le) v

theorem Positive.stakeSum_nonneg (positive : Positive weights) : 0 ≤ stakeSum weights := by
  rw [stakeSum_eq_sum]
  exact sum_nonneg fun v _ => positive.nonneg v

theorem Heaviest.nonneg (heaviest : Heaviest dag targetMsg weights stake) : 0 ≤ stake :=
  heaviest.2 ⟨∅, fun v member => absurd member (notMem_empty v), sum_empty⟩

theorem Heaviest.le_stakeSum (heaviest : Heaviest dag targetMsg weights stake)
    (positive : Positive weights) : stake ≤ stakeSum weights := by
  obtain ⟨validators, agreeing, rfl⟩ := heaviest.1
  rw [stakeSum_eq_sum]
  refine sum_le_sum_of_subset_of_nonneg ?_ fun v _ _ => positive.nonneg v
  exact fun v member => List.mem_toFinset.mpr (agreeing v member).1

theorem Heaviest.mono (heaviest : Heaviest dag targetMsg small stake)
    (heaviest_large : Heaviest dag targetMsg large larger) (extended : Extends small large) :
    stake ≤ larger := by
  obtain ⟨validators, agreeing, rfl⟩ := heaviest.1
  refine heaviest_large.2 ⟨validators, fun v member => ?_, ?_⟩
  · exact ⟨(extended.weight_eq (agreeing v member).1).2, (agreeing v member).2⟩
  · exact sum_congr rfl fun v member => (extended.weight_eq (agreeing v member).1).1.symm

theorem Extends.stakeSum_le (extended : Extends small large) (positive : Positive large) :
    stakeSum small ≤ stakeSum large := by
  have same : ∑ v ∈ small.keys.toFinset, weight small v =
      ∑ v ∈ small.keys.toFinset, weight large v :=
    sum_congr rfl fun v member => (extended.weight_eq (List.mem_toFinset.mp member)).1
  rw [stakeSum_eq_sum, stakeSum_eq_sum, same]
  refine sum_le_sum_of_subset_of_nonneg ?_ fun v _ _ => positive.nonneg v
  exact fun v member =>
    List.mem_toFinset.mpr (extended.weight_eq (List.mem_toFinset.mp member)).2

def tolerance (total agreeing heaviest : Int) : ℚ :=
  if (agreeing : ℚ) ≤ (total : ℚ) / 2 then minFaultTolerance
  else ((heaviest : ℚ) * 2 - total) / total

theorem tolerance_mono (total_pos : 0 < total) (heaviest_nonneg : 0 ≤ heaviest')
    (agreeing_le : agreeing ≤ agreeing') (heaviest_le : heaviest ≤ heaviest') :
    tolerance total agreeing heaviest ≤ tolerance total agreeing' heaviest' := by
  have total_pos' : (0 : ℚ) < total := by exact_mod_cast total_pos
  have heaviest_nonneg' : (0 : ℚ) ≤ heaviest' := by exact_mod_cast heaviest_nonneg
  have agreeing_le' : (agreeing : ℚ) ≤ agreeing' := by exact_mod_cast agreeing_le
  rw [tolerance, tolerance]
  split
  case isTrue =>
    split
    case isTrue => exact le_rfl
    case isFalse =>
      rw [minFaultTolerance, le_div_iff₀ total_pos']
      linarith
  case isFalse more_than_half =>
    rw [if_neg fun half => more_than_half (agreeing_le'.trans half)]
    gcongr

variable [HashMapOrder]

theorem Complete.computeMaxCliqueWeight_returns (complete : Complete dag)
    (target_known : dag.Known targetMsg) (positive : Positive weights) :
    ∃ stake, Returns (computeMaxCliqueWeight (direct dag) (walkRounds dag) targetMsg weights)
        stake ∧ Heaviest dag targetMsg weights stake := by
  obtain ⟨edges, returned, adj_iff⟩ :=
    complete.computeAgreeingValidatorPairs_returns target_known weights
  refine ⟨_, returns_bind.mpr ⟨edges, returned, returns_pure.mpr rfl⟩, ?_⟩
  obtain ⟨⟨clique, is_clique, sum_eq⟩, largest⟩ := Clique.findMaximumCliqueByWeight_isGreatest edges
    (fun entry present => (positive entry present).le)
  constructor
  · -- vertices that are not in the map weigh nothing
    refine ⟨clique.filter (· ∈ weights.keys), fun v member => ?_, ?_⟩
    · obtain ⟨in_clique, listed⟩ := Finset.mem_filter.mp member
      refine ⟨listed, fun w w_member differ => ?_⟩
      exact ((adj_iff v w).mp (is_clique in_clique (Finset.mem_filter.mp w_member).1 differ)).2.2.2
    · rw [← sum_eq]
      refine Finset.sum_subset (Finset.filter_subset _ clique) fun v in_clique not_kept => ?_
      exact weight_eq_zero fun listed => not_kept (Finset.mem_filter.mpr ⟨in_clique, listed⟩)
  · rintro total ⟨validators, agreeing, rfl⟩
    refine largest ⟨validators, ?_, rfl⟩
    intro v v_member w w_member differ
    exact (adj_iff v w).mpr ⟨differ, (agreeing v v_member).1, (agreeing w w_member).1,
      (agreeing v v_member).2 w w_member differ⟩

theorem Complete.exactOutput_returns (complete : Complete dag) (target_known : dag.Known targetMsg)
    (positive : Positive weights) (total_pos : 0 < stakeSum messageWeightMap) :
    ∃ stake, Heaviest dag targetMsg weights stake ∧
      Returns (exactOutput (direct dag) (walkRounds dag) targetMsg messageWeightMap
        weights) (tolerance (stakeSum messageWeightMap) (stakeSum weights) stake) := by
  obtain ⟨stake, returned, heaviest⟩ :=
    complete.computeMaxCliqueWeight_returns target_known positive
  refine ⟨stake, heaviest, ?_⟩
  have not_panic : ¬(stakeSum messageWeightMap : ℚ) ≤ 0 := by
    have total_pos' : (0 : ℚ) < stakeSum messageWeightMap := by exact_mod_cast total_pos
    exact not_le.mpr total_pos'
  rw [exactOutput, tolerance]
  rw [if_neg not_panic]
  split
  · exact returns_pure.mpr rfl
  · exact returns_bind.mpr ⟨stake, returned, returns_pure.mpr rfl⟩

end Weights

def positiveStakes (weights : WeightMap) : WeightMap :=
  weights.filterMapValues fun _ stake => if stake > 0 then some stake else none

theorem get?_positiveStakes :
    (positiveStakes weights).get? v = some stake ↔
      weights.get? v = some stake ∧ 0 < stake.toInt := by
  rw [positiveStakes, get?_filterMapValues (fun _ _ _ => rfl)]
  cases weights.get? v with
  | none => simp
  | some found =>
    have pos_iff : found > 0 ↔ 0 < found.toInt := lt_iff_toInt_lt
    by_cases pos : found > 0
    · simp only [bind_some, pos, if_true, Option.some.injEq]
      constructor
      · rintro rfl
        exact ⟨rfl, pos_iff.mp pos⟩
      · exact And.left
    · simp only [bind_some, pos, if_false, reduceCtorEq, Option.some.injEq, false_iff]
      rintro ⟨rfl, positive⟩
      exact pos (pos_iff.mpr positive)

section Sums

/-- The positive stakes add up to a number of 64 bits. -/
def Fits (weights : WeightMap) : Prop :=
  (weights.entries.map fun entry => max entry.2.toInt 0).sum < 2 ^ 63

variable {messageWeightMap weights small large : WeightMap}

theorem stakeSum_positiveStakes (weights : WeightMap) :
    stakeSum (positiveStakes weights) =
      (weights.entries.map fun entry => max entry.2.toInt 0).sum := by
  rw [stakeSum, positiveStakes, HashedMap.filterMapValues]
  dsimp only
  induction weights.entries with
  | nil => rfl
  | cons entry rest ih =>
    rw [map_cons, sum_cons, ← ih, filterMap_cons]
    have pos_iff : entry.2 > 0 ↔ 0 < entry.2.toInt := lt_iff_toInt_lt
    by_cases positive : entry.2 > 0
    · rw [if_pos positive, max_eq_left (pos_iff.mp positive).le]
      rfl
    · rw [if_neg positive, max_eq_right (not_lt.mp (mt pos_iff.mpr positive)), zero_add]
      rfl

theorem positive_positiveStakes (weights : WeightMap) : Positive (positiveStakes weights) :=
  fun _ present => (get?_positiveStakes.mp (mem_entries_iff.mp present)).2

theorem Fits.of_extends (fits : Fits large) (extended : Extends small large)
    (positive : Positive small) : Fits small := by
  have extended_positive : Extends small (positiveStakes large) := fun v stake found =>
    get?_positiveStakes.mpr ⟨extended v stake found,
      positive (v, stake) (mem_entries_iff.mpr found)⟩
  have sum_eq : (small.entries.map fun entry => max entry.2.toInt 0).sum = stakeSum small :=
    congrArg List.sum (map_congr_left fun entry present =>
      max_eq_left (positive entry present).le)
  rw [Fits, sum_eq]
  refine (extended_positive.stakeSum_le (positive_positiveStakes large)).trans_lt ?_
  rw [stakeSum_positiveStakes]
  exact fits

variable [HashMapOrder]

theorem checkedStakeSum_toInt (returned : checkedStakeSum weights = some total) :
    total.toInt = stakeSum weights := by
  rw [foldlM_checkedAdd_toInt returned, toInt_zero, zero_add, stakeSum]
  exact ((HashMapOrder.perm weights.entries).map _).sum_eq

/-- Negative stakes that outweigh no positive ones fit, too. -/
theorem checkedStakeSum_of_fits (fits : Fits weights) (nonneg : 0 ≤ stakeSum weights) :
    ∃ total, checkedStakeSum weights = some total ∧ total.toInt = stakeSum weights := by
  have perm : weights.iter.Perm weights.entries := HashMapOrder.perm weights.entries
  have parts : stakeSum weights = (weights.entries.map fun entry => min entry.2.toInt 0).sum +
      (weights.entries.map fun entry => max entry.2.toInt 0).sum := by
    rw [← List.sum_map_add, stakeSum]
    simp only [min_add_max, add_zero]
  rw [Fits] at fits
  have returned : (checkedStakeSum weights).isSome := by
    refine foldlM_checkedAdd_isSome ?_ ?_
    · rw [(perm.map _).sum_eq, toInt_zero]
      omega
    · rw [(perm.map _).sum_eq, toInt_zero]
      omega
  obtain ⟨total, total_eq⟩ := isSome_iff_exists.mp returned
  exact ⟨total, total_eq, checkedStakeSum_toInt total_eq⟩

theorem exactOutput_of_returns (returned : Returns
      (computeOutputWithCache (direct dag) (walkRounds dag)
        targetMsg messageWeightMap weights) ft) :
    Returns (exactOutput (direct dag) (walkRounds dag) targetMsg messageWeightMap weights) ft := by
  rw [computeOutputWithCache] at returned
  split at returned
  · exact returned
  · cases returned

theorem Complete.output_returns (complete : Complete dag) (target_known : dag.Known targetMsg)
    (message_fits : Fits messageWeightMap) (fits : Fits weights) (positive : Positive weights)
    (total_pos : 0 < stakeSum messageWeightMap) :
    ∃ stake, Heaviest dag targetMsg weights stake ∧
      Returns (computeOutputWithCache (direct dag) (walkRounds dag) targetMsg messageWeightMap
        weights) (tolerance (stakeSum messageWeightMap) (stakeSum weights) stake) := by
  obtain ⟨stake, heaviest, returned⟩ :=
    complete.exactOutput_returns target_known positive total_pos
  obtain ⟨total, total_eq, -⟩ := checkedStakeSum_of_fits message_fits total_pos.le
  obtain ⟨agreeing, agreeing_eq, -⟩ := checkedStakeSum_of_fits fits positive.stakeSum_nonneg
  refine ⟨stake, heaviest, ?_⟩
  rwa [computeOutputWithCache, total_eq, agreeing_eq, if_pos ⟨rfl, rfl⟩]

end Sums

section Tolerance

variable {targetMsg : BlockHash}

/-- The latest message of the validator has the block in its main chain. -/
def Supports (dag : KeyValueDagRepresentation) (targetMsg : BlockHash) (v : Validator) : Prop :=
  ∃ latest, dag.latestMessageHash v = some latest ∧ dag.MainAncestorOrSelf targetMsg latest

section

variable (complete : Complete dag) (target_known : dag.Known targetMsg)

include complete target_known

theorem Complete.agree_returns (v : Validator) :
    ∃ answer, Returns (agree v targetMsg dag) answer ∧ (answer ↔ Supports dag targetMsg v) := by
  rw [agree, Supports]
  cases is_latest : dag.latestMessageHash v with
  | none => exact ⟨false, returns_pure.mpr rfl, by simp⟩
  | some latest =>
    obtain ⟨answer, returned, answer_iff⟩ :=
      complete.isInMainChain_returns target_known (complete.latest v latest is_latest)
    refine ⟨answer, returned, answer_iff.trans ?_⟩
    simp

theorem Complete.foldlM_agree
    (entries : List (Validator × Int64)) (distinct : (entries.map (·.1)).Nodup) :
    ∃ agreeing : WeightMap, Returns (entries.foldlM (fun agreeingMap entry => do
        if ← agree entry.1 targetMsg dag then
          return agreeingMap.insert entry.1 entry.2
        else
          return agreeingMap) .empty) agreeing ∧
      ∀ v stake, agreeing.get? v = some stake ↔
        (v, stake) ∈ entries ∧ Supports dag targetMsg v := by
  choose answer returned answer_iff using complete.agree_returns target_known
  have kept : ((entries.filter fun entry => answer entry.1).map (·.1)).Nodup :=
    distinct.sublist (List.filter_sublist.map _)
  refine ⟨.ofList (entries.filter fun entry => answer entry.1), ?_, fun v stake => ?_⟩
  · rw [ofList, List.foldl_filter]
    apply foldlM_eq_pure
    intro agreeing entry _
    refine returns_bind.mpr ⟨_, returned entry.1, ?_⟩
    cases answer entry.1 <;> rfl
  · rw [get?_ofList kept, mem_filter, answer_iff]

theorem Complete.getCorrespondingWeightMap_ok :
    ∃ weights, getCorrespondingWeightMap targetMsg dag = .ok weights := by
  obtain ⟨metadata, found⟩ := target_known
  rw [getCorrespondingWeightMap, lookupUnsafe_of_lookup found]
  cases parent_eq : metadata.parents.head? with
  | none => exact ⟨_, bind_eq_ok.mpr ⟨metadata, rfl, by rw [parent_eq]; rfl⟩⟩
  | some parent =>
    obtain ⟨before, before_found, -⟩ := complete.numbered targetMsg metadata parent found parent_eq
    refine ⟨.ofList before.weightMap.entries, bind_eq_ok.mpr ⟨metadata, rfl, ?_⟩⟩
    rw [parent_eq]
    dsimp only
    rw [lookupUnsafe_of_lookup before_found]
    rfl

end

variable [HashMapOrder]

theorem Complete.agreeingWeightMapF_returns (complete : Complete dag)
    (target_known : dag.Known targetMsg) (weights : WeightMap) :
    ∃ agreeing, Returns (agreeingWeightMapF weights targetMsg dag) agreeing ∧
      ∀ v stake, agreeing.get? v = some stake ↔
        weights.get? v = some stake ∧ Supports dag targetMsg v := by
  have distinct : (weights.iter.map (·.1)).Nodup :=
    ((HashMapOrder.perm weights.entries).map _).nodup_iff.mpr weights.nodup_keys
  obtain ⟨agreeing, returned, agreeing_iff⟩ :=
    complete.foldlM_agree target_known weights.iter distinct
  refine ⟨agreeing, returned, fun v stake => ?_⟩
  rw [agreeing_iff, mem_iter, mem_entries_iff]

/-- The fault tolerance of a block, as an exact fraction of its stakes: the validators that agree
have a positive stake, and their latest messages have the block in their main chains. -/
def faultTolerance (targetMsg : BlockHash) (dag : KeyValueDagRepresentation) :
    Fallible KvStoreError ℚ :=
  toleranceAmong positiveStakes (fun targetMsg messageWeightMap agreeingWeightMap dag =>
    exactOutput (direct dag) (walkRounds dag) targetMsg messageWeightMap agreeingWeightMap)
    targetMsg dag

theorem Complete.faultTolerance_returns (complete : Complete dag)
    (target_known : dag.Known targetMsg)
    (weights_eq : getCorrespondingWeightMap targetMsg dag = .ok weights) :
    ∃ agreeing : WeightMap, (∀ v stake, agreeing.get? v = some stake ↔
        weights.get? v = some stake ∧ 0 < stake.toInt ∧ Supports dag targetMsg v) ∧
      ∀ ft, Returns (faultTolerance targetMsg dag) ft ↔
        Returns (exactOutput (direct dag) (walkRounds dag) targetMsg weights agreeing) ft := by
  obtain ⟨agreeing, returned, agreeing_iff⟩ :=
    complete.agreeingWeightMapF_returns target_known (positiveStakes weights)
  refine ⟨agreeing, fun v stake => ?_, fun ft => ?_⟩
  · rw [agreeing_iff, get?_positiveStakes, and_assoc]
  · rw [faultTolerance, toleranceAmong, if_pos (complete.contains_of_known target_known),
      (returns_liftExcept.mpr weights_eq).bind_iff, returned.bind_iff]

/-- The oracle on a block whose validators all have a stake: the tolerance that the heaviest set
of supporters gives of which every two will not disagree. -/
theorem normalizedFaultTolerance_heaviest (complete : Complete dag) (known : dag.Known targetMsg)
    (weights_eq : getCorrespondingWeightMap targetMsg dag = .ok weights)
    (positive : Positive weights) (fits : Fits weights) (total_pos : 0 < stakeSum weights) :
    ∃ (agreeing : WeightMap) (stake : Int),
      (∀ v held, agreeing.get? v = some held ↔
        weights.get? v = some held ∧ Supports dag targetMsg v) ∧
      Heaviest dag targetMsg agreeing stake ∧
      Returns (normalizedFaultTolerance targetMsg dag)
        (tolerance (stakeSum weights) (stakeSum agreeing) stake) := by
  obtain ⟨agreeing, returned, agreeing_iff⟩ := complete.agreeingWeightMapF_returns known weights
  have agreeing_positive : Positive agreeing := by
    intro entry present
    have found := (agreeing_iff _ _).mp (mem_entries_iff.mp present)
    exact positive entry (mem_entries_iff.mpr found.1)
  have agreeing_fits : Fits agreeing := fits.of_extends
    (fun v held found => ((agreeing_iff v held).mp found).1) agreeing_positive
  obtain ⟨stake, heaviest, computed⟩ :=
    complete.output_returns known fits agreeing_fits agreeing_positive total_pos
  refine ⟨agreeing, stake, agreeing_iff, heaviest, ?_⟩
  rwa [normalizedFaultTolerance, toleranceAmong, if_pos (complete.contains_of_known known),
    (returns_liftExcept.mpr weights_eq).bind_iff, id, returned.bind_iff, computeOutput_eq_direct]

end Tolerance

end F1r3fly.Casper.CliqueOracle
