import F1r3fly.Casper.Safety.CliqueOracle

/-! The caches of a run of the safety oracle do not change what it returns. -/
namespace F1r3fly.Casper.CliqueOracle

open BlockStorage SortedMap
open Memo
open Results

structure RunCache.Sound (dag : KeyValueDagRepresentation) (cache : RunCache) : Prop where
  latestMessage : ∀ validator value, cache.latestMessageCache.get? validator = some value →
    value = dag.latestMessageHash validator
  latestJustifications : ∀ validator value,
    cache.latestJustificationsCache.get? validator = some value →
      ∃ latest, dag.latestMessageHash validator = some latest ∧
        CliqueOracle.latestJustifications dag latest = .ok value
  selfJustification : ∀ hash value, cache.selfJustificationCache.get? hash = some value →
    dag.selfJustification hash = .ok value
  isInMainChain : ∀ targetMsg hash value,
    cache.inMainChainCache.get? ⟨targetMsg, hash⟩ = some value →
      Returns (dag.isInMainChain targetMsg hash) value

/-- With the caches the call returns what it returns without them. -/
abbrev Transparent {α : Type} (dag : KeyValueDagRepresentation)
    (call : ∀ {n : Type → Type} [Monad n], Access n → ExceptT KvStoreError n α) : Prop :=
  Implements (RunCache.Sound dag) (call (cached dag)).run (call (direct dag)).run

variable {dag : KeyValueDagRepresentation}

theorem sound_newRunCache : newRunCache.Sound dag where
  latestMessage _ _ found := by cases found
  latestJustifications _ _ found := by cases found
  selfJustification _ _ found := by cases found
  isInMainChain _ _ _ found := by cases found

theorem get?_boundedCacheInsert {K V : Type} [LT K] [DecidableEq K] [DecidableLT K]
    [IsTrans K (· < ·)] [Std.Trichotomous (α := K) (· < ·)] [Std.Irrefl (α := K) (· < ·)]
    {map : SortedMap K V} {key other : K} {value found_value : V}
    (found : (boundedCacheInsert map key value maxEntries).get? other = some found_value) :
    other = key ∧ found_value = value ∨ map.get? other = some found_value := by
  rw [boundedCacheInsert, get?_insert] at found
  split at found
  case isTrue same =>
    cases found
    exact .inl ⟨same, rfl⟩
  case isFalse differs =>
    split at found
    · exact .inr (get?_eq_some_iff.mpr (List.mem_of_mem_tail (get?_eq_some_iff.mp found)))
    · exact .inr found

theorem implements_latestMessage (validator : Validator) :
    Transparent dag fun access => access.latestMessage validator := by
  apply implements_memo
  · intro cache value sound found
    exact returns_pure.mpr (sound.latestMessage validator value found).symm
  · intro cache value sound returned
    refine { sound with latestMessage := ?_ }
    intro other found_value found
    rw [get?_insert] at found
    split_ifs at found with same
    · cases found
      rw [same]
      exact (returns_pure.mp returned).symm
    · exact sound.latestMessage other found_value found

theorem implements_latestJustifications
    (is_latest : dag.latestMessageHash validator = some latest) :
    Transparent dag fun access => access.latestJustifications validator latest := by
  apply implements_memo
  · intro cache value sound found
    obtain ⟨known, known_latest, computed⟩ := sound.latestJustifications validator value found
    rw [is_latest] at known_latest
    cases known_latest
    exact returns_liftExcept.mpr computed
  · intro cache value sound returned
    refine { sound with latestJustifications := ?_ }
    intro other found_value found
    rw [get?_insert] at found
    split_ifs at found with same
    · cases found
      rw [same]
      exact ⟨latest, is_latest, returns_liftExcept.mp returned⟩
    · exact sound.latestJustifications other found_value found

theorem implements_selfJustification (hash : BlockHash) :
    Transparent dag fun access => access.selfJustification hash := by
  apply implements_memo
  · intro cache value sound found
    exact returns_liftExcept.mpr (sound.selfJustification hash value found)
  · intro cache value sound returned
    refine { sound with selfJustification := ?_ }
    intro other found_value found
    rcases get?_boundedCacheInsert found with ⟨rfl, rfl⟩ | older
    · exact returns_liftExcept.mp returned
    · exact sound.selfJustification other found_value older

theorem implements_isInMainChain (targetMsg hash : BlockHash) :
    Transparent dag fun access => access.isInMainChain targetMsg hash := by
  apply implements_memo
  · intro cache value sound found
    exact sound.isInMainChain targetMsg hash value found
  · intro cache value sound returned
    refine { sound with isInMainChain := ?_ }
    intro other_target other_hash found_value found
    rcases get?_boundedCacheInsert found with ⟨same, rfl⟩ | older
    · cases same
      exact returned
    · exact sound.isInMainChain other_target other_hash found_value older

theorem implements_never {α : Type} :
    Transparent (α := α) dag fun access => ExceptT.lift access.never := by
  intro cache _
  exact ⟨fun _ => rfl, by rintro _ ⟨⟩⟩

theorem implements_walkSelfJustifications (targetMsg stopper : BlockHash) (fuel : Nat)
    (current : Option BlockHash) :
    Transparent dag fun access => walkSelfJustifications access targetMsg stopper fuel current := by
  induction fuel generalizing current with
  | zero => exact implements_never
  | succ fuel ih =>
    cases current with
    | none => exact implements_pure_ok false
    | some hash =>
      dsimp only [Transparent, walkSelfJustifications]
      split_ifs
      · exact implements_pure_ok false
      · refine implements_bind_ok (implements_isInMainChain targetMsg hash) fun inChain _ => ?_
        cases inChain with
        | false => exact implements_pure_ok true
        | true => exact implements_bind_ok (implements_selfJustification hash) fun next _ => ih next

theorem implements_neverEventuallySeeDisagreement (fuel : Nat) (lmB lmAJB targetMsg : BlockHash) :
    Transparent dag fun access =>
      neverEventuallySeeDisagreement access fuel lmB lmAJB targetMsg := by
  refine implements_bind_ok ?_ fun disagree _ => implements_pure_ok (!disagree)
  refine implements_bind_ok (implements_selfJustification lmAJB) fun stopper _ => ?_
  exact implements_bind_ok (implements_selfJustification lmB) fun current _ =>
    implements_walkSelfJustifications targetMsg (stopper.getD lmAJB) fuel current

theorem implements_addPairwiseValidator (agreeingValidators : SortedMap Validator Unit)
    (pairwiseValidators : List PairwiseValidator) (validator : Validator) :
    Transparent dag fun access =>
      addPairwiseValidator access agreeingValidators pairwiseValidators validator := by
  refine implements_bind_ok (implements_latestMessage validator) fun latest returned => ?_
  cases latest with
  | none => exact implements_pure_ok pairwiseValidators
  | some latest =>
    refine implements_bind_ok (implements_latestJustifications (returns_pure.mp returned))
      fun justifications _ => ?_
    dsimp only
    split
    · exact implements_pure_ok _
    · exact implements_pure_ok _

theorem implements_addPair (fuel : Nat) (targetMsg : BlockHash) (a b : PairwiseValidator)
    (result : List (Validator × Validator)) :
    Transparent dag fun access => addPair access fuel targetMsg a result b := by
  dsimp only [Transparent, addPair]
  split
  · refine implements_bind_ok (implements_neverEventuallySeeDisagreement fuel _ _ targetMsg)
      fun noABDisagreement _ => ?_
    refine implements_bind_ok (implements_neverEventuallySeeDisagreement fuel _ _ targetMsg)
      fun noBADisagreement _ => ?_
    split
    · exact implements_pure_ok _
    · exact implements_pure_ok _
  · exact implements_pure_ok _

theorem implements_addPairs (fuel : Nat) (targetMsg : BlockHash)
    (result : List (Validator × Validator)) (pairwiseValidators : List PairwiseValidator) :
    Transparent dag fun access => addPairs access fuel targetMsg result pairwiseValidators := by
  induction pairwiseValidators generalizing result with
  | nil => exact implements_pure_ok result
  | cons a rest ih =>
    refine implements_bind_ok ?_ fun result _ => ih result
    exact implements_foldlM_ok (fun result b _ => implements_addPair fuel targetMsg a b result)
      result

variable [HashMapOrder]

/-- The run with caches and the one without return the same. -/
theorem implements_computeOutputWithCache (fuel : Nat) (targetMsg : BlockHash)
    (messageWeightMap agreeingWeightMap : WeightMap) :
    Transparent dag fun access =>
      computeOutputWithCache access fuel targetMsg messageWeightMap agreeingWeightMap := by
  dsimp only [Transparent, computeOutputWithCache, exactOutput]
  split_ifs
  · exact implements_never
  · exact implements_pure_ok minFaultTolerance
  · refine implements_bind_ok ?_ fun maxCliqueWeight _ => implements_pure_ok _
    refine implements_bind_ok ?_ fun edges _ => implements_pure_ok _
    refine implements_bind_ok ?_ fun pairwiseValidators _ =>
      implements_addPairs fuel targetMsg [] pairwiseValidators
    exact implements_foldlM_ok (fun validators validator _ =>
      implements_addPairwiseValidator _ validators validator) []
  · exact implements_never

theorem computeOutput_eq_direct (targetMsg : BlockHash)
    (messageWeightMap agreeingWeightMap : WeightMap) :
    computeOutput targetMsg messageWeightMap agreeingWeightMap dag =
      computeOutputWithCache (direct dag) (walkRounds dag) targetMsg messageWeightMap
        agreeingWeightMap :=
  (implements_computeOutputWithCache (walkRounds dag) targetMsg messageWeightMap
    agreeingWeightMap).run'_eq sound_newRunCache

end F1r3fly.Casper.CliqueOracle
