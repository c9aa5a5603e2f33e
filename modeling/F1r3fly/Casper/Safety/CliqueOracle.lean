import Mathlib.Algebra.Order.Field.Rat
import F1r3fly.BlockStorage.MainChain
import F1r3fly.Casper.Util.Clique
import F1r3fly.Data.MachineInt
import F1r3fly.Data.Memo

/-! The safety oracle: how much of the stake would have to equivocate to undo a block. The
stakes are divided exactly. -/
namespace F1r3fly.Casper.CliqueOracle

open BlockStorage
open Memo (memo)
open Results (Fallible)

abbrev WeightMap := HashedMap Validator Int64

def minFaultTolerance : ℚ := -1

def maxSelfJustificationCacheEntries : Nat := 10000

def maxInMainChainCacheEntries : Nat := 10000

/-- Keys of the cache of main chains, ordered by their parts. -/
structure InMainChainKey where
  targetMsg : BlockHash
  hash : BlockHash
deriving DecidableEq

namespace InMainChainKey

instance : LT InMainChainKey :=
  ⟨fun a b => a.targetMsg < b.targetMsg ∨ a.targetMsg = b.targetMsg ∧ a.hash < b.hash⟩

instance : DecidableLT InMainChainKey := fun a b =>
  inferInstanceAs (Decidable
    (a.targetMsg < b.targetMsg ∨ a.targetMsg = b.targetMsg ∧ a.hash < b.hash))

instance : Std.Irrefl (α := InMainChainKey) (· < ·) where
  irrefl a below := by
    rcases below with below | ⟨-, below⟩
    · exact Std.Irrefl.irrefl _ below
    · exact Std.Irrefl.irrefl _ below

instance : IsTrans InMainChainKey (· < ·) where
  trans a b c first second := by
    rcases first with first | ⟨first_eq, first⟩
    · rcases second with second | ⟨second_eq, -⟩
      · exact .inl (List.lt_trans first second)
      · exact .inl (second_eq ▸ first)
    · rcases second with second | ⟨second_eq, second⟩
      · exact .inl (first_eq ▸ second)
      · exact .inr ⟨first_eq.trans second_eq, List.lt_trans first second⟩

instance : Std.Trichotomous (α := InMainChainKey) (· < ·) where
  trichotomous a b not_below not_above := by
    obtain ⟨target, hash⟩ := a
    obtain ⟨other_target, other_hash⟩ := b
    have target_eq : target = other_target := Std.Trichotomous.trichotomous _ _
      (fun below => not_below (.inl below)) (fun above => not_above (.inl above))
    subst target_eq
    have hash_eq : hash = other_hash := Std.Trichotomous.trichotomous _ _
      (fun below => not_below (.inr ⟨rfl, below⟩)) (fun above => not_above (.inr ⟨rfl, above⟩))
    rw [hash_eq]

end InMainChainKey

structure RunCache where
  latestMessageCache : SortedMap Validator (Option BlockHash)
  latestJustificationsCache : SortedMap Validator (SortedMap Validator BlockHash)
  selfJustificationCache : SortedMap BlockHash (Option BlockHash)
  inMainChainCache : SortedMap InMainChainKey Bool

def newRunCache : RunCache := ⟨.empty, .empty, .empty, .empty⟩

/-- A full cache loses its least key. -/
def boundedCacheInsert {K V : Type} [LT K] [DecidableEq K] [DecidableLT K] [IsTrans K (· < ·)]
    [Std.Trichotomous (α := K) (· < ·)] (map : SortedMap K V) (key : K) (value : V)
    (maxEntries : Nat) : SortedMap K V :=
  (if maxEntries > 0 ∧ map.get? key = none ∧ map.entries.length ≥ maxEntries then map.dropFirst
    else map).insert key value

/-- The stakes of the main parent, or of the block itself if it has no parents. -/
def getCorrespondingWeightMap (targetMsg : BlockHash) (dag : KeyValueDagRepresentation) :
    Except KvStoreError WeightMap := do
  let metadata ← dag.lookupUnsafe targetMsg
  match metadata.parents.head? with
  | some mainParent =>
    let parentMetadata ← dag.lookupUnsafe mainParent
    return .ofList parentMetadata.weightMap.entries
  | none => return .ofList metadata.weightMap.entries

/-- What the oracle reads from the DAG. The first field is a call that does not return. -/
structure Access (n : Type → Type) where
  never : {α : Type} → n α
  latestMessage : Validator → ExceptT KvStoreError n (Option BlockHash)
  latestJustifications : Validator → BlockHash →
    ExceptT KvStoreError n (SortedMap Validator BlockHash)
  selfJustification : BlockHash → ExceptT KvStoreError n (Option BlockHash)
  isInMainChain : BlockHash → BlockHash → ExceptT KvStoreError n Bool

def justificationsOf (metadata : BlockMetadata) : SortedMap Validator BlockHash :=
  metadata.justifications.foldl (fun all j => all.insert j.validator j.latestBlockHash) .empty

variable (dag : KeyValueDagRepresentation)

def latestJustifications (latest : BlockHash) :
    Except KvStoreError (SortedMap Validator BlockHash) := do
  let metadata ← dag.lookupUnsafe latest
  return justificationsOf metadata

/-- Without caches. -/
def direct : Access Option where
  never := none
  latestMessage validator := pure (dag.latestMessageHash validator)
  latestJustifications _ latest := liftM (latestJustifications dag latest)
  selfJustification hash := liftM (dag.selfJustification hash)
  isInMainChain targetMsg hash := dag.isInMainChain targetMsg hash

/-- Every value that was read is kept. -/
def cached : Access (StateT RunCache Option) where
  never := failure
  latestMessage validator :=
    memo (fun cache => cache.latestMessageCache.get? validator)
      (fun value cache =>
        { cache with latestMessageCache := cache.latestMessageCache.insert validator value })
      ((direct dag).latestMessage validator)
  latestJustifications validator latest :=
    memo (fun cache => cache.latestJustificationsCache.get? validator)
      (fun value cache => { cache with
        latestJustificationsCache := cache.latestJustificationsCache.insert validator value })
      ((direct dag).latestJustifications validator latest)
  selfJustification hash :=
    memo (fun cache => cache.selfJustificationCache.get? hash)
      (fun value cache => { cache with
        selfJustificationCache := boundedCacheInsert cache.selfJustificationCache hash value
          maxSelfJustificationCacheEntries })
      ((direct dag).selfJustification hash)
  isInMainChain targetMsg hash :=
    memo (fun cache => cache.inMainChainCache.get? ⟨targetMsg, hash⟩)
      (fun value cache => { cache with
        inMainChainCache := boundedCacheInsert cache.inMainChainCache ⟨targetMsg, hash⟩ value
          maxInMainChainCacheEntries })
      ((direct dag).isInMainChain targetMsg hash)

structure PairwiseValidator where
  validator : Validator
  latest : BlockHash
  justifications : SortedMap Validator BlockHash

section Oracle

variable {n : Type → Type} [Monad n] (access : Access n) (fuel : Nat)

/-- From block to self justification until the stopper. The loop ends only if the chain does,
so more blocks than there are make a cycle. -/
def walkSelfJustifications (targetMsg stopper : BlockHash) :
    Nat → Option BlockHash → ExceptT KvStoreError n Bool
  | 0, _ => ExceptT.lift access.never
  | _ + 1, none => return false
  | fuel + 1, some hash => do
    if hash = stopper then
      return false
    else if !(← access.isInMainChain targetMsg hash) then
      return true
    else
      walkSelfJustifications targetMsg stopper fuel (← access.selfJustification hash)

def mightEventuallyDisagree (lmB lmAJB targetMsg : BlockHash) : ExceptT KvStoreError n Bool := do
  let stopper := (← access.selfJustification lmAJB).getD lmAJB
  walkSelfJustifications access targetMsg stopper fuel (← access.selfJustification lmB)

def neverEventuallySeeDisagreement (lmB lmAJB targetMsg : BlockHash) :
    ExceptT KvStoreError n Bool := do
  return !(← mightEventuallyDisagree access fuel lmB lmAJB targetMsg)

/-- Validators without a justification for another agreeing validator are in no pair. -/
def addPairwiseValidator (agreeingValidators : SortedMap Validator Unit)
    (pairwiseValidators : List PairwiseValidator) (validator : Validator) :
    ExceptT KvStoreError n (List PairwiseValidator) := do
  match ← access.latestMessage validator with
  | none => return pairwiseValidators
  | some latest =>
    let allJustifications ← access.latestJustifications validator latest
    let relevantJustifications := allJustifications.filter fun entry =>
      (agreeingValidators.get? entry.1).isSome
    if relevantJustifications.entries.isEmpty then
      return pairwiseValidators
    else
      return pairwiseValidators ++ [⟨validator, latest, relevantJustifications⟩]

def addPair (targetMsg : BlockHash) (a : PairwiseValidator) (result : List (Validator × Validator))
    (b : PairwiseValidator) : ExceptT KvStoreError n (List (Validator × Validator)) := do
  match a.justifications.get? b.validator, b.justifications.get? a.validator with
  | some lmAJB, some lmBJA =>
    let noABDisagreement ← neverEventuallySeeDisagreement access fuel b.latest lmAJB targetMsg
    let noBADisagreement ← neverEventuallySeeDisagreement access fuel a.latest lmBJA targetMsg
    if noABDisagreement && noBADisagreement then
      return result ++ [(a.validator, b.validator)]
    else
      return result
  | _, _ => return result

def addPairs (targetMsg : BlockHash) (result : List (Validator × Validator)) :
    List PairwiseValidator → ExceptT KvStoreError n (List (Validator × Validator))
  | [] => return result
  | a :: rest => do
    addPairs targetMsg (← rest.foldlM (addPair access fuel targetMsg a) result) rest

def computeAgreeingValidatorPairs (targetMsg : BlockHash) (agreeingWeightMap : WeightMap) :
    ExceptT KvStoreError n (List (Validator × Validator)) := do
  let agreeingValidators : SortedMap Validator Unit :=
    agreeingWeightMap.keys.foldl (fun validators validator => validators.insert validator ()) .empty
  let pairwiseValidators ←
    agreeingValidators.keys.foldlM (addPairwiseValidator access agreeingValidators) []
  addPairs access fuel targetMsg [] pairwiseValidators

def computeMaxCliqueWeight [HashMapOrder] (targetMsg : BlockHash)
    (agreeingWeightMap : WeightMap) : ExceptT KvStoreError n Int := do
  let edges ← computeAgreeingValidatorPairs access fuel targetMsg agreeingWeightMap
  return Clique.findMaximumCliqueByWeight edges agreeingWeightMap

def stakeSum (weightMap : WeightMap) : Int := (weightMap.entries.map fun entry => entry.2.toInt).sum

def checkedStakeSum [HashMapOrder] (weightMap : WeightMap) : Option Int64 :=
  weightMap.iter.foldlM (fun acc entry => checkedAdd acc entry.2) 0

/-- What the oracle returns for sums without an overflow. A total that is not positive is a
panic. -/
def exactOutput [HashMapOrder] (targetMsg : BlockHash)
    (messageWeightMap agreeingWeightMap : WeightMap) : ExceptT KvStoreError n ℚ := do
  let totalStake : ℚ := stakeSum messageWeightMap
  if totalStake ≤ 0 then
    ExceptT.lift access.never
  else if (stakeSum agreeingWeightMap : ℚ) ≤ totalStake / 2 then
    return minFaultTolerance
  else
    let maxCliqueWeight : ℚ := ← computeMaxCliqueWeight access fuel targetMsg agreeingWeightMap
    return (maxCliqueWeight * 2 - totalStake) / totalStake

/-- A sum of stakes that does not fit in 64 bits is a panic. -/
def computeOutputWithCache [HashMapOrder] (targetMsg : BlockHash)
    (messageWeightMap agreeingWeightMap : WeightMap) : ExceptT KvStoreError n ℚ :=
  if (checkedStakeSum messageWeightMap).isSome ∧ (checkedStakeSum agreeingWeightMap).isSome then
    exactOutput access fuel targetMsg messageWeightMap agreeingWeightMap
  else
    ExceptT.lift access.never

end Oracle

/-- The rounds that a walk without a cycle takes at most. -/
def walkRounds : Nat := dag.selfJustificationMap.entries.length + 2

section Tolerance

variable [HashMapOrder]

def computeOutput (targetMsg : BlockHash) (messageWeightMap agreeingWeightMap : WeightMap)
    (dag : KeyValueDagRepresentation) : Fallible KvStoreError ℚ :=
  ExceptT.mk ((computeOutputWithCache (cached dag) (walkRounds dag) targetMsg messageWeightMap
    agreeingWeightMap).run.run' newRunCache)

def agree (validator : Validator) (message : BlockHash) (dag : KeyValueDagRepresentation) :
    Fallible KvStoreError Bool :=
  match dag.latestMessageHash validator with
  | none => return false
  | some hash => dag.isInMainChain message hash

def agreeingWeightMapF (weightMap : WeightMap) (targetMsg : BlockHash)
    (dag : KeyValueDagRepresentation) : Fallible KvStoreError WeightMap :=
  weightMap.iter.foldlM (fun agreeingMap entry => do
    if ← agree entry.1 targetMsg dag then
      return agreeingMap.insert entry.1 entry.2
    else
      return agreeingMap) .empty

/-- The fault tolerance, with agreement counted among some of the validators. -/
def toleranceAmong (voters : WeightMap → WeightMap)
    (output : BlockHash → WeightMap → WeightMap → KeyValueDagRepresentation →
      Fallible KvStoreError ℚ) (targetMsg : BlockHash) (dag : KeyValueDagRepresentation) :
    Fallible KvStoreError ℚ := do
  if dag.contains targetMsg then
    let fullWeightMap ← liftM (getCorrespondingWeightMap targetMsg dag)
    let agreeingWeightMap ← agreeingWeightMapF (voters fullWeightMap) targetMsg dag
    output targetMsg fullWeightMap agreeingWeightMap dag
  else
    return minFaultTolerance

def normalizedFaultTolerance (targetMsg : BlockHash) (dag : KeyValueDagRepresentation) :
    Fallible KvStoreError ℚ :=
  toleranceAmong id computeOutput targetMsg dag

end Tolerance

end F1r3fly.Casper.CliqueOracle
