import F1r3fly.Casper.Safety.CliqueOracle
import F1r3fly.RSpace.Serializers

/-! The search for the next finalized block: which blocks the latest messages agree on, layer
by layer along the main parents, and which of them the safety oracle finds safe enough. There
is no limit on time. -/
namespace F1r3fly.Casper.Finalizer

open BlockStorage
open CliqueOracle
open Memo (memo)
open RSpace
open Results (Fallible)

def maxCliqueCandidates : Nat := 128

/-- The least finite number of 64 bits. -/
def f64Min : ℚ := -((2 ^ 53 - 1) * 2 ^ 971)

section Stakes

variable [HashMapOrder]

/-- More than half of the stake agrees. -/
def cannotBeOrphaned (messageWeightMap agreeingWeightMap : WeightMap) : Bool :=
  if agreeingWeightMap.entries.any fun entry => entry.2 ≤ 0 then false
  else
    match checkedStakeSum messageWeightMap with
    | none => false
    | some activeStakeTotal =>
      match checkedStakeSum agreeingWeightMap with
      | none => false
      | some activeStakeAgreeing =>
        if activeStakeTotal ≤ 0 ∨ activeStakeAgreeing ≤ 0 then false
        else activeStakeAgreeing.toInt * 2 > activeStakeTotal.toInt

/-- No clique weighs more than all who agree. -/
def faultToleranceUpperBound (messageWeightMap agreeingWeightMap : WeightMap) : ℚ :=
  match checkedStakeSum messageWeightMap with
  | none => f64Min
  | some totalStake =>
    match checkedStakeSum agreeingWeightMap with
    | none => f64Min
    | some agreeingStake =>
      if totalStake ≤ 0 then f64Min
      else ((agreeingStake.toInt * 2 - totalStake.toInt : Int) : ℚ) / (totalStake.toInt : ℚ)

end Stakes

def recordAgreement (messageWeightMap : WeightMap) (agreeingValidator : Validator) :
    Option (Validator × Int64) :=
  let stakeAgreed := (messageWeightMap.get? agreeingValidator).getD 0
  if stakeAgreed > 0 then some (agreeingValidator, stakeAgreed) else none

structure Agreement where
  message : BlockMetadata
  messageWeightMap : WeightMap
  agreeingWeightMap : WeightMap

def Agreement.record (agreement : Agreement) (messageWeightMap : WeightMap)
    (agreeingValidator : Validator) : Agreement :=
  match recordAgreement messageWeightMap agreeingValidator with
  | none => agreement
  | some (validator, stakeAgreed) =>
    if (agreement.agreeingWeightMap.get? validator).isSome then agreement
    else { agreement with
      agreeingWeightMap := agreement.agreeingWeightMap.insert validator stakeAgreed }

abbrev Aggregated := HashedMap BlockHash Agreement

abbrev Layer := List (Validator × BlockMetadata)

structure LayerCache where
  messageWeightMapCache : HashedMap BlockHash WeightMap
  mainParentCache : HashedMap BlockHash (Option BlockMetadata)

def newLayerCache : LayerCache := ⟨.empty, .empty⟩

/-- What the search reads from the DAG. The first field is a call that does not return. -/
structure Access (n : Type → Type) where
  never : {α : Type} → n α
  messageWeightMap : BlockHash → ExceptT KvStoreError n WeightMap
  mainParent : BlockHash → ExceptT KvStoreError n (Option BlockMetadata)

/-- Without caches. -/
def direct (dag : KeyValueDagRepresentation) : Access Option where
  never := none
  messageWeightMap hash := liftM (getCorrespondingWeightMap hash dag)
  mainParent hash := pure (dag.lookupUnsafe hash).toOption

def cached (dag : KeyValueDagRepresentation) : Access (StateT LayerCache Option) where
  never := failure
  messageWeightMap hash :=
    memo (fun cache => cache.messageWeightMapCache.get? hash)
      (fun value cache => { cache with
        messageWeightMapCache := cache.messageWeightMapCache.insert hash value })
      ((direct dag).messageWeightMap hash)
  mainParent hash :=
    memo (fun cache => cache.mainParentCache.get? hash)
      (fun value cache =>
        { cache with mainParentCache := cache.mainParentCache.insert hash value })
      ((direct dag).mainParent hash)

section Layers

variable {n : Type → Type} [Monad n] (access : Access n) (currLfbHeight : Int64)

/-- The main parent of a message in the next layer, if it is above the last finalized block. -/
def nextMessage (message : BlockMetadata) : n (Option BlockMetadata) := do
  match message.parents.head? with
  | none => return none
  | some mainParentHash =>
    match ← (access.mainParent mainParentHash).run with
    | .ok (some metadata) =>
      return if metadata.blockNumber > currLfbHeight then some metadata else none
    | _ => return none

/-- A message whose weight map cannot be loaded is skipped. -/
def visit (state : Aggregated × Layer) (entry : Validator × BlockMetadata) :
    n (Aggregated × Layer) := do
  match ← (access.messageWeightMap entry.2.blockHash).run with
  | .error _ => return state
  | .ok messageWeightMap =>
    let aggregated := state.1.upsert entry.2.blockHash ⟨entry.2, messageWeightMap, .empty⟩
      (·.record messageWeightMap entry.1)
    match ← nextMessage access currLfbHeight entry.2 with
    | none => return (aggregated, state.2)
    | some next => return (aggregated, state.2 ++ [(entry.1, next)])

/-- The loop ends when no message has a main parent to visit, so more layers than there are
blocks make a cycle. -/
def layers : Nat → Layer → Aggregated → n Aggregated
  | 0, _, _ => access.never
  | fuel + 1, currentLayer, aggregated => do
    let (aggregated, nextLayer) ← currentLayer.foldlM (visit access currLfbHeight) (aggregated, [])
    if nextLayer.isEmpty then
      return aggregated
    else
      layers fuel nextLayer aggregated

end Layers

def layerRounds (dag : KeyValueDagRepresentation) : Nat := dag.blockMetadataIndex.entries.length + 1

def compareCandidates (l r : Agreement) : Ordering :=
  (compare r.message.blockNumber.toInt l.message.blockNumber.toInt).then
    ((compare (stakeSum r.agreeingWeightMap) (stakeSum l.agreeingWeightMap)).then
      ((compare l.agreeingWeightMap.entries.length r.agreeingWeightMap.entries.length).then
        (compareByteVectors l.message.blockHash r.message.blockHash)))

section Run

variable [HashMapOrder]

def filteredAgreements (aggregated : Aggregated) : List Agreement :=
  (aggregated.iter.map (·.2)).filter fun agreement =>
    cannotBeOrphaned agreement.messageWeightMap agreement.agreeingWeightMap

def select {n : Type → Type} [Monad n] (oracle : CliqueOracle.Access n) (rounds : Nat)
    (faultToleranceThreshold : ℚ) : List Agreement → n (Option (BlockHash × ℚ))
  | [] => return none
  | candidate :: rest => do
    let ftUpperBound := faultToleranceUpperBound candidate.messageWeightMap
      candidate.agreeingWeightMap
    if ftUpperBound ≤ faultToleranceThreshold then
      select oracle rounds faultToleranceThreshold rest
    else
      match ← (computeOutputWithCache oracle rounds candidate.message.blockHash
        candidate.messageWeightMap candidate.agreeingWeightMap).run with
      | .error _ => select oracle rounds faultToleranceThreshold rest
      | .ok faultTolerance =>
        if faultTolerance > faultToleranceThreshold then
          return some (candidate.message.blockHash, faultTolerance)
        else
          select oracle rounds faultToleranceThreshold rest

def compareLatest (l r : Validator × BlockMetadata) : Ordering := compareByteVectors l.1 r.1

variable (dag : KeyValueDagRepresentation)

def aggregate (currLfbHeight : Int64) : Fallible KvStoreError Aggregated := do
  let lms ← liftM dag.latestMessages
  ExceptT.lift ((layers (cached dag) currLfbHeight (layerRounds dag)
    (sortBy compareLatest lms.iter) .empty).run' newLayerCache)

/-- The effect is skipped for a block that is finalized already. -/
def announce (newLfbFoundEffect : BlockHash × ℚ → Fallible KvStoreError Unit) :
    Option (BlockHash × ℚ) → Fallible KvStoreError (Option (BlockHash × ℚ))
  | none => return none
  | some found => do
    if !dag.isFinalized found.1 then
      newLfbFoundEffect found
    return some found

def run (faultToleranceThreshold : ℚ) (currLfbHeight : Int64)
    (newLfbFoundEffect : BlockHash × ℚ → Fallible KvStoreError Unit) :
    Fallible KvStoreError (Option (BlockHash × ℚ)) := do
  let aggregated ← aggregate dag currLfbHeight
  let candidates := sortBy compareCandidates (filteredAgreements aggregated)
  let cappedAgreements := candidates.take maxCliqueCandidates
  let lfbResult ← ExceptT.lift ((select (CliqueOracle.cached dag) (walkRounds dag)
    faultToleranceThreshold cappedAgreements).run' newRunCache)
  announce dag newLfbFoundEffect lfbResult

end Run

end F1r3fly.Casper.Finalizer
