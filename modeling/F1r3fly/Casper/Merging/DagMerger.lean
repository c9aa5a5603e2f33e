import F1r3fly.Casper.Errors
import F1r3fly.Casper.Merging.ConflictSetMerger
import F1r3fly.Casper.Merging.DeployChainIndex
import F1r3fly.Rholang.RholangMergingLogic

/-! The merge of the blocks above a base state. Their deploy chains are collected,
copies of a deploy that was executed again are dropped, conflicts are resolved, chains
built on a rejected block are rejected too, and what survives is applied to the base. -/
namespace F1r3fly.Casper.Merging

open RSpace RSpace.Merger
open BlockStorage
open Results
open Rholang

def costOptimalRejectionAlg : DeployChainIndex → UInt64 := DeployChainIndex.totalCost

section Blocks

variable [HashMapOrder]

section

variable (dag : KeyValueDagRepresentation)

def childrenWithin (scope : HashedSet BlockHash) (block : BlockHash) : List BlockHash :=
  (((dag.children block).map HashedSet.iter).getD []).filter scope.contains

/-- The strict descendants of the start blocks within the scope. Every block is expanded
once, which bounds the fuel. -/
def descendantsWithinScope (startBlocks scope : HashedSet BlockHash) : HashedSet BlockHash :=
  Exploration.exploreStack (childrenWithin dag scope)
    (startBlocks.size + dag.recordedChildren.length)
    { visited := startBlocks, result := .empty, queue := startBlocks.iter.reverse }

/-- The blocks to merge: those of the scope that are not in the main chain of the base
block, or all its descendants. -/
def actualBlocks (lfb : BlockHash) :
    Option (HashedSet BlockHash) → Fallible KvStoreError (HashedSet BlockHash)
  | some scopeBlocks =>
    scopeBlocks.iter.foldlM (fun result candidate => do
      let below ← dag.isInMainChain candidate lfb
      return if below then result else result.insert candidate) .empty
  | none => liftM (dag.descendants lfb)

/-- The other blocks that are not finalized; with a scope there are none. -/
def lateBlocks (scope : Option (HashedSet BlockHash))
    (disableLateBlockFiltering : Bool) (actualBlocks : HashedSet BlockHash) :
    Except KvStoreError (HashedSet BlockHash) :=
  if disableLateBlockFiltering || scope.isSome then .ok .empty
  else do
    let nonFinalizedBlocks ← dag.nonFinalizedBlocks
    return nonFinalizedBlocks.difference actualBlocks

end

def collectChains (index : BlockHash → Except CasperError (List DeployChainIndex))
    (blocks : HashedSet BlockHash) : Except CasperError (List DeployChainIndex) := do
  let indices ← (sortBytes blocks.iter).mapM index
  return indices.flatten

end Blocks

section Dedup

/-- Higher block number, or smaller hash at the same number. -/
def isFresher (candidate best : Int64 × BlockHash) : Bool :=
  candidate.1 > best.1 || (candidate.1 == best.1 && compareByteVectors candidate.2 best.2 == .lt)

abbrev LatestForDeploy := HashedMap DeployId (Int64 × BlockHash)

def recordSource (chain : DeployChainIndex) (latest : LatestForDeploy)
    (deploy : DeployIdWithCost) : LatestForDeploy :=
  match latest.get? deploy.deployId with
  | some best =>
    if isFresher chain.source best then latest.insert deploy.deployId chain.source else latest
  | none => latest.insert deploy.deployId chain.source

def isLatest (latest : LatestForDeploy) (chain : DeployChainIndex) (id : DeployId) : Bool :=
  match latest.get? id with
  | some best => chain.sourceBlockNumber == best.1 && chain.sourceBlockHash == best.2
  | none => true

variable [HashMapOrder]

def latestForDeploy (chains : List DeployChainIndex) : LatestForDeploy :=
  chains.foldl (fun latest chain =>
    chain.deploysWithCost.iter.foldl (recordSource chain) latest) .empty

def isRetained (latest : LatestForDeploy) (chain : DeployChainIndex) : Bool :=
  chain.deploysWithCost.iter.all fun deploy => isLatest latest chain deploy.deployId

def retainedChains (chains : List DeployChainIndex) : List DeployChainIndex :=
  chains.filter (isRetained (latestForDeploy chains))

/-- The user deploys of dropped chains that have no fresher copy. -/
def collateralLostPairs (chains : List DeployChainIndex) : List (DeployId × BlockHash) :=
  let latest := latestForDeploy chains
  (chains.filter fun chain => !isRetained latest chain).flatMap fun chain =>
    (chain.deploysWithCost.iter.filter fun deploy =>
      !isSystemDeployId deploy.deployId && isLatest latest chain deploy.deployId).map
      fun deploy => (deploy.deployId, chain.sourceBlockHash)

end Dedup

section Branches

variable [HashMapOrder]

def dependsFn (target source : DeployChainIndex) : Bool :=
  depends target.eventLogIndex source.eventLogIndex

def mergeableChannelsFn (chain : DeployChainIndex) : NumberChannelsDiff :=
  chain.eventLogIndex.numberChannelsData

/-- Chains that depend on each other. The lists are parallel, so there is a map. -/
def computeBranchesFn (mergeSet : HashableSet DeployChainIndex) :
    HashableSet (HashableSet DeployChainIndex) :=
  let chains := mergeSet.iter
  gatherRelatedSets
    ((computeDependsMapEventIndexed chains (chains.map (·.eventLogIndex))).getD .empty)

structure BranchDerived where
  userDeployIds : HashedSet DeployId
  combinedEventLog : EventLogIndex

variable [Debug Blake2b256Hash]

/-- Chains with a system deploy do not count for the event log. -/
def computeBranchDerived (branch : HashableSet DeployChainIndex) :
    Except MergerError BranchDerived := do
  let userDeployIds := HashedSet.ofList
    ((branch.iter.flatMap (·.deployIds)).filter fun id => !isSystemDeployId id)
  let userChains := branch.iter.filter fun chain => chain.deployIds.all (!isSystemDeployId ·)
  let combinedEventLog ← userChains.foldlM (fun combined chain =>
    combined.combine chain.eventLogIndex) EventLogIndex.empty
  return { userDeployIds, combinedEventLog }

def sharedDeployPairs (derived : List BranchDerived) : List (Nat × Nat) :=
  InvertedIndex.sharedPairs (InvertedIndex.build (·.userDeployIds.elements) derived)
    (fun _ => false) fun _ _ _ => false

/-- Conflicts of the event logs and common deploys. The positions are those of parallel
lists, so there is a map. -/
def computeConflictMapFn (branchesSet : HashableSet (HashableSet DeployChainIndex)) :
    Except MergerError (RelationMap (HashableSet DeployChainIndex)) := do
  let branches := branchesSet.iter
  let derived ← branches.mapM computeBranchDerived
  let conflictMap :=
    (computeConflictMapEventIndexed branches (derived.map (·.combinedEventLog))).getD .empty
  return (RelationMap.relateAll branches conflictMap (sharedDeployPairs derived)).getD .empty

end Branches

section Expansion

variable [HashMapOrder]

def descendantBlocks (dag : KeyValueDagRepresentation) (scope : HashedSet BlockHash)
    (rejected : HashableSet DeployChainIndex) : HashedSet BlockHash :=
  let rejectedSourceBlocks := HashedSet.ofList (rejected.iter.map (·.sourceBlockHash))
  descendantsWithinScope dag rejectedSourceBlocks scope

def hasStale (descendantBlocks : HashedSet BlockHash)
    (branch : HashableSet DeployChainIndex) : Bool :=
  branch.iter.any fun chain => descendantBlocks.contains chain.sourceBlockHash

def rejectStale (descendantBlocks : HashedSet BlockHash)
    (resolved : ResolvedConflicts DeployChainIndex) (branch : HashableSet DeployChainIndex) :
    ResolvedConflicts DeployChainIndex :=
  if hasStale descendantBlocks branch then
    { resolved with rejected := branch.iter.foldl HashedSet.insert resolved.rejected }
  else { resolved with toMerge := resolved.toMerge ++ [branch] }

/-- A branch with a chain of a descendant block is rejected as a whole. -/
def expandRejection (dag : KeyValueDagRepresentation) (scope : HashedSet BlockHash)
    (resolved : ResolvedConflicts DeployChainIndex) : ResolvedConflicts DeployChainIndex :=
  resolved.toMerge.foldl (rejectStale (descendantBlocks dag scope resolved.rejected))
    { toMerge := [], rejected := resolved.rejected }

variable (rejected : HashableSet DeployChainIndex)

def rejectedPairs : List (DeployId × BlockHash) :=
  rejected.iter.flatMap fun chain =>
    chain.deploysWithCost.iter.map fun deploy => (deploy.deployId, chain.sourceBlockHash)

def comparePairs (a b : DeployId × BlockHash) : Ordering :=
  (compareByteVectors a.1 b.1).then (compareByteVectors a.2 b.2)

/-- The user deploys of rejected chains, and lost ones that are not among them. -/
def rejectedUserDeploys (collateral : List (DeployId × BlockHash)) : List (DeployId × BlockHash) :=
  let users := (rejectedPairs rejected).filter fun pair => !isSystemDeployId pair.1
  let existingIds := HashedSet.ofList (users.map (·.1))
  sortBy comparePairs (users ++ collateral.filter fun pair => !existingIds.contains pair.1)

def rejectedSlashes : List (DeployId × BlockHash) :=
  sortBy comparePairs ((rejectedPairs rejected).filter fun pair => isSlashDeployId pair.1)

end Expansion

section Merge

/-- The histories of the tuple space: reading a state, and applying actions to it. -/
structure RhoHistoryRepository (C P A K : Type) where
  getHistoryReader : Blake2b256Hash → Except MergerError (HistoryReader A)
  checkpoint : Blake2b256Hash → List (HotStoreTrieAction C P A K) →
    Fallible MergerError Blake2b256Hash

/-- What a merge returns, with the resolution and the actions that it comes from. -/
structure MergeOutcome (C P A K : Type) where
  newState : Blake2b256Hash
  rejectedUserDeploys : List (DeployId × BlockHash)
  rejectedSlashes : List (DeployId × BlockHash)
  resolved : ResolvedConflicts DeployChainIndex
  trieActions : List (HotStoreTrieAction C P A K)

variable {C P K Par : Type} [RhoNumber Par] [Blake2b] [Serialize (ListParWithRandom Par)]
  [DecodeDatum (ListParWithRandom Par)] [HashMapOrder] [Debug Blake2b256Hash]
  (Random : Type) [Blake2b512Random Random] [DecidableEq Random]

/-- Number channels are merged as numbers. -/
def handleChannelChange (reader : HistoryReader (ListParWithRandom Par)) (hash : Blake2b256Hash)
    (channelChanges : ChannelChange ByteVector) (numberChs : NumberChannelsDiff) :
    Fallible MergerError (Option (HotStoreTrieAction C P (ListParWithRandom Par) K)) :=
  match numberChs.get? hash with
  | some (diff, mergeType) =>
    some <$> calculateNumberChannelMerge Random hash diff mergeType channelChanges reader.getData
  | none => pure none

def resolveChains (reader : HistoryReader (ListParWithRandom Par))
    (rejectionCostF : DeployChainIndex → UInt64) (actualSeq lateSeq : List DeployChainIndex) :
    Except MergerError (ResolvedConflicts DeployChainIndex) :=
  resolveConflicts (sortBy compare actualSeq) (sortBy compare lateSeq) dependsFn rejectionCostF
    mergeableChannelsFn (convertToReadNumber reader.getData) computeBranchesFn
    computeConflictMapFn

def merge (dag : KeyValueDagRepresentation) (lfb : BlockHash) (lfbPostState : Blake2b256Hash)
    (index : BlockHash → Except CasperError (List DeployChainIndex))
    (historyRepository : RhoHistoryRepository C P (ListParWithRandom Par) K)
    (rejectionCostF : DeployChainIndex → UInt64) (scope : Option (HashedSet BlockHash))
    (disableLateBlockFiltering : Bool) :
    Fallible CasperError (MergeOutcome C P (ListParWithRandom Par) K) := do
  let actual ← (actualBlocks dag lfb scope).mapError .kvStoreError
  let late ← Fallible.mapError .kvStoreError
    (liftM (lateBlocks dag scope disableLateBlockFiltering actual))
  let actualChains ← liftM (collectChains index actual)
  let lateChains ← liftM (collectChains index late)
  let historyReader ← Fallible.mapError .historyError
    (liftM (historyRepository.getHistoryReader lfbPostState))
  let resolution ← Fallible.mapError .historyError
    (liftM (resolveChains historyReader rejectionCostF (retainedChains actualChains) lateChains))
  let resolved := expandRejection dag actual resolution
  let trieActions ← Fallible.mapError .historyError
    (mergedTrieActions resolved (fun chain => .ok chain.stateChanges) mergeableChannelsFn
      fun changes mergeableChs =>
        computeTrieActions changes historyReader mergeableChs
          (handleChannelChange Random historyReader))
  let newState ← (historyRepository.checkpoint lfbPostState trieActions).mapError .historyError
  return {
    newState
    rejectedUserDeploys := rejectedUserDeploys resolved.rejected (collateralLostPairs actualChains)
    rejectedSlashes := rejectedSlashes resolved.rejected
    resolved
    trieActions }

variable {Random}

theorem merge_returns {outcome : MergeOutcome C P (ListParWithRandom Par) K}
    (returned : Returns (merge Random dag lfb lfbPostState index historyRepository rejectionCostF
      scope disableLateBlockFiltering) outcome) :
    ∃ actual late actualChains lateChains reader resolution,
      Returns (actualBlocks dag lfb scope) actual ∧
      lateBlocks dag scope disableLateBlockFiltering actual = .ok late ∧
      collectChains index actual = .ok actualChains ∧
      collectChains index late = .ok lateChains ∧
      historyRepository.getHistoryReader lfbPostState = .ok reader ∧
      resolveChains reader rejectionCostF (retainedChains actualChains) lateChains =
        .ok resolution ∧
      outcome.resolved = expandRejection dag actual resolution ∧
      Returns (mergedTrieActions outcome.resolved (fun chain => .ok chain.stateChanges)
        mergeableChannelsFn fun changes mergeableChs =>
          computeTrieActions changes reader mergeableChs (handleChannelChange Random reader))
        outcome.trieActions ∧
      outcome.rejectedUserDeploys =
        rejectedUserDeploys outcome.resolved.rejected (collateralLostPairs actualChains) ∧
      outcome.rejectedSlashes = rejectedSlashes outcome.resolved.rejected := by
  obtain ⟨actual, actual_returned, returned⟩ := returns_bind.mp returned
  obtain ⟨late, late_returned, returned⟩ := returns_bind.mp returned
  obtain ⟨actualChains, actual_collected, returned⟩ := returns_bind.mp returned
  obtain ⟨lateChains, late_collected, returned⟩ := returns_bind.mp returned
  obtain ⟨reader, read, returned⟩ := returns_bind.mp returned
  obtain ⟨resolution, resolved, returned⟩ := returns_bind.mp returned
  obtain ⟨trieActions, actions_returned, returned⟩ := returns_bind.mp returned
  obtain ⟨newState, -, returned⟩ := returns_bind.mp returned
  rw [returns_pure] at returned
  subst returned
  rw [returns_mapError] at actual_returned actions_returned
  rw [returns_mapError, returns_liftExcept] at late_returned read resolved
  rw [returns_liftExcept] at actual_collected late_collected
  exact ⟨actual, late, actualChains, lateChains, reader, resolution, actual_returned,
    late_returned, actual_collected, late_collected, read, resolved, rfl,
    actions_returned, rfl, rfl⟩

end Merge

end F1r3fly.Casper.Merging
