import F1r3fly.Data.MachineInt
import F1r3fly.Data.Results
import F1r3fly.Data.SortBy
import F1r3fly.RSpace.Merger.RelatedSets

/-! Which deploy chains a merge keeps. Items that depend on each other form branches;
of every two branches in conflict at least one is rejected, and so are branches that
would take a number channel out of its range. -/
namespace F1r3fly.Casper.Merging

open RSpace RSpace.Merger
open Results (Fallible)

abbrev Branch (R : Type) [BEq R] := HashableSet R

section Choice

variable {R : Type} [BEq R] [Ord R]

/-- The sizes, then the elements in order. -/
def compareBranches (a b : Branch R) : Ordering :=
  let aSorted := sortBy compare a.elements
  let bSorted := sortBy compare b.elements
  (compare aSorted.length bSorted.length).then
    ((List.zipWith compare aSorted bSorted).foldr Ordering.then .eq)

def minItem? : List R → Option R
  | [] => none
  | first :: rest =>
    some (rest.foldl (fun least item => if compare item least = .lt then item else least) first)

/-- The least item of the first branch of an option. -/
def firstItem (option : HashableSet (Branch R)) : Option R :=
  (sortBy compareBranches option.elements).head?.bind fun branch => minItem? branch.elements

def compareItems : Option R → Option R → Ordering
  | some a, some b => compare a b
  | some _, none => .gt
  | none, some _ => .lt
  | none, none => .eq

/-- The sum wraps around. -/
def optionSum (targetF : Branch R → UInt64) (option : HashableSet (Branch R)) : UInt64 :=
  (option.elements.map targetF).foldr (· + ·) 0

def optionSize (option : HashableSet (Branch R)) : Nat :=
  (option.elements.map HashedSet.size).sum

def compareOptions (targetF : Branch R → UInt64) (a b : HashableSet (Branch R)) : Ordering :=
  let aSum := optionSum targetF a
  let bSum := optionSum targetF b
  let aSize := optionSize a
  let bSize := optionSize b
  if aSum ≠ bSum then compare aSum bSum
  else if aSize ≠ bSize then compare aSize bSize
  else compareItems (firstItem a) (firstItem b)

/-- The least option, or nothing to reject. The assertion of the source compares the
number of options with itself. -/
def getOptimalRejection (options : HashableSet (HashableSet (Branch R)))
    (targetF : Branch R → UInt64) : HashableSet (Branch R) :=
  (sortBy (compareOptions targetF) options.elements).head?.getD .empty

end Choice

section Range

variable {R : Type} [BEq R] [HashMapOrder]

/-- The strategy of a channel is the one met first; how two values are combined is
decided by the incoming one. -/
def combineBranchChannels (acc : NumberChannelsDiff) (channels : NumberChannelsDiff) :
    NumberChannelsDiff :=
  channels.entries.foldl (fun acc entry =>
    acc.alter entry.1 fun existing =>
      (existing.map fun value =>
        (combineMergeableValue value.1 entry.2.1 entry.2.2, value.2)).getD entry.2) acc

abbrev Balances := HashedMap Blake2b256Hash Int64

/-- A balance must stay within 64 bits and not become negative. -/
def calMergedChannel (balances : Balances) (channel : Blake2b256Hash) (diff : Int64) :
    MergeType → Option Balances
  | .integerAdd =>
    match checkedAdd ((balances.get? channel).getD 0) diff with
    | some result => if result ≥ 0 then some (balances.insert channel result) else none
    | none => none
  | .bitmaskOr => some (balances.insert channel (((balances.get? channel).getD 0) ||| diff))

def calMergedResult (branch : Branch R) (originResult : Balances)
    (mergeableChannels : R → NumberChannelsDiff) : Option Balances :=
  let diff := (branch.iter.map mergeableChannels).foldl combineBranchChannels .empty
  diff.entries.foldlM (fun balances entry => calMergedChannel balances entry.1 entry.2.1 entry.2.2)
    originResult

variable [EquivBEq R]

/-- The next branch is merged, or rejected. -/
def foldBranch (mergeableChannels : R → NumberChannelsDiff)
    (state : Balances × HashableSet (Branch R)) (branch : Branch R) :
    Balances × HashableSet (Branch R) :=
  match calMergedResult branch state.1 mergeableChannels with
  | some newBalances => (newBalances, state.2)
  | none => (state.1, state.2.insert branch)

variable [Ord R]

def foldRejection (baseBalance : Balances) (branches : HashableSet (Branch R))
    (mergeableChannels : R → NumberChannelsDiff) : HashableSet (Branch R) :=
  ((sortBy compareBranches branches.iter).foldl (foldBranch mergeableChannels)
    (baseBalance, .empty)).2

/-- Every rejection option, with what else its remaining branches force to reject. -/
def getMergedResultRejection (branches : HashableSet (Branch R))
    (rejectOptions : HashableSet (HashableSet (Branch R))) (base : Balances)
    (mergeableChannels : R → NumberChannelsDiff) : HashableSet (HashableSet (Branch R)) :=
  if rejectOptions.isEmpty then
    HashedSet.empty.insert (foldRejection base branches mergeableChannels)
  else
    .ofList (rejectOptions.iter.map fun normalRejectOptions =>
      let diff := branches.filter fun branch => !normalRejectOptions.contains branch
      (foldRejection base diff mergeableChannels).iter.foldl HashedSet.insert normalRejectOptions)

end Range

/-- The surviving branches, and the rejected items: late ones, their dependents and the
optimal rejection. -/
structure ResolvedConflicts (R : Type) [BEq R] where
  toMerge : List (HashableSet R)
  rejected : HashableSet R

section Resolve

variable {R : Type} [BEq R] [EquivBEq R] [Ord R] [HashMapOrder]

def readBalances (readNumber : Blake2b256Hash → Except MergerError (Option Int64))
    (channels : List Blake2b256Hash) : Except MergerError Balances :=
  (sortBytes channels).foldlM (fun balances channel => do
    let value ← readNumber channel
    return balances.insert channel (value.getD 0)) .empty

/-- The items that no late one is a dependency of, and the others. -/
def splitLateDependents (actualSet lateSet : HashableSet R) (depends : R → R → Bool) :
    HashableSet R × HashableSet R :=
  (actualSet.filter fun item => lateSet.iter.any fun late => depends item late,
    actualSet.filter fun item => !lateSet.iter.any fun late => depends item late)

/-- The options are enumerated in the order of a hash set. -/
def computeOptimalRejection (branches : HashableSet (Branch R))
    (conflictMap : RelationMap (Branch R)) (baseMergeableChRes : Balances)
    (mergeableChannels : R → NumberChannelsDiff) (cost : R → UInt64) : HashableSet (Branch R) :=
  let rejectionOptions := computeRejectionOptions conflictMap
  let rejectionOptionsWithOverflow := getMergedResultRejection branches rejectionOptions
    baseMergeableChRes mergeableChannels
  getOptimalRejection rejectionOptionsWithOverflow.reordered fun branch =>
    (branch.iter.map cost).foldr (· + ·) 0

/-- Conflict detection and selection of the optimal rejection. -/
def resolveConflicts (actualSeq lateSeq : List R) (depends : R → R → Bool) (cost : R → UInt64)
    (mergeableChannels : R → NumberChannelsDiff)
    (readNumber : Blake2b256Hash → Except MergerError (Option Int64))
    (computeBranches : HashableSet R → HashableSet (HashableSet R))
    (computeConflictMap : HashableSet (HashableSet R) →
      Except MergerError (RelationMap (HashableSet R))) :
    Except MergerError (ResolvedConflicts R) := do
  let actualSet := HashedSet.ofList actualSeq
  let lateSet := HashedSet.ofList lateSeq
  let (rejectedAsDependents, mergeSet) := splitLateDependents actualSet lateSet depends
  let branches := computeBranches mergeSet
  let conflictMap ← computeConflictMap branches
  let allChannelKeys := HashedSet.ofList (branches.iter.flatMap fun branch =>
    branch.iter.flatMap fun item => (mergeableChannels item).keys)
  let baseMergeableChRes ← readBalances readNumber allChannelKeys.elements
  let optimalRejection := computeOptimalRejection branches conflictMap baseMergeableChRes
    mergeableChannels cost
  let toMerge := branches.iter.filter fun branch => !optimalRejection.contains branch
  let optimalRejectionFlattened := HashedSet.ofList (optimalRejection.iter.flatMap HashedSet.iter)
  let rejected := optimalRejectionFlattened.iter.foldl HashedSet.insert
    (rejectedAsDependents.iter.foldl HashedSet.insert (HashedSet.ofList lateSet.iter))
  return { toMerge, rejected }

end Resolve

section MergedState

variable {R Action : Type} [BEq R] [Ord R] [HashMapOrder]

def ResolvedConflicts.toMergeItems (resolved : ResolvedConflicts R) : List R :=
  (sortBy compareBranches resolved.toMerge).flatMap fun branch => sortBy compare branch.iter

def combineStateChanges (stateChanges : R → Except MergerError StateChange) (items : List R) :
    Except MergerError StateChange :=
  items.foldlM (fun combined item => do
    let itemChanges ← stateChanges item
    return combined.combine itemChanges) .empty

def allMergeableChannels [Debug Blake2b256Hash] (mergeableChannels : R → NumberChannelsDiff)
    (items : List R) : Except MergerError NumberChannelsDiff :=
  combineNumberChannels .empty (items.flatMap fun item => (mergeableChannels item).entries)

def mergedTrieActions [Debug Blake2b256Hash] (resolved : ResolvedConflicts R)
    (stateChanges : R → Except MergerError StateChange)
    (mergeableChannels : R → NumberChannelsDiff)
    (computeTrieActions : StateChange → NumberChannelsDiff →
      Fallible MergerError (List Action)) : Fallible MergerError (List Action) := do
  let allChanges ← liftM (combineStateChanges stateChanges resolved.toMergeItems)
  let channels ← liftM (allMergeableChannels mergeableChannels resolved.toMergeItems)
  computeTrieActions allChanges channels

end MergedState

end F1r3fly.Casper.Merging
