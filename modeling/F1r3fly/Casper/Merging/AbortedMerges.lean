import F1r3fly.Casper.Merging.RejectionExpansion
import F1r3fly.Rholang.NumberProcesses

/-! When the merge of a number channel is aborted. -/
namespace F1r3fly.Casper.Merging

open Option RSpace RSpace.Merger Int64
open BlockStorage
open Results
open Rholang

section Channel

variable [HashMapOrder] {C P K Par Random : Type} [RhoNumber Par] [Blake2b]
  [Serialize (ListParWithRandom Par)]
  [DecodeDatum (ListParWithRandom Par)] [Debug Blake2b256Hash] [Blake2b512Random Random]
  [DecidableEq Random]

/-- On data that are decoded, a merge of a number channel is not aborted exactly if the base
value is refused before, or all data that were added are the same one, or they come with
different generators. -/
theorem calculateNumberChannelMerge_returns_iff (channelHash : Blake2b256Hash) (diff : Int64)
    (mergeType : MergeType) (changes : ChannelChange ByteVector)
    (getBaseData : Blake2b256Hash → Except MergerError (List (Datum (ListParWithRandom Par))))
    (generator : ByteVector → Random)
    (decodes : ∀ bytes ∈ changes.added, decodeRnd Par bytes = some (generator bytes)) :
    (calculateNumberChannelMerge Random channelHash diff mergeType changes getBaseData :
        Fallible MergerError (HotStoreTrieAction C P (ListParWithRandom Par) K)).run ≠ none ↔
      (∃ failure, convertToReadNumber getBaseData channelHash = .error failure) ∨
      changes.added ≠ [] ∧ (∀ a ∈ changes.added, ∀ b ∈ changes.added, a = b) ∨
        ∃ a ∈ changes.added, ∃ b ∈ changes.added, generator a ≠ generator b := by
  rw [← mergeRnd_isSome_iff Par decodes, calculateNumberChannelMerge]
  cases convertToReadNumber getBaseData channelHash with
  | error failure => exact iff_of_true (Option.some_ne_none _) (.inl ⟨failure, rfl⟩)
  | ok base =>
    cases (mergeRnd Par changes.added : Option Random) with
    | none => exact iff_of_false (fun returns => returns rfl) (by simp)
    | some rnd => exact iff_of_true (Option.some_ne_none _) (.inr rfl)

end Channel

section Samples

open scoped Rholang.NumberProcesses

attribute [local instance] insertionOrder

def numberDatum (channel : Blake2b256Hash) (number : Int64) : Datum (ListParWithRandom Int64) where
  a := { pars := [number], randomState := [0] }
  persist := false
  source := {
    channelHash := channel
    hash := [0]
    persistent := false
    isDeterministic := true
    outputValue := []
    failed := false }

def numberChain (deployId : DeployId) (cost : UInt64) (source : BlockHash)
    (channel : Blake2b256Hash) (diff : Int64) : DeployChainIndex where
  deploysWithCost := .ofList [⟨deployId, cost⟩]
  postStateHash := []
  eventLogIndex := { EventLogIndex.empty with
    numberChannelsData := SortedMap.empty.insert channel (diff, .integerAdd) }
  stateChanges := { StateChange.empty with
    datumsChanges := AList.singleton channel ⟨[encodeDatum (numberDatum channel diff)], []⟩ }
  sourceBlockHash := source
  sourceBlockNumber := 1

/-- Bytes are decoded if they are those of one of the data. -/
local instance sampleData : DecodeDatum (ListParWithRandom Int64) where
  decodeDatum bytes := [numberDatum [11] 10, numberDatum [11] (-5), numberDatum [12] (-100)].find?
    fun datum => encodeDatum datum = bytes

/-- Three blocks above the base; the first one is the parent of the second one. -/
def threeBlockDag : KeyValueDagRepresentation where
  dagSet := .ofList [[0], [1], [2], [3]]
  latestMessagesMap := .empty
  childMap := .ofList [([0], .ofList [[1], [3]]), ([1], .ofList [[2]])]
  blockNumberMap := .ofList [([0], 0), ([1], 1), ([2], 2), ([3], 1)]
  mainParentMap := .ofList [([1], [0]), ([2], [1]), ([3], [0])]
  finalizedBlocksSet := .empty
  blockMetadataIndex := .empty

/-- The first block overdraws one channel, the second one adds to another channel, from
which the third one takes. -/
def numberIndex (block : BlockHash) : Except CasperError (List DeployChainIndex) :=
  .ok (if block = [1] then [numberChain [21] 1 [1] [12] (-100)]
    else if block = [2] then [numberChain [22] 3 [2] [11] 10]
    else [numberChain [23] 2 [3] [11] (-5)])

/-- All channels are empty in the base state. -/
def zeroRepository : RhoHistoryRepository Unit Unit (ListParWithRandom Int64) Unit where
  getHistoryReader _ := .ok ⟨fun _ => .ok [], fun _ => .ok [], fun _ => .ok [], fun _ => .ok []⟩
  checkpoint root _ := pure root

/-- Nothing was added, or the data that were added to the channel share their generator: the
merge of both blocks is aborted too. -/
theorem calculateNumberChannelMerge_aborts :
    (calculateNumberChannelMerge ByteVector [11] 0 .integerAdd ⟨[], []⟩ fun _ => .ok [] :
      Fallible MergerError
        (HotStoreTrieAction Unit Unit (ListParWithRandom Int64) Unit)).run = none ∧
    (merge ByteVector threeBlockDag [0] [] numberIndex zeroRepository costOptimalRejectionAlg
      (some (.ofList [[0], [2], [3]])) false).run = none :=
  ⟨rfl, rfl⟩

theorem calculateNumberChannelMerge_returns :
    (calculateNumberChannelMerge ByteVector [11] 10 .integerAdd
      ⟨[encodeDatum (numberDatum [11] 10)], []⟩ fun _ => .ok [] : Fallible MergerError
        (HotStoreTrieAction Unit Unit (ListParWithRandom Int64) Unit)).run ≠ none := by
  refine (calculateNumberChannelMerge_returns_iff _ _ _ _ _ (fun _ => [0]) ?_).mpr
    (.inr (.inl ⟨cons_ne_nil _ _, ?_⟩))
  · rintro bytes (_ | ⟨_, ⟨⟩⟩)
    rfl
  · simp

end Samples

end F1r3fly.Casper.Merging
