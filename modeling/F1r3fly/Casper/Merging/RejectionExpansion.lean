import F1r3fly.Casper.Merging.DagMerger
import F1r3fly.RSpace.Merger.Components

/-! What the expansion of a rejection to descendant blocks takes out, and when one pass
leaves nothing that is built on a rejected block. -/
namespace F1r3fly.Casper.Merging

open HashedSet RSpace RSpace.Merger
open BlockStorage
open Relation (TransGen)

def ChildWithin (dag : KeyValueDagRepresentation) (scope : HashedSet BlockHash)
    (parent child : BlockHash) : Prop :=
  child ∈ scope ∧ ∃ children, dag.children parent = some children ∧ child ∈ children

def Descends (dag : KeyValueDagRepresentation) (scope : HashedSet BlockHash) :
    BlockHash → BlockHash → Prop :=
  TransGen (ChildWithin dag scope)

section Walk

variable [HashMapOrder] {dag : KeyValueDagRepresentation} {scope : HashedSet BlockHash}

theorem mem_childrenWithin :
    child ∈ childrenWithin dag scope parent ↔ ChildWithin dag scope parent child := by
  rw [childrenWithin, mem_filter, and_comm, ChildWithin, contains_iff]
  apply and_congr_right
  intro _
  cases dag.children parent with
  | none => simp
  | some children => simp [mem_iter, mem_iff]

theorem childrenWithin_recorded (present : child ∈ childrenWithin dag scope parent) :
    child ∈ dag.recordedChildren := by
  obtain ⟨-, children, recorded, member⟩ := mem_childrenWithin.mp present
  obtain ⟨key, entry, -⟩ := HashedMap.get?_eq_some_iff.mp recorded
  obtain ⟨stored, stored_present, same⟩ := mem_iff.mp member
  rw [eq_of_beq same]
  exact mem_flatMap.mpr ⟨(key, children), entry, stored_present⟩

theorem mem_descendantsWithinScope :
    block ∈ descendantsWithinScope dag startBlocks scope ↔
      block ∉ startBlocks ∧ ∃ start ∈ startBlocks, Descends dag scope start block := by
  have as_walk : Descends dag scope =
      TransGen fun parent child => child ∈ childrenWithin dag scope parent := by
    unfold Descends
    congr
    funext parent child
    exact propext mem_childrenWithin.symm
  rw [as_walk, descendantsWithinScope]
  refine Exploration.exploreStack_found (fun parent child => childrenWithin_recorded)
    _ _ ?_ ?_ block
  · constructor
    · intro block
      exact (or_iff_left (not_mem_empty block)).symm
    · exact fun block found => absurd found (not_mem_empty block)
    · intro block queued
      exact mem_of_mem_elements (mem_iter.mp (mem_reverse.mp queued))
    · intro block visited
      obtain ⟨stored, present, same⟩ := mem_iff.mp visited
      rw [eq_of_beq same]
      exact .inl (mem_reverse.mpr (mem_iter.mpr present))
  · have queue_length : startBlocks.iter.reverse.length = startBlocks.size := by
      rw [List.length_reverse]
      exact (HashMapOrder.perm startBlocks.elements).length_eq
    have bound := missing_le_length dag.recordedChildren startBlocks
    dsimp only
    omega

end Walk

section Expansion

variable {dag : KeyValueDagRepresentation} {scope : HashedSet BlockHash}
  {resolved : ResolvedConflicts DeployChainIndex}

def RejectedSource (resolved : ResolvedConflicts DeployChainIndex) (block : BlockHash) : Prop :=
  ∃ chain ∈ resolved.rejected.elements, chain.sourceBlockHash = block

/-- A chain of the branch is from a block below a rejected one, and no chain of that block
is rejected itself. -/
def Stale (dag : KeyValueDagRepresentation) (scope : HashedSet BlockHash)
    (resolved : ResolvedConflicts DeployChainIndex)
    (branch : HashableSet DeployChainIndex) : Prop :=
  ∃ chain ∈ branch.elements, ¬RejectedSource resolved chain.sourceBlockHash ∧
    ∃ block, RejectedSource resolved block ∧ Descends dag scope block chain.sourceBlockHash

variable [HashMapOrder]

theorem mem_descendantBlocks :
    block ∈ descendantBlocks dag scope resolved.rejected ↔
      ¬RejectedSource resolved block ∧
        ∃ start, RejectedSource resolved start ∧ Descends dag scope start block := by
  have mem_start (block : BlockHash) :
      block ∈ HashedSet.ofList (resolved.rejected.iter.map (·.sourceBlockHash)) ↔
        RejectedSource resolved block := by
    rw [mem_ofList, RejectedSource]
    simp only [mem_map, mem_iter, beq_iff_eq, exists_exists_and_eq_and]
    exact exists_congr fun chain => and_congr_right fun _ => eq_comm
  rw [descendantBlocks, mem_descendantsWithinScope, mem_start]
  simp only [mem_start]

theorem hasStale_iff :
    hasStale (descendantBlocks dag scope resolved.rejected) branch ↔
      Stale dag scope resolved branch := by
  simp only [hasStale, any_eq_true, mem_iter, contains_iff, mem_descendantBlocks, Stale]

theorem foldl_rejectStale (descendantBlocks : HashedSet BlockHash)
    (branches : List (HashableSet DeployChainIndex)) (start : ResolvedConflicts DeployChainIndex) :
    let final := branches.foldl (rejectStale descendantBlocks) start
    final.toMerge = start.toMerge ++ branches.filter (!hasStale descendantBlocks ·) ∧
      (∀ chain, chain ∈ final.rejected ↔ chain ∈ start.rejected ∨
        ∃ branch ∈ branches, hasStale descendantBlocks branch ∧ chain ∈ branch) ∧
      ∀ chain ∈ final.rejected.elements, chain ∈ start.rejected.elements ∨
        ∃ branch ∈ branches, hasStale descendantBlocks branch ∧ chain ∈ branch.elements := by
  induction branches generalizing start with
  | nil => simp
  | cons branch rest ih =>
    obtain ⟨kept, mem_rejected, stored⟩ := ih (rejectStale descendantBlocks start branch)
    rw [foldl_cons]
    refine ⟨?_, ?_, ?_⟩
    · rw [kept, rejectStale, List.filter_cons]
      split
      case isTrue stale => simp [stale]
      case isFalse fresh => simp [fresh]
    · intro chain
      rw [mem_rejected, rejectStale, exists_mem_cons_iff]
      split
      case isTrue stale =>
        rw [mem_addAll, or_assoc]
        simp [stale]
      case isFalse fresh => simp [fresh]
    · intro chain present
      rw [exists_mem_cons_iff]
      rcases stored chain present with before | later
      · rw [rejectStale] at before
        split at before
        case isTrue stale =>
          rcases mem_elements_foldl_insert before with old | moved
          · exact .inl old
          · exact .inr (.inl ⟨stale, mem_iter.mp moved⟩)
        case isFalse => exact .inl before
      · exact .inr (.inr later)

theorem mem_toMerge_expandRejection :
    branch ∈ (expandRejection dag scope resolved).toMerge ↔
      branch ∈ resolved.toMerge ∧ ¬Stale dag scope resolved branch := by
  rw [expandRejection, (foldl_rejectStale _ _ _).1, nil_append, mem_filter,
    not_eq_true', ← not_eq_true, hasStale_iff]

theorem mem_rejected_expandRejection :
    chain ∈ (expandRejection dag scope resolved).rejected ↔ chain ∈ resolved.rejected ∨
      ∃ branch ∈ resolved.toMerge, Stale dag scope resolved branch ∧ chain ∈ branch := by
  rw [expandRejection, (foldl_rejectStale _ _ _).2.1]
  simp only [hasStale_iff]

/-- The chain is in the initial rejection, or in a branch that the expansion took out. -/
def RejectedBetween (before after : ResolvedConflicts DeployChainIndex)
    (chain : DeployChainIndex) : Prop :=
  chain ∈ before.rejected.elements ∨
    ∃ branch ∈ before.toMerge, branch ∉ after.toMerge ∧ chain ∈ branch.elements

/-- Nothing that survives is from a block below that of a rejected chain. -/
def DescendantClosed (dag : KeyValueDagRepresentation) (scope : HashedSet BlockHash)
    (before after : ResolvedConflicts DeployChainIndex) : Prop :=
  ∀ branch ∈ after.toMerge, ∀ chain ∈ branch.elements, ∀ rejected,
    RejectedBetween before after rejected →
      ¬Descends dag scope rejected.sourceBlockHash chain.sourceBlockHash

theorem rejectedBetween_expandRejection :
    RejectedBetween resolved (expandRejection dag scope resolved) chain ↔
      chain ∈ resolved.rejected.elements ∨
        ∃ branch ∈ resolved.toMerge, Stale dag scope resolved branch ∧ chain ∈ branch.elements := by
  apply or_congr_right
  refine exists_congr fun branch => and_congr_right fun present => and_congr_left fun _ => ?_
  rw [mem_toMerge_expandRejection]
  tauto

/-- One pass of the expansion suffices exactly when no surviving branch has a chain from a
block that is below a rejected one and has a rejected chain itself, or from a block below
that of a chain which the expansion rejects. -/
theorem expandRejection_closed_iff (dag : KeyValueDagRepresentation) (scope : HashedSet BlockHash)
    (resolved : ResolvedConflicts DeployChainIndex) :
    ((∀ chain ∈ (expandRejection dag scope resolved).rejected.elements,
        RejectedBetween resolved (expandRejection dag scope resolved) chain) ∧
      ∀ chain, RejectedBetween resolved (expandRejection dag scope resolved) chain →
        chain ∈ (expandRejection dag scope resolved).rejected) ∧
    (DescendantClosed dag scope resolved (expandRejection dag scope resolved) ↔
      ∀ branch ∈ resolved.toMerge, ¬Stale dag scope resolved branch →
        ∀ chain ∈ branch.elements,
          (RejectedSource resolved chain.sourceBlockHash →
            ∀ block, RejectedSource resolved block →
              ¬Descends dag scope block chain.sourceBlockHash) ∧
          ∀ other ∈ resolved.toMerge, Stale dag scope resolved other →
            ∀ moved ∈ other.elements,
              ¬Descends dag scope moved.sourceBlockHash chain.sourceBlockHash) := by
  refine ⟨⟨?_, ?_⟩, ?_, ?_⟩
  · intro chain present
    apply rejectedBetween_expandRejection.mpr
    simpa only [hasStale_iff] using (foldl_rejectStale _ _ _).2.2 chain present
  · intro chain rejected
    rw [mem_rejected_expandRejection]
    rcases rejectedBetween_expandRejection.mp rejected
      with before | ⟨branch, present, stale, member⟩
    · exact .inl (mem_of_mem_elements before)
    · exact .inr ⟨branch, present, stale, mem_of_mem_elements member⟩
  · intro closed branch present fresh chain member
    have survives := mem_toMerge_expandRejection.mpr ⟨present, fresh⟩
    constructor
    · rintro - block ⟨rejected, is_rejected, rfl⟩
      exact closed branch survives chain member rejected (.inl is_rejected)
    · intro other other_present stale moved moved_member
      exact closed branch survives chain member moved (rejectedBetween_expandRejection.mpr
        (.inr ⟨other, other_present, stale, moved_member⟩))
  · intro condition branch survives chain member rejected is_rejected descends
    obtain ⟨present, fresh⟩ := mem_toMerge_expandRejection.mp survives
    obtain ⟨not_below, not_moved⟩ := condition branch present fresh chain member
    rcases rejectedBetween_expandRejection.mp is_rejected with
      before | ⟨other, other_present, stale, moved_member⟩
    · have source : RejectedSource resolved rejected.sourceBlockHash := ⟨rejected, before, rfl⟩
      -- A chain below a rejected block is stale, unless its own block has a rejected chain.
      by_cases own : RejectedSource resolved chain.sourceBlockHash
      · exact not_below own _ source descends
      · exact fresh ⟨chain, member, own, _, source, descends⟩
    · exact not_moved other other_present stale rejected moved_member descends

end Expansion

section Samples

/-- Iteration in the order of insertion. -/
abbrev insertionOrder : HashMapOrder := ⟨id, .refl⟩

attribute [local instance] insertionOrder

def sampleChain (deployId : DeployId) (source : BlockHash) : DeployChainIndex where
  deploysWithCost := .ofList [⟨deployId, 1⟩]
  postStateHash := []
  eventLogIndex := .empty
  stateChanges := .empty
  sourceBlockHash := source
  sourceBlockNumber := 0

def sampleDag : KeyValueDagRepresentation where
  dagSet := .ofList [[0], [1]]
  latestMessagesMap := .empty
  childMap := .ofList [([0], .ofList [[1]])]
  blockNumberMap := .empty
  mainParentMap := .empty
  finalizedBlocksSet := .empty
  blockMetadataIndex := .empty

/-- A chain of either block is rejected, another chain of the child is not. -/
def sampleResolution : ResolvedConflicts DeployChainIndex where
  toMerge := [.ofList [sampleChain [3] [1]]]
  rejected := .ofList [sampleChain [1] [0], sampleChain [2] [1]]

/-- The expansion does not look at a block that already has a rejected chain. -/
theorem expandRejection_keeps_descendant :
    ¬DescendantClosed sampleDag (.ofList [[0], [1]]) sampleResolution
      (expandRejection sampleDag (.ofList [[0], [1]]) sampleResolution) := by
  intro closed
  refine closed (.ofList [sampleChain [3] [1]]) (.head _) (sampleChain [3] [1])
    (.head _) (sampleChain [1] [0]) (.inl (.head _)) (.single ?_)
  exact ⟨by decide, .ofList [[1]], rfl, by decide⟩

end Samples

end F1r3fly.Casper.Merging
