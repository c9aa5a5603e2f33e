import F1r3fly.BlockStorage.Ancestry

/-! The main chain of a block: the block, its main parent, the main parent of that one, and
so on. -/
namespace F1r3fly.BlockStorage.KeyValueDagRepresentation

open Option HashedMap Relation
open Results

def MainAncestorOrSelf (dag : KeyValueDagRepresentation) (ancestor block : BlockHash) : Prop :=
  ReflTransGen (fun child parent => dag.mainParent child = some parent) block ancestor

def MainNumbered (dag : KeyValueDagRepresentation) : Prop :=
  ∀ child parent, dag.mainParent child = some parent →
    ∃ number below, dag.blockNumberMap.get? child = some number ∧
      dag.blockNumberMap.get? parent = some below ∧ below < number

variable {dag : KeyValueDagRepresentation}

theorem MainNumbered.number_lt (numbered : dag.MainNumbered) {number below : Int64}
    (path : TransGen (fun child parent => dag.mainParent child = some parent) block ancestor)
    (block_number : dag.blockNumberMap.get? block = some number)
    (ancestor_number : dag.blockNumberMap.get? ancestor = some below) : below < number := by
  induction path generalizing below with
  | single step =>
    obtain ⟨number', below', child_number, parent_number, lt⟩ := numbered _ _ step
    cases block_number.symm.trans child_number
    cases ancestor_number.symm.trans parent_number
    exact lt
  | tail _ step ih =>
    obtain ⟨between, below', child_number, parent_number, lt⟩ := numbered _ _ step
    cases ancestor_number.symm.trans parent_number
    exact Int64.lt_trans lt (ih child_number)

theorem mainNumbered_of_entries
    (checked : ∀ entry ∈ dag.mainParentMap.entries,
      ((dag.blockNumberMap.get? entry.1).bind fun number =>
        (dag.blockNumberMap.get? entry.2).map fun below => decide (below < number)) = some true) :
    dag.MainNumbered := by
  intro child parent step
  obtain ⟨number, child_number, below_eq⟩ :=
    bind_eq_some_iff.mp (checked (child, parent) (mem_entries_iff.mpr step))
  obtain ⟨below, parent_number, lt⟩ := map_eq_some_iff.mp below_eq
  exact ⟨number, below, child_number, parent_number, of_decide_eq_true lt⟩

def childNumber (dag : KeyValueDagRepresentation) (entry : BlockHash × BlockHash) : Int :=
  ((dag.blockNumberMap.get? entry.1).getD 0).toInt

/-- The numbers fall from one block to the next, so the walk ends before its steps run out. -/
theorem walkMainChain_returns (numbered : dag.MainNumbered) {stopHeight : Int64}
    (ancestor_number : dag.blockNumberMap.get? ancestor = some stopHeight) (fuel : Nat)
    (current : BlockHash) (height : Int64)
    (current_number : dag.blockNumberMap.get? current = some height)
    (enough : countBelow dag.childNumber dag.mainParentMap.entries (height.toInt + 1) < fuel) :
    ∃ answer, Returns (dag.walkMainChain ancestor stopHeight fuel current) answer ∧
      (answer ↔ dag.MainAncestorOrSelf ancestor current) := by
  induction fuel generalizing current height with
  | zero => omega
  | succ fuel ih =>
    have looked_up : Returns (liftM (dag.blockNumberUnsafe current)) height :=
      returns_liftExcept.mpr (by rw [blockNumberUnsafe, current_number])
    simp only [walkMainChain, looked_up.bind_iff]
    by_cases reached : height ≤ stopHeight
    · simp only [if_pos reached, returns_pure, exists_eq_left', beq_iff_eq]
      constructor
      · rintro rfl
        exact .refl
      · intro path
        rcases Relation.reflTransGen_iff_eq_or_transGen.mp path with same | strict
        · exact same.symm
        · have lt := numbered.number_lt strict current_number ancestor_number
          exact absurd reached (Int64.not_le.mpr lt)
    · have not_ancestor : current ≠ ancestor := by
        rintro rfl
        cases ancestor_number.symm.trans current_number
        exact reached (Int64.le_refl _)
      have ancestor_iff : dag.MainAncestorOrSelf ancestor current ↔
          ∃ parent, dag.mainParent current = some parent ∧ dag.MainAncestorOrSelf ancestor parent :=
        ⟨fun path => path.cases_head.resolve_left not_ancestor,
          fun ⟨_, step, rest⟩ => rest.head step⟩
      simp only [if_neg reached, ancestor_iff]
      cases parent_eq : dag.mainParent current with
      | none => exact ⟨false, returns_pure.mpr rfl, by simp⟩
      | some parent =>
        obtain ⟨number, below, child_number, parent_number, lt⟩ := numbered _ _ parent_eq
        cases current_number.symm.trans child_number
        have rank_eq : dag.childNumber (current, parent) = height.toInt := by
          rw [childNumber, current_number, getD_some]
        have present : (current, parent) ∈ dag.mainParentMap.entries :=
          mem_entries_iff.mpr parent_eq
        have fewer := countBelow_lt _ present (Int.lt_succ _) (rank_eq ▸ lt_iff_toInt_lt.mp lt)
        rw [rank_eq] at fewer
        simpa using ih parent below parent_number (by omega)

theorem isInMainChain_returns (numbered : dag.MainNumbered)
    (ancestor_known : (dag.blockNumberMap.get? ancestor).isSome)
    (descendant_known : (dag.blockNumberMap.get? descendant).isSome) :
    ∃ answer, Returns (dag.isInMainChain ancestor descendant) answer ∧
      (answer ↔ dag.MainAncestorOrSelf ancestor descendant) := by
  obtain ⟨stopHeight, ancestor_number⟩ := isSome_iff_exists.mp ancestor_known
  obtain ⟨height, descendant_number⟩ := isSome_iff_exists.mp descendant_known
  rw [isInMainChain]
  split_ifs with same
  · refine ⟨true, returns_pure.mpr rfl, ?_⟩
    rw [eq_of_beq same]
    exact ⟨fun _ => .refl, fun _ => rfl⟩
  · have looked_up : Returns (liftM (dag.blockNumberUnsafe ancestor)) stopHeight :=
      returns_liftExcept.mpr (by rw [blockNumberUnsafe, ancestor_number])
    simp only [looked_up.bind_iff]
    exact walkMainChain_returns numbered ancestor_number _ descendant height descendant_number
      (Nat.lt_succ_of_le List.countP_le_length)

theorem blockNumberUnsafe_known (found : dag.blockNumberUnsafe block = .ok height) :
    (dag.blockNumberMap.get? block).isSome := by
  rw [blockNumberUnsafe] at found
  split at found
  case h_1 recorded => rw [recorded, isSome_some]
  case h_2 => cases found

/-- The answer is yes exactly for the blocks that the first parents lead to. Between blocks of
recorded numbers there is an answer. -/
theorem isInMainChain_iff_reachable (numbered : dag.MainNumbered)
    (ancestor descendant : BlockHash) :
    (Returns (dag.isInMainChain ancestor descendant) true ↔
      dag.MainAncestorOrSelf ancestor descendant) ∧
    ((dag.blockNumberMap.get? ancestor).isSome = true →
      (dag.blockNumberMap.get? descendant).isSome = true →
      ∃ answer, Returns (dag.isInMainChain ancestor descendant) answer) := by
  refine ⟨?_, fun ancestor_known descendant_known =>
    (isInMainChain_returns numbered ancestor_known descendant_known).imp fun _ => And.left⟩
  by_cases same : ancestor = descendant
  · subst same
    simp [isInMainChain, returns_pure, MainAncestorOrSelf, ReflTransGen.refl]
  constructor
  · intro returned
    have walked := returned
    rw [isInMainChain, if_neg (by simpa using same)] at walked
    obtain ⟨stopHeight, found, walked⟩ := returns_bind.mp walked
    obtain ⟨height, started, -⟩ := returns_bind.mp walked
    obtain ⟨answer, answered, answer_iff⟩ := isInMainChain_returns numbered
      (blockNumberUnsafe_known (returns_liftExcept.mp found))
      (blockNumberUnsafe_known (returns_liftExcept.mp started))
    exact answer_iff.mp (returned.unique answered)
  · intro path
    -- the first link and the last one have recorded numbers
    obtain ⟨_, first, -⟩ := path.cases_head.resolve_left (Ne.symm same)
    obtain ⟨_, -, last⟩ := path.cases_tail.resolve_left same
    obtain ⟨number, -, descendant_number, -⟩ := numbered _ _ first
    obtain ⟨-, below, -, ancestor_number, -⟩ := numbered _ _ last
    obtain ⟨answer, answered, answer_iff⟩ := isInMainChain_returns numbered
      (isSome_of_eq_some ancestor_number) (isSome_of_eq_some descendant_number)
    rwa [answer_iff.mpr path] at answered

def mainChainSample : KeyValueDagRepresentation where
  dagSet := .ofList [[0], [1], [2]]
  latestMessagesMap := .empty
  childMap := .empty
  blockNumberMap := .ofList [([0], 0), ([1], 1), ([2], 2)]
  mainParentMap := .ofList [([1], [0]), ([2], [1])]
  finalizedBlocksSet := .empty
  blockMetadataIndex := .empty

theorem isInMainChain_iff_reachable_of_sample :
    (Returns (mainChainSample.isInMainChain [0] [2]) true ↔
      mainChainSample.MainAncestorOrSelf [0] [2]) ∧
    ((mainChainSample.blockNumberMap.get? [0]).isSome = true →
      (mainChainSample.blockNumberMap.get? [2]).isSome = true →
      ∃ answer, Returns (mainChainSample.isInMainChain [0] [2]) answer) :=
  isInMainChain_iff_reachable (mainNumbered_of_entries (by decide +kernel)) [0] [2]

end F1r3fly.BlockStorage.KeyValueDagRepresentation
