import F1r3fly.Casper.Merging.ConflictSetMerger
import F1r3fly.RSpace.Merger.RejectionOptions

/-! What the resolution of conflicts guarantees, and when it does. -/
namespace F1r3fly.Casper.Merging

open RSpace RSpace.Merger HashedSet
open Relation (TransGen)
open Results

section Options

theorem readBalances_ok (readable : ∀ channel ∈ channels, ∃ value, readNumber channel = .ok value) :
    ∃ balances, readBalances readNumber channels = .ok balances := by
  apply foldlM_ok
  intro channel present balances
  obtain ⟨value, read⟩ := readable channel ((List.mem_insertionSort _).mp present)
  exact ⟨_, bind_eq_ok.mpr ⟨value, read, rfl⟩⟩

variable {R : Type} [BEq R] [EquivBEq R] [Ord R] [HashMapOrder]

/-- On some balances the branch cannot be merged. -/
def Unmergeable (mergeableChannels : R → NumberChannelsDiff) (branch : Branch R) : Prop :=
  ∃ balances, calMergedResult branch balances mergeableChannels = none

omit [EquivBEq R] [Ord R] in
theorem not_unmergeable_empty (branch : Branch R) : ¬Unmergeable (fun _ => .empty) branch := by
  rintro ⟨balances, failed⟩
  have no_diff : (branch.iter.map fun _ => SortedMap.empty).foldl combineBranchChannels .empty =
      .empty := by
    induction branch.iter with
    | nil => rfl
    | cons item rest ih => exact ih
  rw [calMergedResult, no_diff] at failed
  cases failed

theorem mem_elements_foldRejection {branch : Branch R}
    (rejected : branch ∈ (foldRejection balances branches mergeableChannels).elements) :
    branch ∈ branches.elements ∧ Unmergeable mergeableChannels branch := by
  refine foldlRecOn (motive := fun state : Balances × HashableSet (Branch R) =>
    ∀ other ∈ state.2.elements, other ∈ branches.elements ∧ Unmergeable mergeableChannels other)
    _ _ (fun other none => by cases none) ?_ branch rejected
  intro state within first sorted other present
  rw [foldBranch] at present
  split at present
  case h_1 => exact within other present
  case h_2 failed =>
    rcases mem_elements_insert present with old | rfl
    · exact within other old
    · exact ⟨mem_iter.mp (mem_sortBy.mp sorted), state.1, failed⟩

theorem getMergedResultRejection_extends (branches : HashableSet (Branch R)) (balances : Balances)
    (mergeableChannels : R → NumberChannelsDiff) (nonempty : rejectOptions.elements ≠ []) :
    (getMergedResultRejection branches rejectOptions balances mergeableChannels).elements ≠ [] ∧
      ∀ option ∈ (getMergedResultRejection branches rejectOptions balances
        mergeableChannels).elements, ∃ normal ∈ rejectOptions.elements,
          (∀ branch ∈ normal, branch ∈ option) ∧
            ∀ branch ∈ option, branch ∈ normal ∨ ∃ kept ∈ branches.elements,
              (branch == kept) = true ∧ Unmergeable mergeableChannels kept := by
  have not_empty : ¬rejectOptions.isEmpty := by
    rw [isEmpty, List.isEmpty_iff]
    exact nonempty
  rw [getMergedResultRejection, if_neg not_empty]
  constructor
  · obtain ⟨normal, present⟩ := exists_mem_of_ne_nil _ nonempty
    rw [ofList, foldl_map]
    apply elements_foldl_insert_ne_nil
    exact .inr (ne_nil_of_mem (mem_iter.mpr present))
  · intro option present
    obtain ⟨normal, normal_present, rfl⟩ :=
      mem_map.mp (mem_elements_ofList present)
    refine ⟨normal, mem_iter.mp normal_present, ?_, ?_⟩
    · exact fun branch member => mem_addAll.mpr (.inl member)
    · intro branch member
      rcases mem_addAll.mp member with old | rejected
      · exact .inl old
      · obtain ⟨kept, kept_present, same⟩ := mem_iff.mp rejected
        obtain ⟨within, unmergeable⟩ := mem_elements_foldRejection kept_present
        exact .inr ⟨kept, (mem_filter.mp within).1, same, unmergeable⟩

theorem getOptimalRejection_mem {options : HashableSet (HashableSet (Branch R))}
    (targetF : Branch R → UInt64) (nonempty : options.elements ≠ []) :
    getOptimalRejection options.reordered targetF ∈ options.elements := by
  rw [getOptimalRejection]
  cases head : (sortBy (compareOptions targetF) options.reordered.elements).head? with
  | none =>
    obtain ⟨option, present⟩ := exists_mem_of_ne_nil _ nonempty
    have iterated : option ∈ options.reordered.elements := mem_iter.mpr present
    rw [head?_sortBy_eq_none.mp head] at iterated
    cases iterated
  | some option => exact mem_iter.mp (mem_sortBy.mp (List.mem_of_head? head))

theorem computeOptimalRejection_spec (branches : HashableSet (Branch R))
    (conflictMap : RelationMap (Branch R)) (balances : Balances)
    (mergeableChannels : R → NumberChannelsDiff) (cost : R → UInt64) :
    let optimal := computeOptimalRejection branches conflictMap balances mergeableChannels cost
    (∀ a b, Relates conflictMap a b → a ∈ optimal ∨ b ∈ optimal) ∧
      ∀ branch ∈ optimal, (∃ other, Relates conflictMap other branch) ∨
        ∃ kept ∈ branches.elements, (branch == kept) = true ∧
          Unmergeable mergeableChannels kept := by
  obtain ⟨complete, some_option⟩ := computeRejectionOptions_complete conflictMap
  obtain ⟨nonempty, extends_option⟩ :=
    getMergedResultRejection_extends branches balances mergeableChannels some_option
  obtain ⟨normal, present, included, within⟩ :=
    extends_option _ (getOptimalRejection_mem _ nonempty)
  constructor
  · intro a b related
    exact ((complete normal present).covers a b related).imp (included a) (included b)
  · intro branch rejected
    exact (within branch rejected).imp_left ((complete normal present).conflicting branch)

end Options

section Resolving

variable {R : Type} [BEq R] [EquivBEq R] [Ord R] [HashMapOrder]

def dependents (actualSeq lateSeq : List R) (depends : R → R → Bool) : HashableSet R :=
  (splitLateDependents (.ofList actualSeq) (.ofList lateSeq) depends).1

def mergeSet (actualSeq lateSeq : List R) (depends : R → R → Bool) : HashableSet R :=
  (splitLateDependents (.ofList actualSeq) (.ofList lateSeq) depends).2

/-- The branches that are rejected, and what is merged and rejected then. -/
structure Resolves (actualSeq lateSeq : List R) (depends : R → R → Bool)
    (mergeableChannels : R → NumberChannelsDiff) (branches : HashableSet (HashableSet R))
    (conflictMap : RelationMap (HashableSet R)) (optimal : HashableSet (HashableSet R))
    (resolved : ResolvedConflicts R) : Prop where
  covers : ∀ a b, Relates conflictMap a b → a ∈ optimal ∨ b ∈ optimal
  rejects : ∀ branch ∈ optimal, (∃ other, Relates conflictMap other branch) ∨
    ∃ kept ∈ branches.elements, (branch == kept) = true ∧ Unmergeable mergeableChannels kept
  toMerge : ∀ branch, branch ∈ resolved.toMerge ↔ branch ∈ branches.elements ∧ branch ∉ optimal
  rejected : ∀ item, item ∈ resolved.rejected ↔ item ∈ ofList lateSeq ∨
    item ∈ dependents actualSeq lateSeq depends ∨ ∃ branch ∈ optimal.elements, item ∈ branch

variable {actualSeq lateSeq : List R} {depends : R → R → Bool} (cost : R → UInt64)
  {mergeableChannels : R → NumberChannelsDiff}
  {readNumber : Blake2b256Hash → Except MergerError (Option Int64)}
  {computeBranches : HashableSet R → HashableSet (HashableSet R)}
  {computeConflictMap : HashableSet (HashableSet R) →
    Except MergerError (RelationMap (HashableSet R))}

/-- The resolution fails only when the conflicts or the base values cannot be computed. -/
theorem resolveConflicts_ok
    (mapped : computeConflictMap (computeBranches (mergeSet actualSeq lateSeq depends)) =
      .ok conflictMap)
    (readable : ∀ branch ∈ (computeBranches (mergeSet actualSeq lateSeq depends)).elements,
      ∀ item ∈ branch.elements, ∀ channel ∈ (mergeableChannels item).keys,
        ∃ value, readNumber channel = .ok value) :
    ∃ resolved, resolveConflicts actualSeq lateSeq depends cost mergeableChannels readNumber
      computeBranches computeConflictMap = .ok resolved := by
  have channels_readable : ∀ channel ∈ (ofList ((computeBranches (mergeSet actualSeq
      lateSeq depends)).iter.flatMap fun branch => branch.iter.flatMap fun item =>
        (mergeableChannels item).keys)).elements, ∃ value, readNumber channel = .ok value := by
    intro channel present
    obtain ⟨branch, branch_present, in_branch⟩ :=
      mem_flatMap.mp (mem_elements_ofList present)
    obtain ⟨item, item_present, in_item⟩ := mem_flatMap.mp in_branch
    exact readable branch (mem_iter.mp branch_present) item
      (mem_iter.mp item_present) channel in_item
  obtain ⟨balances, read⟩ := readBalances_ok channels_readable
  exact ⟨_, bind_eq_ok.mpr ⟨conflictMap, mapped, bind_eq_ok.mpr ⟨balances, read, rfl⟩⟩⟩

theorem resolveConflicts_resolves
    (computed : resolveConflicts actualSeq lateSeq depends cost mergeableChannels readNumber
      computeBranches computeConflictMap = .ok resolved) :
    ∃ conflictMap optimal,
      computeConflictMap (computeBranches (mergeSet actualSeq lateSeq depends)) =
        .ok conflictMap ∧
      Resolves actualSeq lateSeq depends mergeableChannels
        (computeBranches (mergeSet actualSeq lateSeq depends)) conflictMap optimal resolved := by
  obtain ⟨conflictMap, mapped, computed⟩ := bind_eq_ok.mp computed
  obtain ⟨balances, -, computed⟩ := bind_eq_ok.mp computed
  cases computed
  obtain ⟨covers, rejects⟩ := computeOptimalRejection_spec
    (computeBranches (mergeSet actualSeq lateSeq depends))
      conflictMap balances mergeableChannels cost
  refine ⟨conflictMap, _, mapped, ⟨covers, rejects, ?_, ?_⟩⟩
  · intro branch
    rw [mem_filter, mem_iter, not_eq_true', ← not_eq_true, contains_iff]
    rfl
  · intro item
    rw [mem_addAll, mem_addAll, mem_ofList, mem_ofList_flatMap_iter, or_assoc]
    simp only [mem_iter, ← mem_iff]
    rfl

/-- A split of the items into branches that do not depend on each other. -/
structure Branching (depends : R → R → Bool) (items : HashableSet R)
    (branches : HashableSet (HashableSet R)) : Prop where
  covers : ∀ item ∈ items.elements, ∃ branch ∈ branches.elements, item ∈ branch.elements
  within : ∀ branch ∈ branches.elements, ∀ item ∈ branch.elements, item ∈ items.elements
  disjoint : ∀ branch ∈ branches.elements, ∀ other ∈ branches.elements,
    ∀ item ∈ branch.elements, item ∈ other → (branch == other) = true
  separate : ∀ branch ∈ branches.elements, ∀ item ∈ branch.elements, ∀ other ∈ items.elements,
    depends item other = true → other ∈ branch.elements

/-- A map of the conflicts between the branches. -/
structure MapsConflicts (conflicts : HashableSet R → HashableSet R → Bool)
    (branches : HashableSet (HashableSet R))
    (conflictMap : RelationMap (HashableSet R)) : Prop where
  related : ∀ branch ∈ branches.elements, ∀ other ∈ branches.elements,
    (Relates conflictMap branch other ↔ conflicts branch other = true)
  within : ∀ branch other, Relates conflictMap branch other → other ∈ branches

def DependsAmong (actualSeq lateSeq : List R) (depends : R → R → Bool) (item other : R) : Prop :=
  item ∈ (ofList actualSeq).elements ++ (ofList lateSeq).elements ∧
    other ∈ (ofList actualSeq).elements ++ (ofList lateSeq).elements ∧
    depends item other = true

/-- Every actual item is merged or rejected, not both; merged branches are not in conflict;
nothing merged depends on what is rejected or late. -/
structure SoundResolution (actualSeq lateSeq : List R) (depends : R → R → Bool)
    (conflicts : HashableSet R → HashableSet R → Bool) (resolved : ResolvedConflicts R) : Prop where
  placed : ∀ item ∈ ofList actualSeq,
    Xor (∃ branch ∈ resolved.toMerge, item ∈ branch) (item ∈ resolved.rejected)
  independent : ∀ branch ∈ resolved.toMerge, ∀ other ∈ resolved.toMerge,
    conflicts branch other = false
  closed : ∀ branch ∈ resolved.toMerge, ∀ item ∈ branch.elements, ∀ other,
    other ∈ resolved.rejected ∨ other ∈ ofList lateSeq →
      ¬TransGen (DependsAmong actualSeq lateSeq depends) item other

/-- The item is not late, and none of the actual items that it depends on depends on a late
one. -/
def Undisturbed (actualSeq lateSeq : List R) (depends : R → R → Bool) (item : R) : Prop :=
  item ∉ ofList lateSeq ∧
    ∀ other ∈ (dependents actualSeq lateSeq depends).elements, depends item other = false

section Sound

omit [Ord R]

theorem mem_split_iff :
    item ∈ (ofList actualSeq).elements ↔
      item ∈ (dependents actualSeq lateSeq depends).elements ∨
        item ∈ (mergeSet actualSeq lateSeq depends).elements := by
  simp only [dependents, mergeSet, splitLateDependents, filter, mem_filter,
    not_eq_true', ← and_or_left]
  exact (and_iff_left (Bool.eq_false_or_eq_true _)).symm

theorem not_depends_late (grouped : item ∈ (mergeSet actualSeq lateSeq depends).elements)
    (is_late : late ∈ (ofList lateSeq).elements) : depends item late = false := by
  have none_late := (mem_filter.mp grouped).2
  rw [not_eq_true', List.any_eq_false] at none_late
  exact not_eq_true _ ▸ none_late late (mem_iter.mpr is_late)

theorem not_mem_dependents (grouped : item ∈ (mergeSet actualSeq lateSeq depends).elements) :
    item ∉ dependents actualSeq lateSeq depends := by
  intro dependent
  obtain ⟨kept, kept_present, same⟩ := mem_iff.mp dependent
  obtain ⟨late, is_late, depends_late⟩ := any_eq_true.mp (mem_filter.mp kept_present).2
  have equal : item = kept := eq_of_mem_elements
    (mem_split_iff.mpr (.inr grouped)) (mem_filter.mp kept_present).1 same
  rw [← equal, not_depends_late grouped (mem_iter.mp is_late)] at depends_late
  cases depends_late

/-- What an undisturbed merged item depends on is in its branch. -/
theorem mem_branch_of_dependsAmong
    (branching : Branching depends (mergeSet actualSeq lateSeq depends) branches)
    (present : branch ∈ branches.elements)
    (undisturbed : ∀ item ∈ branch.elements, Undisturbed actualSeq lateSeq depends item)
    (member : item ∈ branch.elements) (step : DependsAmong actualSeq lateSeq depends item other) :
    other ∈ branch.elements := by
  obtain ⟨-, known, depends_other⟩ := step
  have grouped := branching.within branch present item member
  rcases mem_append.mp known with actual | late
  · rcases mem_split_iff.mp actual with dependent | other_grouped
    · rw [(undisturbed item member).2 other dependent] at depends_other
      cases depends_other
    · exact branching.separate branch present item member other other_grouped depends_other
  · rw [not_depends_late grouped late] at depends_other
    cases depends_other

variable {conflicts : HashableSet R → HashableSet R → Bool}
  {branches : HashableSet (HashableSet R)} {conflictMap : RelationMap (HashableSet R)}
  {optimal : HashableSet (HashableSet R)} {resolved : ResolvedConflicts R}
  (resolves : Resolves actualSeq lateSeq depends mergeableChannels branches conflictMap optimal
    resolved)

include resolves

theorem Resolves.mem_branches
    (within : ∀ branch other, Relates conflictMap branch other → other ∈ branches)
    (rejected : branch ∈ optimal.elements) : branch ∈ branches := by
  rcases resolves.rejects branch (mem_of_mem_elements rejected) with
    ⟨other, related⟩ | ⟨kept, present, same, -⟩
  · exact within other branch related
  · exact mem_iff.mpr ⟨kept, present, same⟩

variable (branching : Branching depends (mergeSet actualSeq lateSeq depends) branches)

include branching

section

variable (within : ∀ branch other, Relates conflictMap branch other → other ∈ branches)
include within

theorem Resolves.exclusive (merged : branch ∈ resolved.toMerge) (member : item ∈ branch)
    (not_late : item ∉ ofList lateSeq) : item ∉ resolved.rejected := by
  obtain ⟨branch_present, kept⟩ := (resolves.toMerge branch).mp merged
  obtain ⟨stored, stored_present, same⟩ := mem_iff.mp member
  have grouped := branching.within branch branch_present stored stored_present
  rw [resolves.rejected]
  rintro (late | dependent | ⟨rejected, rejected_present, in_rejected⟩)
  · exact not_late late
  · exact not_mem_dependents grouped ((mem_congr same).mp dependent)
  · obtain ⟨original, original_present, rejected_same⟩ :=
      mem_iff.mp (resolves.mem_branches within rejected_present)
    have in_original : stored ∈ original := by
      rw [← mem_congr same]
      exact (beq_iff.mp rejected_same item).mp in_rejected
    have equal := branching.disjoint branch branch_present original original_present stored
      stored_present in_original
    rw [mem_congr equal, ← mem_congr rejected_same] at kept
    exact kept (mem_of_mem_elements rejected_present)

theorem Resolves.rejected_known
    (rejected : item ∈ resolved.rejected) : item ∈ ofList lateSeq ∨ item ∈ ofList actualSeq := by
  rcases (resolves.rejected item).mp rejected with late | dependent | ⟨branch, present, member⟩
  · exact .inl late
  · obtain ⟨stored, stored_present, same⟩ := mem_iff.mp dependent
    exact .inr (mem_iff.mpr ⟨stored, mem_split_iff.mpr (.inl stored_present), same⟩)
  · obtain ⟨original, original_present, branch_same⟩ :=
      mem_iff.mp (resolves.mem_branches within present)
    obtain ⟨stored, stored_present, same⟩ :=
      mem_iff.mp ((beq_iff.mp branch_same item).mp member)
    have grouped := branching.within original original_present stored stored_present
    exact .inr (mem_iff.mpr ⟨stored, mem_split_iff.mpr (.inr grouped), same⟩)

end

theorem Resolves.covered (actual : item ∈ ofList actualSeq) :
    (∃ branch ∈ resolved.toMerge, item ∈ branch) ∨ item ∈ resolved.rejected := by
  obtain ⟨stored, stored_present, same⟩ := mem_iff.mp actual
  rcases mem_split_iff.mp stored_present with dependent | grouped
  · exact .inr ((resolves.rejected item).mpr
      (.inr (.inl (mem_iff.mpr ⟨stored, dependent, same⟩))))
  · obtain ⟨branch, present, member⟩ := branching.covers stored grouped
    have item_member : item ∈ branch := mem_iff.mpr ⟨stored, member, same⟩
    by_cases rejected : branch ∈ optimal
    · obtain ⟨kept, kept_present, branch_same⟩ := mem_iff.mp rejected
      exact .inr ((resolves.rejected item).mpr (.inr (.inr
        ⟨kept, kept_present, (beq_iff.mp branch_same item).mp item_member⟩)))
    · exact .inl ⟨branch, (resolves.toMerge branch).mpr ⟨present, rejected⟩, item_member⟩

theorem Resolves.sound_iff (maps : MapsConflicts conflicts branches conflictMap) :
    SoundResolution actualSeq lateSeq depends conflicts resolved ↔
      ∀ branch ∈ resolved.toMerge, ∀ item ∈ branch.elements,
        Undisturbed actualSeq lateSeq depends item := by
  constructor
  · intro sound branch merged item member
    have present := ((resolves.toMerge branch).mp merged).1
    have actual : item ∈ (ofList actualSeq).elements :=
      mem_split_iff.mpr (.inr (branching.within branch present item member))
    constructor
    · intro late
      rcases sound.placed item (mem_of_mem_elements actual) with
        ⟨-, not_rejected⟩ | ⟨-, not_merged⟩
      · exact not_rejected ((resolves.rejected item).mpr (.inl late))
      · exact not_merged ⟨branch, merged, mem_of_mem_elements member⟩
    · intro other dependent
      by_contra depends_other
      rw [Bool.not_eq_false] at depends_other
      refine sound.closed branch merged item member other (.inl ?_) (.single ?_)
      · exact (resolves.rejected other).mpr
          (.inr (.inl (mem_of_mem_elements dependent)))
      · exact ⟨mem_append_left _ actual,
          mem_append_left _ (mem_split_iff.mpr (.inl dependent)), depends_other⟩
  · intro undisturbed
    have exclusive : ∀ branch ∈ resolved.toMerge, ∀ item ∈ branch, item ∉ resolved.rejected := by
      intro branch merged item member
      obtain ⟨stored, stored_present, same⟩ := mem_iff.mp member
      apply resolves.exclusive branching maps.within merged member
      rw [mem_congr same]
      exact (undisturbed branch merged stored stored_present).1
    refine ⟨?_, ?_, ?_⟩
    · intro item actual
      rcases resolves.covered branching actual with ⟨branch, merged, member⟩ | rejected
      · exact .inl ⟨⟨branch, merged, member⟩, exclusive branch merged item member⟩
      · refine .inr ⟨rejected, ?_⟩
        rintro ⟨branch, merged, member⟩
        exact exclusive branch merged item member rejected
    · intro branch merged other other_merged
      obtain ⟨present, kept⟩ := (resolves.toMerge branch).mp merged
      obtain ⟨other_present, other_kept⟩ := (resolves.toMerge other).mp other_merged
      rw [← not_eq_true, ← maps.related branch present other other_present]
      intro related
      exact (resolves.covers branch other related).elim kept other_kept
    · -- A chain of dependencies does not leave the branch it starts in.
      intro branch merged item member other dropped path
      have present := ((resolves.toMerge branch).mp merged).1
      have in_branch : other ∈ branch.elements := by
        refine holds_of_reflTransGen (· ∈ branch.elements) ?_ member path.to_reflTransGen
        intro a b a_member step
        exact mem_branch_of_dependsAmong branching present (undisturbed branch merged) a_member step
      have other_member : other ∈ branch := mem_of_mem_elements in_branch
      rcases dropped with rejected | late
      · exact exclusive branch merged other other_member rejected
      · exact (undisturbed branch merged other in_branch).1 late

end Sound

/-- Whatever the conflicts and the numbers are, the resolution succeeds and is sound, exactly
when none of the items to group is late or depends on an item that depends on a late one. -/
theorem resolveConflicts_sound_iff (actualSeq lateSeq : List R) (depends : R → R → Bool)
    (computeBranches : HashableSet R → HashableSet (HashableSet R))
    (branching : Branching depends (mergeSet actualSeq lateSeq depends)
      (computeBranches (mergeSet actualSeq lateSeq depends))) :
    (∀ (cost : R → UInt64) (mergeableChannels : R → NumberChannelsDiff)
        (readNumber : Blake2b256Hash → Except MergerError (Option Int64))
        (computeConflictMap : HashableSet (HashableSet R) →
          Except MergerError (RelationMap (HashableSet R)))
        (conflicts : HashableSet R → HashableSet R → Bool),
      (∀ branch other, conflicts branch other = conflicts other branch) →
      (∀ branch, conflicts branch branch = false) →
      (∃ conflictMap,
        computeConflictMap (computeBranches (mergeSet actualSeq lateSeq depends)) =
          .ok conflictMap ∧
        MapsConflicts conflicts (computeBranches (mergeSet actualSeq lateSeq depends))
          conflictMap) →
      (∀ branch ∈ (computeBranches (mergeSet actualSeq lateSeq depends)).elements,
        ∀ item ∈ branch.elements, ∀ channel ∈ (mergeableChannels item).keys,
          ∃ value, readNumber channel = .ok value) →
      ∃ resolved, resolveConflicts actualSeq lateSeq depends cost mergeableChannels readNumber
          computeBranches computeConflictMap = .ok resolved ∧
        SoundResolution actualSeq lateSeq depends conflicts resolved) ↔
      ∀ item ∈ (mergeSet actualSeq lateSeq depends).elements,
        Undisturbed actualSeq lateSeq depends item := by
  constructor
  · -- without conflicts and numbers everything that is grouped is merged
    intro sound item grouped
    obtain ⟨-, unrelated⟩ :=
      unrelated_spec (computeBranches (mergeSet actualSeq lateSeq depends)).elements
    have maps : MapsConflicts (fun _ _ => false)
        (computeBranches (mergeSet actualSeq lateSeq depends))
        (.unrelated (computeBranches (mergeSet actualSeq lateSeq depends)).elements) :=
      ⟨fun branch _ other _ => by simp [unrelated branch other],
        fun branch other related => absurd related (unrelated branch other)⟩
    obtain ⟨resolved, computed, is_sound⟩ := sound (fun _ => 0) (fun _ => .empty)
      (fun _ => .ok none) (fun branches => .ok (.unrelated branches.elements)) (fun _ _ => false)
      (fun _ _ => rfl) (fun _ => rfl) ⟨_, rfl, maps⟩ (fun _ _ _ _ _ _ => ⟨none, rfl⟩)
    obtain ⟨conflictMap, optimal, mapped, resolves⟩ := resolveConflicts_resolves _ computed
    cases mapped
    obtain ⟨branch, present, member⟩ := branching.covers item grouped
    refine (resolves.sound_iff branching maps).mp is_sound branch ?_ item member
    refine (resolves.toMerge branch).mpr ⟨present, fun rejected => ?_⟩
    rcases resolves.rejects branch rejected with ⟨other, related⟩ | ⟨kept, -, -, unmergeable⟩
    · exact unrelated other branch related
    · exact not_unmergeable_empty kept unmergeable
  · intro undisturbed cost mergeableChannels readNumber computeConflictMap
      conflicts _ _ maps readable
    obtain ⟨conflictMap, mapped, maps_conflicts⟩ := maps
    obtain ⟨resolved, computed⟩ := resolveConflicts_ok cost mapped readable
    obtain ⟨conflictMap', optimal, mapped', resolves⟩ := resolveConflicts_resolves cost computed
    cases mapped.symm.trans mapped'
    refine ⟨resolved, computed, (resolves.sound_iff branching maps_conflicts).mpr ?_⟩
    intro branch merged item member
    have present := ((resolves.toMerge branch).mp merged).1
    exact undisturbed item (branching.within branch present item member)

end Resolving

section Samples

local instance : HashMapOrder := ⟨id, .refl⟩

def sampleDepends (item other : ℕ) : Bool := (item, other) == (2, 1) || (item, other) == (3, 4)

def sampleBranches (items : HashableSet ℕ) : HashableSet (HashableSet ℕ) :=
  ofList [items.filter (· ≤ 2)]

theorem resolution_drops_late_dependent :
    ∃ resolved, resolveConflicts [1, 2, 3] [4] sampleDepends (fun _ => 1) (fun _ => .empty)
        (fun _ => .ok none) sampleBranches (fun branches => .ok (.unrelated branches.elements)) =
        .ok resolved ∧ SoundResolution [1, 2, 3] [4] sampleDepends (fun _ _ => false) resolved :=
  (resolveConflicts_sound_iff [1, 2, 3] [4] sampleDepends sampleBranches
    ⟨by decide, by decide, by decide, by decide⟩).mpr (by unfold Undisturbed; decide)
    (fun _ => 1) (fun _ => .empty) (fun _ => .ok none)
    (fun branches => .ok (.unrelated branches.elements)) (fun _ _ => false)
    (fun _ _ => rfl) (fun _ => rfl)
    ⟨_, rfl, ⟨fun branch _ other _ => by simp [(unrelated_spec _).2 branch other],
      fun branch other related => absurd related ((unrelated_spec _).2 branch other)⟩⟩
    (fun _ _ _ _ _ _ => ⟨none, rfl⟩)

def chainDepends (item other : ℕ) : Bool := (item, other) == (1, 2) || (item, other) == (2, 3)

def singleBranches (items : HashableSet ℕ) : HashableSet (HashableSet ℕ) :=
  ofList (items.elements.map fun item => ofList [item])

theorem resolution_keeps_dependent_of_rejected :
    Branching chainDepends (mergeSet [1, 2] [3] chainDepends)
        (singleBranches (mergeSet [1, 2] [3] chainDepends)) ∧
      ∃ resolved, resolveConflicts [1, 2] [3] chainDepends (fun _ => 1) (fun _ => .empty)
          (fun _ => .ok none) singleBranches (fun branches => .ok (.unrelated branches.elements)) =
          .ok resolved ∧ ¬SoundResolution [1, 2] [3] chainDepends (fun _ _ => false) resolved := by
  refine ⟨⟨by decide, by decide, by decide, by decide⟩, ⟨[ofList [1]], ofList [3, 2]⟩, by rfl, ?_⟩
  intro sound
  refine sound.closed (ofList [1]) (.head _) 1 (by decide) 2
    (.inl (by decide)) (.single ⟨by decide, by decide, by decide⟩)

end Samples

end F1r3fly.Casper.Merging
