import F1r3fly.RSpace.Merger.Components

/-! Every rejection option leaves no conflict, and there is at least one option. Those of mutual
conflicts leave the maximal sets without a conflict. -/
namespace F1r3fly.RSpace.Merger

open Option HashedMap HashedSet

section

variable {A : Type} [BEq A] [EquivBEq A] [HashMapOrder]

/-- Of every two items in conflict one is rejected, and nothing without a conflict is. -/
structure Complete (conflicts : RelationMap A) (rejected : HashableSet A) : Prop where
  covers : ∀ a b, Relates conflicts a b → a ∈ rejected ∨ b ∈ rejected
  conflicting : ∀ b ∈ rejected, ∃ a, Relates conflicts a b

/-- The conflicts that remain are those between items that are not rejected. -/
structure Rejecting (conflicts : RelationMap A) (option : RejectionOption A) : Prop where
  remaining : ∀ a b, Relates option.remainingConflictsMap a b ↔
    Relates conflicts a b ∧ a ∉ option.rejectedSoFar ∧ b ∉ option.rejectedSoFar
  conflicting : ∀ b ∈ option.rejectedSoFar, ∃ a, Relates conflicts a b

omit [HashMapOrder] in
theorem relates_remainingConflicts {a b : A} :
    Relates (remainingConflicts map toReject) a b ↔
      Relates map a b ∧ a ∉ toReject ∧ b ∉ toReject := by
  have congr : ∀ (other : A) (conflicts : HashableSet A), a == other →
      toReject.contains a = toReject.contains other :=
    fun other _ same => eq_iff_iff.mpr (mem_congr same)
  rw [Relates, Relates, remainingConflicts, get?_filterMapValues]
  · cases map.get? a with
    | none => simp
    | some conflicts =>
      have kept : b ∈ conflicts.filter (fun c => !toReject.contains c) ↔
          b ∈ conflicts ∧ b ∉ toReject := mem_difference
      by_cases rejected : toReject.contains a
      · simp [rejected, contains_iff.mp rejected]
      · have not_rejected : a ∉ toReject := rejected
        rw [bind_some, if_neg rejected]
        constructor
        · rintro ⟨related, value, member⟩
          dsimp only at value
          split at value
          · cases value
          · cases value
            obtain ⟨conflicting, b_kept⟩ := kept.mp member
            exact ⟨⟨conflicts, rfl, conflicting⟩, not_rejected, b_kept⟩
        · rintro ⟨⟨related, value, member⟩, -, b_kept⟩
          cases value
          have present := kept.mpr ⟨member, b_kept⟩
          refine ⟨_, if_neg ?_, present⟩
          intro none_left
          exact isEmpty_iff.mp none_left b present
  · intro other conflicts same
    rw [congr other conflicts same]

omit [HashMapOrder] in
/-- A key whose conflicts are all rejected has none left. -/
theorem length_remainingConflicts {entry : A × HashableSet A} (present : entry ∈ map.entries) :
    (remainingConflicts map entry.2).entries.length < map.entries.length := by
  rw [remainingConflicts, HashedMap.filterMapValues, List.length_filterMap_lt_length_iff_exists]
  refine ⟨entry, present, ?_⟩
  have none_left : (entry.2.filter fun c => !entry.2.contains c).isEmpty := by
    rw [HashedSet.isEmpty_iff]
    intro a member
    obtain ⟨conflicting, kept⟩ := mem_difference.mp member
    exact kept conflicting
  rw [map_eq_none_iff]
  split
  · rfl
  · exact if_pos none_left

variable {conflicts : RelationMap A}

/-- Keeps a key and rejects what is in conflict with it. -/
def RejectionOption.reject (option : RejectionOption A) (entry : A × HashableSet A) :
    RejectionOption A where
  rejectedSoFar := option.rejectedSoFar.iter.foldl insert entry.2
  remainingConflictsMap := remainingConflicts option.remainingConflictsMap entry.2

theorem Rejecting.reject (rejecting : Rejecting conflicts option)
    (present : entry ∈ option.remainingConflictsMap.entries) :
    Rejecting conflicts (option.reject entry) := by
  refine ⟨fun a b => ?_, fun b rejected => ?_⟩
  · rw [RejectionOption.reject, relates_remainingConflicts, rejecting.remaining, mem_addAll,
      mem_addAll]
    tauto
  · rcases mem_addAll.mp rejected with new | old
    · exact ⟨entry.1,
        ((rejecting.remaining _ _).mp ⟨entry.2, get?_of_mem present, new⟩).1⟩
    · exact rejecting.conflicting b old

omit [HashMapOrder] in
theorem Rejecting.complete (rejecting : Rejecting conflicts option)
    (resolved : option.remainingConflictsMap.entries = []) :
    Complete conflicts option.rejectedSoFar := by
  refine ⟨fun a b related => ?_, rejecting.conflicting⟩
  by_contra kept
  obtain ⟨rest, value, -⟩ := (rejecting.remaining a b).mpr ⟨related, not_or.mp kept⟩
  obtain ⟨key, present, -⟩ := get?_eq_some_iff.mp value
  rw [resolved] at present
  cases present

section Rounds

variable {state : HashableSet (HashableSet A) × HashableSet (RejectionOption A)}

variable (state) in
/-- What an option is continued with; of those that reject the same items one is kept. -/
theorem expandOption_unresolved (unresolved : option.remainingConflictsMap.entries ≠ []) :
    (expandOption state option).1 = state.1 ∧
    (∀ new ∈ (expandOption state option).2.elements, new ∈ state.2.elements ∨
      ∃ entry ∈ option.remainingConflictsMap.entries, new = option.reject entry) ∧
    (∀ new ∈ state.2, new ∈ (expandOption state option).2) ∧
    ∀ entry ∈ option.remainingConflictsMap.entries,
      option.reject entry ∈ (expandOption state option).2 := by
  rw [expandOption, if_neg (mt List.isEmpty_iff.mp unresolved)]
  refine ⟨rfl, fun new present => ?_, fun new old => ?_, fun entry present => ?_⟩
  · rcases mem_elements_foldl_insert_map present with old | ⟨made, listed, rfl⟩
    · exact .inl old
    · obtain ⟨entry, in_map, rfl⟩ := mem_map.mp (mem_elements_ofList (mem_iter.mp listed))
      exact .inr ⟨entry, HashedMap.mem_iter.mp in_map, rfl⟩
  · rw [← foldl_map (g := HashedSet.insert)]
    exact mem_foldl_insert.mpr (.inl old)
  · have made : RejectionOption.mk entry.2 (remainingConflicts option.remainingConflictsMap
        entry.2) ∈ gatherRejOptions option.remainingConflictsMap :=
      mem_ofList.mpr ⟨_, mem_map_of_mem (HashedMap.mem_iter.mpr present), BEq.rfl⟩
    obtain ⟨kept, listed, same⟩ := mem_iff.mp made
    rw [← foldl_map (g := HashedSet.insert)]
    refine mem_foldl_insert.mpr (.inr ⟨_, mem_map_of_mem (mem_iter.mpr listed), ?_⟩)
    refine beq_iff.mpr fun a => ?_
    rw [RejectionOption.reject, mem_addAll, mem_addAll, beq_iff.mp same a]

variable {good : RejectionOption A → Prop}

/-- What holds of the sets that were found and of the options to continue. -/
structure Round (good : RejectionOption A → Prop) (bound : Nat)
    (state : HashableSet (HashableSet A) × HashableSet (RejectionOption A)) : Prop where
  found : ∀ rejected ∈ state.1.elements, ∃ option, good option ∧
    option.remainingConflictsMap.entries = [] ∧ option.rejectedSoFar = rejected
  continued : ∀ option ∈ state.2.elements, good option ∧
    option.remainingConflictsMap.entries.length < bound

def nextRound (state : HashableSet (HashableSet A) × HashableSet (RejectionOption A)) :
    HashableSet (HashableSet A) × HashableSet (RejectionOption A) :=
  state.2.iter.foldl expandOption (state.1, .empty)

theorem nextRound_empty (result : HashableSet (HashableSet A)) :
    nextRound (result, .empty) = (result, .empty) := by
  have nothing : (empty : HashableSet (RejectionOption A)).iter = [] :=
    eq_nil_iff_forall_not_mem.mpr fun option listed => by cases mem_iter.mp listed
  rw [nextRound, nothing, List.foldl_nil]

theorem rejectionRounds_eq {current : HashableSet (RejectionOption A)} (fuel : Nat) :
    rejectionRounds fuel current result = (nextRound^[fuel] (result, current)).1 := by
  induction fuel generalizing result current with
  | zero => rfl
  | succ fuel ih =>
    rw [rejectionRounds]
    split_ifs with none_left
    · rw [eq_empty none_left, Function.iterate_fixed (nextRound_empty result)]
    · exact ih

variable (next : ∀ option, good option → ∀ entry ∈ option.remainingConflictsMap.entries,
  good (option.reject entry))

include next

theorem Round.expand (round : Round good bound state) (is_good : good option)
    (bounded : option.remainingConflictsMap.entries.length < bound + 1) :
    Round good bound (expandOption state option) := by
  by_cases resolved : option.remainingConflictsMap.entries = []
  · rw [expandOption, if_pos (List.isEmpty_iff.mpr resolved)]
    refine ⟨fun rejected present => ?_, round.continued⟩
    rcases mem_elements_insert present with old | rfl
    · exact round.found rejected old
    · exact ⟨option, is_good, resolved, rfl⟩
  · obtain ⟨same, made, -⟩ := expandOption_unresolved state resolved
    refine ⟨by rw [same]; exact round.found, fun new present => ?_⟩
    rcases made new present with old | ⟨entry, in_map, rfl⟩
    · exact round.continued new old
    · exact ⟨next option is_good entry in_map,
        (length_remainingConflicts in_map).trans_le (Nat.lt_succ_iff.mp bounded)⟩

theorem Round.nextRound (round : Round good (bound + 1) state) :
    Round good bound (nextRound state) := by
  refine foldlRecOn (motive := Round good bound) _ _
    ⟨round.found, fun _ none => by cases none⟩ fun state so_far option present => ?_
  obtain ⟨is_good, bounded⟩ := round.continued option (mem_iter.mp present)
  exact so_far.expand next is_good bounded

/-- After as many rounds as conflicts can remain there is nothing to continue. -/
theorem Round.ended (round : Round good bound state) :
    Round good 0 (Merger.nextRound^[bound] state) ∧
      Merger.nextRound^[bound] state = (rejectionRounds bound state.2 state.1, .empty) := by
  have ended : Round good 0 (Merger.nextRound^[bound] state) := by
    induction bound generalizing state with
    | zero => exact round
    | succ bound ih => exact ih (round.nextRound next)
  refine ⟨ended, Prod.ext (rejectionRounds_eq bound).symm (eq_empty ?_)⟩
  rw [isEmpty, List.isEmpty_iff, eq_nil_iff_forall_not_mem]
  intro option present
  exact absurd (ended.continued option present).2 (Nat.not_lt_zero _)

variable {inside : HashableSet A → Prop}

/-- A set with the property was found, or is to be continued. -/
def Holding (inside : HashableSet A → Prop)
    (state : HashableSet (HashableSet A) × HashableSet (RejectionOption A)) : Prop :=
  (∃ rejected ∈ state.1, inside rejected) ∨ ∃ option ∈ state.2, inside option.rejectedSoFar

omit next in
theorem Holding.expand (holding : Holding inside state) (option : RejectionOption A) :
    Holding inside (expandOption state option) := by
  by_cases resolved : option.remainingConflictsMap.entries = []
  · rw [expandOption, if_pos (List.isEmpty_iff.mpr resolved)]
    exact holding.imp_left fun ⟨rejected, found, has⟩ =>
      ⟨rejected, mem_insert.mpr (.inr found), has⟩
  · obtain ⟨same, -, kept, -⟩ := expandOption_unresolved state resolved
    exact holding.imp (by rw [same]; exact id)
      fun ⟨option, present, has⟩ => ⟨option, kept option present, has⟩

variable (congr : ∀ r s : HashableSet A, (r == s) = true → inside r → inside s)
  (reach : ∀ option, good option → inside option.rejectedSoFar →
    option.remainingConflictsMap.entries ≠ [] →
    ∃ entry ∈ option.remainingConflictsMap.entries, inside (option.reject entry).rejectedSoFar)

include congr reach

omit next in
theorem Holding.nextRound (round : Round good bound state) (holding : Holding inside state) :
    Holding inside (nextRound state) := by
  rcases holding with found | ⟨option, present, has⟩
  · exact foldlRecOn (motive := Holding inside) _ _ (.inl found)
      fun _ so_far option _ => so_far.expand option
  · obtain ⟨kept, listed, same⟩ := mem_iff.mp present
    have kept_has := congr _ _ same has
    obtain ⟨before, after, iterated⟩ := List.append_of_mem (mem_iter.mpr listed)
    rw [Merger.nextRound, iterated, foldl_append, foldl_cons]
    refine foldlRecOn (motive := Holding inside) _ _ ?_
      fun _ so_far option _ => so_far.expand option
    by_cases resolved : kept.remainingConflictsMap.entries = []
    · rw [expandOption, if_pos (List.isEmpty_iff.mpr resolved)]
      exact .inl ⟨_, mem_insert.mpr (.inl BEq.rfl), kept_has⟩
    · obtain ⟨entry, in_map, reached⟩ :=
        reach kept (round.continued kept listed).1 kept_has resolved
      exact .inr ⟨_, (expandOption_unresolved _ resolved).2.2.2 entry in_map, reached⟩

/-- Options with a property that can be kept lead to a set with that property. -/
theorem rejectionRounds_holding (round : Round good bound (result, current))
    (holding : Holding inside (result, current)) :
    ∃ rejected ∈ rejectionRounds bound current result, inside rejected := by
  rw [rejectionRounds_eq]
  induction bound generalizing result current with
  | zero =>
    refine holding.resolve_right fun ⟨option, present, _⟩ => ?_
    obtain ⟨kept, listed, -⟩ := mem_iff.mp present
    exact absurd (round.continued kept listed).2 (Nat.not_lt_zero _)
  | succ bound ih => exact ih (round.nextRound next) (holding.nextRound congr reach round)

end Rounds

section Options

section

variable (conflictMap : RelationMap A)

/-- The keys that have conflicts. -/
def conflictsOnly : RelationMap A :=
  conflictMap.filterMapValues fun _ conflicts =>
    if conflicts.isEmpty then none else some conflicts

def startOption : RejectionOption A :=
  ⟨.empty, conflictsOnly conflictMap⟩

omit [HashMapOrder] in
theorem relates_conflictsOnly (a b : A) :
    Relates (conflictsOnly conflictMap) a b ↔ Relates conflictMap a b := by
  rw [Relates, Relates, conflictsOnly, get?_filterMapValues fun _ _ _ => rfl]
  cases conflictMap.get? a with
  | none => simp
  | some conflicts =>
    rw [bind_some]
    split_ifs with none_left
    · have absent := isEmpty_iff.mp none_left b
      simp [absent]
    · rfl

omit [HashMapOrder] in
theorem rejecting_start : Rejecting conflictMap (startOption conflictMap) :=
  ⟨fun a b => by simp [startOption, relates_conflictsOnly, not_mem_empty],
    fun b member => absurd member (not_mem_empty b)⟩

end

omit [HashMapOrder] in
theorem round_start {good : RejectionOption A → Prop} (start : good (startOption conflictMap)) :
    Round good ((conflictsOnly conflictMap).entries.length + 2)
      (.empty, empty.insert (startOption conflictMap)) := by
  refine ⟨fun _ none => (by cases none), fun option present => ?_⟩
  rcases mem_elements_insert present with none | rfl
  · cases none
  · exact ⟨start, Nat.lt_add_of_pos_right (by decide)⟩

omit [HashMapOrder] in
theorem holding_start (inside : HashableSet A → Prop) (conflictMap : RelationMap A)
    (start : inside .empty) :
    Holding inside (.empty, empty.insert (startOption conflictMap)) :=
  .inr ⟨startOption conflictMap, mem_insert.mpr (.inl BEq.rfl), start⟩

/-- Given a conflicts map, there are options to resolve it, and each of them does. -/
theorem computeRejectionOptions_complete (conflictMap : RelationMap A) :
    (∀ rejected ∈ (computeRejectionOptions conflictMap).elements,
      Complete conflictMap rejected) ∧ (computeRejectionOptions conflictMap).elements ≠ [] := by
  have next (option) (rejecting : Rejecting conflictMap option) (entry)
      (present : entry ∈ option.remainingConflictsMap.entries) := rejecting.reject present
  have round := round_start (rejecting_start conflictMap)
  constructor
  · intro rejected present
    obtain ⟨ended, result_eq⟩ := round.ended next
    obtain ⟨option, rejecting, resolved, rfl⟩ :=
      ended.found rejected (by rw [result_eq]; exact present)
    exact rejecting.complete resolved
  · have holding := holding_start (fun _ => True) conflictMap trivial
    obtain ⟨rejected, present, -⟩ := rejectionRounds_holding next (fun _ _ _ => id)
      (fun option _ _ unresolved => (exists_mem_of_ne_nil _ unresolved).imp
        fun entry present => ⟨present, trivial⟩) round holding
    obtain ⟨kept, listed, -⟩ := mem_iff.mp present
    exact ne_nil_of_mem listed

end Options

section Mutual

variable (symmetric : ∀ a b, Relates conflicts a b → Relates conflicts b a)

/-- Each rejected item is in conflict with one that is kept whatever is rejected later. -/
structure Settled (conflicts : RelationMap A) (option : RejectionOption A) : Prop
    extends Rejecting conflicts option where
  settled : ∀ b ∈ option.rejectedSoFar, ∃ a, Relates conflicts a b ∧
    a ∉ option.rejectedSoFar ∧ ∀ c, ¬Relates option.remainingConflictsMap a c

/-- Of every two items in conflict one is rejected, and each rejected item is in conflict with
one that is kept. -/
structure MinimalCover (conflicts : RelationMap A) (rejected : HashableSet A) : Prop where
  covers : ∀ a b, Relates conflicts a b → a ∈ rejected ∨ b ∈ rejected
  needed : ∀ b ∈ rejected, ∃ a, Relates conflicts a b ∧ a ∉ rejected

/-- Keys of the map no two of which are in conflict. -/
def NonConflicting (conflicts : RelationMap A) (kept : Set A) : Prop :=
  ∀ a ∈ kept, (conflicts.get? a).isSome = true ∧ ∀ b ∈ kept, ¬Relates conflicts a b

include symmetric

theorem Settled.reject (irreflexive : ∀ a, ¬Relates conflicts a a)
    (settled : Settled conflicts option) (present : entry ∈ option.remainingConflictsMap.entries) :
    Settled conflicts (option.reject entry) := by
  have at_key (b : A) : Relates option.remainingConflictsMap entry.1 b ↔ b ∈ entry.2 := by
    simp [Relates, get?_of_mem present]
  refine ⟨settled.toRejecting.reject present, fun b rejected => ?_⟩
  simp only [RejectionOption.reject, relates_remainingConflicts, mem_addAll, not_or] at rejected ⊢
  rcases rejected with new | old
  · obtain ⟨related, kept, -⟩ := (settled.remaining _ _).mp ((at_key b).mpr new)
    refine ⟨entry.1, related, ⟨fun own => ?_, kept⟩, fun c still => ?_⟩
    · exact irreflexive _ ((settled.remaining _ _).mp ((at_key _).mpr own)).1
    · exact still.2.2 ((at_key c).mp still.1)
  · obtain ⟨a, related, kept, free⟩ := settled.settled b old
    refine ⟨a, related, ⟨fun new => ?_, kept⟩, fun c still => free c still.1⟩
    obtain ⟨key_related, key_kept, -⟩ := (settled.remaining _ _).mp ((at_key a).mpr new)
    exact free entry.1 ((settled.remaining _ _).mpr ⟨symmetric _ _ key_related, kept, key_kept⟩)

omit [EquivBEq A] [HashMapOrder] in
theorem minimalCover_iff_maximal (irreflexive : ∀ a, ¬Relates conflicts a a) :
    MinimalCover conflicts rejected ↔
      (∀ a ∈ rejected, (conflicts.get? a).isSome) ∧ Maximal (NonConflicting conflicts)
        {a | (conflicts.get? a).isSome ∧ a ∉ rejected} := by
  have is_key (a b : A) (related : Relates conflicts a b) : (conflicts.get? a).isSome :=
    isSome_iff_exists.mpr ⟨_, related.choose_spec.1⟩
  constructor
  · rintro ⟨covers, needed⟩
    refine ⟨fun b member => ?_, fun a kept => ⟨kept.1, fun b b_kept related => ?_⟩, ?_⟩
    · obtain ⟨a, related, -⟩ := needed b member
      exact is_key b a (symmetric a b related)
    · exact (covers a b related).elim kept.2 b_kept.2
    · intro larger independent subset b member
      refine ⟨(independent b member).1, fun in_rejected => ?_⟩
      obtain ⟨a, related, kept⟩ := needed b in_rejected
      exact (independent a (subset ⟨is_key a b related, kept⟩)).2 b member related
  · rintro ⟨keys, independent, maximal⟩
    refine ⟨fun a b related => ?_, fun b member => ?_⟩
    · by_contra kept
      obtain ⟨a_kept, b_kept⟩ := not_or.mp kept
      exact (independent a ⟨is_key a b related, a_kept⟩).2 b
        ⟨is_key b a (symmetric a b related), b_kept⟩ related
    · -- without a conflict among the kept ones the item could be kept as well
      by_contra! free
      have added : NonConflicting conflicts
          (insert b {a | (conflicts.get? a).isSome ∧ a ∉ rejected}) := by
        rintro a (rfl | kept)
        · refine ⟨keys a member, ?_⟩
          rintro c (rfl | kept) related
          · exact irreflexive c related
          · exact kept.2 (free c (symmetric a c related))
        · refine ⟨kept.1, ?_⟩
          rintro c (rfl | c_kept) related
          · exact kept.2 (free a related)
          · exact (independent a kept).2 c c_kept related
      exact (maximal added (Set.subset_insert _ _) (Set.mem_insert _ _)).2 member

/-- The rejection options of mutual conflicts: after some rounds nothing is left to continue, and
the options found by then are the sets of keys without which the keys are a maximal set without
a conflict. -/
theorem computeRejectionOptions_maximal (irreflexive : ∀ a, ¬Relates conflicts a a) :
    (∃ rounds, nextRound^[rounds] (.empty, empty.insert (startOption conflicts)) =
      (computeRejectionOptions conflicts, .empty)) ∧
    ∀ rejected, rejected ∈ computeRejectionOptions conflicts ↔
      (∀ a ∈ rejected, (conflicts.get? a).isSome = true) ∧ Maximal (NonConflicting conflicts)
        {a | (conflicts.get? a).isSome = true ∧ a ∉ rejected} := by
  have next (option) (settled : Settled conflicts option) (entry)
      (present : entry ∈ option.remainingConflictsMap.entries) :=
    settled.reject symmetric irreflexive present
  have start : Settled conflicts (startOption conflicts) :=
    ⟨rejecting_start conflicts, fun b member => absurd member (not_mem_empty b)⟩
  obtain ⟨ended, result_eq⟩ := (round_start start).ended next
  refine ⟨⟨_, result_eq⟩, fun rejected => ?_⟩
  rw [← minimalCover_iff_maximal symmetric irreflexive]
  have sound (found) (present : found ∈ computeRejectionOptions conflicts) :
      MinimalCover conflicts found := by
    obtain ⟨kept, listed, same⟩ := mem_iff.mp present
    obtain ⟨option, settled, resolved, rfl⟩ :=
      ended.found kept (by rw [result_eq]; exact listed)
    have mem_found := beq_iff.mp same
    refine ⟨fun a b related => ?_, fun b member => ?_⟩
    · rw [mem_found, mem_found]
      exact (settled.complete resolved).covers a b related
    · obtain ⟨a, related, a_kept, -⟩ := settled.settled b ((mem_found b).mp member)
      exact ⟨a, related, mt (mem_found a).mp a_kept⟩
  refine ⟨sound rejected, fun cover => ?_⟩
  -- some option rejects no other item than these
  suffices reached : ∃ found ∈ computeRejectionOptions conflicts, ∀ a ∈ found, a ∈ rejected by
    obtain ⟨found, present, within⟩ := reached
    refine (mem_congr (beq_iff.mpr fun b => ⟨fun member => ?_, within b⟩)).mpr present
    obtain ⟨a, related, kept⟩ := cover.needed b member
    exact ((sound found present).covers a b related).resolve_left fun rejected =>
      kept (within a rejected)
  refine rejectionRounds_holding next
    (fun r s same within a member => within a ((beq_iff.mp same a).mpr member)) ?_
    (round_start start) (holding_start _ conflicts fun a none => absurd none (not_mem_empty a))
  intro option settled within unresolved
  obtain ⟨entry, in_map⟩ := exists_mem_of_ne_nil _ unresolved
  have rejects (entry) (all : ∀ a ∈ entry.2, a ∈ rejected) :
      ∀ a ∈ (option.reject entry).rejectedSoFar, a ∈ rejected :=
    fun a member => (mem_addAll.mp member).elim (all a) (within a)
  by_cases all : ∀ a ∈ entry.2, a ∈ rejected
  · exact ⟨entry, in_map, rejects entry all⟩
  · -- an item in conflict with this key that is not to be rejected is kept
    push Not at all
    obtain ⟨b, conflicting, b_kept⟩ := all
    obtain ⟨related, key_kept, kept⟩ :=
      (settled.remaining _ _).mp ⟨_, get?_of_mem in_map, conflicting⟩
    obtain ⟨others, found, -⟩ :=
      (settled.remaining _ _).mpr ⟨symmetric _ _ related, kept, key_kept⟩
    obtain ⟨key, listed, same⟩ := get?_eq_some_iff.mp found
    refine ⟨_, listed, rejects _ fun c member => ?_⟩
    have c_related := ((settled.remaining b c).mp ⟨others, found, member⟩).1
    exact (cover.covers b c c_related).resolve_left b_kept

end Mutual

end

attribute [local instance] storedOrder

def conflictingPair : RelationMap Bool :=
  ⟨[(true, ⟨[false], by decide⟩), (false, ⟨[true], by decide⟩)], by decide⟩

theorem computeRejectionOptions_maximal_pair :
    Maximal (NonConflicting conflictingPair)
      {a | (conflictingPair.get? a).isSome = true ∧ a ∉ HashedSet.empty.insert true} := by
  have found : HashedSet.empty.insert true ∈ computeRejectionOptions conflictingPair := by decide
  have differ (a b : Bool) (related : Relates conflictingPair a b) : b = !a := by
    obtain ⟨others, found, member⟩ := related
    cases a <;> cases found <;> cases b <;> first | rfl | cases member
  refine (((computeRejectionOptions_maximal (fun a b related => ?_) fun a related => ?_).2 _).mp
    found).2
  · rw [differ a b related]
    cases a
    · exact ⟨_, rfl, rfl⟩
    · exact ⟨_, rfl, rfl⟩
  · cases a <;> cases differ _ _ related

end F1r3fly.RSpace.Merger
