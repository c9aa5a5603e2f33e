import F1r3fly.RSpace.Merger.MergingLogic

/-! The relations found through the indexes are those of the predicates on pairs. -/
namespace F1r3fly.RSpace.Merger

open HashedMap HashedSet InvertedIndex RelationMap

section Positions

variable {α : Type} {items : List α} {p q : α → α → Prop}

/-- Different positions of the list hold items in the relation. -/
def PairAt (items : List α) (i j : Nat) (related : α → α → Prop) : Prop :=
  i ≠ j ∧ ∃ a b, items[i]? = some a ∧ items[j]? = some b ∧ related a b

theorem pairAt_or : PairAt items i j p ∨ PairAt items i j q ↔
    PairAt items i j fun a b => p a b ∨ q a b := by
  simp only [PairAt, and_or_left, exists_or]

theorem pairAt_congr (same : ∀ a ∈ items, ∀ b ∈ items, (p a b ↔ q a b)) :
    PairAt items i j p ↔ PairAt items i j q := by
  refine and_congr_right fun _ => exists₂_congr fun a b => ?_
  rw [← and_assoc, ← and_assoc]
  exact and_congr_right fun ⟨at_i, at_j⟩ =>
    same a (mem_of_getElem? at_i) b (mem_of_getElem? at_j)

end Positions

section RelationMaps

variable {R : Type} [BEq R] [EquivBEq R]

theorem isSome_get?_update {map : RelationMap R} :
    ((map.update a change).get? x).isSome = (map.get? x).isSome := by
  rw [get?_update]
  split
  · rw [Option.isSome_map]
  · rfl

theorem relates_update {a b x y : R} :
    Relates (map.update a fun related => related.insert b) x y ↔
      Relates map x y ∨ x == a ∧ y == b ∧ (map.get? x).isSome := by
  rw [Relates, Relates, get?_update]
  cases found : map.get? x with
  | none => split <;> simp
  | some related =>
    split_ifs with same
    · simp only [map_some, Option.some.injEq, exists_eq_left', mem_insert, same,
        isSome_some, and_true, true_and]
      exact or_comm
    · simp [same]

theorem relates_relate {map : RelationMap R} (first : (map.get? a).isSome)
    (second : (map.get? b).isSome) :
    Relates (map.relate a b) x y ↔ Relates map x y ∨ x == a ∧ y == b ∨ x == b ∧ y == a := by
  rw [relate, relates_update, relates_update, isSome_get?_update, or_assoc]
  apply or_congr_right
  constructor
  · rintro (⟨left, right, -⟩ | ⟨left, right, -⟩)
    · exact .inl ⟨left, right⟩
    · exact .inr ⟨left, right⟩
  · rintro (⟨left, right⟩ | ⟨left, right⟩)
    · exact .inl ⟨left, right, by rw [get?_congr left, first]⟩
    · exact .inr ⟨left, right, by rw [get?_congr left, second]⟩

theorem relates_relateAll {branches : List R}
    (keys : ∀ branch ∈ branches, (map.get? branch).isSome)
    (range : ∀ pair ∈ pairs, pair.1 < branches.length ∧ pair.2 < branches.length) :
    ∃ final, relateAll branches map pairs = some final ∧ ∀ x y,
      Relates final x y ↔ Relates map x y ∨ ∃ pair ∈ pairs, ∃ a b, branches[pair.1]? = some a ∧
        branches[pair.2]? = some b ∧ (x == a ∧ y == b ∨ x == b ∧ y == a) := by
  induction pairs generalizing map with
  | nil => exact ⟨map, rfl, by simp⟩
  | cons pair rest ih =>
    obtain ⟨first_range, second_range⟩ := range pair (.head _)
    have first_key := keys _ (getElem_mem first_range)
    have second_key := keys _ (getElem_mem second_range)
    have first_at := getElem?_eq_getElem first_range
    have second_at := getElem?_eq_getElem second_range
    have still_keys : ∀ branch ∈ branches,
        ((map.relate branches[pair.1] branches[pair.2]).get? branch).isSome := by
      intro branch present
      rw [relate, isSome_get?_update, isSome_get?_update, keys branch present]
    obtain ⟨final, computed, related⟩ := ih still_keys
      fun other present => range other (.tail pair present)
    refine ⟨final, ?_, fun x y => ?_⟩
    · rw [relateAll, foldlM_cons, first_at, second_at]
      exact computed
    · rw [related, relates_relate first_key second_key, or_assoc, exists_mem_cons_iff,
        first_at, second_at]
      simp

theorem unrelated_spec (branches : List R) :
    (∀ branch ∈ branches, ((unrelated branches).get? branch).isSome) ∧
      ∀ x y, ¬Relates (unrelated branches) x y := by
  have get_eq (key : R) : (unrelated branches).get? key =
      if branches.any (key == ·) then some .empty else none :=
    get?_insertAll_map HashedSet.empty
  constructor
  · intro branch present
    rw [get_eq, if_pos (any_eq_true.mpr ⟨branch, present, BEq.rfl⟩), isSome_some]
  · rintro x y ⟨related, found, member⟩
    rw [get_eq] at found
    split at found
    · cases found
      exact not_mem_empty y member
    · cases found

/-- When the linked positions are those of event logs in a relation, the branches at two
positions are related exactly when their event logs are. -/
theorem relationMapEventIndexed_iff {related : EventLogIndex → EventLogIndex → Prop}
    (distinct : branches.Pairwise fun a b => (a == b) = false)
    (parallel : branches.length = eventLogs.length)
    (linked_iff : ∀ i j, Linked (pairs eventLogs) i j ↔ PairAt eventLogs i j related) :
    ∃ map, relationMapEventIndexed pairs branches eventLogs = some map ∧
      ∀ (i j : Nat) (a b : R) (logA logB : EventLogIndex),
        branches[i]? = some a → branches[j]? = some b → eventLogs[i]? = some logA →
        eventLogs[j]? = some logB → i ≠ j → (Relates map a b ↔ related logA logB) := by
  have position {i k : Nat} {a c : R} (at_i : branches[i]? = some a) (at_k : branches[k]? = some c)
      (same : a == c) : i = k := by
    obtain ⟨i_range, rfl⟩ := getElem?_eq_some_iff.mp at_i
    obtain ⟨k_range, rfl⟩ := getElem?_eq_some_iff.mp at_k
    rcases Nat.lt_trichotomy i k with before | equal | after
    · rw [List.pairwise_iff_getElem.mp distinct i k i_range k_range before] at same
      cases same
    · exact equal
    · have apart := List.pairwise_iff_getElem.mp distinct k i k_range i_range after
      rw [BEq.symm_false apart] at same
      cases same
  have range : ∀ pair ∈ pairs eventLogs, pair.1 < branches.length ∧ pair.2 < branches.length := by
    intro pair present
    obtain ⟨-, a, b, at_i, at_j, -⟩ := (linked_iff pair.1 pair.2).mp (.inl present)
    rw [parallel]
    exact ⟨(getElem?_eq_some_iff.mp at_i).1, (getElem?_eq_some_iff.mp at_j).1⟩
  obtain ⟨keys, unrelated⟩ := unrelated_spec branches
  rw [relationMapEventIndexed, if_neg (not_not.mpr parallel)]
  by_cases small : branches.length < 2
  · rw [if_pos small]
    refine ⟨_, rfl, ?_⟩
    intro i j a b logA logB at_a at_b at_i at_j apart
    have i_range := (getElem?_eq_some_iff.mp at_a).1
    have j_range := (getElem?_eq_some_iff.mp at_b).1
    omega
  · rw [if_neg small]
    obtain ⟨map, computed, relates⟩ := relates_relateAll keys range
    refine ⟨map, computed, ?_⟩
    intro i j a b logA logB at_a at_b at_i at_j apart
    have linked_eq := linked_iff i j
    simp only [PairAt, at_i, at_j, ne_eq, apart, not_false_eq_true, Option.some.injEq,
      exists_and_left, exists_eq_left', true_and] at linked_eq
    rw [relates, ← linked_eq]
    constructor
    · rintro (before | ⟨pair, present, c, d, at_k, at_l, ⟨left, right⟩ | ⟨left, right⟩⟩)
      · exact absurd before (unrelated a b)
      · rw [position at_a at_k left, position at_b at_l right]
        exact .inl present
      · rw [position at_a at_l left, position at_b at_k right]
        exact .inr present
    · rintro (present | present)
      · exact .inr ⟨_, present, a, b, at_a, at_b, .inl ⟨BEq.rfl, BEq.rfl⟩⟩
      · exact .inr ⟨_, present, b, a, at_b, at_a, .inr ⟨BEq.rfl, BEq.rfl⟩⟩

end RelationMaps

section Dependencies

theorem depends_iff :
    depends target source ↔
      (∃ p ∈ producesCreatedAndNotDestroyed source,
        p ∈ target.producesConsumed ∧ p ∉ source.producesMergeable) ∨
      ∃ c ∈ consumesCreatedAndNotDestroyed source, c ∈ target.consumesProduced := by
  simp only [depends, or_eq_true, not_eq_true', ← not_eq_true,
    HashedSet.isEmpty_iff, HashedSet.mem_intersection, HashedSet.mem_difference, not_forall,
    not_not]
  apply or_congr
  · apply exists_congr
    intro p
    tauto
  · rfl

theorem mem_dependableProduces :
    (∃ q ∈ dependableProduces e, p == q) ↔
      p ∈ producesCreatedAndNotDestroyed e ∧ p ∉ e.producesMergeable := by
  have congr (s : HashableSet Produce) {q : Produce} (same : p == q) :
      (s.contains q = false) ↔ p ∉ s := by
    rw [← not_eq_true, contains_iff, mem_congr same]
  simp only [dependableProduces, mem_append, mem_filter, and_eq_true,
    not_eq_true', mem_producesCreatedAndNotDestroyed, mem_iff (s := e.producesLinear),
    mem_iff (s := e.producesPersistent)]
  constructor
  · rintro ⟨q, ⟨present, ⟨unconsumed, uncopied⟩, plain⟩ | ⟨present, uncopied, plain⟩, same⟩
    · rw [congr _ same] at unconsumed uncopied plain
      exact ⟨⟨.inl ⟨⟨q, present, same⟩, unconsumed⟩, uncopied⟩, plain⟩
    · rw [congr _ same] at uncopied plain
      exact ⟨⟨.inr ⟨q, present, same⟩, uncopied⟩, plain⟩
  · rintro ⟨⟨⟨⟨q, present, same⟩, unconsumed⟩ | ⟨q, present, same⟩, uncopied⟩, plain⟩
    · rw [← congr _ same] at unconsumed uncopied plain
      exact ⟨q, .inl ⟨present, ⟨unconsumed, uncopied⟩, plain⟩, same⟩
    · rw [← congr _ same] at uncopied plain
      exact ⟨q, .inr ⟨present, uncopied, plain⟩, same⟩

theorem mem_dependableConsumes :
    (∃ d ∈ dependableConsumes e, c == d) ↔ c ∈ consumesCreatedAndNotDestroyed e := by
  rw [mem_consumesCreatedAndNotDestroyed]
  simp only [dependableConsumes, mem_append, mem_filter, not_eq_true', beq_iff_eq,
    exists_eq_right', mem_iff (s := e.consumesLinearAndPeeks),
    mem_iff (s := e.consumesPersistent), ← not_eq_true, contains_iff]

/-- Two positions share a key of the first kind at one and of the second kind at the other. -/
theorem linked_crossPairs_build {K Record : Type} [BEq K] [EquivBEq K]
    {sourcesOf targetsOf : Record → List K} {records : List Record} :
    Linked (crossPairs (build sourcesOf records) (build targetsOf records)) i j ↔
      PairAt records i j fun a b =>
        ∃ key, (∃ k ∈ sourcesOf a, key == k) ∧ (∃ k ∈ targetsOf b, key == k) ∨
          (∃ k ∈ sourcesOf b, key == k) ∧ ∃ k ∈ targetsOf a, key == k := by
  rw [linked_crossPairs]
  apply and_congr_right
  intro apart
  simp only [holds_build]
  cases records[i]? with
  | none => simp
  | some a =>
    cases records[j]? with
    | none => simp
    | some b => simp

theorem linked_dependsPairs {eventLogs : List EventLogIndex} {i j : Nat} :
    Linked (dependsPairs eventLogs) i j ↔
      PairAt eventLogs i j fun a b => depends a b ∨ depends b a := by
  rw [dependsPairs, linked_append, linked_crossPairs_build, linked_crossPairs_build, pairAt_or]
  refine pairAt_congr fun a _ b _ => ?_
  simp only [mem_dependableProduces, mem_dependableConsumes, ← mem_iff, depends_iff, exists_or,
    and_right_comm, and_assoc]
  exact or_or_or_comm.trans or_comm

variable {R : Type} [BEq R] [EquivBEq R]

/-- The dependencies found through the indexes are those of the event logs, in one
direction or the other. -/
theorem computeDependsMapEventIndexed_iff (branches : List R) (eventLogs : List EventLogIndex)
    (distinct : branches.Pairwise fun a b => (a == b) = false)
    (parallel : branches.length = eventLogs.length) :
    ∃ map, computeDependsMapEventIndexed branches eventLogs = some map ∧
      ∀ (i j : Nat) (a b : R) (logA logB : EventLogIndex),
        branches[i]? = some a → branches[j]? = some b → eventLogs[i]? = some logA →
        eventLogs[j]? = some logB → i ≠ j →
        (Relates map a b ↔ depends logA logB = true ∨ depends logB logA = true) :=
  relationMapEventIndexed_iff distinct parallel fun _ _ => linked_dependsPairs

end Dependencies

section Samples

def sampleLinearProduce : Produce := ⟨[9], [1], false, true, [], false⟩

def sampleProducingLog : EventLogIndex :=
  { EventLogIndex.empty with producesLinear := ⟨[sampleLinearProduce], by decide⟩ }

def sampleConsumingLog : EventLogIndex :=
  { EventLogIndex.empty with producesConsumed := ⟨[sampleLinearProduce], by decide⟩ }

theorem depends_map_relates_consumer_and_producer :
    ∃ map, computeDependsMapEventIndexed [0, 1] [sampleProducingLog, sampleConsumingLog] =
      some map ∧ Relates map 0 1 := by
  obtain ⟨map, computed, related⟩ := computeDependsMapEventIndexed_iff
    ([0, 1] : List Nat)
    [sampleProducingLog, sampleConsumingLog] (by decide) rfl
  refine ⟨map, computed, ?_⟩
  exact (related 0 1 0 1 _ _ rfl rfl rfl rfl (by decide)).mpr (.inr (by decide))

end Samples

section Conflicts

def EventLogIndex.produces (e : EventLogIndex) : List Produce :=
  e.producesLinear.elements ++ e.producesPersistent.elements ++ e.producesConsumed.elements ++
    e.producesPeeked.elements ++ e.producesCopiedByPeek.elements ++
    e.producesTouchingBaseJoins.elements ++ e.producesMergeable.elements

def EventLogIndex.consumes (e : EventLogIndex) : List Consume :=
  e.consumesLinearAndPeeks.elements ++ e.consumesPersistent.elements ++
    e.consumesProduced.elements ++ e.consumesMergeable.elements

/-- Produces with the same hash have the same channel and persistence. -/
def ProducesAgree (eventLogs : List EventLogIndex) : Prop :=
  ∀ p ∈ eventLogs.flatMap (·.produces), ∀ q ∈ eventLogs.flatMap (·.produces),
    p.hash = q.hash → p.channelHash = q.channelHash ∧ p.persistent = q.persistent

def ConsumesHaveChannels (eventLogs : List EventLogIndex) : Prop :=
  ∀ c ∈ eventLogs.flatMap (·.consumes), c.channelHashes ≠ []

/-- A race found through the indexes is one of the two event logs, when the events that
are not told apart agree on their persistence. -/
theorem linked_racePairs {E : Type} [BEq E] [EquivBEq E]
    {destroyedOf mergeableOf : EventLogIndex → HashableSet E} {persistent : E → Bool}
    (agree : ∀ e ∈ eventLogs, ∀ e' ∈ eventLogs, ∀ p ∈ (destroyedOf e).elements,
      ∀ q ∈ (destroyedOf e').elements, p == q → persistent p = persistent q) :
    Linked (racePairs (build (fun e => (destroyedOf e).elements) eventLogs)
        (build (fun e => (mergeableOf e).elements) eventLogs) persistent) i j ↔
      PairAt eventLogs i j fun a b => (races (destroyedOf a) (destroyedOf b) (mergeableOf a)
        (mergeableOf b) persistent).elements ≠ [] := by
  have holds_iff (setOf : EventLogIndex → HashableSet E) {e : EventLogIndex} {n : Nat}
      (at_n : eventLogs[n]? = some e) (event : E) :
      Holds (build (fun e => (setOf e).elements) eventLogs) event n ↔ event ∈ setOf e := by
    rw [holds_build, mem_iff]
    simp [at_n]
  have exempt_iff (event : E) (a b : Nat) :
      (((build (fun e => (mergeableOf e).elements) eventLogs).get? event).map fun branches =>
        branches.contains a && branches.contains b).getD false = false ↔
      ¬(Holds (build (fun e => (mergeableOf e).elements) eventLogs) event a ∧
        Holds (build (fun e => (mergeableOf e).elements) eventLogs) event b) := by
    cases found : (build (fun e => (mergeableOf e).elements) eventLogs).get? event with
    | none => simp [Holds, found]
    | some branches => simp [Holds, found, ← contains_iff]
  have persistent_eq {a b : EventLogIndex} (at_i : eventLogs[i]? = some a)
      (at_j : eventLogs[j]? = some b) {kept event : E} (present : kept ∈
        (((destroyedOf a).intersection (destroyedOf b)).difference
          ((mergeableOf a).intersection (mergeableOf b))).elements)
      (indexed : event ∈ (build (fun e => (destroyedOf e).elements) eventLogs).keys)
      (same : kept == event) : persistent kept = persistent event := by
    obtain ⟨e, e_present, has_event⟩ := mem_keys_build indexed
    rcases mem_elements_intersection (mem_elements_difference present) with from_a | from_b
    · exact agree a (mem_of_getElem? at_i) e e_present kept from_a event has_event same
    · exact agree b (mem_of_getElem? at_j) e e_present kept from_b event has_event same
  rw [racePairs, linked_sharedPairs]
  swap
  · intro event a b
    simp only [Bool.and_comm]
  apply and_congr_right
  intro apart
  constructor
  · rintro ⟨event, numbers, present, has_i, has_j, lasting, unmergeable⟩
    have found := get?_of_mem present
    obtain ⟨a, at_i, -⟩ := holds_build.mp ⟨numbers, found, has_i⟩
    obtain ⟨b, at_j, -⟩ := holds_build.mp ⟨numbers, found, has_j⟩
    have in_a := (holds_iff destroyedOf at_i event).mp ⟨numbers, found, has_i⟩
    have in_b := (holds_iff destroyedOf at_j event).mp ⟨numbers, found, has_j⟩
    rw [exempt_iff, holds_iff mergeableOf at_i, holds_iff mergeableOf at_j] at unmergeable
    have raced : event ∈ ((destroyedOf a).intersection (destroyedOf b)).difference
        ((mergeableOf a).intersection (mergeableOf b)) := by
      rw [mem_difference, mem_intersection, mem_intersection]
      exact ⟨⟨in_a, in_b⟩, unmergeable⟩
    obtain ⟨kept, kept_present, same⟩ := mem_iff.mp raced
    -- The event in the index and the one that the sets keep need not be the same value.
    have kept_lasting : persistent kept = false := by
      rw [← lasting]
      exact persistent_eq at_i at_j kept_present (mem_keys.mpr ⟨numbers, present⟩) (BEq.symm same)
    refine ⟨a, b, at_i, at_j, ne_nil_of_mem (a := kept) ?_⟩
    exact mem_filter.mpr ⟨kept_present, by rw [kept_lasting]; rfl⟩
  · rintro ⟨a, b, at_i, at_j, raced⟩
    obtain ⟨kept, kept_present⟩ := exists_mem_of_ne_nil _ raced
    obtain ⟨difference_present, lasting⟩ := mem_filter.mp kept_present
    have member := mem_of_mem_elements difference_present
    rw [mem_difference, mem_intersection, mem_intersection] at member
    obtain ⟨⟨in_a, in_b⟩, unmergeable⟩ := member
    obtain ⟨numbers, found, has_i⟩ := (holds_iff destroyedOf at_i kept).mpr in_a
    obtain ⟨numbers', found', has_j⟩ := (holds_iff destroyedOf at_j kept).mpr in_b
    cases found.symm.trans found'
    obtain ⟨event, present, same⟩ := get?_eq_some_iff.mp found
    refine ⟨event, numbers, present, has_i, has_j, ?_, ?_⟩
    · rw [← persistent_eq at_i at_j difference_present (mem_keys.mpr ⟨numbers, present⟩) same]
      simpa using lasting
    · rw [exempt_iff, holds_iff mergeableOf at_i, holds_iff mergeableOf at_j,
        ← mem_congr same, ← mem_congr same]
      exact unmergeable

theorem mem_unconsumedProduceChannels (agree : ProducesAgree [e]) :
    channel ∈ unconsumedProduceChannels e ↔
      ∃ p ∈ (producesCreatedAndNotDestroyed e).elements, p.channelHash = channel := by
  have to_mem (s : HashableSet Produce) (p : Produce) : s.contains p = false ↔ p ∉ s := by
    rw [← not_eq_true, contains_iff]
  have mentioned {p : Produce}
      (present : p ∈ e.producesLinear.elements ∨ p ∈ e.producesPersistent.elements) :
      p ∈ [e].flatMap (·.produces) := by
    simp only [List.flatMap_singleton, EventLogIndex.produces, mem_append]
    tauto
  simp only [unconsumedProduceChannels, mem_append, mem_map, mem_filter,
    and_eq_true, not_eq_true', to_mem]
  constructor
  · -- The set may keep another produce with the same hash, which has the same channel.
    have kept_of {p : Produce} (member : p ∈ producesCreatedAndNotDestroyed e)
        (present : p ∈ e.producesLinear.elements ∨ p ∈ e.producesPersistent.elements) :
        ∃ q ∈ (producesCreatedAndNotDestroyed e).elements, q.channelHash = p.channelHash := by
      obtain ⟨q, q_present, same⟩ := mem_iff.mp member
      have q_mentioned := mentioned
        ((mem_elements_union (mem_elements_difference q_present)).imp_left mem_elements_difference)
      exact ⟨q, q_present,
        (agree p (mentioned present) q q_mentioned (Produce.beq_iff.mp same)).1.symm⟩
    rintro (⟨p, ⟨present, unconsumed, uncopied⟩, rfl⟩ | ⟨p, ⟨present, uncopied⟩, rfl⟩)
    · apply kept_of _ (.inl present)
      rw [mem_producesCreatedAndNotDestroyed]
      exact ⟨.inl ⟨mem_of_mem_elements present, unconsumed⟩, uncopied⟩
    · apply kept_of _ (.inr present)
      rw [mem_producesCreatedAndNotDestroyed]
      exact ⟨.inr (mem_of_mem_elements present), uncopied⟩
  · rintro ⟨p, present, rfl⟩
    obtain ⟨in_union, uncopied⟩ := mem_filter.mp present
    rw [not_eq_true', to_mem] at uncopied
    rcases mem_elements_union in_union with linear | persistent
    · obtain ⟨linear, unconsumed⟩ := mem_filter.mp linear
      rw [not_eq_true', to_mem] at unconsumed
      exact .inl ⟨p, ⟨linear, unconsumed, uncopied⟩, rfl⟩
    · exact .inr ⟨p, ⟨persistent, uncopied⟩, rfl⟩

theorem mem_unconsumedConsumeChannels :
    channel ∈ unconsumedConsumeChannels e ↔
      ∃ c ∈ (consumesCreatedAndNotDestroyed e).elements, channel ∈ c.channelHashes := by
  have mem_elements (c : Consume) : c ∈ (consumesCreatedAndNotDestroyed e).elements ↔
      c ∈ e.consumesLinearAndPeeks.elements ∧ c ∉ e.consumesProduced ∨
        c ∈ e.consumesPersistent.elements := by
    have lawful (s : HashableSet Consume) : c ∈ s ↔ c ∈ s.elements := by
      simp [mem_iff]
    rw [← lawful, mem_consumesCreatedAndNotDestroyed, lawful, lawful e.consumesPersistent]
  simp only [unconsumedConsumeChannels, mem_append, mem_flatMap, mem_filter,
    not_eq_true', ← not_eq_true, contains_iff, mem_elements, or_and_right,
    exists_or]

theorem potentialComms_ne_nil_iff (agree : ProducesAgree [left]) :
    potentialComms left right ≠ [] ↔
      ∃ channel, channel ∈ unconsumedProduceChannels left ∧
        channel ∈ unconsumedConsumeChannels right := by
  simp only [mem_unconsumedProduceChannels agree, mem_unconsumedConsumeChannels, potentialComms,
    ne_eq, List.flatMap_eq_nil_iff, List.map_eq_nil_iff, List.filter_eq_nil_iff, matchFound,
    List.contains_iff_mem, not_forall, not_not]
  constructor
  · rintro ⟨p, present, c, c_present, shared⟩
    exact ⟨p.channelHash, ⟨p, present, rfl⟩, c, c_present, shared⟩
  · rintro ⟨channel, ⟨p, present, rfl⟩, c, c_present, shared⟩
    exact ⟨p, present, c, c_present, shared⟩

theorem linked_globalPairs :
    Linked (globalPairs eventLogs) i j ↔
      PairAt eventLogs i j fun a b => a.producesTouchingBaseJoins.isEmpty = false ∨
        b.producesTouchingBaseJoins.isEmpty = false := by
  rw [globalPairs, linked_flatMap]
  simp only [mem_filter, linked_map_ordered_left, mem_range, decide_eq_true_eq, not_eq_true']
  constructor
  · rintro ⟨⟨a, n⟩, ⟨present, touches⟩, ⟨rfl, range, apart⟩ | ⟨rfl, range, apart⟩⟩
    · have at_i := List.mk_mem_zipIdx_iff_getElem?.mp present
      exact ⟨apart, a, eventLogs[j], at_i, getElem?_eq_getElem range, .inl touches⟩
    · have at_j := List.mk_mem_zipIdx_iff_getElem?.mp present
      exact ⟨apart.symm, eventLogs[i], a, getElem?_eq_getElem range, at_j, .inr touches⟩
  · rintro ⟨apart, a, b, at_i, at_j, touches | touches⟩
    · refine ⟨(a, i), ⟨List.mk_mem_zipIdx_iff_getElem?.mpr at_i, touches⟩, .inl ⟨rfl, ?_, apart⟩⟩
      exact (getElem?_eq_some_iff.mp at_j).1
    · refine ⟨(b, j), ⟨List.mk_mem_zipIdx_iff_getElem?.mpr at_j, touches⟩,
        .inr ⟨rfl, ?_, apart.symm⟩⟩
      exact (getElem?_eq_some_iff.mp at_i).1

theorem areConflicting_iff (channels : ConsumesHaveChannels [a, b]) :
    areConflicting a b ↔
      (produceRaces a b).elements ≠ [] ∨ (consumeRaces a b).elements ≠ [] ∨
        (potentialComms a b ≠ [] ∨ potentialComms b a ≠ []) ∨
        (a.producesTouchingBaseJoins.isEmpty = false ∨
          b.producesTouchingBaseJoins.isEmpty = false) := by
  have isEmpty_ofList (items : List Blake2b256Hash) :
      (HashedSet.ofList items).isEmpty ↔ items = [] := by
    rw [HashedSet.isEmpty_iff, eq_nil_iff_forall_not_mem]
    simp [mem_ofList]
  have channels_of_races : (consumeRaces a b).elements.flatMap (·.channelHashes) = [] ↔
      (consumeRaces a b).elements = [] := by
    rw [List.flatMap_eq_nil_iff]
    constructor
    · intro none
      rw [eq_nil_iff_forall_not_mem]
      intro c present
      have kept := (mem_filter.mp present).1
      have mentioned : c ∈ [a, b].flatMap (·.consumes) := by
        rcases mem_elements_intersection (mem_elements_difference kept) with
          from_a | from_b
        · simp [EventLogIndex.consumes, from_a]
        · simp [EventLogIndex.consumes, from_b]
      exact channels c mentioned (none c present)
    · intro none c present
      rw [none] at present
      cases present
  rw [areConflicting, not_eq_true', ← not_eq_true, conflicts, isEmpty_ofList]
  simp only [List.append_eq_nil_iff, List.map_eq_nil_iff, channels_of_races, HashedSet.isEmpty,
    ne_eq, List.isEmpty_eq_false_iff]
  tauto

theorem linked_conflictPairs {eventLogs : List EventLogIndex} (agree : ProducesAgree eventLogs)
    (channels : ConsumesHaveChannels eventLogs) {i j : Nat} :
    Linked (conflictPairs eventLogs) i j ↔
      PairAt eventLogs i j fun a b => areConflicting a b := by
  have agree_consumed : ∀ e ∈ eventLogs, ∀ e' ∈ eventLogs, ∀ p ∈ e.producesConsumed.elements,
      ∀ q ∈ e'.producesConsumed.elements, p == q → p.persistent = q.persistent := by
    intro e e_present e' e'_present p p_present q q_present same
    have mentioned {x : EventLogIndex} (x_present : x ∈ eventLogs) {r : Produce}
        (r_present : r ∈ x.producesConsumed.elements) : r ∈ eventLogs.flatMap (·.produces) := by
      refine mem_flatMap.mpr ⟨x, x_present, ?_⟩
      simp [EventLogIndex.produces, r_present]
    exact (agree p (mentioned e_present p_present) q (mentioned e'_present q_present)
      (Produce.beq_iff.mp same)).2
  have agree_one {e : EventLogIndex} (present : e ∈ eventLogs) : ProducesAgree [e] := by
    intro p p_present q q_present
    rw [List.flatMap_singleton] at p_present q_present
    exact agree p (mem_flatMap.mpr ⟨e, present, p_present⟩) q
      (mem_flatMap.mpr ⟨e, present, q_present⟩)
  have channels_two {a b : EventLogIndex} (a_present : a ∈ eventLogs) (b_present : b ∈ eventLogs) :
      ConsumesHaveChannels [a, b] := by
    intro c present
    obtain ⟨e, e_mem, c_present⟩ := mem_flatMap.mp present
    refine channels c (mem_flatMap.mpr ⟨e, ?_, c_present⟩)
    simp only [mem_cons, not_mem_nil, or_false] at e_mem
    rcases e_mem with rfl | rfl
    · exact a_present
    · exact b_present
  rw [conflictPairs, linked_append, linked_append, linked_append, linked_racePairs agree_consumed,
    linked_racePairs (by intro _ _ _ _ p _ q _ same; rw [eq_of_beq same]),
    linked_crossPairs_build, linked_globalPairs, pairAt_or, pairAt_or, pairAt_or]
  refine pairAt_congr fun a a_present b b_present => ?_
  rw [areConflicting_iff (channels_two a_present b_present),
    potentialComms_ne_nil_iff (agree_one a_present),
    potentialComms_ne_nil_iff (agree_one b_present), or_assoc, or_assoc]
  simp only [beq_iff_eq, exists_eq_right', exists_or]
  rfl

variable {R : Type} [BEq R] [EquivBEq R]

/-- The conflicts found through the indexes are those of the event logs, when produces
with the same hash agree on channel and persistence and every consume has a channel. -/
theorem computeConflictMapEventIndexed_iff (branches : List R) (eventLogs : List EventLogIndex)
    (distinct : branches.Pairwise fun a b => (a == b) = false)
    (parallel : branches.length = eventLogs.length) (agree : ProducesAgree eventLogs)
    (channels : ConsumesHaveChannels eventLogs) :
    ∃ map, computeConflictMapEventIndexed branches eventLogs = some map ∧
      ∀ (i j : Nat) (a b : R) (logA logB : EventLogIndex),
        branches[i]? = some a → branches[j]? = some b → eventLogs[i]? = some logA →
        eventLogs[j]? = some logB → i ≠ j → (Relates map a b ↔ areConflicting logA logB = true) :=
  relationMapEventIndexed_iff distinct parallel fun _ _ => linked_conflictPairs agree channels

end Conflicts

section Samples

theorem conflict_map_relates_racing_branches :
    ∃ map, computeConflictMapEventIndexed [0, 1] [sampleConsumingLog, sampleConsumingLog] =
      some map ∧ Relates map 0 1 := by
  obtain ⟨map, computed, related⟩ := computeConflictMapEventIndexed_iff
    ([0, 1] : List Nat)
    [sampleConsumingLog, sampleConsumingLog] (by decide) rfl
    (by unfold ProducesAgree; decide) (by unfold ConsumesHaveChannels; decide)
  refine ⟨map, computed, ?_⟩
  exact (related 0 1 0 1 _ _ rfl rfl rfl rfl (by decide)).mpr (by decide)

/-- A persistent produce with the hash of `sampleLinearProduce`, and another one. -/
def samplePersistentLog : EventLogIndex :=
  { EventLogIndex.empty with
    producesConsumed := ⟨[⟨[9], [1], true, true, [], false⟩, ⟨[9], [2], true, true, [], false⟩],
      by decide⟩ }

/-- The index keeps the produce it met first, the intersection of two sets the one of
the smaller set: when these disagree, a conflict of the event logs is not found. -/
theorem conflict_missed_for_disagreeing_produces :
    ConsumesHaveChannels [samplePersistentLog, sampleConsumingLog] ∧
      areConflicting samplePersistentLog sampleConsumingLog = true ∧
      areConflicting sampleConsumingLog samplePersistentLog = true ∧
      ∃ map, computeConflictMapEventIndexed [0, 1] [samplePersistentLog, sampleConsumingLog] =
        some map ∧ ¬Relates map 0 1 := by
  refine ⟨by unfold ConsumesHaveChannels; decide, by decide, by decide, ?_⟩
  exact ⟨.unrelated [0, 1], by rfl, (unrelated_spec [0, 1]).2 0 1⟩

end Samples

end F1r3fly.RSpace.Merger
