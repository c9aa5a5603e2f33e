import F1r3fly.RSpace.Merger.Components

/-! The maps found through the indexes relate the given items and no others. -/
namespace F1r3fly.RSpace.Merger

open HashedMap HashedSet BEq

section Positions

open InvertedIndex

/-- The pairs are made of positions of a list of that length. -/
def InRange (length : Nat) (pairs : List (Nat × Nat)) : Prop :=
  ∀ i j, Linked pairs i j → i < length ∧ j < length

variable {K Record : Type} [BEq K] [EquivBEq K] {records : List Record}

theorem holds_range {key : K} (holds : Holds (build keysOf records) key number) :
    number < records.length := by
  obtain ⟨record, at_number, -⟩ := holds_build.mp holds
  exact (getElem?_eq_some_iff.mp at_number).1

theorem inRange_sharedPairs {skip : K → Bool}
    (symmetric : ∀ key a b, exempt key a b = exempt key b a) :
    InRange records.length (sharedPairs (build keysOf records) skip exempt) := by
  intro i j linked
  obtain ⟨-, key, numbers, present, has_i, has_j, -⟩ := (linked_sharedPairs symmetric).mp linked
  have found := get?_of_mem present
  exact ⟨holds_range ⟨numbers, found, has_i⟩, holds_range ⟨numbers, found, has_j⟩⟩

theorem inRange_racePairs {persistent : K → Bool} :
    InRange records.length
      (racePairs (build destroyedOf records) (build mergeableOf records) persistent) := by
  apply inRange_sharedPairs
  intro event a b
  simp only [Bool.and_comm]

theorem inRange_crossPairs {sourcesOf targetsOf : Record → List K} :
    InRange records.length (crossPairs (build sourcesOf records) (build targetsOf records)) := by
  intro i j linked
  obtain ⟨-, key, ⟨source, target⟩ | ⟨source, target⟩⟩ := linked_crossPairs.mp linked
  · exact ⟨holds_range source, holds_range target⟩
  · exact ⟨holds_range target, holds_range source⟩

theorem inRange_conflictPairs (eventLogs : List EventLogIndex) :
    InRange eventLogs.length (conflictPairs eventLogs) := by
  intro i j linked
  rw [conflictPairs, linked_append, linked_append, linked_append] at linked
  rcases linked with ((races | races) | comms) | touches
  · exact inRange_racePairs i j races
  · exact inRange_racePairs i j races
  · exact inRange_crossPairs i j comms
  · obtain ⟨-, a, b, at_i, at_j, -⟩ := linked_globalPairs.mp touches
    exact ⟨(getElem?_eq_some_iff.mp at_i).1, (getElem?_eq_some_iff.mp at_j).1⟩

end Positions

variable {R : Type} [BEq R] [EquivBEq R]

/-- Every item is a key, and keys and related items are items. -/
structure Among (items : List R) (map : RelationMap R) : Prop where
  keys : ∀ key ∈ map.keys, key ∈ items
  related : ∀ item ∈ relatedItems map, item ∈ items
  complete : ∀ item ∈ items, (map.get? item).isSome = true
  symmetric : ∀ a b, Relates map a b → Relates map b a

variable {item : R} {map : RelationMap R}

theorem Among.mem_keys (among : Among items map)
    (distinct : items.Pairwise fun a b => (a == b) = false) (present : item ∈ items) :
    item ∈ map.keys := by
  obtain ⟨value, found⟩ := isSome_iff_exists.mp (among.complete item present)
  obtain ⟨key, entry, same⟩ := get?_eq_some_iff.mp found
  have key_present : key ∈ map.keys := HashedMap.mem_keys.mpr ⟨value, entry⟩
  have equal : item = key := eq_of_mem_elements (s := ⟨items, distinct⟩) present
    (among.keys key key_present) same
  rw [equal]
  exact key_present

omit [EquivBEq R] in
theorem mem_relatedItems_iff :
    item ∈ relatedItems map ↔ ∃ entry ∈ map.entries, item ∈ entry.2.elements :=
  mem_flatMap

theorem mem_relatedItems_update
    (member : item ∈ relatedItems (map.update a fun related => related.insert b)) :
    item ∈ relatedItems map ∨ item = b := by
  obtain ⟨entry, present, in_entry⟩ := mem_relatedItems_iff.mp member
  obtain ⟨original, original_present, rfl⟩ := mem_map.mp present
  have of_original (in_original : item ∈ original.2.elements) : item ∈ relatedItems map :=
    mem_relatedItems_iff.mpr ⟨original, original_present, in_original⟩
  split at in_entry
  · exact (mem_elements_insert in_entry).imp_left of_original
  · exact .inl (of_original in_entry)

theorem among_unrelated (items : List R) : Among items (RelationMap.unrelated items) := by
  obtain ⟨complete, unrelated⟩ := unrelated_spec items
  refine ⟨?_, ?_, complete, fun a b related => absurd related (unrelated a b)⟩
  · refine foldlRecOn (motive := fun map : RelationMap R => ∀ key ∈ map.keys, key ∈ items)
      _ _ (fun _ none => by cases none) fun map within entry listed key member => ?_
    rcases mem_keys_upsert member with old | rfl
    · exact within key old
    · obtain ⟨item, present, rfl⟩ := mem_map.mp listed
      exact present
  · intro item member
    obtain ⟨entry, present, in_entry⟩ := mem_relatedItems_iff.mp member
    exact absurd ⟨entry.2, get?_of_mem present, mem_of_mem_elements in_entry⟩
      (unrelated entry.1 item)

theorem Among.relate (among : Among items map) (first : a ∈ items)
    (second : b ∈ items) : Among items (map.relate a b) where
  keys key member := by
    rw [RelationMap.relate, keys_update, keys_update] at member
    exact among.keys key member
  related item member := by
    rcases mem_relatedItems_update member with before | rfl
    · rcases mem_relatedItems_update before with before | rfl
      · exact among.related item before
      · exact second
    · exact first
  complete item present := by
    rw [RelationMap.relate, isSome_get?_update, isSome_get?_update]
    exact among.complete item present
  symmetric x y related := by
    rw [relates_relate (among.complete a first) (among.complete b second)] at related ⊢
    rcases related with before | ⟨left, right⟩ | ⟨left, right⟩
    · exact .inl (among.symmetric x y before)
    · exact .inr (.inr ⟨right, left⟩)
    · exact .inr (.inl ⟨right, left⟩)

theorem Among.relateAll (among : Among items map)
    (computed : RelationMap.relateAll items map pairs = some final) : Among items final := by
  induction pairs generalizing map with
  | nil =>
    cases computed
    exact among
  | cons pair rest ih =>
    obtain ⟨next, stepped, computed⟩ := bind_eq_some_iff.mp computed
    obtain ⟨a, at_a, stepped⟩ := bind_eq_some_iff.mp stepped
    obtain ⟨b, at_b, stepped⟩ := bind_eq_some_iff.mp stepped
    cases stepped
    exact ih (among.relate (mem_of_getElem? at_a) (mem_of_getElem? at_b)) computed

theorem among_relationMapEventIndexed
    (computed : relationMapEventIndexed pairs items eventLogs = some map) : Among items map := by
  rw [relationMapEventIndexed] at computed
  split at computed
  · cases computed
  · split at computed
    · cases computed
      exact among_unrelated items
    · exact (among_unrelated items).relateAll computed

theorem Among.exists_relateAll (among : Among items map) (range : InRange items.length pairs) :
    ∃ final, RelationMap.relateAll items map pairs = some final ∧ Among items final := by
  obtain ⟨final, computed, -⟩ := relates_relateAll among.complete
    fun pair present => range pair.1 pair.2 (.inl present)
  exact ⟨final, computed, among.relateAll computed⟩

theorem exists_relationMapEventIndexed (pairs : List EventLogIndex → List (Nat × Nat))
    {items : List R} (parallel : items.length = eventLogs.length)
    (range : InRange eventLogs.length (pairs eventLogs)) :
    ∃ map, relationMapEventIndexed pairs items eventLogs = some map ∧ Among items map := by
  rw [← parallel] at range
  rw [relationMapEventIndexed, if_neg (not_not.mpr parallel)]
  split
  · exact ⟨_, rfl, among_unrelated items⟩
  · exact (among_unrelated items).exists_relateAll range

section Pairs

omit [EquivBEq R] in
theorem Among.foldl {visited : List α}
    {adds : α → R → R → Prop}
    (steps : ∀ a ∈ visited, ∀ map, Among items map → Among items (step map a) ∧
      ∀ x y, Relates (step map a) x y ↔ Relates map x y ∨ adds a x y) (among : Among items map) :
    Among items (visited.foldl step map) ∧
      ∀ x y, Relates (visited.foldl step map) x y ↔
        Relates map x y ∨ ∃ a ∈ visited, adds a x y := by
  induction visited generalizing map with
  | nil => simpa using among
  | cons entry rest ih =>
    obtain ⟨stepped, added⟩ := steps entry (.head _) map among
    obtain ⟨final, related⟩ := ih (fun a present => steps a (.tail _ present)) stepped
    refine ⟨final, fun x y => ?_⟩
    rw [foldl_cons, related, added, exists_mem_cons_iff, or_assoc]

variable [HashMapOrder] [LT R] [DecidableLT R] {items : HashableSet R} {relation : R → R → Bool}

def RelatedPair (relation : R → R → Bool) (first second : R × Nat) (x y : R) : Prop :=
  ¬(first.2 = second.2 ∨ second.1 < first.1) ∧
    (relation first.1 second.1 || relation second.1 first.1) = true ∧
      (x == first.1 ∧ y == second.1 ∨ x == second.1 ∧ y == first.1)

theorem relates_computeRelationMap (items : HashableSet R) (relation : R → R → Bool) :
    Among items.iter (computeRelationMap items relation) ∧
      ∀ x y, Relates (computeRelationMap items relation) x y ↔ ∃ first ∈ items.iter.zipIdx,
        ∃ second ∈ items.iter.zipIdx, RelatedPair relation first second x y := by
  have stepped : ∀ first ∈ items.iter.zipIdx, ∀ second ∈ items.iter.zipIdx, ∀ map,
      Among items.iter map →
      let next := if first.2 = second.2 ∨ second.1 < first.1 then map
        else if relation first.1 second.1 || relation second.1 first.1 then
          map.relate first.1 second.1
        else map
      Among items.iter next ∧
        ∀ x y, Relates next x y ↔ Relates map x y ∨ RelatedPair relation first second x y := by
    intro first first_in second second_in map among
    dsimp only [RelatedPair]
    split_ifs with skipped holds
    · exact ⟨among, by simp [skipped]⟩
    · have first_item := List.fst_mem_of_mem_zipIdx first_in
      have second_item := List.fst_mem_of_mem_zipIdx second_in
      refine ⟨among.relate first_item second_item, fun x y => ?_⟩
      rw [relates_relate (among.complete _ first_item) (among.complete _ second_item)]
      simp [skipped, holds]
    · exact ⟨among, by simp [holds]⟩
  have looped := (among_unrelated items.iter).foldl fun first first_in map among =>
    among.foldl (stepped first first_in)
  refine ⟨looped.1, fun x y => (looped.2 x y).trans ?_⟩
  exact or_iff_right ((unrelated_spec items.iter).2 x y)

omit [LT R] [DecidableLT R] in
theorem Grouped.mem_elements_iff (grouped : Grouped map groups) (among : Among items.iter map)
    (present : group ∈ groups.elements) : a ∈ group.elements ↔ a ∈ items.elements ∧ a ∈ group := by
  have within {a : R} (member : a ∈ group.elements) : a ∈ items.elements := by
    rw [← HashedSet.mem_iter]
    exact (grouped.stored present member).elim (among.keys a) (among.related a)
  constructor
  · exact fun member => ⟨within member, mem_of_mem_elements member⟩
  · rintro ⟨known, member⟩
    obtain ⟨kept, kept_member, same⟩ := mem_iff.mp member
    rwa [eq_of_mem_elements known (within kept_member) same]

def RelatedItems (items : HashableSet R) (relation : R → R → Bool) (a b : R) : Prop :=
  a ∈ items.elements ∧ b ∈ items.elements ∧ relation a b = true

theorem RelatedItems.relates (asymmetric : ∀ a b : R, a < b → ¬b < a)
    (related : RelatedItems items relation a b) (apart : a ≠ b) :
    Relates (computeRelationMap items relation) a b := by
  obtain ⟨first, second, holds⟩ := related
  obtain ⟨i, at_a⟩ := List.mem_iff_getElem?.mp (mem_iter.mpr first)
  obtain ⟨j, at_b⟩ := List.mem_iff_getElem?.mp (mem_iter.mpr second)
  have positions : i ≠ j := by
    rintro rfl
    exact apart (Option.some.inj (at_a.symm.trans at_b))
  have a_in : (a, i) ∈ items.iter.zipIdx := List.mem_zipIdx_iff_getElem?.mpr at_a
  have b_in : (b, j) ∈ items.iter.zipIdx := List.mem_zipIdx_iff_getElem?.mpr at_b
  rw [(relates_computeRelationMap items relation).2]
  by_cases smaller : b < a
  · refine ⟨(b, j), b_in, (a, i), a_in, not_or.mpr ⟨positions.symm, asymmetric b a smaller⟩, ?_⟩
    exact ⟨by simp [holds], .inr ⟨rfl, rfl⟩⟩
  · refine ⟨(a, i), a_in, (b, j), b_in, not_or.mpr ⟨positions, smaller⟩, ?_⟩
    exact ⟨by simp [holds], .inl ⟨rfl, rfl⟩⟩

theorem RelatedItems.of_relates (symmetric : ∀ a b, relation a b = relation b a)
    (related : Relates (computeRelationMap items relation) a b) (present : a ∈ items.elements) :
    ∃ item, RelatedItems items relation a item ∧ b == item := by
  obtain ⟨x, x_in, y, y_in, -, holds, sides⟩ :=
    ((relates_computeRelationMap items relation).2 a b).mp related
  have x_item := mem_iter.mp (List.fst_mem_of_mem_zipIdx x_in)
  have y_item := mem_iter.mp (List.fst_mem_of_mem_zipIdx y_in)
  rw [symmetric y.1 x.1, Bool.or_self] at holds
  rcases sides with ⟨left, right⟩ | ⟨left, right⟩
  · rw [eq_of_mem_elements present x_item left]
    exact ⟨y.1, ⟨x_item, y_item, holds⟩, right⟩
  · rw [eq_of_mem_elements present y_item left]
    exact ⟨x.1, ⟨y_item, x_item, (symmetric _ _).trans holds⟩, right⟩

/-- Chains of related items are what the map connects. -/
theorem connected_iff_chain (symmetric : ∀ a b, relation a b = relation b a)
    (asymmetric : ∀ a b : R, a < b → ¬b < a) (first : a ∈ items.elements)
    (second : b ∈ items.elements) :
    Connected (computeRelationMap items relation) a b ↔
      Relation.ReflTransGen (RelatedItems items relation) a b := by
  constructor
  · rintro ⟨reached, path, same⟩
    have chain : ∃ item ∈ items.elements, reached == item ∧
        Relation.ReflTransGen (RelatedItems items relation) a item := by
      clear same
      induction path with
      | refl => exact ⟨a, first, rfl, .refl⟩
      | tail _ last ih =>
        obtain ⟨item, present, same, chain⟩ := ih
        obtain ⟨next, related, next_same⟩ :=
          RelatedItems.of_relates symmetric ((relates_congr same rfl).mp last) present
        exact ⟨next, related.2.1, next_same, chain.tail related⟩
    obtain ⟨item, present, item_same, chain⟩ := chain
    rwa [eq_of_mem_elements second present (trans same item_same)]
  · intro chain
    clear second
    induction chain with
    | refl => exact ⟨a, .refl, rfl⟩
    | @tail item next _ last ih =>
      by_cases apart : item = next
      · exact apart ▸ ih
      · exact ih.relates (last.relates asymmetric apart)

/-- Whatever the order of iteration, the related sets are a partition of the items
into the classes that chains of related items connect. -/
theorem gatherRelatedSets_partition (items : HashableSet R) (relation : R → R → Bool)
    (symmetric : ∀ a b, relation a b = relation b a) (asymmetric : ∀ a b : R, a < b → ¬b < a) :
    (∀ set ∈ (gatherRelatedSets (computeRelationMap items relation)).elements,
      set.elements ≠ [] ∧ ∀ a ∈ set.elements, a ∈ items.elements ∧ ∀ b ∈ items.elements,
        (b ∈ set.elements ↔ Relation.ReflTransGen (RelatedItems items relation) a b)) ∧
    ∀ a ∈ items.elements, ∃! set,
      set ∈ (gatherRelatedSets (computeRelationMap items relation)).elements ∧
        a ∈ set.elements := by
  have grouped := gatherRelatedSets_grouped (computeRelationMap items relation)
  have among := (relates_computeRelationMap items relation).1
  refine ⟨fun set present => ?_, fun a known => ?_⟩
  · obtain ⟨key, -, rfl⟩ := grouped.component set present
    refine ⟨fun empty => ?_, fun a member => ?_⟩
    · obtain ⟨kept, absurd_member, -⟩ := mem_iff.mp (mem_component.mpr ⟨key, .refl, rfl⟩)
      rw [empty] at absurd_member
      cases absurd_member
    · obtain ⟨known, a_member⟩ := (grouped.mem_elements_iff among present).mp member
      rw [mem_component] at a_member
      refine ⟨known, fun b b_known => ?_⟩
      rw [grouped.mem_elements_iff among present, and_iff_right b_known, mem_component,
        ← connected_iff_chain symmetric asymmetric known b_known]
      exact ⟨(a_member.symm among.symmetric).trans, a_member.trans⟩
  · have key := among.mem_keys items.reordered.distinct (mem_iter.mpr known)
    obtain ⟨set, present, member⟩ := grouped.covers a key
    refine ⟨set, ⟨present, (grouped.mem_elements_iff among present).mpr ⟨known, member⟩⟩, ?_⟩
    rintro other ⟨other_present, other_member⟩
    exact grouped.disjoint among.symmetric other_present present
      (mem_of_mem_elements other_member) member

end Pairs

attribute [local instance] storedOrder

theorem gatherRelatedSets_partition_three :
    ∃! set, set ∈ (gatherRelatedSets (computeRelationMap (⟨[1, 2, 3], by decide⟩ : HashableSet Nat)
      fun a b => a + b == 3)).elements ∧ 1 ∈ set.elements :=
  (gatherRelatedSets_partition _ _ (fun a b => by rw [Nat.add_comm])
    fun _ _ => Nat.lt_asymm).2 1 (by decide)

end F1r3fly.RSpace.Merger
