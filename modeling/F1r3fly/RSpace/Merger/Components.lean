import F1r3fly.Data.Exploration
import F1r3fly.RSpace.Merger.IndexedRelations
import F1r3fly.RSpace.Merger.RelatedSets

/-! The sets of related items are the connected components of the relation map. -/
namespace F1r3fly.RSpace.Merger

open HashedSet BEq

open Relation (ReflTransGen)

variable {A : Type} [BEq A] [EquivBEq A]

variable {a b key : A}

theorem relates_congr (left : a == x) (right : b == y) : Relates map a b ↔ Relates map x y := by
  simp only [Relates, HashedMap.get?_congr left, mem_congr right]

/-- Equal to an item that can be reached through related ones. -/
def Connected (map : RelationMap A) (key a : A) : Prop :=
  ∃ b, ReflTransGen (Relates map) key b ∧ (a == b) = true

theorem Connected.relates (connected : Connected map key a)
    (related : Relates map a b) : Connected map key b := by
  obtain ⟨reached, path, same⟩ := connected
  exact ⟨b, path.tail ((relates_congr same rfl).mp related), rfl⟩

theorem Connected.congr (connected : Connected map key a) (same : b == a) :
    Connected map key b := by
  obtain ⟨reached, path, same'⟩ := connected
  exact ⟨reached, path, trans same same'⟩

theorem Connected.symm (symmetric : ∀ a b, Relates map a b → Relates map b a)
    (connected : Connected map a b) : Connected map b a := by
  obtain ⟨reached, path, same⟩ := connected
  have back : ReflTransGen (Relates map) reached a := by
    rw [← Relation.reflTransGen_swap]
    exact Relation.ReflTransGen.mono (fun x y related => symmetric x y related) _ _ path
  rcases Relation.ReflTransGen.cases_head back with rfl | ⟨next, first, rest⟩
  · exact ⟨b, .refl, symm same⟩
  · exact ⟨a, rest.head ((relates_congr same rfl).mpr first), rfl⟩

theorem Connected.trans (first : Connected map a b) (second : Connected map b c) :
    Connected map a c := by
  obtain ⟨reached, path, same⟩ := second
  refine Connected.congr ?_ same
  exact holds_of_reflTransGen (Connected map a)
    (fun x y connected related => connected.relates related) first path

def relatedItems (map : RelationMap A) : List A := map.entries.flatMap fun entry => entry.2.elements

theorem mem_relatedItems (value : map.get? key = some related)
    (present : a ∈ related.elements) : a ∈ relatedItems map := by
  obtain ⟨kept, entry, -⟩ := HashedMap.get?_eq_some_iff.mp value
  exact mem_flatMap.mpr ⟨(kept, related), entry, present⟩

variable [HashMapOrder]

structure Exploring (map : RelationMap A) (key : A) (toAdd acc : HashableSet A) : Prop where
  start : key ∈ acc
  connected : ∀ a, a ∈ acc ∨ a ∈ toAdd → Connected map key a
  closed : ∀ a ∈ acc, ∀ b, Relates map a b → b ∈ acc ∨ b ∈ toAdd
  values : ∀ a ∈ toAdd.elements, a ∈ relatedItems map

theorem mem_addAll {acc toAdd : HashableSet A} :
    a ∈ toAdd.iter.foldl HashedSet.insert acc ↔ a ∈ acc ∨ a ∈ toAdd := by
  rw [mem_foldl_insert, mem_iff (s := toAdd)]
  simp only [mem_iter]

theorem mem_newRelations :
    b ∈ newRelations map toAdd next ↔ (∃ a ∈ toAdd, Relates map a b) ∧ b ∉ next := by
  simp only [newRelations, mem_ofList, mem_flatMap, mem_iter]
  constructor
  · rintro ⟨c, ⟨a, present, found⟩, same⟩
    cases value : map.get? a with
    | none =>
      rw [value] at found
      cases found
    | some related =>
      rw [value] at found
      obtain ⟨kept, absent⟩ := mem_filter.mp found
      rw [mem_iter] at kept
      refine ⟨⟨a, mem_of_mem_elements present, related, value, ?_⟩, ?_⟩
      · exact (mem_congr same).mpr (mem_of_mem_elements kept)
      · rw [mem_congr same, ← contains_iff]
        simpa using absent
  · rintro ⟨⟨a, member, related, value, b_related⟩, absent⟩
    obtain ⟨kept, present, same⟩ := mem_iff.mp member
    obtain ⟨c, c_present, c_same⟩ := mem_iff.mp b_related
    refine ⟨c, ⟨kept, present, ?_⟩, c_same⟩
    rw [← HashedMap.get?_congr same, value]
    rw [mem_congr c_same, ← contains_iff, not_eq_true] at absent
    exact mem_filter.mpr ⟨mem_iter.mpr c_present, by rw [absent]; rfl⟩

theorem mem_elements_newRelations (member : b ∈ (newRelations map toAdd next).elements) :
    b ∈ relatedItems map := by
  obtain ⟨a, -, found⟩ := mem_flatMap.mp (mem_elements_ofList member)
  cases value : map.get? a with
  | none =>
    rw [value] at found
    cases found
  | some related =>
    rw [value] at found
    exact mem_relatedItems value (mem_iter.mp (mem_filter.mp found).1)

theorem Exploring.next {map : RelationMap A} (exploring : Exploring map key toAdd acc) :
    Exploring map key (newRelations map toAdd (toAdd.iter.foldl insert acc))
      (toAdd.iter.foldl insert acc) where
  start := mem_addAll.mpr (.inl exploring.start)
  connected a member := by
    rcases member with found | new
    · exact exploring.connected a (mem_addAll.mp found)
    · obtain ⟨⟨source, source_added, related⟩, -⟩ := mem_newRelations.mp new
      exact (exploring.connected source (.inr source_added)).relates related
  closed a member b related := by
    rw [mem_addAll, mem_newRelations, mem_addAll]
    rcases mem_addAll.mp member with found | added
    · exact .inl (exploring.closed a found b related)
    · by_cases known : b ∈ acc ∨ b ∈ toAdd
      · exact .inl known
      · exact .inr ⟨⟨a, added, related⟩, known⟩
  values _ := mem_elements_newRelations

/-- With enough fuel the search ends with all that is connected. -/
theorem mem_addRelations {map : RelationMap A}
    (exploring : Exploring map key toAdd acc) (enough : acc.missing (relatedItems map) < fuel)
    : a ∈ addRelations map fuel toAdd acc ↔ Connected map key a := by
  -- A search that has nothing to add has found everything.
  have finished {found : HashableSet A} {rest : HashableSet A}
      (done : Exploring map key rest found) (nothing : ∀ b ∈ rest, b ∈ found) :
      a ∈ found ↔ Connected map key a := by
    constructor
    · exact fun member => done.connected a (.inl member)
    · rintro ⟨reached, path, same⟩
      rw [mem_congr same]
      refine holds_of_reflTransGen (· ∈ found) ?_ done.start path
      intro b c member related
      exact (done.closed b member c related).elim id (nothing c)
  induction fuel generalizing toAdd acc with
  | zero => cases enough
  | succ fuel ih =>
    simp only [addRelations]
    split
    case isTrue same_size =>
      have known := size_foldl_insert_eq_iff.mp same_size
      refine finished exploring.next ?_
      intro b new
      obtain ⟨⟨source, added, related⟩, absent⟩ := mem_newRelations.mp new
      obtain ⟨kept, present, same⟩ := mem_iff.mp added
      have source_known : source ∈ acc :=
        (mem_congr same).mpr (known kept (mem_iter.mpr present))
      exact mem_addAll.mpr (exploring.closed source source_known b related)
    case isFalse larger =>
      split
      case isTrue none_new =>
        refine finished exploring.next ?_
        intro b new
        exact absurd new (isEmpty_iff.mp none_new b)
      case isFalse some_new =>
        apply ih exploring.next
        rw [size_foldl_insert_eq_iff] at larger
        simp only [mem_iter, not_forall] at larger
        obtain ⟨added, present, absent⟩ := larger
        have fewer : (toAdd.iter.foldl HashedSet.insert acc).missing (relatedItems map) <
            acc.missing (relatedItems map) :=
          missing_lt (fun b member => mem_addAll.mpr (.inl member))
            (exploring.values added present) absent
            (mem_addAll.mpr (.inr (mem_of_mem_elements present)))
        omega

theorem mem_component : a ∈ component map key ↔ Connected map key a := by
  have key_found : ∀ b, b ∈ (empty : HashableSet A).insert key ↔ b == key := by
    intro b
    rw [mem_insert]
    exact or_iff_left (not_mem_empty b)
  have neighbours : ∀ b, b ∈ (map.get? key).getD .empty ↔ Relates map key b := by
    intro b
    rw [Relates]
    cases map.get? key with
    | none => simp [not_mem_empty]
    | some related => simp
  apply mem_addRelations
  · constructor
    · exact (key_found key).mpr rfl
    · rintro b (same | related)
      · exact ⟨key, .refl, (key_found b).mp same⟩
      · exact ⟨b, .single ((neighbours b).mp related), rfl⟩
    · intro b same c related
      rw [neighbours]
      exact .inr ((relates_congr ((key_found b).mp same) rfl).mp related)
    · intro b present
      cases value : map.get? key with
      | none =>
        rw [value] at present
        cases present
      | some related =>
        rw [value] at present
        exact mem_relatedItems value present
  · have fuel_eq : relationsFuel map = (relatedItems map).length + 1 := by
      rw [relationsFuel, relatedItems, List.length_flatMap]
      rfl
    rw [fuel_eq]
    exact Nat.lt_succ_of_le (missing_le_length _ _)

theorem mem_elements_component (member : a ∈ (component map key).elements) :
    a = key ∨ a ∈ relatedItems map := by
  have kept_items : ∀ (fuel : Nat) (toAdd acc : HashableSet A),
      (∀ b ∈ acc.elements, b = key ∨ b ∈ relatedItems map) →
      (∀ b ∈ toAdd.elements, b ∈ relatedItems map) →
      ∀ b ∈ (addRelations map fuel toAdd acc).elements, b = key ∨ b ∈ relatedItems map := by
    intro fuel
    induction fuel with
    | zero => exact fun toAdd acc found _ => found
    | succ fuel ih =>
      intro toAdd acc found added
      have next_found : ∀ b ∈ (toAdd.iter.foldl HashedSet.insert acc).elements,
          b = key ∨ b ∈ relatedItems map := by
        intro b present
        rcases mem_elements_foldl_insert present with old | new
        · exact found b old
        · exact .inr (added b (mem_iter.mp new))
      simp only [addRelations]
      split
      · exact next_found
      · split
        · exact next_found
        · exact ih _ _ next_found fun b => mem_elements_newRelations
  refine kept_items _ _ _ ?_ ?_ a member
  · intro b present
    rcases mem_elements_insert present with absurd_present | rfl
    · cases absurd_present
    · exact .inl rfl
  · intro b present
    cases value : map.get? key with
    | none =>
      rw [value] at present
      cases present
    | some related =>
      rw [value] at present
      exact mem_relatedItems value present

/-- The groups are the classes of connected keys. -/
structure Grouped (map : RelationMap A) (groups : HashableSet (HashableSet A)) : Prop where
  covers : ∀ key ∈ map.keys, ∃ group ∈ groups.elements, key ∈ group
  component : ∀ group ∈ groups.elements, ∃ key ∈ map.keys, group = component map key

namespace Grouped

variable {map : RelationMap A} {groups : HashableSet (HashableSet A)}

theorem disjoint (grouped : Grouped map groups)
    (symmetric : ∀ a b, Relates map a b → Relates map b a) (first : group ∈ groups.elements)
    (second : other ∈ groups.elements) (a_first : a ∈ group) (a_second : a ∈ other) :
    group = other := by
  apply eq_of_mem_elements first second
  rw [beq_iff]
  obtain ⟨key, -, rfl⟩ := grouped.component group first
  obtain ⟨key', -, rfl⟩ := grouped.component other second
  rw [mem_component] at a_first a_second
  intro b
  rw [mem_component, mem_component]
  constructor
  · exact fun connected => (a_second.trans (a_first.symm symmetric)).trans connected
  · exact fun connected => (a_first.trans (a_second.symm symmetric)).trans connected

theorem closed (grouped : Grouped map groups) (present : group ∈ groups.elements)
    (member : a ∈ group) (related : Relates map a b) : b ∈ group := by
  obtain ⟨key, -, rfl⟩ := grouped.component group present
  exact mem_component.mpr ((mem_component.mp member).relates related)

theorem stored (grouped : Grouped map groups) (present : group ∈ groups.elements)
    (member : a ∈ group.elements) : a ∈ map.keys ∨ a ∈ relatedItems map := by
  obtain ⟨key, key_present, rfl⟩ := grouped.component group present
  rcases mem_elements_component member with rfl | related
  · exact .inl key_present
  · exact .inr related

end Grouped

/-- The loop over the keys: it skips those of the groups that it has. -/
def gatherStep (map : RelationMap A) (state : HashableSet A × HashableSet (HashableSet A))
    (entry : A × HashableSet A) : HashableSet A × HashableSet (HashableSet A) :=
  if state.1.contains entry.1 then state
  else
    let component := component map entry.1
    (component.iter.foldl insert state.1, state.2.insert component)

/-- The processed keys are in the groups found so far, which are components. -/
structure Gathered (map : RelationMap A) (state : HashableSet A × HashableSet (HashableSet A)) :
    Prop where
  covered : ∀ a ∈ state.1, ∃ group ∈ state.2.elements, a ∈ group
  components : ∀ group ∈ state.2.elements, ∃ key ∈ map.keys, group = component map key

theorem Gathered.step {map : RelationMap A} (gathered : Gathered map state)
    (present : entry.1 ∈ map.keys) :
    Gathered map (gatherStep map state entry) ∧
      ∀ a, a ∈ state.1 ∨ a = entry.1 → a ∈ (gatherStep map state entry).1 := by
  unfold gatherStep
  split_ifs with done
  · refine ⟨gathered, ?_⟩
    rintro a (old | rfl)
    · exact old
    · exact done
  · have in_group {group : HashableSet A} {a : A} (member : a ∈ group)
        (among : group ∈ state.2.insert (component map entry.1)) :
        ∃ kept ∈ (state.2.insert (component map entry.1)).elements, a ∈ kept := by
      obtain ⟨kept, kept_present, same⟩ := mem_iff.mp among
      exact ⟨kept, kept_present, (beq_iff.mp same a).mp member⟩
    refine ⟨⟨?_, ?_⟩, ?_⟩
    · intro a member
      rcases mem_addAll.mp member with old | found
      · obtain ⟨group, group_present, a_member⟩ := gathered.covered a old
        exact in_group a_member (mem_insert.mpr (.inr (mem_of_mem_elements group_present)))
      · exact in_group found (mem_insert.mpr (.inl rfl))
    · intro group group_present
      rcases mem_elements_insert group_present with old | rfl
      · exact gathered.components group old
      · exact ⟨entry.1, present, rfl⟩
    · rintro a (old | rfl)
      · exact mem_addAll.mpr (.inl old)
      · exact mem_addAll.mpr (.inr (mem_component.mpr ⟨entry.1, .refl, rfl⟩))

theorem Gathered.foldl {map : RelationMap A} {entries : List (A × HashableSet A)}
    (gathered : Gathered map state) (keys : ∀ entry ∈ entries, entry.1 ∈ map.keys) :
    Gathered map (entries.foldl (gatherStep map) state) ∧
      ∀ a, a ∈ state.1 ∨ a ∈ entries.map (·.1) → a ∈ (entries.foldl (gatherStep map) state).1 := by
  induction entries generalizing state with
  | nil => exact ⟨gathered, fun a known => known.elim id (by simp)⟩
  | cons entry rest ih =>
    obtain ⟨stepped, kept⟩ := gathered.step (keys entry (.head _))
    obtain ⟨final, rest_kept⟩ := ih stepped fun other present => keys other (.tail _ present)
    refine ⟨final, fun a known => rest_kept a ?_⟩
    rw [map_cons, mem_cons, ← or_assoc] at known
    exact known.imp_left (kept a)

theorem gatherRelatedSets_grouped (map : RelationMap A) : Grouped map (gatherRelatedSets map) := by
  have start : Gathered map (.empty, .empty) :=
    ⟨fun a member => absurd member (not_mem_empty a), fun group present => by cases present⟩
  have keys : ∀ entry ∈ map.iter, entry.1 ∈ map.keys := fun entry present =>
    mem_map_of_mem (HashedMap.mem_iter.mp present)
  obtain ⟨final, processed⟩ := start.foldl keys
  refine ⟨fun key member => ?_, final.components⟩
  obtain ⟨entry, present, rfl⟩ := mem_map.mp member
  exact final.covered entry.1
    (processed entry.1 (.inr (mem_map_of_mem (HashedMap.mem_iter.mpr present))))

end F1r3fly.RSpace.Merger
