import F1r3fly.Data.HashedMap

/-! A hash set or map is iterated in an order that nothing is known about. -/
namespace F1r3fly

open HashedSet

/-- The order in which hash maps and sets are iterated. -/
class HashMapOrder where
  order : {α : Type} → List α → List α
  perm : ∀ {α : Type} (entries : List α), (order entries).Perm entries

abbrev storedOrder : HashMapOrder := ⟨id, .refl⟩

def HashedSet.iter {α : Type} [BEq α] [HashMapOrder] (s : HashedSet α) : List α :=
  HashMapOrder.order s.elements

def HashedMap.iter {K V : Type} [BEq K] [HashMapOrder] (m : HashedMap K V) : List (K × V) :=
  HashMapOrder.order m.entries

def HashedSet.reordered {α : Type} [BEq α] [EquivBEq α] [HashMapOrder] (s : HashedSet α) :
    HashedSet α where
  elements := s.iter
  distinct := (HashMapOrder.perm s.elements).symm.pairwise s.distinct BEq.symm_false

theorem HashedSet.mem_iter {α : Type} [BEq α] [HashMapOrder] {s : HashedSet α} {a : α} :
    a ∈ s.iter ↔ a ∈ s.elements :=
  (HashMapOrder.perm s.elements).mem_iff

theorem HashedSet.mem_ofList_flatMap_iter {α : Type} [BEq α] [EquivBEq α] [HashMapOrder]
    {sets : HashedSet (HashedSet α)} {a : α} :
    a ∈ ofList (sets.iter.flatMap iter) ↔ ∃ s ∈ sets.elements, a ∈ s := by
  simp only [mem_ofList, mem_flatMap, mem_iter]
  constructor
  · rintro ⟨b, ⟨s, present, in_set⟩, same⟩
    exact ⟨s, present, mem_iff.mpr ⟨b, in_set, same⟩⟩
  · rintro ⟨s, present, member⟩
    obtain ⟨b, in_set, same⟩ := mem_iff.mp member
    exact ⟨b, ⟨s, present, in_set⟩, same⟩

theorem HashedMap.mem_iter {K V : Type} [BEq K] [HashMapOrder] {m : HashedMap K V}
    {entry : K × V} : entry ∈ m.iter ↔ entry ∈ m.entries :=
  (HashMapOrder.perm m.entries).mem_iff

theorem HashedMap.iter_nil {K V : Type} [BEq K] [HashMapOrder] {m : HashedMap K V}
    (iter_eq : m.iter = []) : m.entries = [] := by
  have perm : m.iter.Perm m.entries := HashMapOrder.perm _
  rw [iter_eq] at perm
  exact perm.symm.eq_nil

/-- What is left of a map when the first entry is taken. -/
theorem HashedMap.iter_cons {K V : Type} [BEq K] [EquivBEq K] [HashMapOrder] {m : HashedMap K V}
    {first : K × V} {rest : List (K × V)} (iter_eq : m.iter = first :: rest) :
    (first :: rest).Perm m.entries ∧ (ofList rest).entries = rest := by
  have perm : m.iter.Perm m.entries := HashMapOrder.perm _
  rw [iter_eq] at perm
  have apart := (perm.pairwise_iff fun same => BEq.symm_false same).mpr m.distinct
  exact ⟨perm, entries_ofList (pairwise_cons.mp apart).2⟩

/-- The entries of another map replace those of the same keys. -/
theorem HashedMap.get?_insertAll_iter {K V : Type} [BEq K] [EquivBEq K] [HashMapOrder]
    {m other : HashedMap K V} {key : K} :
    (m.insertAll other.iter).get? key = (other.get? key).or (m.get? key) := by
  rw [get?_insertAll]
  congr 1
  ext value
  rw [get?_eq_some_iff]
  constructor
  · intro mapped
    obtain ⟨entry, found, rfl⟩ := Option.map_eq_some_iff.mp mapped
    have present := mem_iter.mp (mem_reverse.mp (mem_of_find?_eq_some found))
    exact ⟨entry.1, present, find?_some (p := fun entry : K × V => key == entry.1) found⟩
  · rintro ⟨kept, present, same⟩
    have reversed := mem_reverse.mpr (mem_iter.mpr present)
    obtain ⟨entry, found⟩ := isSome_iff_exists.mp
      (List.find?_isSome (p := fun entry : K × V => key == entry.1) |>.mpr ⟨_, reversed, same⟩)
    have entry_present := mem_iter.mp (mem_reverse.mp (mem_of_find?_eq_some found))
    have entry_same := find?_some (p := fun entry : K × V => key == entry.1) found
    have value_eq := (get?_eq_some_iff.mpr ⟨entry.1, entry_present, entry_same⟩).symm.trans
      (get?_eq_some_iff.mpr ⟨kept, present, same⟩)
    rw [found, map_some]
    exact value_eq

end F1r3fly
