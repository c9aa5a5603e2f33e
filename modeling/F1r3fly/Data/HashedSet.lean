import F1r3fly.Data.Lists
import Mathlib.Data.Finset.Card
import Mathlib.Data.List.Pairwise

/-! Sets as a hash table holds them: elements told apart by a boolean equality, each represented
by the one that was inserted first. -/
namespace F1r3fly

open BEq

instance instEquivBEqOfDecidableEq {α : Type} [DecidableEq α] : EquivBEq α := inferInstance

structure HashedSet (α : Type) [BEq α] where
  elements : List α
  distinct : elements.Pairwise fun a b => (a == b) = false

namespace HashedSet

variable {α : Type} [BEq α]

def empty : HashedSet α := ⟨[], .nil⟩

def contains (s : HashedSet α) (a : α) : Bool := s.elements.any fun b => a == b

/-- Up to the boolean equality. -/
instance : Membership α (HashedSet α) := ⟨fun s a => s.contains a = true⟩

instance (s : HashedSet α) (a : α) : Decidable (a ∈ s) :=
  inferInstanceAs (Decidable (s.contains a = true))

def size (s : HashedSet α) : Nat := s.elements.length

def isEmpty (s : HashedSet α) : Bool := s.elements.isEmpty

def filter (s : HashedSet α) (keep : α → Bool) : HashedSet α :=
  ⟨s.elements.filter keep, s.distinct.filter _⟩

variable {s : HashedSet α}

theorem contains_iff : s.contains a ↔ a ∈ s := .rfl

theorem mem_iff : a ∈ s ↔ ∃ b ∈ s.elements, a == b :=
  any_eq_true

theorem not_mem_iff : a ∉ s ↔ ∀ b ∈ s.elements, (a == b) = false := by
  rw [mem_iff]
  simp

theorem mem_of_mem_elements [ReflBEq α] (member : a ∈ s.elements) : a ∈ s :=
  mem_iff.mpr ⟨a, member, rfl⟩

theorem mem_elements_iff [LawfulBEq α] : a ∈ s.elements ↔ a ∈ s := by
  simp [mem_iff]

theorem eq_empty (none_left : s.isEmpty) : s = empty := by
  obtain ⟨elements, distinct⟩ := s
  cases List.isEmpty_iff.mp none_left
  rfl

theorem isEmpty_iff [ReflBEq α] : s.isEmpty ↔ ∀ a, a ∉ s := by
  rw [isEmpty, List.isEmpty_iff, eq_nil_iff_forall_not_mem]
  constructor
  · intro none a member
    obtain ⟨b, present, -⟩ := mem_iff.mp member
    exact none b present
  · exact fun none a present => none a (mem_of_mem_elements present)

@[simp]
theorem not_mem_empty (a : α) : a ∉ (empty : HashedSet α) := by
  simp [mem_iff, empty]

section Equivalence

theorem mem_filter (congr : ∀ b, a == b → keep a = keep b) :
    a ∈ s.filter keep ↔ a ∈ s ∧ keep a := by
  simp only [mem_iff, filter, List.mem_filter]
  constructor
  · rintro ⟨b, ⟨present, kept⟩, same⟩
    exact ⟨⟨b, present, same⟩, by rw [congr b same, kept]⟩
  · rintro ⟨⟨b, present, same⟩, kept⟩
    exact ⟨b, ⟨present, by rw [← congr b same, kept]⟩, same⟩

variable [EquivBEq α]

variable {s t : HashedSet α} {items : List α}

theorem mem_congr (same : a == b) : a ∈ s ↔ b ∈ s := by
  simp only [mem_iff, congr_left same]

theorem eq_of_mem_elements (first : a ∈ s.elements) (second : b ∈ s.elements)
    (same : a == b) : a = b := by
  by_contra distinct
  have symmetric : Std.Symm fun a b : α => (a == b) = false :=
    ⟨fun x y apart => symm_false apart⟩
  have apart := s.distinct.forall first second distinct
  rw [same] at apart
  cases apart

def insert (s : HashedSet α) (a : α) : HashedSet α :=
  if absent : a ∈ s then s
  else
    ⟨s.elements ++ [a], pairwise_append.mpr ⟨s.distinct, List.pairwise_singleton _ a, by
      intro b present c single
      rw [mem_singleton.mp single]
      exact symm_false (not_mem_iff.mp absent b present)⟩⟩

def ofList (items : List α) : HashedSet α := items.foldl insert empty

def erase (s : HashedSet α) (a : α) : HashedSet α := s.filter fun b => !(b == a)

def difference (s t : HashedSet α) : HashedSet α := s.filter fun a => !t.contains a

/-- Keeps the elements of the smaller set. -/
def intersection (s t : HashedSet α) : HashedSet α :=
  if s.size ≤ t.size then s.filter t.contains else t.filter s.contains

/-- All of one set, then what only the other one has. -/
def append (s t : HashedSet α) : HashedSet α :=
  ⟨s.elements ++ (t.difference s).elements,
    pairwise_append.mpr ⟨s.distinct, (t.difference s).distinct, by
      intro a first b second
      have absent : b ∉ s := by
        have kept := (List.mem_filter.mp second).2
        rw [← contains_iff]
        simpa using kept
      exact symm_false (not_mem_iff.mp absent a first)⟩⟩

/-- Keeps the elements of the larger set. -/
def union (s t : HashedSet α) : HashedSet α :=
  if s.size ≥ t.size then s.append t else t.append s

theorem mem_insert : b ∈ s.insert a ↔ b == a ∨ b ∈ s := by
  unfold insert
  split_ifs with present
  · constructor
    · exact .inr
    · rintro (same | member)
      · exact (mem_congr same).mpr present
      · exact member
  · simp only [mem_iff, mem_append, mem_singleton, or_and_right, exists_or,
      exists_eq_left, or_comm]

theorem mem_erase : b ∈ s.erase a ↔ b ∈ s ∧ (b == a) = false := by
  rw [erase, mem_filter fun c same => by rw [congr_left same], not_eq_true']

theorem mem_of_mem_foldl_erase (member : a ∈ items.foldl erase s) : a ∈ s := by
  induction items generalizing s with
  | nil => exact member
  | cons item rest ih => exact (mem_erase.mp (ih member)).1

theorem mem_foldl_insert : a ∈ items.foldl insert s ↔ a ∈ s ∨ ∃ b ∈ items, a == b :=
  foldl_iff_or (a ∈ ·) (fun b => (a == b)) fun _ _ => mem_insert.trans or_comm

theorem mem_ofList : a ∈ ofList items ↔ ∃ b ∈ items, a == b := by
  simp [ofList, mem_foldl_insert]

theorem mem_difference : a ∈ s.difference t ↔ a ∈ s ∧ a ∉ t := by
  rw [difference, mem_filter]
  · rw [← contains_iff (s := t), not_eq_true, not_eq_true']
  · intro b same
    have equal : t.contains a = t.contains b := eq_iff_iff.mpr (mem_congr same)
    rw [equal]

theorem mem_filter_contains : a ∈ s.filter t.contains ↔ a ∈ s ∧ a ∈ t := by
  rw [mem_filter, contains_iff]
  intro b same
  exact eq_iff_iff.mpr (mem_congr same)

theorem mem_intersection : a ∈ s.intersection t ↔ a ∈ s ∧ a ∈ t := by
  unfold intersection
  split
  · exact mem_filter_contains
  · rw [mem_filter_contains, and_comm]

theorem mem_append : a ∈ s.append t ↔ a ∈ s ∨ a ∈ t := by
  have split_elements : a ∈ s.append t ↔ a ∈ s ∨ a ∈ t.difference s := by
    simp only [mem_iff, append, List.mem_append, or_and_right, exists_or]
  rw [split_elements, mem_difference]
  tauto

theorem mem_union : a ∈ s.union t ↔ a ∈ s ∨ a ∈ t := by
  unfold union
  split
  · exact mem_append
  · rw [mem_append, or_comm]

theorem mem_elements_insert (member : b ∈ (s.insert a).elements) : b ∈ s.elements ∨ b = a := by
  unfold insert at member
  split at member
  · exact .inl member
  · exact (List.mem_append.mp member).imp_right List.mem_singleton.mp

theorem mem_elements_foldl_insert (member : a ∈ (items.foldl insert s).elements) :
    a ∈ s.elements ∨ a ∈ items := by
  induction items generalizing s with
  | nil => exact .inl member
  | cons first rest ih =>
    rcases ih member with inserted | later
    · rcases mem_elements_insert inserted with old | rfl
      · exact .inl old
      · exact .inr (.head _)
    · exact .inr (.tail first later)

theorem mem_elements_ofList (member : a ∈ (ofList items).elements) : a ∈ items := by
  rcases mem_elements_foldl_insert member with absurd_member | present
  · cases absurd_member
  · exact present

theorem mem_elements_foldl_insert_map {β : Type} {f : β → α} {items : List β}
    (member : a ∈ (items.foldl (fun s item => s.insert (f item)) s).elements) :
    a ∈ s.elements ∨ ∃ item ∈ items, a = f item := by
  rw [← foldl_map (f := f) (g := insert)] at member
  rcases mem_elements_foldl_insert member with old | new
  · exact .inl old
  · obtain ⟨item, present, rfl⟩ := mem_map.mp new
    exact .inr ⟨item, present, rfl⟩

theorem elements_insert_ne_nil (s : HashedSet α) (a : α) : (s.insert a).elements ≠ [] := by
  obtain ⟨kept, present, -⟩ := mem_iff.mp (mem_insert (s := s) (a := a).mpr (.inl rfl))
  exact ne_nil_of_mem present

theorem elements_foldl_insert_ne_nil {β : Type} {f : β → α} {items : List β}
    (nonempty : s.elements ≠ [] ∨ items ≠ []) :
    (items.foldl (fun s item => s.insert (f item)) s).elements ≠ [] := by
  induction items generalizing s with
  | nil => exact nonempty.resolve_right (fun no_items => no_items rfl)
  | cons first rest ih => exact ih (.inl (elements_insert_ne_nil s (f first)))

omit [EquivBEq α] in
theorem mem_elements_difference (member : a ∈ (s.difference t).elements) : a ∈ s.elements :=
  (List.mem_filter.mp member).1

omit [EquivBEq α] in
theorem mem_elements_intersection (member : a ∈ (s.intersection t).elements) :
    a ∈ s.elements ∨ a ∈ t.elements := by
  unfold intersection at member
  split at member
  · exact .inl (List.mem_filter.mp member).1
  · exact .inr (List.mem_filter.mp member).1

theorem mem_elements_append (member : a ∈ (s.append t).elements) :
    a ∈ s.elements ∨ a ∈ t.elements :=
  (List.mem_append.mp member).imp_right mem_elements_difference

theorem mem_elements_union (member : a ∈ (s.union t).elements) :
    a ∈ s.elements ∨ a ∈ t.elements := by
  unfold union at member
  split at member
  · exact mem_elements_append member
  · exact (mem_elements_append member).symm

end Equivalence

/-- Equally many elements, all of them in the other set. -/
instance : BEq (HashedSet α) := ⟨fun s t => s.size == t.size && s.elements.all t.contains⟩

theorem beq_iff_subset : s == t ↔ s.size = t.size ∧ ∀ a ∈ s.elements, a ∈ t := by
  simp only [beq, and_eq_true, all_eq_true, contains_iff]
  simp

section Equality

variable [EquivBEq α]

/-- Elements that the boolean equality does not tell apart. -/
def sameElement (α : Type) [BEq α] [EquivBEq α] : Setoid α :=
  ⟨fun a b => (a == b) = true, fun _ => rfl, symm, trans⟩

theorem nodup_classes (s : HashedSet α) : (s.elements.map (Quotient.mk (sameElement α))).Nodup := by
  rw [List.Nodup, pairwise_map]
  apply s.distinct.imp
  intro a b apart same
  have equal : a == b := Quotient.exact same
  rw [apart] at equal
  cases equal

def classes (s : HashedSet α) : Finset (Quotient (sameElement α)) :=
  ⟨s.elements.map (Quotient.mk (sameElement α)), Multiset.coe_nodup.mpr s.nodup_classes⟩

variable {s : HashedSet α}

theorem mem_classes : Quotient.mk (sameElement α) a ∈ s.classes ↔ a ∈ s := by
  rw [classes, Finset.mem_mk, Multiset.mem_coe, mem_map, mem_iff]
  constructor
  · rintro ⟨b, present, same⟩
    exact ⟨b, present, Quotient.exact same.symm⟩
  · rintro ⟨b, present, same⟩
    exact ⟨b, present, Quotient.sound (BEq.symm same)⟩

theorem card_classes (s : HashedSet α) : s.classes.card = s.size := by
  simp [classes, size]

theorem classes_eq_iff {t : HashedSet α} : s.classes = t.classes ↔ ∀ a, a ∈ s ↔ a ∈ t := by
  rw [Finset.ext_iff, Quotient.forall]
  simp only [mem_classes]

/-- Equal sets are those with the same members. -/
theorem beq_iff {t : HashedSet α} : s == t ↔ ∀ a, a ∈ s ↔ a ∈ t := by
  rw [beq_iff_subset, ← classes_eq_iff]
  constructor
  · rintro ⟨sizes, subset⟩
    apply Finset.eq_of_subset_of_card_le
    · intro c
      induction c using Quotient.ind
      rw [mem_classes, mem_classes, mem_iff]
      rintro ⟨b, present, same⟩
      exact (mem_congr same).mpr (subset b present)
    · rw [card_classes, card_classes, sizes]
  · intro equal
    constructor
    · rw [← card_classes, ← card_classes, equal]
    · intro a present
      exact (classes_eq_iff.mp equal a).mp (mem_of_mem_elements present)

theorem size_foldl_insert_eq_iff {items : List α} :
    (items.foldl insert s).size = s.size ↔ ∀ a ∈ items, a ∈ s := by
  have kept : ∀ a ∈ s.elements, a ∈ items.foldl insert s :=
    fun a present => mem_foldl_insert.mpr (.inl (mem_of_mem_elements present))
  have same : (items.foldl insert s).size = s.size ↔ s == items.foldl insert s := by
    rw [beq_iff_subset, and_iff_left kept, eq_comm]
  rw [same, beq_iff]
  constructor
  · intro members a present
    exact (members a).mpr (mem_foldl_insert.mpr (.inr ⟨a, present, rfl⟩))
  · intro present a
    rw [mem_foldl_insert, iff_self_or]
    rintro ⟨b, listed, equal⟩
    exact (mem_congr equal).mpr (present b listed)

theorem map_perm {t : HashedSet α} (congr : ∀ a b, a == b → f a = f b)
    (same : s == t) : (s.elements.map f).Perm (t.elements.map f) := by
  have equal := classes_eq_iff.mpr (beq_iff.mp same)
  have perm : (s.elements.map (Quotient.mk (sameElement α))).Perm
      (t.elements.map (Quotient.mk (sameElement α))) :=
    Multiset.coe_eq_coe.mp (congrArg Finset.val equal)
  have lifted := perm.map (Quotient.lift f congr)
  rw [map_map, map_map] at lifted
  exact lifted

theorem union_comm : s.union t == t.union s :=
  beq_iff.mpr fun a => by rw [mem_union, mem_union, or_comm]

theorem union_assoc : s.union (t.union u) == (s.union t).union u :=
  beq_iff.mpr fun a => by simp only [mem_union, or_assoc]

theorem union_empty : s.union empty == s :=
  beq_iff.mpr fun a => by simp [mem_union]

theorem empty_union : empty.union s == s :=
  beq_iff.mpr fun a => by simp [mem_union]

instance : EquivBEq (HashedSet α) where
  rfl := beq_iff.mpr fun _ => .rfl
  symm same := beq_iff.mpr fun a => (beq_iff.mp same a).symm
  trans first second := beq_iff.mpr fun a => (beq_iff.mp first a).trans (beq_iff.mp second a)

end Equality

/-- A set of the elements of a list has several elements if the list has different ones. -/
theorem one_lt_size_ofList [LawfulBEq α] {items : List α} :
    1 < (ofList items).size ↔ ∃ a ∈ items, ∃ b ∈ items, a ≠ b := by
  classical
  have distinct : (ofList items).elements.Nodup := (ofList items).distinct.imp ne_of_beq_false
  rw [size, ← List.toFinset_card_of_nodup distinct, Finset.one_lt_card]
  simp [mem_elements_iff, mem_ofList]

theorem size_ofList_eq_one_iff [LawfulBEq α] {items : List α} :
    (ofList items).size = 1 ↔ items ≠ [] ∧ ∀ a ∈ items, ∀ b ∈ items, a = b := by
  have several : ¬ 1 < (ofList items).size ↔ _ := one_lt_size_ofList.not
  push Not at several
  rw [← several]
  cases items with
  | nil => simp [ofList, empty, size]
  | cons first rest =>
    have member : first ∈ (ofList (first :: rest)).elements :=
      mem_elements_iff.mpr (mem_ofList.mpr ⟨first, .head _, beq_self_eq_true first⟩)
    have positive : 0 < (ofList (first :: rest)).size := List.length_pos_of_mem member
    simp only [ne_eq, cons_ne_nil, not_false_eq_true, true_and]
    omega

end HashedSet

end F1r3fly
