import F1r3fly.Data.HashedMap

/-! Relations kept as a map with the set of what each element is related to. -/
namespace F1r3fly

open HashedMap HashedSet

abbrev Adjacency (α : Type) [BEq α] := HashedMap α (HashedSet α)

namespace Adjacency

variable {α : Type} [BEq α]

def Linked (m : Adjacency α) (a b : α) : Prop := ∃ s, m.get? a = some s ∧ b ∈ s

/-- An element that is in the map is related to something. -/
def NoEmpty (m : Adjacency α) : Prop := ∀ a s, m.get? a = some s → ∃ b, b ∈ s

/-- The element is related to one other element only. -/
def LinkedOnlyTo (m : Adjacency α) (a b : α) : Prop :=
  Linked m a b ∧ ∀ c, Linked m a c → c = b

variable {m : Adjacency α} {a b x y : α} {s : HashedSet α}

@[simp]
theorem not_linked_empty : ¬Linked (.empty : Adjacency α) a b := by
  rintro ⟨s, found, -⟩
  cases found

theorem noEmpty_empty : NoEmpty (.empty : Adjacency α) := by
  intro a s found
  cases found

theorem linked_iff_of_get? (found : m.get? a = some s) : Linked m a b ↔ b ∈ s := by
  constructor
  · rintro ⟨s', found', member⟩
    cases found.symm.trans found'
    exact member
  · exact fun member => ⟨s, found, member⟩

theorem not_linked_of_get? (missing : m.get? a = none) : ¬Linked m a b := by
  rintro ⟨s, found, -⟩
  cases missing.symm.trans found

theorem mem_getD : b ∈ (m.get? a).getD .empty ↔ Linked m a b := by
  cases found : m.get? a with
  | none => simp [not_linked_of_get? found]
  | some s => exact (linked_iff_of_get? found).symm

theorem NoEmpty.get?_eq_none_iff (noEmpty : NoEmpty m) : m.get? a = none ↔ ∀ b, ¬Linked m a b := by
  refine ⟨fun missing b => not_linked_of_get? missing, fun unrelated => ?_⟩
  cases found : m.get? a with
  | none => rfl
  | some s =>
    obtain ⟨b, member⟩ := noEmpty a s found
    exact absurd ⟨s, found, member⟩ (unrelated b)

theorem NoEmpty.get?_isSome_iff (noEmpty : NoEmpty m) : (m.get? a).isSome ↔ ∃ b, Linked m a b := by
  rw [← not_iff_not, not_eq_true, Option.isSome_eq_false_iff, Option.isNone_iff_eq_none,
    noEmpty.get?_eq_none_iff, not_exists]

variable [LawfulBEq α]

def link (m : Adjacency α) (a b : α) : Adjacency α := m.upsert a .empty fun s => s.insert b

/-- The empty set is not kept in the map. -/
def assign (m : Adjacency α) (a : α) (s : HashedSet α) : Adjacency α :=
  if s.isEmpty then m.erase a else m.insert a s

theorem linked_link : Linked (m.link a b) x y ↔ x = a ∧ y = b ∨ Linked m x y := by
  rw [Linked, link, get?_upsert]
  by_cases same : x = a
  · subst same
    simp only [beq_self_eq_true, if_true, Option.some.injEq, exists_eq_left', true_and,
      mem_insert, beq_iff_eq, mem_getD]
  · simp [same, Linked]

theorem NoEmpty.link (noEmpty : NoEmpty m) : NoEmpty (m.link a b) := by
  intro x s found
  rw [Adjacency.link, get?_upsert] at found
  split at found
  · cases found
    exact ⟨b, mem_insert.mpr (.inl BEq.rfl)⟩
  · exact noEmpty x s found

theorem linked_erase : Linked (m.erase a) x y ↔ x ≠ a ∧ Linked m x y := by
  rw [Linked, get?_erase]
  by_cases same : x = a <;> simp [same, Linked]

theorem NoEmpty.erase (noEmpty : NoEmpty m) : NoEmpty (m.erase a) := by
  intro x s found
  rw [get?_erase] at found
  split at found
  · cases found
  · exact noEmpty x s found

variable {keys : List α} {value : α → HashedSet α}

theorem linked_foldl_erase :
    Linked (keys.foldl HashedMap.erase m) x y ↔ x ∉ keys ∧ Linked m x y := by
  induction keys generalizing m with
  | nil => simp
  | cons key rest ih =>
    rw [foldl_cons, ih, linked_erase, mem_cons]
    tauto

theorem NoEmpty.foldl_erase (noEmpty : NoEmpty m) (keys : List α) :
    NoEmpty (keys.foldl HashedMap.erase m) := by
  induction keys generalizing m with
  | nil => exact noEmpty
  | cons key rest ih => exact ih noEmpty.erase

theorem linked_insert : Linked (m.insert a s) x y ↔ x = a ∧ y ∈ s ∨ x ≠ a ∧ Linked m x y := by
  rw [Linked, get?_insert]
  by_cases same : x = a <;> simp [same, Linked]

theorem NoEmpty.insert (noEmpty : NoEmpty m) (nonempty : ∃ b, b ∈ s) : NoEmpty (m.insert a s) := by
  intro x s' found
  rw [get?_insert] at found
  split at found
  · cases found
    exact nonempty
  · exact noEmpty x s' found

theorem linked_foldl_insert :
    Linked (keys.foldl (fun m key => m.insert key (value key)) m) x y ↔
      x ∈ keys ∧ y ∈ value x ∨ x ∉ keys ∧ Linked m x y := by
  induction keys generalizing m with
  | nil => simp
  | cons key rest ih =>
    rw [foldl_cons, ih, linked_insert, mem_cons]
    grind

theorem NoEmpty.foldl_insert (noEmpty : NoEmpty m) (nonempty : ∀ key ∈ keys, ∃ b, b ∈ value key) :
    NoEmpty (keys.foldl (fun m key => m.insert key (value key)) m) := by
  induction keys generalizing m with
  | nil => exact noEmpty
  | cons key rest ih =>
    obtain ⟨first, later⟩ := forall_mem_cons.mp nonempty
    exact ih (noEmpty.insert first) later

theorem linked_assign : Linked (m.assign a s) x y ↔ x = a ∧ y ∈ s ∨ x ≠ a ∧ Linked m x y := by
  rw [assign]
  split_ifs with empty
  · rw [linked_erase, or_iff_right]
    exact fun member => isEmpty_iff.mp empty y member.2
  · exact linked_insert

theorem NoEmpty.assign (noEmpty : NoEmpty m) : NoEmpty (m.assign a s) := by
  rw [Adjacency.assign]
  split_ifs with nonempty
  · exact noEmpty.erase
  · refine noEmpty.insert (by_contra fun none => ?_)
    exact nonempty (isEmpty_iff.mpr (not_exists.mp none))

theorem isEmpty_erase_iff (found : m.get? a = some s) :
    (s.erase b).isEmpty ↔ ∀ c, Linked m a c → c = b := by
  simp only [HashedSet.isEmpty_iff, HashedSet.mem_erase,
    linked_iff_of_get? found, beq_eq_false_iff_ne,
    not_and, not_not]

end Adjacency

end F1r3fly
