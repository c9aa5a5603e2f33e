import F1r3fly.Data.Lists
import Mathlib.Data.List.Sort

/-! Stable sorting with a comparison, the largest element, and the least one when the
comparison is that of keys in a linear order. -/
namespace F1r3fly

variable {α : Type}

def sortBy (cmp : α → α → Ordering) (items : List α) : List α :=
  items.insertionSort fun a b => (cmp a b).isLE = true

/-- The last of the largest items. -/
def maxBy (cmp : α → α → Ordering) : List α → Option α
  | [] => none
  | first :: rest =>
    some (rest.foldl (fun best item => if cmp best item = .gt then best else item) first)

variable {cmp : α → α → Ordering}

theorem maxBy_mem (found : maxBy cmp items = some largest) : largest ∈ items := by
  cases items with
  | nil => cases found
  | cons first rest =>
    cases found
    refine foldlRecOn (motive := (· ∈ first :: rest)) rest _ (.head _) ?_
    intro best kept item present
    split
    · exact kept
    · exact .tail _ present

/-- The comparison is that of the keys. -/
def FollowsKey {κ : Type} [LE κ] (cmp : α → α → Ordering) (key : α → κ) : Prop :=
  ∀ a b, (cmp a b).isLE = true ↔ key a ≤ key b

theorem sortBy_perm (cmp : α → α → Ordering) (items : List α) : (sortBy cmp items).Perm items :=
  List.perm_insertionSort _ items

theorem mem_sortBy : item ∈ sortBy cmp items ↔ item ∈ items :=
  List.mem_insertionSort _

theorem head?_sortBy_eq_none : (sortBy cmp items).head? = none ↔ items = [] := by
  rw [List.head?_eq_none_iff, ← length_eq_zero_iff, (sortBy_perm cmp items).length_eq,
    length_eq_zero_iff]

namespace FollowsKey

variable {κ : Type} [LinearOrder κ] {cmp : α → α → Ordering} {key : α → κ}

section

variable (follows : FollowsKey cmp key)
include follows

theorem sorted (items : List α) : (sortBy cmp items).Pairwise fun a b => key a ≤ key b := by
  have total : Std.Total fun a b : α => (cmp a b).isLE :=
    ⟨fun a b => by rw [follows, follows]; exact le_total _ _⟩
  have transitive : IsTrans α fun a b => (cmp a b).isLE :=
    ⟨fun a b c => by rw [follows, follows, follows]; exact le_trans⟩
  exact (List.pairwise_insertionSort _ items).imp (follows _ _).mp

theorem head?_sortBy (head : (sortBy cmp items).head? = some first) :
    first ∈ items ∧ ∀ item ∈ items, key first ≤ key item := by
  have in_sorted := List.mem_of_head? head
  refine ⟨mem_sortBy.mp in_sorted, ?_⟩
  intro item present
  obtain ⟨rest, sorted_eq⟩ := List.head?_eq_some_iff.mp head
  have below := follows.sorted items
  have item_sorted : item ∈ sortBy cmp items := mem_sortBy.mpr present
  rw [sorted_eq] at below item_sorted
  rcases mem_cons.mp item_sorted with rfl | later
  · exact le_rfl
  · exact (pairwise_cons.mp below).1 item later

theorem head?_sortBy_congr (perm : (items.map key).Perm (others.map key)) :
    (sortBy cmp items).head?.map key = (sortBy cmp others).head?.map key := by
  cases first : (sortBy cmp items).head? with
  | none =>
    rw [head?_sortBy_eq_none] at first
    have none_left : others = [] := by simpa [first] using perm
    rw [none_left]
    rfl
  | some a =>
    cases second : (sortBy cmp others).head? with
    | none =>
      rw [head?_sortBy_eq_none] at second
      have none_left : items = [] := by simpa [second] using perm
      rw [none_left] at first
      cases first
    | some b =>
      obtain ⟨a_present, a_least⟩ := follows.head?_sortBy first
      obtain ⟨b_present, b_least⟩ := follows.head?_sortBy second
      obtain ⟨b', b'_present, b'_key⟩ :=
        mem_map.mp (perm.mem_iff.mpr (mem_map_of_mem b_present))
      obtain ⟨a', a'_present, a'_key⟩ :=
        mem_map.mp (perm.mem_iff.mp (mem_map_of_mem a_present))
      have equal : key a = key b := by
        apply le_antisymm
        · rw [← b'_key]
          exact a_least b' b'_present
        · rw [← a'_key]
          exact b_least a' a'_present
      rw [map_some, map_some, equal]

/-- Of several least elements, the one that stood first is kept first. -/
theorem head?_sortBy_cons (least : ∀ item ∈ rest, key first ≤ key item) :
    (sortBy cmp (first :: rest)).head? = some first := by
  rw [sortBy, List.insertionSort_cons_of_forall_rel]
  · rfl
  · intro item present
    exact (follows first item).mpr (least item present)

end

end FollowsKey

section Comparisons

variable [LinearOrder α]

theorem isLE_compare {a b : α} : (compare a b).isLE ↔ a ≤ b := by
  exact Ordering.isLE_iff_ne_gt.trans compare_le_iff_le

theorem follows_compare : FollowsKey (compare : α → α → Ordering) id :=
  fun _ _ => isLE_compare

theorem isLE_then {a b : α} : ((compare a b).then rest).isLE ↔ a < b ∨ a = b ∧ rest.isLE := by
  rcases lt_trichotomy a b with less | rfl | greater
  · rw [compare_lt_iff_lt.mpr less]
    simp [less]
  · rw [compare_eq_iff_eq.mpr rfl]
    simp
  · rw [compare_gt_iff_gt.mpr greater]
    simp [greater.not_gt, greater.ne']

end Comparisons

end F1r3fly
