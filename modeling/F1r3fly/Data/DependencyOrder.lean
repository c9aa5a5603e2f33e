import F1r3fly.Data.Lists
import Mathlib.Data.Set.Finite.List
import Mathlib.Order.WellFoundedSet

/-! Orders in which every item comes after what it needs. -/
namespace F1r3fly

open Relation (TransGen)
open scoped List

variable {α : Type} {needs : α → α → Prop}

def InOrder (needs : α → α → Prop) (order : List α) : Prop :=
  ∀ before a rest, order = before ++ a :: rest → ∀ b, needs a b → b ∈ before

/-- What an item needs in one step or more comes before it. -/
theorem InOrder.mem_of_transGen
    (ordered : InOrder needs (before ++ a :: rest)) (path : TransGen needs a b) : b ∈ before := by
  induction path with
  | single step => exact ordered before a rest rfl _ step
  | tail _ step ih =>
    obtain ⟨front, back, rfl⟩ := List.append_of_mem ih
    have needed := ordered front _ (back ++ a :: rest) (by rw [append_assoc, cons_append]) _ step
    exact mem_append_left _ needed

/-- Of items that are all there, no one may need a later one or itself. -/
theorem inOrder_of_pairwise
    (closed : ∀ a ∈ order, ∀ b, needs a b → b ∈ order) (acyclic : ∀ a, ¬TransGen needs a a)
    (pairwise : order.Pairwise fun earlier later => ¬needs earlier later) :
    InOrder needs order := by
  rintro before a rest rfl b needed
  have member := closed a (mem_append_right before (.head _)) b needed
  rw [mem_append, mem_cons] at member
  rcases member with earlier | rfl | later
  · exact earlier
  · exact absurd (.single needed) (acyclic b)
  · have after_a := (pairwise_cons.mp (pairwise_append.mp pairwise).2.1).1
    exact absurd needed (after_a b later)

section

variable (acyclic : ∀ a, ¬TransGen needs a a)
include acyclic

theorem exists_needless (nonempty : items ≠ []) : ∃ a ∈ items, ∀ b ∈ items, ¬needs a b := by
  have strict : IsStrictOrder α fun b a => TransGen needs a b :=
    { irrefl := acyclic
      trans := fun _ _ _ first second => second.trans first }
  have wellFounded := (List.finite_toSet items).wellFoundedOn (r := fun b a => TransGen needs a b)
  obtain ⟨first, present⟩ := exists_mem_of_ne_nil items nonempty
  obtain ⟨⟨a, member⟩, -, minimal⟩ := wellFounded.has_min Set.univ ⟨⟨first, present⟩, trivial⟩
  exact ⟨a, member, fun b other needed => minimal ⟨b, other⟩ trivial (.single needed)⟩

theorem exists_perm_pairwise (items : List α) : ∃ order : List α, order.Perm items ∧
      order.Pairwise fun earlier later => ¬needs earlier later := by
  classical
  induction size : items.length generalizing items with
  | zero =>
    obtain rfl := length_eq_zero_iff.mp size
    exact ⟨[], .nil, .nil⟩
  | succ length ih =>
    have nonempty : items ≠ [] := by
      rintro rfl
      cases size
    obtain ⟨a, member, needless⟩ := exists_needless acyclic nonempty
    obtain ⟨order, perm, pairwise⟩ := ih (items.erase a) (by
      rw [List.length_erase_of_mem member, size, Nat.add_sub_cancel])
    refine ⟨a :: order, (perm.cons a).trans (List.perm_cons_erase member).symm, ?_⟩
    refine pairwise_cons.mpr ⟨fun b later => ?_, pairwise⟩
    exact needless b (List.mem_of_mem_erase (perm.mem_iff.mp later))

/-- An item can come as early as what it needs allows. -/
theorem exists_order_with_past_first
    (closed : ∀ a ∈ items, ∀ b, needs a b → b ∈ items) (member : a ∈ items) :
    ∃ before rest, (before ++ a :: rest).Perm items ∧ InOrder needs (before ++ a :: rest) ∧
      ∀ b ∈ before, TransGen needs a b := by
  classical
  obtain ⟨order, perm, pairwise⟩ := exists_perm_pairwise acyclic items
  have present := perm.mem_iff.mpr member
  have others : (order.erase a).Pairwise fun earlier later => ¬needs earlier later :=
    pairwise.sublist List.erase_sublist
  let past (b : α) : Bool := TransGen needs a b
  have whole :=
    calc (order.erase a).filter past ++ a :: (order.erase a).filter (!past ·)
      _ ~ a :: ((order.erase a).filter past ++ (order.erase a).filter (!past ·)) :=
        List.perm_middle
      _ ~ a :: order.erase a := (List.filter_append_perm past _).cons a
      _ ~ order := (List.perm_cons_erase present).symm
      _ ~ items := perm
  refine ⟨_, _, whole, inOrder_of_pairwise ?_ acyclic ?_, ?_⟩
  · intro b b_present c needed
    exact whole.mem_iff.mpr (closed b (whole.mem_iff.mp b_present) c needed)
  · have in_past {b : α} (b_past : b ∈ (order.erase a).filter past) : TransGen needs a b :=
      of_decide_eq_true (mem_filter.mp b_past).2
    have not_in_past {b : α} (b_rest : b ∈ (order.erase a).filter (!past ·)) :
        ¬TransGen needs a b := by
      have outside := (mem_filter.mp b_rest).2
      rw [not_eq_true', decide_eq_false_iff_not] at outside
      exact outside
    refine pairwise_append.mpr ⟨others.filter _, pairwise_cons.mpr ⟨?_, others.filter _⟩, ?_⟩
    · intro b b_rest needed
      exact not_in_past b_rest (.single needed)
    · intro b b_past c c_later needed
      rcases mem_cons.mp c_later with rfl | c_rest
      · exact acyclic c ((in_past b_past).tail needed)
      · exact not_in_past c_rest ((in_past b_past).tail needed)
  · intro b b_past
    exact of_decide_eq_true (mem_filter.mp b_past).2

end

end F1r3fly
