import Mathlib.Algebra.GroupWithZero.Nat
import Mathlib.Algebra.Order.BigOperators.Group.List
import Mathlib.Algebra.Order.Group.Nat
import F1r3fly.Data.Exploration

/-! A list of work. An element is expanded the first time it is taken, and what it leads to
is placed into the rest of the list. -/
namespace F1r3fly.Worklist

open HashedSet

open Relation (ReflTransGen)

variable {α : Type}

/-- A stack has the element that was pushed last at the front. -/
def push (rest new : List α) : List α := new.reverse ++ rest

/-- A queue has the element that was added last at the end. -/
def enqueue (rest new : List α) : List α := rest ++ new

theorem push_perm (rest new : List α) : (push rest new).Perm (rest ++ new) :=
  ((List.reverse_perm new).append_right rest).trans List.perm_append_comm

theorem sum_add_le {items : List α} {extra : Nat} (present : a ∈ items) (le : ∀ b, f b ≤ g b)
    (less : f a + extra ≤ g a) : (items.map f).sum + extra ≤ (items.map g).sum := by
  induction items with
  | nil => cases present
  | cons b rest ih =>
    rw [map_cons, map_cons, sum_cons, sum_cons]
    rcases mem_cons.mp present with rfl | later
    · have rest_le : (rest.map f).sum ≤ (rest.map g).sum := List.sum_le_sum fun b _ => le b
      omega
    · have rest_le := ih later
      have head_le := le b
      omega

variable [BEq α]

def order [EquivBEq α] (place : List α → List α → List α) (nexts : α → List α) :
    Nat → List α → HashedSet α → List α
  | 0, _, _ => []
  | _ + 1, [], _ => []
  | fuel + 1, a :: rest, visited =>
    if visited.contains a then order place nexts fuel rest visited
    else a :: order place nexts fuel
      (place rest ((nexts a).filter fun b => !(visited.insert a).contains b)) (visited.insert a)

/-- The rounds that are left: what is in the list, and what can still get there. -/
def rounds (nexts : α → List α) (candidates work : List α) (visited : HashedSet α) : Nat :=
  work.length + (candidates.map fun a => if visited.contains a then 0 else (nexts a).length).sum

def Leads (nexts : α → List α) (visited : HashedSet α) (a b : α) : Prop :=
  b ∈ nexts a ∧ a ∉ visited ∧ b ∉ visited

variable [LawfulBEq α] {place : List α → List α → List α} {nexts : α → List α}

variable {visited : HashedSet α} {candidates : List α}

theorem mem_insert : b ∈ visited.insert a ↔ b = a ∨ b ∈ visited := by
  rw [HashedSet.mem_insert, beq_iff_eq]

theorem not_mem_insert : b ∉ visited.insert a ↔ b ≠ a ∧ b ∉ visited := by
  rw [mem_insert, not_or]

/-- A path goes past an element, or its last part starts behind the element. -/
theorem path_split (a : α) (path : ReflTransGen (Leads nexts visited) start b) :
    b = a ∨ start ≠ a ∧ ReflTransGen (Leads nexts (visited.insert a)) start b ∨
      ∃ next ∈ nexts a, next ∉ visited.insert a ∧
        ReflTransGen (Leads nexts (visited.insert a)) next b := by
  induction path with
  | refl =>
    by_cases start_eq : start = a
    · exact .inl start_eq
    · exact .inr (.inl ⟨start_eq, .refl⟩)
  | tail _ step ih =>
    rename_i c d _
    obtain ⟨leads, c_new, d_new⟩ := step
    by_cases d_eq : d = a
    · exact .inl d_eq
    · have d_outside := not_mem_insert.mpr ⟨d_eq, d_new⟩
      right
      by_cases c_eq : c = a
      · subst c_eq
        exact .inr ⟨d, leads, d_outside, .refl⟩
      · have last : Leads nexts (visited.insert a) c d :=
          ⟨leads, not_mem_insert.mpr ⟨c_eq, c_new⟩, d_outside⟩
        rcases ih with c_eq' | ⟨start_ne, avoids⟩ | ⟨next, next_leads, next_new, avoids⟩
        · exact absurd c_eq' c_eq
        · exact .inl ⟨start_ne, avoids.tail last⟩
        · exact .inr ⟨next, next_leads, next_new, avoids.tail last⟩

theorem path_of_insert (path : ReflTransGen (Leads nexts (visited.insert a)) b c) :
    ReflTransGen (Leads nexts visited) b c := by
  refine ReflTransGen.mono ?_ _ _ path
  rintro d e ⟨leads, d_new, e_new⟩
  exact ⟨leads, (not_mem_insert.mp d_new).2, (not_mem_insert.mp e_new).2⟩

theorem rounds_insert (rest : List α)
    (covered : nexts a ≠ [] → a ∈ candidates) (new : a ∉ visited)
    (places : ∀ rest new, (place rest new).Perm (rest ++ new)) :
    rounds nexts candidates
        (place rest ((nexts a).filter fun b => !(visited.insert a).contains b))
        (visited.insert a) < rounds nexts candidates (a :: rest) visited := by
  have le (b : α) : (if (visited.insert a).contains b then 0 else (nexts b).length) ≤
      if visited.contains b then 0 else (nexts b).length := by
    split
    case isTrue => exact Nat.zero_le _
    case isFalse outside =>
      have not_visited : ¬visited.contains b := (not_mem_insert.mp outside).2
      rw [if_neg not_visited]
  have kept : ((nexts a).filter fun b => !(visited.insert a).contains b).length ≤
      (nexts a).length := List.length_filter_le _ _
  have total : (candidates.map fun b =>
        if (visited.insert a).contains b then 0 else (nexts b).length).sum + (nexts a).length ≤
      (candidates.map fun b => if visited.contains b then 0 else (nexts b).length).sum := by
    by_cases nothing : nexts a = []
    · rw [nothing, length_nil, Nat.add_zero]
      exact List.sum_le_sum fun b _ => le b
    · apply sum_add_le (covered nothing) le
      have inserted : (visited.insert a).contains a := mem_insert.mpr (.inl rfl)
      have not_visited : ¬visited.contains a := new
      rw [if_pos inserted, if_neg not_visited, Nat.zero_add]
  have placed := (places rest ((nexts a).filter fun b => !(visited.insert a).contains b)).length_eq
  rw [length_append] at placed
  rw [rounds, rounds, placed, length_cons]
  omega

section

variable (covered : ∀ a, nexts a ≠ [] → a ∈ candidates)
  (places : ∀ rest new, (place rest new).Perm (rest ++ new))
include covered places

/-- With enough fuel everything is expanded that can be reached. -/
theorem mem_order (fuel : Nat) (work : List α)
    (visited : HashedSet α) (enough : rounds nexts candidates work visited ≤ fuel) (b : α) :
    b ∈ order place nexts fuel work visited ↔
      b ∉ visited ∧ ∃ start ∈ work, start ∉ visited ∧
        ReflTransGen (Leads nexts visited) start b := by
  induction fuel generalizing work visited with
  | zero =>
    have done : work = [] := length_eq_zero_iff.mp (by rw [rounds] at enough; omega)
    subst done
    simp [order]
  | succ fuel ih =>
    cases work with
    | nil => simp [order]
    | cons a rest =>
      rw [order]
      split_ifs with known
      · have fewer : rounds nexts candidates rest visited ≤ fuel := by
          rw [rounds, length_cons] at enough
          rw [rounds]
          omega
        rw [ih rest visited fewer, exists_mem_cons_iff, or_iff_right fun first => first.1 known]
      · have fewer := rounds_insert rest (covered a) known places
        rw [mem_cons, ih _ _ (by omega)]
        have mem_placed (c : α) : c ∈ place rest
            ((nexts a).filter fun b => !(visited.insert a).contains b) ↔
              c ∈ rest ∨ c ∈ nexts a ∧ c ∉ visited.insert a := by
          rw [(places _ _).mem_iff, mem_append, mem_filter, not_eq_true', eq_false_iff]
          exact Iff.rfl
        constructor
        · rintro (rfl | ⟨b_new, start, present, start_new, path⟩)
          · exact ⟨known, b, (.head _), known, .refl⟩
          · have start_unvisited := (not_mem_insert.mp start_new).2
            refine ⟨(not_mem_insert.mp b_new).2, ?_⟩
            rcases (mem_placed start).mp present with later | ⟨leads, -⟩
            · exact ⟨start, mem_cons_of_mem a later, start_unvisited, path_of_insert path⟩
            · exact ⟨a, (.head _), known,
                (path_of_insert path).head ⟨leads, known, start_unvisited⟩⟩
        · rintro ⟨b_new, start, present, start_new, path⟩
          by_cases b_eq : b = a
          · exact .inl b_eq
          · right
            refine ⟨not_mem_insert.mpr ⟨b_eq, b_new⟩, ?_⟩
            rcases path_split a path with same | ⟨start_ne, avoids⟩ | ⟨next, leads, new, avoids⟩
            · exact absurd same b_eq
            · have later := (mem_cons.mp present).resolve_left start_ne
              exact ⟨start, (mem_placed start).mpr (.inl later),
                not_mem_insert.mpr ⟨start_ne, start_new⟩, avoids⟩
            · exact ⟨next, (mem_placed next).mpr (.inr ⟨leads, new⟩), new, avoids⟩

theorem mem_order_empty (enough : rounds nexts candidates work .empty ≤ fuel) :
    b ∈ order place nexts fuel work .empty ↔
      ∃ start ∈ work, ReflTransGen (fun a b => b ∈ nexts a) start b := by
  have leads_eq : Leads nexts .empty = fun a b => b ∈ nexts a := by
    funext a b
    simp [Leads, not_mem_empty]
  rw [mem_order covered places fuel work .empty enough, leads_eq]
  simp [not_mem_empty]

end

end F1r3fly.Worklist
