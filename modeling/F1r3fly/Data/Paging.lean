import F1r3fly.Data.Lists

/-! Pages of a list in which only the marked items count. A page ends with its last marked
item; what follows up to the next one belongs to the next page. -/
namespace F1r3fly.Paging

variable {α : Type} (marked : α → Bool)

def takeMarked : Nat → List α → List α
  | 0, _ => []
  | _, [] => []
  | n + 1, item :: rest => item :: takeMarked (if marked item then n else n + 1) rest

def dropMarked : Nat → List α → List α
  | 0, items => items
  | _, [] => []
  | n + 1, item :: rest => dropMarked (if marked item then n else n + 1) rest

variable {marked}

@[simp] theorem takeMarked_zero (items : List α) : takeMarked marked 0 items = [] := by
  simp [takeMarked]

@[simp] theorem dropMarked_zero (items : List α) : dropMarked marked 0 items = items := by
  simp [dropMarked]

@[simp] theorem takeMarked_nil (n : Nat) : takeMarked marked n ([] : List α) = [] := by
  cases n <;> simp [takeMarked]

@[simp] theorem dropMarked_nil (n : Nat) : dropMarked marked n ([] : List α) = [] := by
  cases n <;> simp [dropMarked]

variable {item : α}

theorem takeMarked_cons_of_marked (is_marked : marked item) (n : Nat)
    (rest : List α) :
    takeMarked marked (n + 1) (item :: rest) = item :: takeMarked marked n rest := by
  simp [takeMarked, is_marked]

theorem takeMarked_cons_of_not (not_marked : marked item = false)
    (positive : 0 < n) (rest : List α) :
    takeMarked marked n (item :: rest) = item :: takeMarked marked n rest := by
  obtain ⟨n, rfl⟩ := exists_eq_succ_of_ne_zero (Nat.ne_zero_of_lt positive)
  simp [takeMarked, not_marked]

theorem dropMarked_cons_of_marked (is_marked : marked item) (n : Nat)
    (rest : List α) : dropMarked marked (n + 1) (item :: rest) = dropMarked marked n rest := by
  simp [dropMarked, is_marked]

theorem dropMarked_cons_of_not (not_marked : marked item = false)
    (positive : 0 < n) (rest : List α) :
    dropMarked marked n (item :: rest) = dropMarked marked n rest := by
  obtain ⟨n, rfl⟩ := exists_eq_succ_of_ne_zero (Nat.ne_zero_of_lt positive)
  simp [dropMarked, not_marked]

/-- A long page is a short one and a page of what follows it. -/
theorem takeMarked_add (m n : Nat) (items : List α) :
    takeMarked marked (m + n) items =
      takeMarked marked m items ++ takeMarked marked n (dropMarked marked m items) := by
  induction items generalizing m with
  | nil => simp
  | cons item rest ih =>
    cases m with
    | zero => simp
    | succ m =>
      cases is_marked : marked item with
      | true =>
        rw [Nat.add_right_comm, takeMarked_cons_of_marked is_marked,
          takeMarked_cons_of_marked is_marked, dropMarked_cons_of_marked is_marked, ih,
          cons_append]
      | false =>
        rw [takeMarked_cons_of_not is_marked (by omega),
          takeMarked_cons_of_not is_marked (by omega),
          dropMarked_cons_of_not is_marked (by omega), ih, cons_append]

section Chosen

variable {β : Type} {choose : α → Option β} (marks : ∀ item, marked item = (choose item).isSome)

include marks

theorem filterMap_takeMarked (n : Nat) (items : List α) :
    (takeMarked marked n items).filterMap choose = (items.filterMap choose).take n := by
  induction items generalizing n with
  | nil => simp
  | cons item rest ih =>
    cases n with
    | zero => simp
    | succ n =>
      cases chosen : choose item with
      | some found =>
        rw [takeMarked_cons_of_marked (by simp [marks, chosen]), filterMap_cons_some chosen,
          filterMap_cons_some chosen, ih, List.take_succ_cons]
      | none =>
        rw [takeMarked_cons_of_not (by simp [marks, chosen]) (by omega),
          filterMap_cons_none chosen, filterMap_cons_none chosen, ih]

theorem filterMap_dropMarked (n : Nat) (items : List α) :
    (dropMarked marked n items).filterMap choose = (items.filterMap choose).drop n := by
  induction items generalizing n with
  | nil => simp
  | cons item rest ih =>
    cases n with
    | zero => simp
    | succ n =>
      cases chosen : choose item with
      | some found =>
        rw [dropMarked_cons_of_marked (by simp [marks, chosen]), ih,
          filterMap_cons_some chosen, List.drop_succ_cons]
      | none =>
        rw [dropMarked_cons_of_not (by simp [marks, chosen]) (by omega), ih,
          filterMap_cons_none chosen]

/-- A page that asks for more than there is has everything. -/
theorem page_of_few (few : (items.filterMap choose).length < n) :
    takeMarked marked n items = items ∧ dropMarked marked n items = [] := by
  induction items generalizing n with
  | nil => simp
  | cons item rest ih =>
    obtain ⟨n, rfl⟩ := exists_eq_succ_of_ne_zero (Nat.ne_zero_of_lt few)
    cases chosen : choose item with
    | some found =>
      have is_marked : marked item := by simp [marks, chosen]
      rw [filterMap_cons_some chosen, length_cons] at few
      obtain ⟨all, nothing⟩ := ih (Nat.lt_of_succ_lt_succ few)
      rw [takeMarked_cons_of_marked is_marked, dropMarked_cons_of_marked is_marked, all]
      exact ⟨rfl, nothing⟩
    | none =>
      have not_marked : marked item = false := by simp [marks, chosen]
      rw [filterMap_cons_none chosen] at few
      obtain ⟨all, nothing⟩ := ih few
      rw [takeMarked_cons_of_not not_marked n.succ_pos,
        dropMarked_cons_of_not not_marked n.succ_pos,
        all]
      exact ⟨rfl, nothing⟩

end Chosen

end F1r3fly.Paging
