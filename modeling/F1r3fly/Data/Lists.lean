import Mathlib.Data.List.Basic

/-! Lists: the facts that have short names throughout the development, and some about loops
over a list and about lists that were joined. -/
namespace F1r3fly

export List (mem_cons mem_cons_of_mem mem_filter mem_map mem_map_of_mem mem_append mem_append_left
  mem_append_right mem_singleton mem_flatMap map_cons map_map foldl_cons foldlM_cons sum_cons
  length_cons length_append append_assoc append_nil nodup_cons pairwise_cons exists_mem_cons_iff
  forall_mem_cons forall_mem_singleton mem_of_getElem? getElem?_eq_some_iff getElem?_eq_getElem
  map_append foldl_map mem_filterMap mem_singleton_self exists_mem_of_ne_nil ne_nil_of_mem
  map_congr_left pairwise_append exists_cons_of_ne_nil mapM_cons mem_of_find?_eq_some
  find?_eq_none find?_some not_mem_nil pairwise_map filterMap_cons_some filterMap_cons_none
  flatMap_cons mem_reverse length_eq_zero_iff cons_append nil_append any_eq_true all_eq_true
  sum_append eq_nil_iff_forall_not_mem forall_mem_append cons_ne_nil map_nil sum_nil length_nil
  mem_flatten mem_range getElem_mem foldlRecOn append_inj filterMap_cons any_cons foldl_append
  nodup_append)

export Bool (not_eq_true' not_eq_true and_eq_true false_eq_true and_eq_true_iff or_eq_true
  eq_iff_iff eq_false_iff)

export Option (isSome_iff_exists bind_eq_some_iff bind_some map_some getD_some isSome_some)

export Int64 (le_iff_toInt_le lt_iff_toInt_lt toInt_zero toInt_lt)

export Nat (exists_eq_succ_of_ne_zero mod_eq_of_lt)

variable {α β : Type} {items : List α} {step : β → α → β}

/-- What a function lists after an update at one key is new there or was listed before. -/
theorem mem_update [DecidableEq γ] {f : γ → List α} (member : a ∈ Function.update f k items j) :
    j = k ∧ a ∈ items ∨ a ∈ f j := by
  by_cases same : j = k
  · subst same
    rw [Function.update_self] at member
    exact .inl ⟨rfl, member⟩
  · rw [Function.update_of_ne same] at member
    exact .inr member

/-- A loop whose steps add to what holds. -/
theorem foldl_iff_or (holds : β → Prop) (adds : α → Prop)
    (steps : ∀ b a, holds (step b a) ↔ holds b ∨ adds a) :
    holds (items.foldl step start) ↔ holds start ∨ ∃ a ∈ items, adds a := by
  induction items generalizing start with
  | nil => simp
  | cons a rest ih => rw [foldl_cons, ih, steps, List.exists_mem_cons_iff, or_assoc]

/-- A loop that lists what was not known, and knows it from then on. -/
theorem foldl_new (items : List α) (known listed : β → α → Prop)
    (known_step : ∀ s a b, known (step s a) b ↔ known s b ∨ b = a)
    (listed_step : ∀ s a b, listed (step s a) b ↔ listed s b ∨ ¬known s a ∧ b = a) (start : β)
    (b : α) :
    (known (items.foldl step start) b ↔ known start b ∨ b ∈ items) ∧
      (listed (items.foldl step start) b ↔ listed start b ∨ ¬known start b ∧ b ∈ items) := by
  induction items generalizing start with
  | nil => simp
  | cons a rest ih =>
    obtain ⟨known_rest, listed_rest⟩ := ih (step start a)
    rw [foldl_cons, known_rest, listed_rest, known_step, listed_step, mem_cons]
    by_cases same : b = a
    · subst same
      tauto
    · tauto

theorem foldl_append_ite {start : List β} :
    items.foldl (fun found a => found ++ if p a then [f a] else []) start =
      start ++ (items.filter p).map f := by
  induction items generalizing start with
  | nil => simp
  | cons a rest ih =>
    rw [foldl_cons, ih]
    cases picked : p a <;> simp [picked]

theorem find?_eq_some_iff_mem (alone : ∀ a ∈ items, ∀ b ∈ items, p a → p b → a = b) :
    items.find? p = some a ↔ a ∈ items ∧ p a := by
  constructor
  · exact fun found => ⟨List.mem_of_find?_eq_some found, List.find?_some found⟩
  · rintro ⟨present, holds⟩
    cases found : items.find? p with
    | none => exact absurd holds (List.find?_eq_none.mp found a present)
    | some b =>
      rw [alone b (List.mem_of_find?_eq_some found) a present (List.find?_some found) holds]

theorem length_filter_lt {p q : α → Bool} (stronger : ∀ b, p b → q b) (present : a ∈ items)
    (fails : ¬p a) (holds : q a) : (items.filter p).length < (items.filter q).length := by
  have refiltered : items.filter p = (items.filter q).filter p := by
    rw [List.filter_filter]
    refine List.filter_congr fun b _ => ?_
    rw [Bool.eq_iff_iff, Bool.and_eq_true]
    exact ⟨fun kept => ⟨kept, stronger b kept⟩, And.left⟩
  rw [refiltered, List.length_filter_lt_length_iff_exists]
  exact ⟨a, mem_filter.mpr ⟨present, holds⟩, fails⟩

/-- How many items rank below a bound. A walk to lower and lower items has no more steps. -/
def countBelow (rank : α → Int) (items : List α) (bound : Int) : Nat :=
  items.countP fun a => rank a < bound

theorem countBelow_lt (rank : α → Int) (present : a ∈ items) (lower : rank a < bound)
    (descends : next ≤ rank a) : countBelow rank items next < countBelow rank items bound := by
  rw [countBelow, countBelow, List.countP_eq_length_filter, List.countP_eq_length_filter]
  apply length_filter_lt _ present
  · simpa using descends
  · simpa using lower
  · intro b
    simp only [decide_eq_true_eq]
    omega

theorem flatten_injective {left right : List (List α)} (pos : 0 < n)
    (leftLength : ∀ part ∈ left, part.length = n) (rightLength : ∀ part ∈ right, part.length = n)
    (same : left.flatten = right.flatten) : left = right := by
  have lengths := List.map_eq_replicate_iff.mpr leftLength
  have others := List.map_eq_replicate_iff.mpr rightLength
  have total := congrArg List.length same
  rw [List.length_flatten, List.length_flatten, lengths, others, List.sum_replicate_nat,
    List.sum_replicate_nat] at total
  refine List.eq_iff_flatten_eq.mpr ⟨same, ?_⟩
  rw [lengths, others, Nat.eq_of_mul_eq_mul_right pos total]

end F1r3fly
