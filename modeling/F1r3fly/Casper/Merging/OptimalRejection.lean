import F1r3fly.Casper.Merging.ConflictSetMerger
import Mathlib.Data.List.Lex
import Mathlib.Data.Prod.Lex
import Mathlib.Order.WithBot

/-! The choice among the rejection options compares keys of the options, and two
different options may have the same key. -/
namespace F1r3fly.Casper.Merging

open HashedSet RSpace.Merger

section Comparisons

variable {α : Type} [LinearOrder α]

/-- Lists of one length are compared like words. -/
theorem isLE_zipWith {items others : List α} (length : items.length = others.length) :
    ((List.zipWith compare items others).foldr Ordering.then .eq).isLE ↔ items ≤ others := by
  induction items generalizing others with
  | nil =>
    rw [length_eq_zero_iff.mp length.symm]
    simp
  | cons first rest ih =>
    cases others with
    | nil => cases length
    | cons other others =>
      rw [List.zipWith_cons_cons, List.foldr_cons, isLE_then, ih (Nat.succ.inj length)]
      rw [← not_lt (a := others), ← not_lt (a := other :: others), List.cons_lt_cons_iff]
      rcases lt_trichotomy first other with less | rfl | greater
      · simp [less, less.not_gt, less.ne']
      · simp
      · simp [greater, greater.not_gt, greater.ne']

end Comparisons

section Keys

variable {R : Type} [LinearOrder R]

def branchKey (branch : Branch R) : ℕ ×ₗ List R :=
  toLex (branch.size, sortBy compare branch.elements)

theorem compareBranches_follows : FollowsKey (compareBranches (R := R)) branchKey := by
  intro a b
  have size_sorted (branch : Branch R) : (sortBy compare branch.elements).length = branch.size :=
    (sortBy_perm compare branch.elements).length_eq
  rw [compareBranches, isLE_then, size_sorted, size_sorted, branchKey, branchKey,
    Prod.Lex.toLex_le_toLex]
  apply or_congr_right
  apply and_congr_right
  intro sizes
  apply isLE_zipWith
  rw [size_sorted, size_sorted, sizes]

theorem mem_iff_mem_elements {branch : Branch R} : item ∈ branch ↔ item ∈ branch.elements := by
  simp [mem_iff]

theorem branchKey_congr {a b : Branch R} (same : a == b) : branchKey a = branchKey b := by
  have perm : a.elements.Perm b.elements := by
    have mapped := map_perm (f := id) (fun x y eq => eq_of_beq eq) same
    rwa [List.map_id, List.map_id] at mapped
  have sorted_eq : sortBy compare a.elements = sortBy compare b.elements := by
    apply List.Perm.eq_of_pairwise (fun x y _ _ => le_antisymm)
      (follows_compare.sorted a.elements) (follows_compare.sorted b.elements)
    exact (sortBy_perm _ _).trans (perm.trans (sortBy_perm _ _).symm)
  rw [branchKey, branchKey, sorted_eq, HashedSet.size, HashedSet.size, perm.length_eq]

theorem foldl_least (rest : List R) (first : R) :
    rest.foldl (fun least item => if compare item least = .lt then item else least) first ∈
        first :: rest ∧
      ∀ item ∈ first :: rest,
        rest.foldl (fun least item => if compare item least = .lt then item else least) first ≤
          item := by
  have keeps_min : (fun least item : R => if compare item least = .lt then item else least) =
      min := by
    funext least item
    simp only [compare_lt_iff_lt, min_def, ← not_lt, ite_not]
  rw [keeps_min]
  exact List.min?_eq_some_iff.mp List.min?_cons'

theorem minItem?_eq {items : List R} : minItem? items = (sortBy compare items).head? := by
  cases items with
  | nil => rfl
  | cons first rest =>
    cases head : (sortBy compare (first :: rest)).head? with
    | none =>
      rw [head?_sortBy_eq_none] at head
      cases head
    | some least =>
      obtain ⟨present, below⟩ := follows_compare.head?_sortBy head
      obtain ⟨present', below'⟩ := foldl_least rest first
      rw [minItem?, le_antisymm (below' least present) (below _ present')]

theorem firstItem_eq (option : HashableSet (Branch R)) :
    firstItem option =
      ((sortBy compareBranches option.elements).head?.map branchKey).bind
        fun key => (ofLex key).2.head? := by
  rw [firstItem]
  cases (sortBy compareBranches option.elements).head? with
  | none => rfl
  | some branch => exact minItem?_eq

/-- No item comes before every item. -/
def itemKey : Option R → WithBot R
  | none => ⊥
  | some item => item

theorem isLE_compareItems {a b : Option R} : (compareItems a b).isLE ↔ itemKey a ≤ itemKey b := by
  cases a with
  | none => cases b <;> simp [compareItems, itemKey]
  | some a =>
    cases b with
    | none => simp [compareItems, itemKey]
    | some b => simp [compareItems, itemKey, isLE_compare]

variable (cost : Finset R → UInt64)

def branchCost (branch : Branch R) : UInt64 := cost branch.elements.toFinset

/-- What options are compared by: the sum of costs, the number of items, the least item
of the first branch. -/
def optionKey (option : HashableSet (Branch R)) : ℕ ×ₗ ℕ ×ₗ WithBot R :=
  toLex ((optionSum (branchCost cost) option).toNat,
    toLex (optionSize option, itemKey (firstItem option)))

theorem compareOptions_follows :
    FollowsKey (compareOptions (branchCost cost)) (optionKey cost) := by
  intro a b
  rw [compareOptions, optionKey, optionKey, Prod.Lex.toLex_le_toLex, Prod.Lex.toLex_le_toLex]
  split
  case isTrue sums =>
    have differ : (optionSum (branchCost cost) a).toNat ≠ (optionSum (branchCost cost) b).toNat :=
      fun eq => sums (UInt64.toNat_inj.mp eq)
    rw [Std.isLE_compare, UInt64.le_iff_toNat_le]
    omega
  case isFalse sums =>
    rw [not_not] at sums
    simp only [sums, lt_irrefl, false_or, true_and]
    split
    case isTrue sizes =>
      rw [isLE_compare]
      omega
    case isFalse sizes =>
      rw [not_not] at sizes
      simp only [sizes, lt_irrefl, false_or, true_and]
      exact isLE_compareItems

theorem optionKey_congr {a b : HashableSet (Branch R)} (same : a == b) :
    optionKey cost a = optionKey cost b := by
  have cost_congr (x y : Branch R) (eq : x == y) : branchCost cost x = branchCost cost y := by
    have items : x.elements.toFinset = y.elements.toFinset := by
      ext item
      simp only [List.mem_toFinset, ← mem_iff_mem_elements, beq_iff.mp eq item]
    rw [branchCost, branchCost, items]
  have size_congr (x y : Branch R) (eq : x == y) : x.size = y.size :=
    congrArg (fun key => (ofLex key).1) (branchKey_congr eq)
  have first : firstItem a = firstItem b := by
    rw [firstItem_eq, firstItem_eq, compareBranches_follows.head?_sortBy_congr
      (map_perm (fun x y => branchKey_congr) same)]
  have sums : optionSum (branchCost cost) a = optionSum (branchCost cost) b :=
    (map_perm cost_congr same).foldr_eq 0
  have sizes : optionSize a = optionSize b := (map_perm size_congr same).sum_nat
  rw [optionKey, optionKey, sums, sizes, first]

end Keys

section Determinism

variable {R : Type} [LinearOrder R] (cost : Finset R → UInt64)

def LeastOption (options : HashableSet (HashableSet (Branch R)))
    (option : HashableSet (Branch R)) : Prop :=
  option ∈ options ∧ ∀ other ∈ options, optionKey cost option ≤ optionKey cost other

theorem leastOption_of_head
    (head : (sortBy (compareOptions (branchCost cost)) options.elements).head? = some option) :
    LeastOption cost options option := by
  obtain ⟨present, least⟩ := (compareOptions_follows cost).head?_sortBy head
  refine ⟨mem_of_mem_elements present, ?_⟩
  intro other member
  obtain ⟨kept, kept_present, same⟩ := mem_iff.mp member
  rw [optionKey_congr cost same]
  exact least kept kept_present

theorem exists_enumeration (member : option ∈ options) :
    ∃ enumerated : HashableSet (HashableSet (Branch R)), options == enumerated ∧
      ∃ rest, enumerated.elements = option :: rest := by
  have distinct : (option :: (options.filter fun other => !(option == other)).elements).Pairwise
      fun a b => (a == b) = false := by
    refine pairwise_cons.mpr ⟨?_, (options.filter _).distinct⟩
    intro other present
    simpa using (mem_filter.mp present).2
  refine ⟨⟨_, distinct⟩, ?_, _, rfl⟩
  rw [beq_iff]
  intro other
  simp only [mem_iff (s := ⟨_, distinct⟩), mem_cons, exists_eq_or_imp]
  constructor
  · intro other_member
    obtain ⟨kept, present, same⟩ := mem_iff.mp other_member
    by_cases first : option == kept
    · exact .inl (BEq.trans same (BEq.symm first))
    · exact .inr ⟨kept, mem_filter.mpr ⟨present, by simpa using first⟩, same⟩
  · rintro (same | ⟨kept, present, same⟩)
    · exact (mem_congr same).mpr member
    · exact mem_iff.mpr ⟨kept, (mem_filter.mp present).1, same⟩

/-- The choice does not depend on how the options and the sets in them are enumerated,
exactly when no two different options are both least. -/
theorem getOptimalRejection_deterministic_iff (options : HashableSet (HashableSet (Branch R))) :
    (∀ enumerated, (options == enumerated) = true →
      (getOptimalRejection options (branchCost cost) ==
        getOptimalRejection enumerated (branchCost cost)) = true) ↔
    ∀ a b, LeastOption cost options a → LeastOption cost options b → (a == b) = true := by
  constructor
  · intro deterministic a b least_a least_b
    -- An enumeration that starts with a least option makes it the choice.
    have chosen {option : HashableSet (Branch R)} (least : LeastOption cost options option) :
        (getOptimalRejection options (branchCost cost) == option) = true := by
      obtain ⟨enumerated, same, rest, elements⟩ := exists_enumeration least.1
      have first : getOptimalRejection enumerated (branchCost cost) = option := by
        rw [getOptimalRejection, elements, (compareOptions_follows cost).head?_sortBy_cons]
        · rfl
        · intro other present
          apply least.2
          rw [beq_iff.mp same]
          apply mem_of_mem_elements
          rw [elements]
          exact .tail option present
      rw [← first]
      exact deterministic enumerated same
    exact BEq.trans (BEq.symm (chosen least_a)) (chosen least_b)
  · intro unique enumerated same
    have same_members := beq_iff.mp same
    rw [getOptimalRejection, getOptimalRejection]
    cases first : (sortBy (compareOptions (branchCost cost)) options.elements).head? with
    | none =>
      rw [head?_sortBy_eq_none] at first
      have none_left : enumerated.elements = [] := by
        rw [eq_nil_iff_forall_not_mem]
        intro option present
        have member := (same_members option).mpr (mem_of_mem_elements present)
        rw [mem_iff, first] at member
        obtain ⟨kept, absent, -⟩ := member
        cases absent
      rw [none_left]
      exact BEq.rfl
    | some a =>
      cases second : (sortBy (compareOptions (branchCost cost)) enumerated.elements).head? with
      | none =>
        rw [head?_sortBy_eq_none] at second
        have member := (same_members a).mp (leastOption_of_head cost first).1
        rw [mem_iff, second] at member
        obtain ⟨kept, absent, -⟩ := member
        cases absent
      | some b =>
        obtain ⟨b_member, b_least⟩ := leastOption_of_head cost second
        apply unique a b (leastOption_of_head cost first)
        refine ⟨(same_members b).mpr b_member, ?_⟩
        intro other member
        exact b_least other ((same_members other).mp member)

def singletonBranch (item : ℕ) : Branch ℕ := ⟨[item], List.pairwise_singleton _ _⟩

def tiedOptions : HashableSet (HashableSet (Branch ℕ)) :=
  ⟨[⟨[singletonBranch 1, singletonBranch 3], by decide⟩,
    ⟨[singletonBranch 1, singletonBranch 4], by decide⟩], by decide⟩

def tiedOptionsReversed : HashableSet (HashableSet (Branch ℕ)) :=
  ⟨[⟨[singletonBranch 1, singletonBranch 4], by decide⟩,
    ⟨[singletonBranch 1, singletonBranch 3], by decide⟩], by decide⟩

theorem getOptimalRejection_depends_on_order :
    (tiedOptions == tiedOptionsReversed) = true ∧
      (getOptimalRejection tiedOptions (branchCost fun _ => 1) ==
        getOptimalRejection tiedOptionsReversed (branchCost fun _ => 1)) = false := by
  decide

end Determinism

end F1r3fly.Casper.Merging
