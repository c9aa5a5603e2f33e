import F1r3fly.Data.Lists
import Mathlib.Data.List.Nodup
import Mathlib.Order.Basic

/-! Maps whose entries stand in the order of their keys. -/
namespace F1r3fly

structure SortedMap (K V : Type) [LT K] where
  entries : List (K × V)
  sorted : entries.Pairwise fun a b => a.1 < b.1

namespace SortedMap

variable {K V : Type} [LT K]

def empty : SortedMap K V := ⟨[], .nil⟩

def keys (m : SortedMap K V) : List K := m.entries.map (·.1)

def dropFirst (m : SortedMap K V) : SortedMap K V := ⟨m.entries.tail, m.sorted.tail⟩

def filter (m : SortedMap K V) (keep : K × V → Bool) : SortedMap K V :=
  ⟨m.entries.filter keep, m.sorted.filter keep⟩

instance [DecidableEq K] [DecidableEq V] : DecidableEq (SortedMap K V) := fun a b =>
  decidable_of_iff (a.entries = b.entries) (by cases a; cases b; simp)

variable [DecidableEq K]

def get? (m : SortedMap K V) (key : K) : Option V :=
  (m.entries.find? fun entry => entry.1 = key).map (·.2)

variable {m : SortedMap K V} {entries : List (K × V)}

theorem get?_eq_some_iff [Std.Irrefl (α := K) (· < ·)] :
    m.get? key = some value ↔ (key, value) ∈ m.entries := by
  have distinct : (m.entries.map (·.1)).Nodup := by
    refine (pairwise_map.mpr m.sorted).imp ?_
    rintro a _ less rfl
    exact Std.Irrefl.irrefl a less
  have alone : ∀ a ∈ m.entries, ∀ b ∈ m.entries, decide (a.1 = key) → decide (b.1 = key) →
      a = b := by
    intro a a_present b b_present a_same b_same
    apply List.inj_on_of_nodup_map distinct a_present b_present
    rw [of_decide_eq_true a_same, of_decide_eq_true b_same]
  simp [get?, find?_eq_some_iff_mem alone]

theorem ext_get? [Std.Irrefl (α := K) (· < ·)] [IsTrans K (· < ·)] {a b : SortedMap K V}
    (same : ∀ key, a.get? key = b.get? key) : a = b := by
  have distinct (m : SortedMap K V) : m.entries.Nodup := by
    refine m.sorted.imp ?_
    rintro a _ less rfl
    exact Std.Irrefl.irrefl a.1 less
  have perm : a.entries.Perm b.entries := by
    refine (List.perm_ext_iff_of_nodup (distinct a) (distinct b)).mpr fun entry => ?_
    rw [← get?_eq_some_iff, same, get?_eq_some_iff]
  have equal := perm.eq_of_pairwise (fun _ _ _ _ less more =>
    (Std.Irrefl.irrefl _ (IsTrans.trans _ _ _ less more)).elim) a.sorted b.sorted
  cases a
  cases b
  cases equal
  rfl

theorem get?_filter [Std.Irrefl (α := K) (· < ·)] :
    (m.filter keep).get? key = some value ↔ m.get? key = some value ∧ keep (key, value) := by
  rw [get?_eq_some_iff, get?_eq_some_iff]
  exact mem_filter

/-- A loop over the entries that changes what is seen at the entry of one key only. -/
theorem foldl_entries [Std.Irrefl (α := K) (· < ·)] {σ γ : Type} (m : SortedMap K V) (see : σ → γ)
    (key : K) (change : γ → V → γ) (step : σ → K × V → σ)
    (steps : ∀ s entry, see (step s entry) =
      if entry.1 = key then change (see s) entry.2 else see s) (start : σ) :
    see (m.entries.foldl step start) = (m.get? key).elim (see start) (change (see start)) := by
  obtain ⟨entries, sorted⟩ := m
  rw [get?]
  induction entries generalizing start with
  | nil => rfl
  | cons entry rest ih =>
    obtain ⟨below, rest_sorted⟩ := pairwise_cons.mp sorted
    rw [foldl_cons, ih _ rest_sorted, steps, List.find?_cons]
    by_cases same : entry.1 = key
    · have absent : (rest.find? fun other => other.1 = key) = none := by
        rw [find?_eq_none]
        intro other present equal
        have later := below other present
        rw [of_decide_eq_true equal, same] at later
        exact Std.Irrefl.irrefl key later
      simp [same, absent]
    · simp [same]

theorem get?_eq_none_iff : m.get? key = none ↔ ∀ entry ∈ m.entries, entry.1 ≠ key := by
  simp [get?]

theorem mem_keys_iff [Std.Irrefl (α := K) (· < ·)] : key ∈ m.keys ↔ (m.get? key).isSome := by
  simp only [keys, isSome_iff_exists, get?_eq_some_iff]
  simp

variable [DecidableLT K]

def alterEntries (key : K) (change : Option V → V) : List (K × V) → List (K × V)
  | [] => [(key, change none)]
  | (k, v) :: rest =>
    if key < k then (key, change none) :: (k, v) :: rest
    else if key = k then (k, change (some v)) :: rest
    else (k, v) :: alterEntries key change rest

theorem mem_alterEntries (member : entry ∈ alterEntries key change entries) :
    entry ∈ entries ∨ entry.1 = key := by
  induction entries with
  | nil =>
    rw [mem_singleton.mp member]
    exact .inr rfl
  | cons first rest ih =>
    unfold alterEntries at member
    split at member
    · rcases mem_cons.mp member with rfl | old
      · exact .inr rfl
      · exact .inl old
    · split_ifs at member with same
      · rcases mem_cons.mp member with rfl | old
        · exact .inr same.symm
        · exact .inl (.tail first old)
      · rcases mem_cons.mp member with rfl | later
        · exact .inl (.head _)
        · exact (ih later).imp_left (.tail first)

variable [IsTrans K (· < ·)] [Std.Trichotomous (α := K) (· < ·)]

theorem alterEntries_sorted (sorted : entries.Pairwise fun a b => a.1 < b.1) :
    (alterEntries key change entries).Pairwise fun a b => a.1 < b.1 := by
  induction entries with
  | nil => exact List.pairwise_singleton _ _
  | cons first rest ih =>
    obtain ⟨below, rest_sorted⟩ := pairwise_cons.mp sorted
    unfold alterEntries
    split
    case isTrue before =>
      refine pairwise_cons.mpr ⟨?_, sorted⟩
      intro entry present
      rcases mem_cons.mp present with rfl | later
      · exact before
      · exact IsTrans.trans _ _ _ before (below entry later)
    case isFalse notbefore =>
      split
      case isTrue => exact pairwise_cons.mpr ⟨below, rest_sorted⟩
      case isFalse differs =>
        refine pairwise_cons.mpr ⟨?_, ih rest_sorted⟩
        intro entry present
        rcases mem_alterEntries present with old | rfl
        · exact below entry old
        · by_contra notafter
          exact differs (Std.Trichotomous.trichotomous _ _ notbefore notafter)

/-- Changes the value of a key that is there and inserts one that is not. -/
def alter (m : SortedMap K V) (key : K) (change : Option V → V) : SortedMap K V :=
  ⟨alterEntries key change m.entries, alterEntries_sorted m.sorted⟩

def insert (m : SortedMap K V) (key : K) (value : V) : SortedMap K V :=
  m.alter key fun _ => value

variable [Std.Irrefl (α := K) (· < ·)]

theorem get?_alter (m : SortedMap K V) (key other : K) (change : Option V → V) :
    (m.alter key change).get? other =
      if other = key then some (change (m.get? other)) else m.get? other := by
  obtain ⟨entries, sorted⟩ := m
  rw [alter, get?, get?]
  induction entries with
  | nil =>
    by_cases same : other = key
    · simp [alterEntries, same]
    · simp [alterEntries, same, Ne.symm same]
  | cons first rest ih =>
    obtain ⟨below, rest_sorted⟩ := pairwise_cons.mp sorted
    unfold alterEntries
    split
    case isTrue before =>
      by_cases same : other = key
      · subst same
        have absent : ((first :: rest).find? fun entry => entry.1 = other) = none := by
          rw [find?_eq_none]
          intro entry present equal
          have key_below : other < entry.1 := by
            rcases mem_cons.mp present with rfl | later
            · exact before
            · exact IsTrans.trans _ _ _ before (below entry later)
          rw [of_decide_eq_true equal] at key_below
          exact Std.Irrefl.irrefl _ key_below
        simp [absent]
      · simp [same, Ne.symm same, List.find?_cons]
    case isFalse =>
      split
      case isTrue same =>
        by_cases found : other = first.1
        · simp [found, same]
        · simp [found, same, Ne.symm found]
      case isFalse differs =>
        by_cases found : first.1 = other
        · simp [found, show other ≠ key from fun eq => differs (eq.symm.trans found.symm)]
        · simp only [List.find?_cons, found, decide_false]
          exact ih rest_sorted

theorem mem_keys_alter : other ∈ (m.alter key change).keys ↔ other = key ∨ other ∈ m.keys := by
  rw [mem_keys_iff, mem_keys_iff, get?_alter]
  split_ifs with same
  · simp [same]
  · simp [same]

theorem get?_insert (m : SortedMap K V) (key other : K) (value : V) :
    (m.insert key value).get? other = if other = key then some value else m.get? other :=
  get?_alter m key other _

end SortedMap

end F1r3fly
