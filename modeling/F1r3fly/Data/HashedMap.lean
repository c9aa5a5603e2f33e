import F1r3fly.Data.HashedSet

/-! Maps as a hash table holds them: keys told apart by a boolean equality, each
represented by the one that was inserted first. -/
namespace F1r3fly

open Option

structure HashedMap (K V : Type) [BEq K] where
  entries : List (K × V)
  distinct : entries.Pairwise fun a b => (a.1 == b.1) = false

namespace HashedMap

variable {K V : Type} [BEq K]

def empty : HashedMap K V := ⟨[], .nil⟩

variable (m : HashedMap K V)

def keys : List K := m.entries.map (·.1)

def get? (key : K) : Option V :=
  (m.entries.find? fun entry => key == entry.1).map (·.2)

/-- Changes the value of a key that is there. -/
def update (key : K) (change : V → V) : HashedMap K V where
  entries := m.entries.map fun entry => if key == entry.1 then (entry.1, change entry.2) else entry
  distinct := by
    rw [pairwise_map]
    apply m.distinct.imp
    intro a b apart
    split <;> split <;> exact apart

/-- Keeps the keys for which there is a new value. -/
def filterMapValues (change : K → V → Option V) : HashedMap K V where
  entries := m.entries.filterMap fun entry =>
    (change entry.1 entry.2).map fun value => (entry.1, value)
  distinct := by
    rw [List.pairwise_filterMap]
    apply m.distinct.imp
    intro a b apart a' left b' right
    obtain ⟨value, -, rfl⟩ := map_eq_some_iff.mp left
    obtain ⟨value', -, rfl⟩ := map_eq_some_iff.mp right
    exact apart

theorem mem_keys {m : HashedMap K V} : key ∈ m.keys ↔ ∃ value, (key, value) ∈ m.entries := by
  simp [keys]

theorem keys_update (key : K) (change : V → V) : (m.update key change).keys = m.keys := by
  rw [keys, update, map_map]
  apply map_congr_left
  intro entry present
  dsimp only [Function.comp]
  split <;> rfl

section Equivalence

variable [EquivBEq K]

variable {m : HashedMap K V}

theorem get?_eq_some_iff :
    m.get? key = some value ↔ ∃ other, (other, value) ∈ m.entries ∧ key == other := by
  have symmetric : Std.Symm fun a b : K × V => (a.1 == b.1) = false :=
    ⟨fun _ _ apart => by rw [BEq.comm, apart]⟩
  have alone : ∀ a ∈ m.entries, ∀ b ∈ m.entries, key == a.1 → key == b.1 → a = b := by
    intro a a_present b b_present a_same b_same
    by_contra differ
    have apart := m.distinct.forall a_present b_present differ
    rw [BEq.trans (BEq.symm a_same) b_same] at apart
    cases apart
  simp [get?, find?_eq_some_iff_mem alone]

theorem get?_congr (same : a == b) : m.get? a = m.get? b := by
  apply Option.ext
  intro value
  simp only [get?_eq_some_iff, BEq.congr_left same]

theorem get?_of_mem (present : (key, value) ∈ m.entries) : m.get? key = some value :=
  get?_eq_some_iff.mpr ⟨key, present, BEq.rfl⟩

omit [EquivBEq K] in
theorem get?_eq_none_iff : m.get? key = none ↔ ∀ other ∈ m.keys, (key == other) = false := by
  rw [get?, map_eq_none_iff, find?_eq_none]
  simp [keys]

section Lawful

variable {K V : Type} [BEq K] [LawfulBEq K] {m : HashedMap K V}

theorem mem_entries_iff : entry ∈ m.entries ↔ m.get? entry.1 = some entry.2 := by
  constructor
  · exact get?_of_mem
  · intro found
    obtain ⟨other, present, same⟩ := get?_eq_some_iff.mp found
    rwa [← eq_of_beq same] at present

theorem mem_keys_iff {key : K} : key ∈ m.keys ↔ (m.get? key).isSome := by
  rw [mem_keys, isSome_iff_exists]
  exact exists_congr fun value => mem_entries_iff

theorem nodup_keys (m : HashedMap K V) : m.keys.Nodup :=
  pairwise_map.mpr (m.distinct.imp fun differ => ne_of_beq_false differ)

end Lawful

theorem get?_update :
    (m.update key change).get? other =
      if (other == key) = true then (m.get? other).map change else m.get? other := by
  apply Option.ext
  intro value
  rw [get?_eq_some_iff]
  simp only [update, mem_map]
  split
  case isTrue same =>
    rw [map_eq_some_iff]
    constructor
    · rintro ⟨kept, ⟨entry, present, eq⟩, matches_kept⟩
      have changed : key == entry.1 := by
        have kept_eq : kept = entry.1 := by
          split at eq <;> exact (congrArg Prod.fst eq).symm
        rw [← kept_eq]
        exact BEq.trans (BEq.symm same) matches_kept
      rw [if_pos changed] at eq
      cases eq
      exact ⟨entry.2, get?_eq_some_iff.mpr ⟨entry.1, present, matches_kept⟩, rfl⟩
    · rintro ⟨old, found, rfl⟩
      obtain ⟨kept, present, matches_kept⟩ := get?_eq_some_iff.mp found
      refine ⟨kept, ⟨(kept, old), present, ?_⟩, matches_kept⟩
      exact if_pos (BEq.trans (BEq.symm same) matches_kept)
  case isFalse differs =>
    rw [get?_eq_some_iff]
    constructor
    · rintro ⟨kept, ⟨entry, present, eq⟩, matches_kept⟩
      split_ifs at eq with changed
      · cases eq
        exact absurd (BEq.trans matches_kept (BEq.symm changed)) differs
      · subst eq
        exact ⟨kept, present, matches_kept⟩
    · rintro ⟨kept, present, matches_kept⟩
      refine ⟨kept, ⟨(kept, value), present, if_neg ?_⟩, matches_kept⟩
      intro same
      exact differs (BEq.trans matches_kept (BEq.symm same))

theorem get?_filterMapValues
    (congr : ∀ other value, key == other → change key value = change other value) :
    (m.filterMapValues change).get? key = (m.get? key).bind (change key) := by
  apply Option.ext
  intro value
  rw [get?_eq_some_iff, bind_eq_some_iff]
  simp only [filterMapValues, mem_filterMap, map_eq_some_iff, Prod.mk.injEq]
  constructor
  · rintro ⟨kept, ⟨entry, present, value', changed, rfl, rfl⟩, same⟩
    refine ⟨entry.2, get?_eq_some_iff.mpr ⟨entry.1, present, same⟩, ?_⟩
    rw [congr entry.1 entry.2 same, changed]
  · rintro ⟨old, found, changed⟩
    obtain ⟨kept, present, same⟩ := get?_eq_some_iff.mp found
    rw [congr kept old same] at changed
    exact ⟨kept, ⟨(kept, old), present, value, changed, rfl, rfl⟩, same⟩

/-- Changes the value of a key, or that of `absent` for a key that is not there. -/
def upsert (m : HashedMap K V) (key : K) (absent : V) (change : V → V) : HashedMap K V :=
  if missing : m.get? key = none then
    ⟨m.entries ++ [(key, change absent)],
      pairwise_append.mpr ⟨m.distinct, List.pairwise_singleton _ _, by
        intro entry present other single
        rw [mem_singleton.mp single]
        exact BEq.symm_false (get?_eq_none_iff.mp missing entry.1 (mem_map_of_mem present))⟩⟩
  else m.update key change

def insert (m : HashedMap K V) (key : K) (value : V) : HashedMap K V :=
  m.upsert key value fun _ => value

def insertAll (m : HashedMap K V) (entries : List (K × V)) : HashedMap K V :=
  entries.foldl (fun m entry => m.insert entry.1 entry.2) m

def ofList (entries : List (K × V)) : HashedMap K V :=
  entries.foldl (fun m entry => m.insert entry.1 entry.2) empty

theorem get?_upsert :
    (m.upsert key absent change).get? other =
      if (other == key) = true then some (change ((m.get? other).getD absent))
      else m.get? other := by
  unfold upsert
  split
  case isTrue missing =>
    rw [get?, List.find?_append]
    split
    case isTrue same =>
      have none_found : m.get? other = none := (get?_congr same).trans missing
      have not_found := map_eq_none_iff.mp none_found
      rw [not_found, none_found]
      simp [same]
    case isFalse differs =>
      simp [differs, get?]
  case isFalse present =>
    rw [get?_update]
    split
    case isTrue same =>
      obtain ⟨value, found⟩ := ne_none_iff_exists'.mp present
      rw [get?_congr same, found]
      rfl
    case isFalse differs => rfl

theorem get?_insert :
    (m.insert key value).get? other = if (other == key) = true then some value else m.get? other :=
  get?_upsert

/-- The last one of the entries for a key counts. -/
theorem get?_insertAll {entries : List (K × V)} :
    (m.insertAll entries).get? key =
      ((entries.reverse.find? fun entry => key == entry.1).map (·.2)).or (m.get? key) := by
  rw [insertAll]
  induction entries generalizing m with
  | nil => simp
  | cons entry rest ih =>
    rw [foldl_cons, ih, get?_insert, List.reverse_cons, List.find?_append]
    cases (rest.reverse.find? fun entry => key == entry.1) with
    | some found => rfl
    | none =>
      by_cases same : key == entry.1
      · simp [same]
      · simp [same]

theorem get?_insertAll_map {items : List K} (value : V) :
    (m.insertAll (items.map (·, value))).get? key =
      if items.any (key == ·) then some value else m.get? key := by
  rw [insertAll]
  induction items generalizing m with
  | nil => rfl
  | cons first rest ih =>
    rw [map_cons, foldl_cons, ih, get?_insert, any_cons]
    by_cases same : (key == first) = true <;> simp [same]

theorem mem_keys_upsert (member : other ∈ (m.upsert key absent change).keys) :
    other ∈ m.keys ∨ other = key := by
  unfold upsert at member
  split at member
  · rw [keys, map_append, mem_append] at member
    exact member.imp_right mem_singleton.mp
  · rw [keys_update] at member
    exact .inl member

/-- Entries with distinct keys are kept as they are. -/
theorem entries_ofList {items : List (K × V)}
    (distinct : items.Pairwise fun a b => (a.1 == b.1) = false) :
    (ofList items).entries = items := by
  have added (items : List (K × V)) (m : HashedMap K V)
      (distinct : (m.entries ++ items).Pairwise fun a b => (a.1 == b.1) = false) :
      (items.foldl (fun m entry => m.insert entry.1 entry.2) m).entries = m.entries ++ items := by
    induction items generalizing m with
    | nil => exact (append_nil _).symm
    | cons entry rest ih =>
      have missing : m.get? entry.1 = none := by
        refine get?_eq_none_iff.mpr fun key present => ?_
        obtain ⟨value, in_entries⟩ := mem_keys.mp present
        exact BEq.symm_false ((pairwise_append.mp distinct).2.2 _ in_entries entry (.head _))
      have inserted : (m.insert entry.1 entry.2).entries = m.entries ++ [entry] := by
        rw [insert, upsert, dif_pos missing]
      rw [foldl_cons, ih _ (by rw [inserted, append_assoc]; exact distinct), inserted, append_assoc]
      rfl
  exact added items empty distinct

theorem get?_ofList {K V : Type} [BEq K] [LawfulBEq K] {items : List (K × V)} {key : K}
    {value : V} (distinct : (items.map (·.1)).Nodup) :
    (ofList items).get? key = some value ↔ (key, value) ∈ items := by
  have kept := entries_ofList ((pairwise_map.mp distinct).imp beq_false_of_ne)
  exact (mem_entries_iff : (key, value) ∈ (ofList items).entries ↔ _).symm.trans (by rw [kept])

theorem mem_keys_insert {K V : Type} [BEq K] [LawfulBEq K] {m : HashedMap K V} {key other : K}
    {value : V} : other ∈ (m.insert key value).keys ↔ other = key ∨ other ∈ m.keys := by
  rw [mem_keys_iff, get?_insert, mem_keys_iff]
  by_cases same : other = key <;> simp [same]

def erase (m : HashedMap K V) (key : K) : HashedMap K V :=
  m.filterMapValues fun other value => if other == key then none else some value

theorem get?_erase :
    (m.erase key).get? other = if (other == key) = true then none else m.get? other := by
  rw [erase, get?_filterMapValues fun a value same => by rw [BEq.congr_left same]]
  split
  · exact bind_fun_none (m.get? other)
  · exact bind_fun_some (m.get? other)

end Equivalence

end HashedMap

end F1r3fly
