import F1r3fly.Data.HashedMap

/-! Numbered records indexed by the keys they have, and the pairs of numbers that
meet under a key. -/
namespace F1r3fly.InvertedIndex

open HashedSet

abbrev Index (K : Type) [BEq K] := HashedMap K (HashedSet Nat)

def Holds {K : Type} [BEq K] (index : Index K) (key : K) (number : Nat) : Prop :=
  ∃ numbers, index.get? key = some numbers ∧ number ∈ numbers

section Build

variable {K Record : Type} [BEq K] [EquivBEq K]

def add (index : Index K) (number : Nat) (key : K) : Index K :=
  index.upsert key .empty fun numbers => numbers.insert number

def addAll (index : Index K) (number : Nat) (keys : List K) : Index K :=
  keys.foldl (fun index key => add index number key) index

def build (keysOf : Record → List K) (records : List Record) : Index K :=
  records.zipIdx.foldl (fun index entry => addAll index entry.2 (keysOf entry.1)) .empty

omit [EquivBEq K] in
theorem not_holds_empty (key : K) (number : Nat) : ¬Holds (.empty : Index K) key number := by
  rintro ⟨numbers, found, -⟩
  cases found

theorem holds_add {k : K} :
    Holds (add index number k) key other ↔ key == k ∧ other = number ∨ Holds index key other := by
  rw [Holds, add, HashedMap.get?_upsert]
  split_ifs with same
  · simp only [Option.some.injEq, exists_eq_left', mem_insert, beq_iff_eq, same, true_and,
      Holds]
    apply or_congr_right
    cases index.get? key with
    | none => simp
    | some numbers => simp
  · simp [same, Holds]

variable {key : K}

theorem holds_addAll :
    Holds (addAll index number keys) key other ↔
      (∃ k ∈ keys, key == k) ∧ other = number ∨ Holds index key other := by
  refine (foldl_iff_or (Holds · key other) (fun k => (key == k) ∧ other = number)
    fun _ _ => ?_).trans ?_
  · exact holds_add.trans or_comm
  · simp only [← and_assoc, exists_and_right]
    exact or_comm

theorem holds_build {number : Nat} :
    Holds (build keysOf records) key number ↔
      ∃ record, records[number]? = some record ∧ ∃ k ∈ keysOf record, key == k := by
  refine (foldl_iff_or (Holds · key number)
    (fun entry => (∃ k ∈ keysOf entry.1, key == k) ∧ number = entry.2)
    fun _ _ => ?_).trans ?_
  · exact holds_addAll.trans or_comm
  rw [or_iff_right (not_holds_empty key number)]
  simp only [← List.mk_mem_zipIdx_iff_getElem?]
  constructor
  · rintro ⟨⟨record, _⟩, present, has, rfl⟩
    exact ⟨record, present, has⟩
  · rintro ⟨record, present, has⟩
    exact ⟨_, present, has, rfl⟩

theorem mem_keys_addAll (member : key ∈ (addAll index number keys).keys) :
    key ∈ index.keys ∨ key ∈ keys := by
  induction keys generalizing index with
  | nil => exact .inl member
  | cons k rest ih =>
    rcases ih member with before | later
    · rcases HashedMap.mem_keys_upsert before with before | rfl
      · exact .inl before
      · exact .inr (.head _)
    · exact .inr (.tail k later)

theorem mem_keys_build
    (member : key ∈ (build keysOf records).keys) : ∃ record ∈ records, key ∈ keysOf record := by
  refine foldlRecOn (motive := fun index : Index K =>
    key ∈ index.keys → ∃ record ∈ records, key ∈ keysOf record)
    _ _ (fun none => by cases none) ?_ member
  intro index origin entry present member
  rcases mem_keys_addAll member with before | has
  · exact origin before
  · exact ⟨entry.1, List.fst_mem_of_mem_zipIdx present, has⟩

end Build

section Pairs

def ordered (a b : Nat) : Nat × Nat := if a < b then (a, b) else (b, a)

def Linked (pairs : List (Nat × Nat)) (a b : Nat) : Prop := (a, b) ∈ pairs ∨ (b, a) ∈ pairs

/-- Each element with each one after it. -/
def pairsOf : List Nat → List (Nat × Nat)
  | [] => []
  | first :: rest => rest.map (first, ·) ++ pairsOf rest

theorem ordered_eq_iff :
    ordered a b = (x, y) ∨ ordered a b = (y, x) ↔ a = x ∧ b = y ∨ a = y ∧ b = x := by
  unfold ordered
  split
  · simp
  · simp only [Prod.mk.injEq]
    omega

theorem mem_pairsOf (nodup : numbers.Nodup) :
    Linked (pairsOf numbers) a b ↔ a ∈ numbers ∧ b ∈ numbers ∧ a ≠ b := by
  induction numbers with
  | nil => simp [Linked, pairsOf]
  | cons first rest ih =>
    obtain ⟨notin, rest_nodup⟩ := nodup_cons.mp nodup
    have rest_iff := ih rest_nodup
    simp only [Linked, pairsOf, mem_append, mem_map, Prod.mk.injEq] at rest_iff ⊢
    constructor
    · rintro ((⟨c, present, rfl, rfl⟩ | old) | (⟨c, present, rfl, rfl⟩ | old))
      · exact ⟨(.head _), mem_cons_of_mem _ present, fun eq => notin (eq ▸ present)⟩
      · obtain ⟨left, right, distinct⟩ := rest_iff.mp (.inl old)
        exact ⟨mem_cons_of_mem _ left, mem_cons_of_mem _ right, distinct⟩
      · exact ⟨mem_cons_of_mem _ present, (.head _),
          fun eq => notin (eq ▸ present)⟩
      · obtain ⟨left, right, distinct⟩ := rest_iff.mp (.inr old)
        exact ⟨mem_cons_of_mem _ left, mem_cons_of_mem _ right, distinct⟩
    · rintro ⟨left, right, distinct⟩
      rcases mem_cons.mp left with first_left | left
      · rcases mem_cons.mp right with first_right | right
        · exact absurd (first_left.trans first_right.symm) distinct
        · exact .inl (.inl ⟨b, right, first_left.symm, rfl⟩)
      · rcases mem_cons.mp right with first_right | right
        · exact .inr (.inl ⟨a, left, first_right.symm, rfl⟩)
        · exact (rest_iff.mpr ⟨left, right, distinct⟩).imp .inr .inr

variable {K : Type} [BEq K]

/-- The pairs of different numbers of which one is listed under a key by the first
index and the other one, under the same key, by the second one. -/
def crossPairs (sources targets : Index K) : List (Nat × Nat) :=
  sources.entries.flatMap fun entry =>
    ((targets.get? entry.1).map fun targetNumbers =>
      entry.2.elements.flatMap fun source =>
        (targetNumbers.elements.filter fun target => source ≠ target).map (ordered source)).getD []

/-- The pairs of numbers listed under one key, without the keys to skip and the pairs
that are exempt under their key. -/
def sharedPairs (index : Index K) (skip : K → Bool) (exempt : K → Nat → Nat → Bool) :
    List (Nat × Nat) :=
  index.entries.flatMap fun entry =>
    if skip entry.1 || entry.2.size < 2 then []
    else
      ((pairsOf entry.2.elements).filter fun pair => !exempt entry.1 pair.1 pair.2).map
        fun pair => ordered pair.1 pair.2

theorem linked_append : Linked (first ++ second) a b ↔ Linked first a b ∨ Linked second a b := by
  simp only [Linked, mem_append]
  tauto

theorem linked_flatMap {Entry : Type} {entries : List Entry} {pairs : Entry → List (Nat × Nat)} :
    Linked (entries.flatMap pairs) a b ↔ ∃ entry ∈ entries, Linked (pairs entry) a b := by
  simp only [Linked, mem_flatMap, and_or_left, exists_or]

variable {numbers : HashedSet Nat}

theorem mem_elements_iff : number ∈ numbers ↔ number ∈ numbers.elements := by
  simp [mem_iff]

theorem linked_map_ordered :
    Linked (pairs.map fun pair => ordered pair.1 pair.2) a b ↔ Linked pairs a b := by
  have of_pair : Linked (pairs.map fun pair => ordered pair.1 pair.2) a b ↔
      ∃ pair ∈ pairs, ordered pair.1 pair.2 = (a, b) ∨ ordered pair.1 pair.2 = (b, a) := by
    simp only [Linked, mem_map, and_or_left, exists_or]
  simp only [of_pair, ordered_eq_iff, and_or_left, exists_or]
  constructor
  · rintro (⟨pair, present, rfl, rfl⟩ | ⟨pair, present, rfl, rfl⟩)
    · exact .inl present
    · exact .inr present
  · rintro (present | present)
    · exact .inl ⟨_, present, rfl, rfl⟩
    · exact .inr ⟨_, present, rfl, rfl⟩

theorem nodup_elements (numbers : HashedSet Nat) : numbers.elements.Nodup := by
  apply numbers.distinct.imp
  intro a b apart
  exact beq_eq_false_iff_ne.mp apart

theorem two_le_size (left : a ∈ numbers.elements)
    (right : b ∈ numbers.elements) (distinct : a ≠ b) : 2 ≤ numbers.size := by
  rw [HashedSet.size]
  cases elements : numbers.elements with
  | nil =>
    rw [elements] at left
    cases left
  | cons first rest =>
    cases rest with
    | nil =>
      rw [elements, mem_singleton] at left right
      exact absurd (left.trans right.symm) distinct
    | cons second rest => simp

theorem linked_sharedPairs {index : Index K} {skip : K → Bool}
    (symmetric : ∀ key a b, exempt key a b = exempt key b a) :
    Linked (sharedPairs index skip exempt) a b ↔
      a ≠ b ∧ ∃ key numbers, (key, numbers) ∈ index.entries ∧ a ∈ numbers ∧ b ∈ numbers ∧
        skip key = false ∧ exempt key a b = false := by
  have linked_filter (key : K) (pairs : List (Nat × Nat)) :
      Linked (pairs.filter fun pair => !exempt key pair.1 pair.2) a b ↔
        Linked pairs a b ∧ exempt key a b = false := by
    simp only [Linked, mem_filter, not_eq_true', symmetric key b a, or_and_right]
  rw [sharedPairs, linked_flatMap]
  constructor
  · rintro ⟨⟨key, numbers⟩, present, linked⟩
    split at linked
    · simp [Linked] at linked
    · rename_i considered
      rw [linked_map_ordered, linked_filter, mem_pairsOf (nodup_elements numbers)] at linked
      obtain ⟨⟨left, right, distinct⟩, allowed⟩ := linked
      simp only [or_eq_true, not_or, not_eq_true] at considered
      exact ⟨distinct, key, numbers, present, mem_elements_iff.mpr left, mem_elements_iff.mpr right,
        considered.1, allowed⟩
  · rintro ⟨distinct, key, numbers, present, left, right, kept, allowed⟩
    rw [mem_elements_iff] at left right
    refine ⟨(key, numbers), present, ?_⟩
    have two := two_le_size left right distinct
    have considered : ¬(skip key || decide (numbers.size < 2)) := by
      simp only [kept, Bool.false_or, decide_eq_true_eq]
      omega
    rw [if_neg considered, linked_map_ordered, linked_filter, mem_pairsOf (nodup_elements numbers)]
    exact ⟨⟨left, right, distinct⟩, allowed⟩

theorem linked_map_ordered_left {targets : List Nat} :
    Linked (targets.map (ordered source)) a b ↔
      source = a ∧ b ∈ targets ∨ source = b ∧ a ∈ targets := by
  have as_pairs : targets.map (ordered source) =
      (targets.map (Prod.mk source)).map fun pair => ordered pair.1 pair.2 := by
    rw [map_map]
    rfl
  rw [as_pairs, linked_map_ordered]
  simp only [Linked, mem_map, Prod.mk.injEq]
  constructor
  · rintro (⟨target, present, rfl, rfl⟩ | ⟨target, present, rfl, rfl⟩)
    · exact .inl ⟨rfl, present⟩
    · exact .inr ⟨rfl, present⟩
  · rintro (⟨rfl, present⟩ | ⟨rfl, present⟩)
    · exact .inl ⟨b, present, rfl, rfl⟩
    · exact .inr ⟨a, present, rfl, rfl⟩

variable [EquivBEq K]

theorem linked_crossPairs {sources targets : Index K} {a b : Nat} :
    Linked (crossPairs sources targets) a b ↔
      a ≠ b ∧ ∃ key, Holds sources key a ∧ Holds targets key b ∨
        Holds sources key b ∧ Holds targets key a := by
  rw [crossPairs, linked_flatMap]
  constructor
  · rintro ⟨⟨key, sourceNumbers⟩, present, linked⟩
    have found := HashedMap.get?_of_mem present
    cases target : targets.get? key with
    | none => simp [target, Linked] at linked
    | some targetNumbers =>
      simp only [target, map_some, getD_some, linked_flatMap,
        linked_map_ordered_left, mem_filter, decide_eq_true_eq] at linked
      obtain ⟨source, has_source, ⟨rfl, has_target, apart⟩ | ⟨rfl, has_target, apart⟩⟩ := linked
      · exact ⟨apart, key, .inl ⟨⟨_, found, mem_elements_iff.mpr has_source⟩,
          ⟨_, target, mem_elements_iff.mpr has_target⟩⟩⟩
      · exact ⟨apart.symm, key, .inr ⟨⟨_, found, mem_elements_iff.mpr has_source⟩,
          ⟨_, target, mem_elements_iff.mpr has_target⟩⟩⟩
  · -- The key under which the source is listed need not be the very key that was asked for.
    have linked_of_holds {source target : Nat} {key : K} (has_source : Holds sources key source)
        (has_target : Holds targets key target) (apart : source ≠ target) :
        ∃ entry ∈ sources.entries, Linked (((targets.get? entry.1).map fun targetNumbers =>
          entry.2.elements.flatMap fun source =>
            (targetNumbers.elements.filter fun target => source ≠ target).map
              (ordered source)).getD []) source target := by
      obtain ⟨sourceNumbers, found, in_sources⟩ := has_source
      obtain ⟨targetNumbers, found', in_targets⟩ := has_target
      obtain ⟨kept, present, same⟩ := HashedMap.get?_eq_some_iff.mp found
      refine ⟨(kept, sourceNumbers), present, ?_⟩
      rw [← HashedMap.get?_congr same, found', map_some, getD_some, linked_flatMap]
      refine ⟨source, mem_elements_iff.mp in_sources, ?_⟩
      rw [linked_map_ordered_left]
      refine .inl ⟨rfl, mem_filter.mpr ⟨mem_elements_iff.mp in_targets, ?_⟩⟩
      simpa using apart
    rintro ⟨apart, key, ⟨has_source, has_target⟩ | ⟨has_source, has_target⟩⟩
    · exact linked_of_holds has_source has_target apart
    · obtain ⟨entry, present, linked⟩ := linked_of_holds has_source has_target apart.symm
      exact ⟨entry, present, linked.symm⟩

end Pairs

end F1r3fly.InvertedIndex
