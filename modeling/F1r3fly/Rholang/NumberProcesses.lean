import F1r3fly.Rholang.RholangMergingLogic

/-! Processes that are numbers and nothing else, on which concrete merges are evaluated.
Random generators are their bytes. -/
namespace F1r3fly.Rholang.NumberProcesses

open RSpace

scoped instance : Blake2b := blake2b

scoped instance : Debug Blake2b256Hash := ⟨toString⟩

scoped instance : RhoNumber Int64 := ⟨id, some⟩

scoped instance : Blake2b512Random ByteVector := ⟨id, id, List.flatten⟩

/-- Each byte is announced, and so is the end. -/
def encodeBytes : ByteVector → ByteVector
  | [] => [0]
  | byte :: rest => 1 :: byte :: encodeBytes rest

def encodeNumber (number : Int64) : ByteVector := littleEndian 8 number.toUInt64.toNat

theorem encodeNumber_injective : Function.Injective encodeNumber := by
  intro a b same
  have bound (number : Int64) : number.toUInt64.toNat < 256 ^ 8 := number.toUInt64.toNat_lt
  have bits := littleEndian_inj (bound a) (bound b) same
  have unsigned := UInt64.toNat_inj.mp bits
  cases a
  cases b
  exact congrArg Int64.ofUInt64 unsigned

theorem encodeBytes_append_inj
    (same : encodeBytes a ++ rest = encodeBytes b ++ others) : a = b ∧ rest = others := by
  induction a generalizing b with
  | nil =>
    cases b with
    | nil => exact ⟨rfl, (List.cons.inj same).2⟩
    | cons byte b => simp [encodeBytes] at same
  | cons byte a ih =>
    cases b with
    | nil => simp [encodeBytes] at same
    | cons other b =>
      simp only [encodeBytes, cons_append, List.cons.injEq, true_and] at same
      obtain ⟨rfl, same⟩ := same
      obtain ⟨rfl, rfl⟩ := ih same
      exact ⟨rfl, rfl⟩

theorem flatMap_encodeNumber_injective {a b : List Int64}
    (same : a.flatMap encodeNumber = b.flatMap encodeNumber) : a = b := by
  have width (numbers : List Int64) : ∀ part ∈ numbers.map encodeNumber, part.length = 8 := by
    intro part listed
    obtain ⟨number, -, rfl⟩ := mem_map.mp listed
    exact length_littleEndian _ _
  exact List.map_injective_iff.mpr encodeNumber_injective
    (flatten_injective (by decide) (width a) (width b) same)

scoped instance : Serialize (ListParWithRandom Int64) where
  serialize value := encodeBytes (value.pars.flatMap encodeNumber) ++ encodeBytes value.randomState
  serialize_injective := by
    rintro ⟨pars, random⟩ ⟨others, otherRandom⟩ same
    obtain ⟨numbers, rest⟩ := encodeBytes_append_inj same
    obtain ⟨random_eq, -⟩ := encodeBytes_append_inj
      (show encodeBytes random ++ [] = encodeBytes otherRandom ++ [] by simpa using rest)
    simp only [ListParWithRandom.mk.injEq]
    exact ⟨flatMap_encodeNumber_injective numbers, random_eq⟩

end F1r3fly.Rholang.NumberProcesses
