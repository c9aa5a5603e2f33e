import Mathlib.Data.List.Basic

/-! The wire format of protocol buffers. A message is written as records, each of which has the
number of a field and a payload. A field with its default value has no record. -/
namespace F1r3fly.Protobuf

open Function List

/-- Seven bits in each byte, the lowest ones first; the top bit announces another byte. -/
def varint (n : Nat) : List UInt8 :=
  if n < 128 then [UInt8.ofNat n] else UInt8.ofNat (n % 128 + 128) :: varint (n / 128)

/-- The wire types 0 and 2. -/
inductive Payload where
  | varint (value : Nat)
  | bytes (value : List UInt8)

def encodeRecord (number : Nat) : Payload → List UInt8
  | .varint value => varint (number * 8) ++ varint value
  | .bytes value => varint (number * 8 + 2) ++ (varint value.length ++ value)

def encodeRecords (records : List (Nat × Payload)) : List UInt8 :=
  records.flatMap fun record => encodeRecord record.1 record.2

def recordsOf (numbers : List Nat) (fields : List (List Payload)) : List (Nat × Payload) :=
  (numbers.zip fields).flatMap fun field => field.2.map (field.1, ·)

theorem varint_append_inj (same : varint a ++ x = varint b ++ y) : a = b ∧ x = y := by
  induction a using Nat.strongRecOn generalizing b with
  | ind a ih =>
    have byte {m n : Nat} (m_lt : m < 256) (n_lt : n < 256) (same : UInt8.ofNat m = UInt8.ofNat n) :
        m = n := by
      have values := congrArg UInt8.toNat same
      rwa [UInt8.toNat_ofNat_of_lt' m_lt, UInt8.toNat_ofNat_of_lt' n_lt] at values
    rw [varint, varint.eq_def b] at same
    split_ifs at same with a_small b_small b_small
    all_goals obtain ⟨first, rest⟩ := cons.inj same
    · exact ⟨byte (by omega) (by omega) first, rest⟩
    · have := byte (by omega) (by omega) first
      omega
    · have := byte (by omega) (by omega) first
      omega
    · have low := byte (by omega) (by omega) first
      obtain ⟨high, rest⟩ := ih (a / 128) (by omega) rest
      exact ⟨by omega, rest⟩

theorem encodeRecord_append_inj
    (same : encodeRecord m payload ++ x = encodeRecord n other ++ y) :
    (m, payload) = (n, other) ∧ x = y := by
  cases payload <;> cases other <;> simp only [encodeRecord, append_assoc] at same
  all_goals obtain ⟨key, same⟩ := varint_append_inj same
  case varint.varint =>
    obtain ⟨rfl, rest⟩ := varint_append_inj same
    exact ⟨by rw [show m = n by omega], rest⟩
  case bytes.bytes =>
    obtain ⟨length, same⟩ := varint_append_inj same
    obtain ⟨rfl, rest⟩ := append_inj same length
    exact ⟨by rw [show m = n by omega], rest⟩
  all_goals omega

theorem encodeRecord_ne_nil (payload : Payload) : encodeRecord m payload ≠ [] := by
  have nonempty (n : Nat) : varint n ≠ [] := by
    rw [varint]
    split_ifs <;> simp
  cases payload <;> simp [encodeRecord, nonempty]

theorem encodeRecords_injective : Injective encodeRecords := by
  intro records others same
  induction records generalizing others with
  | nil =>
    cases others with
    | nil => rfl
    | cons other others =>
      exact absurd (append_eq_nil_iff.mp same.symm).1 (encodeRecord_ne_nil _)
  | cons record records ih =>
    cases others with
    | nil => exact absurd (append_eq_nil_iff.mp same).1 (encodeRecord_ne_nil _)
    | cons other others =>
      obtain ⟨first, rest⟩ := encodeRecord_append_inj same
      rw [ih rest, show record = other from first]

theorem filter_recordsOf (absent : n ∉ numbers) (fields : List (List Payload)) :
    (recordsOf numbers fields).filter (·.1 = n) = [] := by
  refine filter_eq_nil_iff.mpr fun record member => ?_
  obtain ⟨field, listed, here⟩ := mem_flatMap.mp member
  obtain ⟨payload, -, rfl⟩ := mem_map.mp here
  have := (of_mem_zip (a := field.1) (b := field.2) listed).1
  simp only [decide_eq_true_eq]
  rintro rfl
  exact absent this

/-- The records of a field are those with its number. -/
theorem recordsOf_inj (distinct : numbers.Nodup) (length : fields.length = numbers.length)
    (other_length : others.length = numbers.length)
    (same : recordsOf numbers fields = recordsOf numbers others) : fields = others := by
  induction numbers generalizing fields others with
  | nil => rw [length_eq_zero_iff.mp length, length_eq_zero_iff.mp other_length]
  | cons n numbers ih =>
    obtain ⟨absent, distinct⟩ := nodup_cons.mp distinct
    obtain ⟨field, fields, rfl⟩ := exists_cons_of_length_eq_add_one length
    obtain ⟨other, others, rfl⟩ := exists_cons_of_length_eq_add_one other_length
    have own (payloads : List Payload) (rest : List (List Payload)) :
        (recordsOf (n :: numbers) (payloads :: rest)).filter (·.1 = n) = payloads.map (n, ·) := by
      have tail := filter_recordsOf absent rest
      rw [recordsOf] at tail ⊢
      simp [filter_map, Function.comp_def, tail]
    have here := congrArg (filter (·.1 = n)) same
    rw [own, own] at here
    obtain rfl := map_injective_iff.mpr (fun _ _ same => (Prod.mk.inj same).2) here
    rw [ih distinct (by simpa using length) (by simpa using other_length) (append_cancel_left same)]

/-- The numbers of the fields, and the payloads that each field is written with. -/
class Message (M : Type) where
  numbers : List Nat
  distinct : numbers.Nodup := by decide
  fields : M → List (List Payload)
  complete : ∀ message, (fields message).length = numbers.length := by exact fun _ => rfl
  fields_injective : Injective fields

def encode [Message M] (message : M) : List UInt8 :=
  encodeRecords (recordsOf (Message.numbers M) (Message.fields message))

theorem encode_injective [Message M] : Injective (encode (M := M)) := by
  intro a b same
  exact Message.fields_injective (recordsOf_inj Message.distinct (Message.complete a)
    (Message.complete b) (encodeRecords_injective same))

section Fields

def scalar (value : Nat) : List Payload := if value = 0 then [] else [.varint value]

/-- Negative numbers are those of ten bytes. -/
def int64 (value : Int64) : List Payload := scalar value.toUInt64.toNat

def int32 (value : Int32) : List Payload := int64 value.toInt64

def blob (value : List UInt8) : List Payload := if value = [] then [] else [.bytes value]

def blobs (values : List (List UInt8)) : List Payload := values.map .bytes

def messages [Message M] (items : List M) : List Payload := blobs (items.map encode)

@[simp] theorem scalar_inj : scalar a = scalar b ↔ a = b := by
  rw [scalar, scalar]
  split_ifs <;> simp [*]
  omega

@[simp] theorem int64_inj : int64 a = int64 b ↔ a = b := by
  rw [int64, int64, scalar_inj, UInt64.toNat_inj]
  cases a
  cases b
  exact Int64.ofUInt64.injEq .. ▸ Iff.rfl

@[simp] theorem int32_inj : int32 a = int32 b ↔ a = b := by
  rw [int32, int32, int64_inj, ← Int64.toInt_inj, Int32.toInt_toInt64, Int32.toInt_toInt64,
    Int32.toInt_inj]

@[simp] theorem blob_inj : blob a = blob b ↔ a = b := by
  rw [blob, blob]
  split_ifs <;> simp [*, eq_comm]

@[simp] theorem blobs_inj : blobs a = blobs b ↔ a = b :=
  (map_injective_iff.mpr fun _ _ same => Payload.bytes.inj same).eq_iff

@[simp] theorem messages_inj [Message M] {a b : List M} : messages a = messages b ↔ a = b :=
  blobs_inj.trans (map_injective_iff.mpr encode_injective).eq_iff

end Fields

end F1r3fly.Protobuf
