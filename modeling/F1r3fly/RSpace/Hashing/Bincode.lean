import F1r3fly.RSpace.Hashing.Blake2b256Hash

/-! The byte strings that bincode writes. The types of channels, patterns, data
and continuations are parameters of the space; all that is assumed of their
encodings is that a value can be recovered from its bytes. -/
namespace F1r3fly.RSpace

class Serialize (α : Type) where
  serialize : α → ByteVector
  serialize_injective : Function.Injective serialize

export Serialize (serialize serialize_injective)

instance : Serialize UInt8 where
  serialize byte := [byte]
  serialize_injective := fun _ _ same => List.singleton_inj.mp same

def littleEndian : Nat → Nat → ByteVector
  | 0, _ => []
  | n + 1, value => UInt8.ofNat (value % 256) :: littleEndian n (value / 256)

theorem length_littleEndian (n value : Nat) : (littleEndian n value).length = n := by
  induction n generalizing value with
  | zero => rfl
  | succ n ih => simp [littleEndian, ih]

theorem littleEndian_inj (bound : value < 256 ^ n) (other_bound : other < 256 ^ n)
    (same : littleEndian n value = littleEndian n other) : value = other := by
  induction n generalizing value other with
  | zero => omega
  | succ n ih =>
    obtain ⟨head, tail⟩ := List.cons.inj same
    have low : value % 256 = other % 256 := by
      have bytes := congrArg UInt8.toNat head
      simpa only [UInt8.toNat_ofNat', Nat.reducePow, Nat.mod_mod] using bytes
    have high : value / 256 = other / 256 := by
      exact ih (Nat.div_lt_of_lt_mul (by omega)) (Nat.div_lt_of_lt_mul (by omega)) tail
    omega

namespace Bincode

def u64 (value : Nat) : ByteVector := littleEndian 8 value

def u32 (value : Nat) : ByteVector := littleEndian 4 value

def i32 (value : Int) : ByteVector := littleEndian 4 (value % 0x100000000).toNat

def bool (value : Bool) : ByteVector := [if value then 1 else 0]

/-- A vector whose elements are given by their encodings. -/
def vec (elements : List ByteVector) : ByteVector := u64 elements.length ++ elements.flatten

def bytes (value : ByteVector) : ByteVector := u64 value.length ++ value

def byteVectors (values : List ByteVector) : ByteVector := vec (values.map bytes)

end Bincode

end F1r3fly.RSpace
