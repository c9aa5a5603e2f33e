import Mathlib.Algebra.GroupWithZero.Nat
import F1r3fly.Data.Lists
import Mathlib.Order.Basic

/-! Blake2b-256 is outside the repository. It enters as a function to 32-byte
strings; no function of that type is injective, so freedom from collisions is
always stated of the finitely many strings that a run has hashed. -/
namespace F1r3fly.RSpace

abbrev ByteVector := List UInt8

abbrev Blake2b256Hash := ByteVector

-- under names of their own, which the definitions then refer to
instance : LawfulBEq ByteVector := inferInstance

instance : EquivBEq ByteVector := inferInstance

instance : IsTrans ByteVector (· < ·) := inferInstance

instance : Std.Trichotomous (α := ByteVector) (· < ·) := inferInstance

class Blake2b where
  hash : ByteVector → Blake2b256Hash
  length_hash : ∀ data, (hash data).length = 32

def CollisionFree [Blake2b] (hashed : List ByteVector) : Prop :=
  ∀ x ∈ hashed, ∀ y ∈ hashed, Blake2b.hash x = Blake2b.hash y → x = y

instance [Blake2b] (hashed : List ByteVector) : Decidable (CollisionFree hashed) :=
  inferInstanceAs (Decidable (∀ x ∈ hashed, ∀ y ∈ hashed, _ → _))

theorem CollisionFree.of_subset [Blake2b] (free : CollisionFree larger)
    (subset : smaller ⊆ larger) : CollisionFree smaller :=
  fun x hx y hy => free x (subset hx) y (subset hy)

end F1r3fly.RSpace
