import F1r3fly.RSpace.Hashing.Blake2b256Hash

/-! The routing table of the discovery protocol: buckets of peers, by the number of leading bits
that their keys have in common with the local key. -/
namespace F1r3fly.Comm.Discovery

open RSpace (ByteVector)

/-- The number of leading zeros of a byte. Entry 0 is unused. -/
def dlut : List Nat :=
  [0, 7, 6, 6] ++ .replicate 4 5 ++ .replicate 8 4 ++ .replicate 16 3 ++ .replicate 32 2 ++
    .replicate 64 1 ++ .replicate 128 0

/-- The loop over the bytes of two keys. -/
def commonBits : ByteVector → ByteVector → Nat
  | x :: a, y :: b =>
    if x ^^^ y ≠ 0 then dlut.getD (x ^^^ y).toNat 0 else 8 + commonBits a b
  | _, _ => 0

/-- There is a bucket for each distance below eight times the length of the local key. -/
structure PeerTable where
  localKey : ByteVector

namespace PeerTable

variable (self : PeerTable)

def width : Nat := self.localKey.length

def distance (a b : ByteVector) : Option Nat :=
  if a.length ≠ self.width ∨ b.length ≠ self.width then none else some (commonBits a b)

end PeerTable

/-- The key that a search for peers at a distance asks for. -/
def findTarget (key : ByteVector) (dist : Nat) : ByteVector :=
  key.modify (dist / 8) fun byte => byte ^^^ ((1 : UInt8) <<< (dist % 8).toUInt8)

theorem commonBits_modify (key : ByteVector) (bit : UInt8) (nonzero : bit ≠ 0) (i : Nat)
    (inside : i < key.length) :
    commonBits key (key.modify i (· ^^^ bit)) = 8 * i + dlut.getD bit.toNat 0 := by
  induction key generalizing i with
  | nil => cases inside
  | cons x key ih =>
    cases i with
    | zero =>
      have flipped : x ^^^ (x ^^^ bit) = bit := by
        rw [← UInt8.xor_assoc, UInt8.xor_self, UInt8.zero_xor]
      rw [List.modify_zero_cons, commonBits, flipped, if_pos nonzero, Nat.mul_zero, Nat.zero_add]
    | succ i =>
      have rest := ih i (by simpa using inside)
      simp [commonBits, rest]
      omega

/-- The target differs from the local key at the bit with that number, counted from the other
end of its byte. -/
theorem distance_findTarget (table : PeerTable) (inside : d < 8 * table.width) :
    table.distance table.localKey (findTarget table.localKey d) =
      some (8 * (d / 8) + (7 - d % 8)) := by
  have bit : ∀ i < 8, (1 : UInt8) <<< i.toUInt8 ≠ 0 ∧
      dlut.getD ((1 : UInt8) <<< i.toUInt8).toNat 0 = 7 - i := by decide
  obtain ⟨nonzero, leading⟩ := bit (d % 8) (Nat.mod_lt _ (by decide))
  have byte : d / 8 < table.localKey.length := by
    rw [PeerTable.width] at inside
    omega
  rw [PeerTable.distance, if_neg (by simp [PeerTable.width, findTarget]), findTarget,
    commonBits_modify _ _ nonzero _ byte, leading]

/-- No target is at the distance that it is meant for. -/
theorem distance_findTarget_iff (table : PeerTable) (d : Nat) :
    (d < 8 * table.width →
        table.distance table.localKey (findTarget table.localKey d) = some d) ↔
      8 * table.width ≤ d := by
  constructor
  · intro meant
    by_contra outside
    have inside : d < 8 * table.width := by omega
    have found := meant inside
    rw [distance_findTarget table inside, Option.some.injEq] at found
    omega
  · intro outside inside
    omega

theorem target_at_other_distance :
    (⟨[0]⟩ : PeerTable).distance [0] (findTarget [0] 0) = some 7 := by
  decide

end F1r3fly.Comm.Discovery
