import F1r3fly.RSpace.Hashing.Bincode

/-! An executable Blake2b with 32-byte digests, so that runs on given inputs can
be evaluated with the digests that the source computes. Words are numbers below
`2 ^ 64`. Nothing else is ever proved of it than its length. -/
namespace F1r3fly.RSpace

namespace Blake2bReference

def wordSize : Nat := 0x10000000000000000

def rotateRight (x amount : Nat) : Nat :=
  (x >>> amount) ||| ((x <<< (64 - amount)) % wordSize)

def iv : List Nat :=
  [0x6a09e667f3bcc908, 0xbb67ae8584caa73b, 0x3c6ef372fe94f82b, 0xa54ff53a5f1d36f1,
    0x510e527fade682d1, 0x9b05688c2b3e6c1f, 0x1f83d9abfb41bd6b, 0x5be0cd19137e2179]

def sigma : List (List Nat) :=
  [[0, 1, 2, 3, 4, 5, 6, 7, 8, 9, 10, 11, 12, 13, 14, 15],
    [14, 10, 4, 8, 9, 15, 13, 6, 1, 12, 0, 2, 11, 7, 5, 3],
    [11, 8, 12, 0, 5, 2, 15, 13, 10, 14, 3, 6, 7, 1, 9, 4],
    [7, 9, 3, 1, 13, 12, 11, 14, 2, 6, 5, 10, 4, 0, 15, 8],
    [9, 0, 5, 7, 2, 4, 10, 15, 14, 1, 11, 12, 6, 8, 3, 13],
    [2, 12, 6, 10, 0, 11, 8, 3, 4, 13, 7, 5, 15, 14, 1, 9],
    [12, 5, 1, 15, 14, 13, 4, 10, 0, 7, 6, 3, 9, 2, 8, 11],
    [13, 11, 7, 14, 12, 1, 3, 9, 5, 0, 15, 4, 8, 6, 2, 10],
    [6, 15, 14, 9, 11, 3, 0, 8, 12, 2, 13, 7, 1, 4, 10, 5],
    [10, 2, 8, 4, 7, 6, 1, 5, 15, 11, 9, 14, 3, 12, 13, 0],
    [0, 1, 2, 3, 4, 5, 6, 7, 8, 9, 10, 11, 12, 13, 14, 15],
    [14, 10, 4, 8, 9, 15, 13, 6, 1, 12, 0, 2, 11, 7, 5, 3]]

/-- Four positions of the working vector: the columns, then the diagonals. -/
abbrev Lane := Nat × Nat × Nat × Nat

def lanes : List Lane :=
  [(0, 4, 8, 12), (1, 5, 9, 13), (2, 6, 10, 14), (3, 7, 11, 15),
    (0, 5, 10, 15), (1, 6, 11, 12), (2, 7, 8, 13), (3, 4, 9, 14)]

def mix (v : List Nat) (lane : Lane) (x y : Nat) : List Nat :=
  let (i, j, k, l) := lane
  let a := (v.getD i 0 + v.getD j 0 + x) % wordSize
  let d := rotateRight (v.getD l 0 ^^^ a) 32
  let c := (v.getD k 0 + d) % wordSize
  let b := rotateRight (v.getD j 0 ^^^ c) 24
  let a := (a + b + y) % wordSize
  let d := rotateRight (d ^^^ a) 16
  let c := (c + d) % wordSize
  let b := rotateRight (b ^^^ c) 63
  (((v.set i a).set j b).set k c).set l d

def mixRound (message : List Nat) : List Lane → List Nat → List Nat → List Nat
  | lane :: rest, x :: y :: schedule, v =>
    mixRound message rest schedule (mix v lane (message.getD x 0) (message.getD y 0))
  | _, _, v => v

def compress (h message : List Nat) (counter : Nat) (last : Bool) : List Nat :=
  let v := h ++ iv
  let v := v.set 12 (v.getD 12 0 ^^^ counter)
  let v := if last then v.set 14 (v.getD 14 0 ^^^ (wordSize - 1)) else v
  let v := sigma.foldl (fun v schedule => mixRound message lanes schedule v) v
  h.zipWith (· ^^^ ·) ((v.take 8).zipWith (· ^^^ ·) (v.drop 8))

def wordOfBytes : ByteVector → Nat
  | [] => 0
  | byte :: bytes => byte.toNat + 256 * wordOfBytes bytes

def wordsOfBlock (block : ByteVector) : List Nat :=
  (List.range 16).map fun i => wordOfBytes ((block.drop (8 * i)).take 8)

/-- The blocks of 128 bytes, one after the other; `fuel` bounds their number. -/
def absorb : Nat → List Nat → Nat → ByteVector → List Nat
  | 0, h, _, _ => h
  | fuel + 1, h, counter, data =>
    if data.length ≤ 128 then compress h (wordsOfBlock data) (counter + data.length) true
    else absorb fuel (compress h (wordsOfBlock (data.take 128)) (counter + 128) false)
      (counter + 128) (data.drop 128)

/-- The first word of the state carries the digest length and the fan-out of 1. -/
def digest (data : ByteVector) : Blake2b256Hash :=
  let h := absorb (data.length + 1) (iv.set 0 (iv.getD 0 0 ^^^ 0x01010020)) 0 data
  (h.take 4).flatMap (littleEndian 8)

theorem length_mixRound (message : List Nat) (rest : List Lane) (schedule v : List Nat) :
    (mixRound message rest schedule v).length = v.length := by
  fun_induction mixRound message rest schedule v with
  | case1 lane rest x y schedule v ih => rw [ih]; simp [mix]
  | case2 => rfl

theorem length_compress (full : h.length = 8) : (compress h message counter last).length = 8 := by
  have rounds (v : List Nat) :
      (sigma.foldl (fun v schedule => mixRound message lanes schedule v) v).length = v.length := by
    induction sigma generalizing v with
    | nil => rfl
    | cons schedule rest ih => rw [foldl_cons, ih, length_mixRound]
  cases last <;> simp [compress, rounds, full, iv]

theorem length_absorb (full : h.length = 8) : (absorb fuel h counter data).length = 8 := by
  fun_induction absorb fuel h counter data with
  | case1 => exact full
  | case2 => exact length_compress full
  | case3 _ _ _ _ _ ih => exact ih (length_compress full)

theorem length_digest (data : ByteVector) : (digest data).length = 32 := by
  simp [digest, List.length_flatMap, length_littleEndian, length_absorb, iv]

end Blake2bReference

@[reducible] def blake2b : Blake2b := ⟨Blake2bReference.digest, Blake2bReference.length_digest⟩

/-- The digest of the empty string, as the published test vectors have it. -/
example : blake2b.hash [] =
    [14, 87, 81, 192, 38, 229, 67, 178, 232, 171, 46, 176, 96, 153, 218, 161,
      209, 229, 223, 71, 119, 143, 119, 135, 250, 171, 69, 205, 241, 47, 227, 168] := by
  decide +kernel

end F1r3fly.RSpace
