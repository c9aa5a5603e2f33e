import F1r3fly.RSpace.Internal

/-! What is written for the contents of a channel: the encodings of its elements
in the order of their bytes, so that the order of the elements does not show. -/
namespace F1r3fly.RSpace

open Bincode

variable {C P A K : Type}

section Elements

/-- A hash is written as the vector of its bytes. -/
def encodeProduce (produce : Produce) : ByteVector :=
  bytes produce.channelHash ++ bytes produce.hash ++
    bool produce.persistent ++ bool produce.isDeterministic ++
    byteVectors produce.outputValue ++ bool produce.failed

def encodeConsume (consume : Consume) : ByteVector :=
  byteVectors consume.channelHashes ++ bytes consume.hash ++ bool consume.persistent

def encodeDatum [Serialize A] (datum : Datum A) : ByteVector :=
  serialize datum.a ++ bool datum.persist ++ encodeProduce datum.source

def encodeContinuation [Serialize P] [Serialize K] (wk : WaitingContinuation P K) : ByteVector :=
  vec (wk.patterns.map serialize) ++ serialize wk.continuation ++
    bool wk.persist ++ vec (wk.peeks.1.map i32) ++ encodeConsume wk.source

def encodeJoin [Serialize C] (join : List C) : ByteVector := vec (join.map serialize)

end Elements

/-- The first difference decides; without one, the lengths. -/
def compareByteVectors (a b : ByteVector) : Ordering :=
  (((a.zip b).map fun pair => compare pair.1 pair.2).find? (· != .eq)).getD
    (compare a.length b.length)

/-- The encodings of the elements, sorted and framed. -/
def encodeSorted (encoded : List ByteVector) : ByteVector :=
  byteVectors (encoded.insertionSort fun a b => compareByteVectors a b ≠ .gt)

def encodeDatums [Serialize A] (datums : List (Datum A)) : ByteVector :=
  encodeSorted (datums.map encodeDatum)

def encodeContinuations [Serialize P] [Serialize K] (conts : List (WaitingContinuation P K)) :
    ByteVector :=
  encodeSorted (conts.map encodeContinuation)

def encodeJoins [Serialize C] (joins : List (List C)) : ByteVector :=
  encodeSorted (joins.map encodeJoin)

theorem compareByteVectors_cons (x y : UInt8) (a b : ByteVector) :
    compareByteVectors (x :: a) (y :: b) = (compare x y).then (compareByteVectors a b) := by
  unfold compareByteVectors
  rw [List.zip_cons_cons, map_cons, List.find?_cons]
  cases compare x y with
  | lt => rfl
  | gt => rfl
  | eq =>
    have lengths : compare (x :: a).length (y :: b).length = compare a.length b.length := by
      simp [compare, compareOfLessAndEq]
    rw [lengths]
    rfl

/-- The comparison is the order of byte vectors. -/
theorem compareByteVectors_ne_gt : compareByteVectors a b ≠ .gt ↔ a ≤ b := by
  induction a generalizing b with
  | nil =>
    have shorter : compareByteVectors [] b ≠ .gt := by
      cases b <;> simp [compareByteVectors, compare, compareOfLessAndEq]
    exact iff_of_true shorter (List.nil_le b)
  | cons x a ih =>
    cases b with
    | nil =>
      have longer : compareByteVectors (x :: a) [] = .gt := by
        simp [compareByteVectors, compare, compareOfLessAndEq]
      simp [longer]
    | cons y b =>
      rw [compareByteVectors_cons, List.cons_le_cons_iff]
      have bytes : compare x y = if x < y then .lt else if x = y then .eq else .gt := rfl
      rw [bytes]
      by_cases less : x < y
      · simp [less]
      · by_cases same : x = y
        · subst same
          simpa [less] using ih
        · simp [less, same]

theorem sortBytes_eq (encoded : List ByteVector) :
    encoded.insertionSort (fun a b => compareByteVectors a b ≠ .gt) = sortBytes encoded := by
  simp only [compareByteVectors_ne_gt, sortBytes]

theorem sortBytes_perm (perm : encoded.Perm others) : sortBytes encoded = sortBytes others := by
  apply List.Perm.eq_of_pairwise
  · intro a b _ _ less greater
    exact List.le_antisymm less greater
  · exact List.pairwise_insertionSort (· ≤ ·) encoded
  · exact List.pairwise_insertionSort (· ≤ ·) others
  · calc sortBytes encoded
      List.Perm _ encoded := List.perm_insertionSort _ _
      List.Perm _ others := perm
      List.Perm _ (sortBytes others) := (List.perm_insertionSort _ _).symm

end F1r3fly.RSpace
