import F1r3fly.RSpace.Hashing.StableHashProvider

/-! The events of a trace. Two produces are the same event when their hashes
agree; the other fields may be set after creation and do not count. -/
namespace F1r3fly.RSpace

structure Produce where
  channelHash : Blake2b256Hash
  hash : Blake2b256Hash
  persistent : Bool
  isDeterministic : Bool
  outputValue : List ByteVector
  failed : Bool
deriving DecidableEq

instance : BEq Produce := ⟨fun p q => p.hash == q.hash⟩

theorem Produce.beq_iff {p q : Produce} : p == q ↔ p.hash = q.hash :=
  beq_iff_eq (a := p.hash)

instance : EquivBEq Produce where
  rfl := Produce.beq_iff.mpr rfl
  symm same := Produce.beq_iff.mpr (Produce.beq_iff.mp same).symm
  trans first second :=
    Produce.beq_iff.mpr ((Produce.beq_iff.mp first).trans (Produce.beq_iff.mp second))

structure Consume where
  channelHashes : List Blake2b256Hash
  hash : Blake2b256Hash
  persistent : Bool
deriving DecidableEq

inductive IOEvent where
  | produce (event : Produce)
  | consume (event : Consume)
deriving DecidableEq

instance : BEq IOEvent where
  beq
    | .produce p, .produce q => p == q
    | .consume c, .consume d => c == d
    | _, _ => false

/-- A set of `i32`, in ascending order. -/
abbrev Peeks := { elements : List Int // elements.Pairwise (· < ·) }

def Peeks.none : Peeks := ⟨[], .nil⟩

/-- Maps with produces as keys, in the order of their hashes. -/
abbrev ProduceMap := List (Produce × Int)

namespace ProduceMap

def insert (key : Produce) (value : Int) : ProduceMap → ProduceMap
  | [] => [(key, value)]
  | (k, v) :: rest =>
    if key.hash < k.hash then (key, value) :: (k, v) :: rest
    else if key == k then (k, value) :: rest
    else (k, v) :: insert key value rest

def get (map : ProduceMap) (key : Produce) : Option Int :=
  (map.find? fun entry => entry.1 == key).map (·.2)

def collect (entries : List (Produce × Int)) : ProduceMap :=
  entries.foldl (fun map entry => insert entry.1 entry.2 map) []

theorem get_cons (k key : Produce) (v : Int) (rest : ProduceMap) :
    get ((k, v) :: rest) key = if k.hash = key.hash then some v else get rest key := by
  by_cases same : k == key <;> simp [get, same, ← Produce.beq_iff]

theorem get_insert (map : ProduceMap) (key other : Produce) (value : Int) :
    get (insert key value map) other =
      if key.hash = other.hash then some value else get map other := by
  fun_induction insert key value map with
  | case1 | case2 => exact get_cons ..
  | case3 k v rest _ same =>
    simp only [get_cons, Produce.beq_iff.mp same]
    split_ifs <;> rfl
  | case4 k v rest _ distinct ih =>
    have distinct : key.hash ≠ k.hash := fun same => distinct (Produce.beq_iff.mpr same)
    simp only [get_cons, ih]
    by_cases first : k.hash = other.hash
    · rw [if_pos first, if_pos first, if_neg (first ▸ distinct)]
    · rw [if_neg first, if_neg first]

end ProduceMap

structure COMM where
  consume : Consume
  produces : List Produce
  peeks : Peeks
  timesRepeated : ProduceMap
deriving DecidableEq

instance : BEq COMM where
  beq a b := a.consume == b.consume && a.produces == b.produces && a.peeks == b.peeks &&
    a.timesRepeated == b.timesRepeated

inductive Event where
  | comm (event : COMM)
  | ioEvent (event : IOEvent)
deriving DecidableEq

/-- Newest first. -/
abbrev Log := List Event

section Create

variable [Blake2b] {C P A K : Type} [Serialize C] [Serialize P] [Serialize A] [Serialize K]

def Produce.create (channel : C) (datum : A) (persistent : Bool) : Produce :=
  let channelHash := RSpace.hash channel
  ⟨channelHash, hashProduce channelHash datum persistent, persistent, true, [], false⟩

def Consume.create (channels : List C) (patterns : List P) (continuation : K) (persistent : Bool) :
    Consume :=
  let channelHashes := hashVec channels
  ⟨channelHashes, hashConsume channelHashes patterns continuation persistent, persistent⟩

end Create

/-- The order in which `COMM.new` lists its produces. -/
def Produce.Before (p q : Produce) : Prop :=
  p.channelHash < q.channelHash ∨ p.channelHash = q.channelHash ∧
    (p.hash < q.hash ∨ p.hash = q.hash ∧ (p.persistent → q.persistent))

instance : DecidableRel Produce.Before := fun _ _ => inferInstanceAs (Decidable (_ ∨ _))

end F1r3fly.RSpace
