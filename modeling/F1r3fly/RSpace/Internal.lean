import F1r3fly.RSpace.Trace.Event

/-! What a tuple space stores, and the candidates of its matcher. -/
namespace F1r3fly.RSpace

variable {C P A K : Type}

structure Datum (A : Type) where
  a : A
  persist : Bool
  source : Produce
deriving DecidableEq

structure WaitingContinuation (P K : Type) where
  patterns : List P
  continuation : K
  persist : Bool
  peeks : Peeks
  source : Consume
deriving DecidableEq

structure ConsumeCandidate (C A : Type) where
  channel : C
  datum : Datum A
  removedDatum : A
  datumIndex : Int
deriving DecidableEq

structure ProduceCandidate (C P A K : Type) where
  channels : List C
  continuation : WaitingContinuation P K
  continuationIndex : Int
  dataCandidates : List (ConsumeCandidate C A)

structure Install (P K : Type) where
  patterns : List P
  continuation : K

/-- The datum the candidate was found at; the matcher may have changed its value. -/
def ConsumeCandidate.original (candidate : ConsumeCandidate C A) : Datum A :=
  { candidate.datum with a := candidate.removedDatum }

def COMM.new (dataCandidates : List (ConsumeCandidate C A)) (consumeRef : Consume) (peeks : Peeks)
    (produceCounters : List Produce → ProduceMap) : COMM :=
  let produceRefs := (dataCandidates.map (·.datum.source)).insertionSort Produce.Before
  ⟨consumeRef, produceRefs, peeks, produceCounters produceRefs⟩

/-- A map from keys to multisets of values, as the list of its bindings. -/
structure MultisetMultiMap (κ ν : Type) where
  bindings : List (κ × ν)

namespace MultisetMultiMap

variable {κ ν : Type} [BEq κ] [BEq ν]

def empty : MultisetMultiMap κ ν := ⟨[]⟩

section

variable (self : MultisetMultiMap κ ν)

def addBinding (k : κ) (v : ν) : MultisetMultiMap κ ν :=
  ⟨(k, v) :: self.bindings⟩

/-- One binding fewer of the key to the value, if there is one. -/
def removeBindingInPlace (k : κ) (v : ν) : MultisetMultiMap κ ν :=
  ⟨self.bindings.eraseP fun binding => binding.1 == k && binding.2 == v⟩

/-- The values that a key is bound to, each once; a key without values is not in the map. -/
def get (k : κ) : Option (List ν) :=
  let values := (self.bindings.filter fun binding => binding.1 == k).foldr
    (fun binding values => if values.contains binding.2 then values else binding.2 :: values) []
  if values.isEmpty then none else some values

def isEmpty : Bool := self.bindings.isEmpty

def len : Nat := (self.bindings.map (·.1)).eraseDups.length

end

end MultisetMultiMap

inductive RSpaceError where
  | bugFoundError (message : String)
deriving DecidableEq

end F1r3fly.RSpace
