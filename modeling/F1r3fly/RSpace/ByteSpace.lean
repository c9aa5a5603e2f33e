import F1r3fly.RSpace.Hashing.Blake2bReference
import F1r3fly.RSpace.ReplaySpace

/-! The space over bytes, on which concrete runs are evaluated. The pattern 0
accepts every byte and any other pattern only itself; nothing is shuffled, and
counters are iterated from the oldest entry on. -/
namespace F1r3fly.RSpace.ByteSpace

scoped instance : Blake2b := blake2b

scoped instance : ThreadRng := ⟨fun _ _ items => items, fun _ _ items => .refl items⟩

scoped instance : CounterOrder := ⟨fun _ comms => comms.reverse, fun _ => List.reverse_perm⟩

scoped instance : Match UInt8 UInt8 where
  get pattern byte := if pattern = 0 ∨ pattern = byte then some byte else none

scoped instance : Debug UInt8 := ⟨toString⟩

scoped instance : Debug COMM := ⟨fun comm => toString comm.consume.hash⟩

abbrev State := Space (InMemHotStore UInt8 UInt8 UInt8 UInt8) UInt8 UInt8 UInt8

abbrev Op := Operation UInt8 UInt8 UInt8 UInt8

def after (operations : List Op) : State := (Space.run operations .empty).2

def values (self : State) (channel : UInt8) : List UInt8 := (self.getData channel).map (·.a)

end F1r3fly.RSpace.ByteSpace
