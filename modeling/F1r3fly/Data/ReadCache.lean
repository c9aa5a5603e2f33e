import Mathlib.Data.List.AList

/-! A cache of a function. Entries are only ever written from the function, so
a lookup returns the value of the function whatever was evicted before. -/
namespace F1r3fly

structure ReadCache {α β : Type} (source : α → β) where
  entries : AList fun _ : α => β
  agrees : ∀ entry ∈ entries.entries, entry.2 = source entry.1

namespace ReadCache

variable {α β : Type} {source : α → β}

def empty : ReadCache source := ⟨∅, by intro entry member; cases member⟩

def size (cache : ReadCache source) : Nat := cache.entries.entries.length

/-- The total number of items, for a function to lists. -/
def items {source : α → List β} (cache : ReadCache source) : Nat :=
  cache.entries.entries.foldl (fun total entry => total + entry.2.length) 0

variable [DecidableEq α]

def fill (cache : ReadCache source) (key : α) : ReadCache source where
  entries := cache.entries.insert key (source key)
  agrees := by
    intro entry member
    rw [AList.entries_insert, List.mem_cons] at member
    rcases member with rfl | member
    · rfl
    · exact cache.agrees entry ((List.kerase_sublist _ _).subset member)

def get (cache : ReadCache source) (key : α) : β × ReadCache source :=
  match cache.entries.lookup key with
  | some value => (value, cache)
  | none => (source key, cache.fill key)

theorem get_eq_source (cache : ReadCache source) (key : α) : (cache.get key).1 = source key := by
  unfold get
  cases found : cache.entries.lookup key with
  | some value => exact cache.agrees ⟨key, value⟩ (AList.mem_lookup_iff.mp found)
  | none => rfl

end ReadCache

end F1r3fly
