import F1r3fly.Data.Lists
import Mathlib.Order.Basic

/-! Exclusive locks taken in one order. When every thread only wants locks above all it holds, no
thread waits for itself, however many others lie between. -/
namespace F1r3fly.OrderedLocks

open Function

variable {ι L R : Type}

/-- No lock is held by two threads. -/
def Exclusive (held : ι → List L) : Prop :=
  ∀ t u lock, lock ∈ held t → lock ∈ held u → t = u

def WaitsFor (wants : ι → Option L) (held : ι → List L) (t u : ι) : Prop :=
  ∃ lock, wants t = some lock ∧ lock ∈ held u

/-- Every thread wants only locks above all those it holds. -/
def Ascending [Preorder R] (rank : L → R) (wants : ι → Option L) (held : ι → List L) : Prop :=
  ∀ t lock, wants t = some lock → ∀ other ∈ held t, rank other < rank lock

section Exclusive

variable [DecidableEq ι] {held : ι → List L}

theorem Exclusive.take (exclusive : Exclusive held) (free : ∀ u, lock ∉ held u) (t : ι) :
    Exclusive (update held t (held t ++ [lock])) := by
  have cases_mem {u : ι} {other : L} (member : other ∈ update held t (held t ++ [lock]) u) :
      other ∈ held u ∨ u = t ∧ other = lock := by
    rcases mem_update member with ⟨rfl, added⟩ | old
    · exact (mem_append.mp added).imp_right fun new => ⟨rfl, mem_singleton.mp new⟩
    · exact .inl old
  intro u v other first second
  rcases cases_mem first with old | ⟨rfl, rfl⟩
  · rcases cases_mem second with old' | ⟨rfl, rfl⟩
    · exact exclusive u v other old old'
    · exact absurd old (free u)
  · rcases cases_mem second with old' | ⟨rfl, _⟩
    · exact absurd old' (free v)
    · rfl

theorem Exclusive.release (exclusive : Exclusive held) (t : ι) :
    Exclusive (update held t []) := by
  have kept {u : ι} {lock : L} (member : lock ∈ update held t [] u) : lock ∈ held u :=
    (mem_update member).resolve_left fun ⟨_, listed⟩ => not_mem_nil listed
  intro u v lock first second
  exact exclusive u v lock (kept first) (kept second)

end Exclusive

variable [Preorder R] {rank : L → R} {wants : ι → Option L} {held : ι → List L}

theorem lt_of_pairwise (sorted : (taken ++ lock :: pending).Pairwise fun a b => rank a < rank b) :
    ∀ other ∈ taken, rank other < rank lock :=
  fun other member => (List.pairwise_append.mp sorted).2.2 other member lock (.head _)

theorem Ascending.exists_above (ascending : Ascending rank wants held)
    (chain : Relation.TransGen (WaitsFor wants held) t u) :
    ∃ lock, wants t = some lock ∧ ∃ other ∈ held u, rank lock ≤ rank other := by
  induction chain with
  | single waits =>
    obtain ⟨lock, wanted, member⟩ := waits
    exact ⟨lock, wanted, lock, member, le_rfl⟩
  | tail _ waits ih =>
    obtain ⟨lock, wanted, other, member, below⟩ := ih
    obtain ⟨next, wantedNext, memberNext⟩ := waits
    have above := ascending _ next wantedNext other member
    exact ⟨lock, wanted, next, memberNext, below.trans above.le⟩

theorem Ascending.no_cycle (ascending : Ascending rank wants held) (t : ι) :
    ¬ Relation.TransGen (WaitsFor wants held) t t := by
  intro chain
  obtain ⟨lock, wanted, other, member, below⟩ := ascending.exists_above chain
  exact (ascending t lock wanted other member).not_ge below

end F1r3fly.OrderedLocks
