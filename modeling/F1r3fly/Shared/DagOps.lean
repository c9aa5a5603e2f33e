import F1r3fly.Data.Worklist

/-! Breadth first traversal. The fuel bounds the rounds of the loop. -/
namespace F1r3fly.Shared.DagOps

open HashedSet

open Relation (ReflTransGen)
open Results

variable {ε A : Type} [BEq A]

def bfTraverse [EquivBEq A] (fuel : Nat) (start : List A) (neighbors : A → List A) : List A :=
  Worklist.order Worklist.enqueue neighbors fuel start .empty

/-- The loop of the search. Without fuel it does not return. -/
def findLoop [EquivBEq A] (neighbors : A → List A) (predicate : A → Fallible ε Bool) :
    Nat → List A → HashedSet A → Fallible ε (Option A)
  | 0, _, _ => ExceptT.lift none
  | _ + 1, [], _ => pure none
  | fuel + 1, curr :: queue, visited =>
    if visited.contains curr then findLoop neighbors predicate fuel queue visited
    else do
      if ← predicate curr then
        return some curr
      else
        findLoop neighbors predicate fuel
          (queue ++ (neighbors curr).filter fun n => !(visited.insert curr).contains n)
          (visited.insert curr)

def bfTraverseFind [EquivBEq A] (fuel : Nat) (start : List A) (neighbors : A → List A)
    (predicate : A → Fallible ε Bool) : Fallible ε (Option A) :=
  findLoop neighbors predicate fuel start .empty

variable [LawfulBEq A] {neighbors : A → List A} {predicate : A → Fallible ε Bool}
  {start candidates : List A}

theorem findLoop_none (fuel : Nat) (queue : List A) (visited : HashedSet A)
    (returned : Returns (findLoop neighbors predicate fuel queue visited) none)
    (queued : first ∈ queue) (new : first ∉ visited)
    (path : ReflTransGen (Worklist.Leads neighbors visited) first b) :
    Returns (predicate b) false := by
  induction fuel generalizing queue visited first with
  | zero => cases returned
  | succ fuel ih =>
    cases queue with
    | nil => cases queued
    | cons curr queue =>
      rw [findLoop] at returned
      split_ifs at returned with known
      · rcases mem_cons.mp queued with rfl | later
        · exact absurd known new
        · exact ih queue visited returned later new path
      · obtain ⟨found, asked, returned⟩ := returns_bind.mp returned
        cases found with
        | true => cases returns_pure.mp returned
        | false =>
          have mem_next (next : A) : next ∈ queue ++
              (neighbors curr).filter (fun n => !(visited.insert curr).contains n) ↔
                next ∈ queue ∨ next ∈ neighbors curr ∧ next ∉ visited.insert curr := by
            rw [mem_append, mem_filter, not_eq_true', eq_false_iff]
            exact Iff.rfl
          -- a path that comes past the current element is cut behind it
          rcases Worklist.path_split curr path with rfl | ⟨first_ne, avoids⟩ |
            ⟨next, leads, next_new, avoids⟩
          · exact asked
          · have first_new : first ∉ visited.insert curr := fun member =>
              (Worklist.mem_insert.mp member).elim first_ne new
            have later := (mem_cons.mp queued).resolve_left first_ne
            exact ih _ _ returned ((mem_next first).mpr (.inl later)) first_new avoids
          · exact ih _ _ returned ((mem_next next).mpr (.inr ⟨leads, next_new⟩)) next_new avoids

theorem findLoop_of_denied (closed : ∀ a ∈ candidates, ∀ b ∈ neighbors a, b ∈ candidates)
    (fuel : Nat) (queue : List A) (visited : HashedSet A) (known : ∀ a ∈ queue, a ∈ candidates)
    (denied : ∀ a ∈ queue, ∀ b, ReflTransGen (fun a b => b ∈ neighbors a) a b →
      Returns (predicate b) false)
    (enough : Worklist.rounds neighbors candidates queue visited < fuel) :
    Returns (findLoop neighbors predicate fuel queue visited) none := by
  induction fuel generalizing queue visited with
  | zero => cases enough
  | succ fuel ih =>
    cases queue with
    | nil => exact returns_pure.mpr rfl
    | cons curr queue =>
      rw [forall_mem_cons] at known denied
      rw [findLoop]
      split_ifs with seen
      · refine ih queue visited known.2 denied.2 ?_
        rw [Worklist.rounds, length_cons] at enough
        rw [Worklist.rounds]
        omega
      · refine returns_bind.mpr ⟨false, denied.1 curr .refl, ih _ _ ?_ ?_ ?_⟩
        · intro a queued
          rcases mem_append.mp queued with later | new
          · exact known.2 a later
          · exact closed curr known.1 a (mem_filter.mp new).1
        · intro a queued b path
          rcases mem_append.mp queued with later | new
          · exact denied.2 a later b path
          · exact denied.1 b (path.head (mem_filter.mp new).1)
        · have fewer : Worklist.rounds neighbors candidates (Worklist.enqueue queue
              ((neighbors curr).filter fun n => !(visited.insert curr).contains n))
                (visited.insert curr) <
                  Worklist.rounds neighbors candidates (curr :: queue) visited :=
            Worklist.rounds_insert queue (fun _ => known.1) seen fun _ _ => .refl _
          exact fewer.trans_le (Nat.le_of_lt_succ enough)

theorem bfTraverseFind_none_iff
    (closed : ∀ a ∈ candidates, ∀ b ∈ neighbors a, b ∈ candidates)
    (known : ∀ a ∈ start, a ∈ candidates)
    (enough : start.length + (candidates.map fun a => (neighbors a).length).sum < fuel) :
    Returns (bfTraverseFind fuel start neighbors predicate) none ↔
      ∀ first ∈ start, ∀ b, ReflTransGen (fun a b => b ∈ neighbors a) first b →
        Returns (predicate b) false := by
  constructor
  · intro returned first listed b path
    apply findLoop_none fuel start .empty returned listed (not_mem_empty first)
    refine ReflTransGen.mono (fun a c leads => ?_) _ _ path
    exact ⟨leads, not_mem_empty a, not_mem_empty c⟩
  · intro denied
    refine findLoop_of_denied closed fuel start .empty known denied ?_
    have unseen (a : A) : (empty : HashedSet A).contains a = false := rfl
    simpa [Worklist.rounds, unseen] using enough

end F1r3fly.Shared.DagOps
