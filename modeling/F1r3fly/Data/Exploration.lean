import F1r3fly.Data.HashedSet
import F1r3fly.Data.Results

/-! Search for all that can be reached. The set of what was found grows within a finite
list of candidates, and a set that is closed under the steps holds all that is reachable. -/
namespace F1r3fly

open HashedSet

namespace HashedSet

variable {α : Type} [BEq α]

def missing (candidates : List α) (found : HashedSet α) : Nat :=
  (candidates.filter fun a => !found.contains a).length

theorem missing_le_length (candidates : List α) (found : HashedSet α) :
    found.missing candidates ≤ candidates.length :=
  List.length_filter_le _ _

theorem missing_lt {found larger : HashedSet α} (grows : ∀ b ∈ found, b ∈ larger)
    (candidate : a ∈ candidates) (absent : a ∉ found) (present : a ∈ larger) :
    larger.missing candidates < found.missing candidates := by
  apply length_filter_lt _ candidate
  · simpa [← contains_iff] using present
  · simpa [← contains_iff] using absent
  · intro b
    simpa [← contains_iff] using mt (grows b)

end HashedSet

theorem holds_of_reflTransGen {α : Type} {step : α → α → Prop} (holds : α → Prop)
    (kept : ∀ a b, holds a → step a b → holds b) {a b : α} (start : holds a)
    (path : Relation.ReflTransGen step a b) : holds b := by
  induction path with
  | refl => exact start
  | tail _ last ih => exact kept _ _ ih last

/-- Paths do not leave a set that is closed under the steps, so only steps from within
matter. -/
theorem reflTransGen_of_agree {α : Type} {step other : α → α → Prop} (inside : α → Prop)
    (closed : ∀ a b, inside a → step a b → inside b)
    (agree : ∀ a b, inside a → step a b → other a b) {a b : α} (start : inside a)
    (path : Relation.ReflTransGen step a b) : Relation.ReflTransGen other a b := by
  have stays : inside b ∧ Relation.ReflTransGen other a b := by
    induction path with
    | refl => exact ⟨start, .refl⟩
    | tail _ last ih => exact ⟨closed _ _ ih.1 last, ih.2.tail (agree _ _ ih.1 last)⟩
  exact stays.2

/-- A path ends in a set that is closed under the steps, or it never enters the set after
its start. -/
theorem holds_or_avoids {α : Type} {step : α → α → Prop} {entered : α → Prop}
    (closed : ∀ a b, entered a → step a b → entered b) {a b : α}
    (path : Relation.ReflTransGen step a b) :
    entered b ∨ Relation.ReflTransGen (fun c d => step c d ∧ ¬entered d) a b := by
  induction path with
  | refl => exact .inr .refl
  | tail _ last ih =>
    rename_i c d _
    rcases ih with inside | avoiding
    · exact .inl (closed c d inside last)
    · by_cases enters : entered d
      · exact .inl enters
      · exact .inr (avoiding.tail ⟨last, enters⟩)

namespace Exploration

open Relation
open Results (bind_eq_ok)

section Definitions

variable {ε α : Type} [BEq α] [EquivBEq α]

def discover (state : HashedSet α × List α) (a : α) : HashedSet α × List α :=
  if state.1.contains a then state else (state.1.insert a, state.2 ++ [a])

def exploreLevel (nexts : α → Except ε (List α)) (level : List α) (state : HashedSet α × List α) :
    Except ε (HashedSet α × List α) :=
  level.foldlM (fun state a => do
    let new ← nexts a
    return new.foldl discover state) state

def exploreLevels (nexts : α → Except ε (List α)) : Nat → List α → HashedSet α →
    Except ε (HashedSet α)
  | 0, _, found => .ok found
  | _, [], found => .ok found
  | fuel + 1, level, found => do
    let state ← exploreLevel nexts level (found, [])
    exploreLevels nexts fuel state.2 state.1

structure Search (α : Type) [BEq α] where
  visited : HashedSet α
  result : HashedSet α
  queue : List α

def Search.push (search : Search α) (a : α) : Search α :=
  if search.visited.contains a then search
  else { visited := search.visited.insert a, result := search.result.insert a,
         queue := a :: search.queue }

def exploreStack (nexts : α → List α) : Nat → Search α → HashedSet α
  | 0, search => search.result
  | fuel + 1, search =>
    match search.queue with
    | [] => search.result
    | current :: queue =>
      exploreStack nexts fuel ((nexts current).foldl Search.push { search with queue })

end Definitions

section Levels

variable {ε α : Type} [BEq α] [LawfulBEq α] {nexts : α → Except ε (List α)}

def Leads (nexts : α → Except ε (List α)) (a b : α) : Prop :=
  ∃ new, nexts a = .ok new ∧ b ∈ new

theorem foldl_discover (new : List α) (found : HashedSet α) (level : List α) :
    (∀ b, b ∈ (new.foldl discover (found, level)).1 ↔ b ∈ found ∨ b ∈ new) ∧
      ∀ b, b ∈ (new.foldl discover (found, level)).2 ↔ b ∈ level ∨ b ∉ found ∧ b ∈ new := by
  have known_step (s : HashedSet α × List α) (a b : α) :
      b ∈ (discover s a).1 ↔ b ∈ s.1 ∨ b = a := by
    unfold discover
    split_ifs with known
    · exact (or_iff_left_of_imp fun same => same ▸ known).symm
    · rw [mem_insert, beq_iff_eq, or_comm]
  have level_step (s : HashedSet α × List α) (a b : α) :
      b ∈ (discover s a).2 ↔ b ∈ s.2 ∨ a ∉ s.1 ∧ b = a := by
    unfold discover
    split_ifs with known
    · simp [show a ∈ s.1 from known]
    · simp [show a ∉ s.1 from known]
  exact forall_and.mp fun b =>
    foldl_new new (fun s b => b ∈ s.1) (fun s b => b ∈ s.2) known_step level_step (found, level) b

theorem exploreLevel_spec (succeeds : ∀ a ∈ level, ∃ new, nexts a = .ok new) (found : HashedSet α)
    (next : List α) :
    ∃ state, exploreLevel nexts level (found, next) = .ok state ∧
      (∀ b, b ∈ state.1 ↔ b ∈ found ∨ ∃ a ∈ level, Leads nexts a b) ∧
      ∀ b, b ∈ state.2 ↔ b ∈ next ∨ b ∉ found ∧ ∃ a ∈ level, Leads nexts a b := by
  induction level generalizing found next with
  | nil => exact ⟨(found, next), rfl, by simp, by simp⟩
  | cons a rest ih =>
    obtain ⟨new, computed⟩ := succeeds a (.head _)
    obtain ⟨mem_found, mem_level⟩ := foldl_discover new found next
    obtain ⟨state, rest_computed, rest_found, rest_level⟩ := ih
      (fun b present => succeeds b (.tail a present))
      (new.foldl discover (found, next)).1 (new.foldl discover (found, next)).2
    have leads_new (b : α) : Leads nexts a b ↔ b ∈ new := by simp [Leads, computed]
    refine ⟨state, ?_, ?_, ?_⟩
    · rw [exploreLevel, foldlM_cons, computed]
      exact rest_computed
    · intro b
      rw [rest_found, mem_found, exists_mem_cons_iff, leads_new, or_assoc]
    · intro b
      rw [rest_level, mem_level, mem_found, exists_mem_cons_iff, leads_new]
      tauto

structure LevelsInvariant (nexts : α → Except ε (List α)) (start : α) (level : List α)
    (found : HashedSet α) : Prop where
  found_reached : ∀ b ∈ found, TransGen (Leads nexts) start b
  level_reached : ∀ a ∈ level, ReflTransGen (Leads nexts) start a
  closed : ∀ a, a = start ∨ a ∈ found → a ∈ level ∨ ∀ b, Leads nexts a b → b ∈ found

omit [LawfulBEq α] in
theorem LevelsInvariant.next (invariant : LevelsInvariant nexts start level found)
    {state : HashedSet α × List α}
    (mem_found : ∀ b, b ∈ state.1 ↔ b ∈ found ∨ ∃ a ∈ level, Leads nexts a b)
    (mem_level : ∀ b, b ∈ state.2 ↔ b ∈ [] ∨ b ∉ found ∧ ∃ a ∈ level, Leads nexts a b) :
    LevelsInvariant nexts start state.2 state.1 where
  found_reached b member := by
    rcases (mem_found b).mp member with old | ⟨a, present, leads⟩
    · exact invariant.found_reached b old
    · exact TransGen.tail' (invariant.level_reached a present) leads
  level_reached b member := by
    rcases (mem_level b).mp member with absurd_member | ⟨-, a, present, leads⟩
    · cases absurd_member
    · exact (invariant.level_reached a present).tail leads
  closed a known := by
    by_cases old : a = start ∨ a ∈ found
    · refine .inr fun b leads => (mem_found b).mpr ?_
      rcases invariant.closed a old with present | kept
      · exact .inr ⟨a, present, leads⟩
      · exact .inl (kept b leads)
    · rw [not_or] at old
      have reached := (mem_found a).mp (known.resolve_left old.1)
      exact .inl ((mem_level a).mpr (.inr ⟨old.2, reached.resolve_left old.2⟩))

omit [LawfulBEq α] in
theorem LevelsInvariant.finished {start : α} {found : HashedSet α}
    (invariant : LevelsInvariant nexts start [] found) (b : α) :
    b ∈ found ↔ TransGen (Leads nexts) start b := by
  have closed (a : α) (known : a = start ∨ a ∈ found) (c : α) (leads : Leads nexts a c) :
      c ∈ found :=
    (invariant.closed a known).resolve_left not_mem_nil c leads
  constructor
  · exact invariant.found_reached b
  · intro path
    obtain ⟨first, leads, rest⟩ := TransGen.head'_iff.mp path
    exact holds_of_reflTransGen (· ∈ found) (fun a c member => closed a (.inr member) c)
      (closed start (.inl rfl) first leads) rest

/-- With enough fuel all that can be reached in one step or more is found. -/
theorem exploreLevels_found {candidates : List α}
    (succeeds : ∀ a, ReflTransGen (Leads nexts) start a → ∃ new, nexts a = .ok new)
    (within : ∀ a b, Leads nexts a b → b ∈ candidates) (fuel : Nat) (level : List α)
    (found : HashedSet α) (invariant : LevelsInvariant nexts start level found)
    (enough : level = [] ∨ found.missing candidates < fuel) :
    ∃ final, exploreLevels nexts fuel level found = .ok final ∧
      ∀ b, b ∈ final ↔ TransGen (Leads nexts) start b := by
  induction fuel generalizing level found with
  | zero =>
    obtain rfl := enough.resolve_right (Nat.not_lt_zero _)
    exact ⟨found, rfl, invariant.finished⟩
  | succ fuel ih =>
    cases level with
    | nil => exact ⟨found, rfl, invariant.finished⟩
    | cons first rest =>
      obtain ⟨state, computed, mem_found, mem_level⟩ := exploreLevel_spec
        (fun a present => succeeds a (invariant.level_reached a present)) found []
      have next_invariant := invariant.next mem_found mem_level
      have next_enough : state.2 = [] ∨ state.1.missing candidates < fuel := by
        rcases List.eq_nil_or_concat state.2 with none_new | ⟨others, b, state_eq⟩
        · exact .inl none_new
        · have b_new : b ∈ state.2 := by simp [state_eq]
          obtain ⟨unknown, a, present, leads⟩ := ((mem_level b).mp b_new).resolve_left (by simp)
          have fewer : state.1.missing candidates < found.missing candidates :=
            missing_lt (fun c member => (mem_found c).mpr (.inl member))
              (within a b leads) unknown ((mem_found b).mpr (.inr ⟨a, present, leads⟩))
          have bound := enough.resolve_left (cons_ne_nil first rest)
          exact .inr (by omega)
      obtain ⟨final, final_computed, mem_final⟩ := ih state.2 state.1 next_invariant next_enough
      exact ⟨final, bind_eq_ok.mpr ⟨state, computed, final_computed⟩, mem_final⟩

end Levels

section Stack

variable {α : Type} [BEq α] [LawfulBEq α] {nexts : α → List α}

theorem foldl_push (new : List α) (search : Search α) (candidates : List α)
    (within : ∀ b ∈ new, b ∈ candidates) :
    (∀ b, b ∈ (new.foldl Search.push search).visited ↔ b ∈ search.visited ∨ b ∈ new) ∧
    (∀ b, b ∈ (new.foldl Search.push search).result ↔
      b ∈ search.result ∨ b ∉ search.visited ∧ b ∈ new) ∧
    (∀ b, b ∈ (new.foldl Search.push search).queue ↔
      b ∈ search.queue ∨ b ∉ search.visited ∧ b ∈ new) ∧
    (new.foldl Search.push search).queue.length +
        (new.foldl Search.push search).visited.missing candidates ≤
      search.queue.length + search.visited.missing candidates := by
  have known_step (s : Search α) (a b : α) : b ∈ (s.push a).visited ↔ b ∈ s.visited ∨ b = a := by
    unfold Search.push
    split_ifs with known
    · exact (or_iff_left_of_imp fun same => same ▸ known).symm
    · rw [mem_insert, beq_iff_eq, or_comm]
  have result_step (s : Search α) (a b : α) :
      b ∈ (s.push a).result ↔ b ∈ s.result ∨ a ∉ s.visited ∧ b = a := by
    unfold Search.push
    split_ifs with known
    · simp [show a ∈ s.visited from known]
    · simp [show a ∉ s.visited from known, mem_insert, or_comm]
  have queue_step (s : Search α) (a b : α) :
      b ∈ (s.push a).queue ↔ b ∈ s.queue ∨ a ∉ s.visited ∧ b = a := by
    unfold Search.push
    split_ifs with known
    · simp [show a ∈ s.visited from known]
    · simp [show a ∉ s.visited from known, or_comm]
  have in_result := foldl_new new _ (fun s b => b ∈ s.result) known_step result_step search
  have in_queue := foldl_new new _ (fun s b => b ∈ s.queue) known_step queue_step search
  refine ⟨fun b => (in_result b).1, fun b => (in_result b).2, fun b => (in_queue b).2, ?_⟩
  refine foldlRecOn (motive := fun s : Search α =>
    s.queue.length + s.visited.missing candidates ≤
      search.queue.length + search.visited.missing candidates)
    _ _ le_rfl fun s so_far a member => ?_
  by_cases known : a ∈ s.visited
  · have unchanged : s.push a = s := if_pos known
    rwa [unchanged]
  · have fewer : (s.push a).visited.missing candidates < s.visited.missing candidates :=
      missing_lt (fun b old => (known_step s a b).mpr (.inl old)) (within a member) known
        ((known_step s a a).mpr (.inr rfl))
    have pushed : s.push a = ⟨s.visited.insert a, s.result.insert a, a :: s.queue⟩ := if_neg known
    rw [pushed] at fewer ⊢
    simp only [length_cons] at fewer ⊢
    omega

structure StackInvariant (nexts : α → List α) (start : HashedSet α) (search : Search α) : Prop where
  visited : ∀ a, a ∈ search.visited ↔ a ∈ start ∨ a ∈ search.result
  reached : ∀ b ∈ search.result, b ∉ start ∧ ∃ a ∈ start, TransGen (fun a b => b ∈ nexts a) a b
  queued : ∀ a ∈ search.queue, a ∈ search.visited
  closed : ∀ a ∈ search.visited, a ∈ search.queue ∨ ∀ b ∈ nexts a, b ∈ search.visited

/-- With enough fuel the search finds all that can be reached, but for the start. -/
theorem exploreStack_found {start : HashedSet α} {candidates : List α}
    (within : ∀ a, ∀ b ∈ nexts a, b ∈ candidates) (fuel : Nat) (search : Search α)
    (invariant : StackInvariant nexts start search)
    (enough : search.queue.length + search.visited.missing candidates ≤ fuel) (b : α) :
    b ∈ exploreStack nexts fuel search ↔
      b ∉ start ∧ ∃ a ∈ start, TransGen (fun a b => b ∈ nexts a) a b := by
  have finished {search : Search α} (invariant : StackInvariant nexts start search)
      (done : search.queue = []) :
      b ∈ search.result ↔ b ∉ start ∧ ∃ a ∈ start, TransGen (fun a b => b ∈ nexts a) a b := by
    constructor
    · exact invariant.reached b
    · rintro ⟨not_start, a, a_start, path⟩
      have b_visited : b ∈ search.visited := by
        refine holds_of_reflTransGen (· ∈ search.visited) ?_
          ((invariant.visited a).mpr (.inl a_start)) path.to_reflTransGen
        intro c d c_visited leads
        rcases invariant.closed c c_visited with absurd_member | kept
        · rw [done] at absurd_member
          cases absurd_member
        · exact kept d leads
      exact ((invariant.visited b).mp b_visited).resolve_left not_start
  induction fuel generalizing search with
  | zero =>
    have done : search.queue = [] := length_eq_zero_iff.mp (by omega)
    exact finished invariant done
  | succ fuel ih =>
    rw [exploreStack]
    cases queue_eq : search.queue with
    | nil => exact finished invariant queue_eq
    | cons current queue =>
      obtain ⟨mem_visited, mem_result, mem_queue, bound⟩ :=
        foldl_push (nexts current) { search with queue } candidates (within current)
      have current_visited := invariant.queued current (by rw [queue_eq]; exact List.mem_cons_self)
      apply ih
      · constructor
        · intro a
          rw [mem_visited, mem_result]
          simp only [invariant.visited a]
          tauto
        · intro c member
          rcases (mem_result c).mp member with old | ⟨unvisited, leads⟩
          · exact invariant.reached c old
          · refine ⟨fun c_start => unvisited ((invariant.visited c).mpr (.inl c_start)), ?_⟩
            rcases (invariant.visited current).mp current_visited with at_start | found
            · exact ⟨current, at_start, .single leads⟩
            · obtain ⟨-, a, a_start, path⟩ := invariant.reached current found
              exact ⟨a, a_start, path.tail leads⟩
        · intro a member
          rw [mem_visited]
          rcases (mem_queue a).mp member with old | ⟨-, leads⟩
          · exact .inl (invariant.queued a (by rw [queue_eq]; exact mem_cons_of_mem current old))
          · exact .inr leads
        · intro a member
          rw [mem_queue]
          by_cases visited : a ∈ search.visited
          · rcases invariant.closed a visited with queued | kept
            · rw [queue_eq, mem_cons] at queued
              rcases queued with rfl | later
              · exact .inr fun c leads => (mem_visited c).mpr (.inr leads)
              · exact .inl (.inl later)
            · exact .inr fun c leads => (mem_visited c).mpr (.inl (kept c leads))
          · exact .inl (.inr ⟨visited, ((mem_visited a).mp member).resolve_left visited⟩)
      · rw [queue_eq, length_cons] at enough
        dsimp only at bound
        omega

end Stack

end Exploration

end F1r3fly
