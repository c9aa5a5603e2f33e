import F1r3fly.Data.Results

/-! Calls that read and fill a cache. As long as the cache only holds what the source would
return, they return what the source returns. -/
namespace F1r3fly.Memo

open Results

variable {C ε α β : Type}

/-- With a sound cache the call returns what the plain one returns, and leaves a sound cache. -/
def Implements (sound : C → Prop) (cached : StateT C Option α) (plain : Option α) : Prop :=
  ∀ cache, sound cache → (plain = none → cached.run cache = none) ∧
    ∀ a, plain = some a → ∃ after, cached.run cache = some (a, after) ∧ sound after

variable {sound : C → Prop}

theorem implements_pure (a : α) : Implements sound (pure a) (some a) := by
  intro cache sound_cache
  refine ⟨by simp, ?_⟩
  rintro _ ⟨⟩
  exact ⟨cache, rfl, sound_cache⟩

theorem implements_failure : Implements sound (failure : StateT C Option α) none := by
  intro cache _
  exact ⟨fun _ => rfl, by simp⟩

theorem implements_bind (first : Implements sound cached plain)
    (rest : ∀ a, plain = some a → Implements sound (cachedRest a) (plainRest a)) :
    Implements sound (cached >>= cachedRest) (plain >>= plainRest) := by
  intro cache sound_cache
  obtain ⟨fails, returns⟩ := first cache sound_cache
  rw [StateT.run_bind]
  cases plain with
  | none =>
    rw [fails rfl]
    exact ⟨fun _ => rfl, by simp⟩
  | some a =>
    obtain ⟨after, returned, sound_after⟩ := returns a rfl
    rw [returned]
    exact rest a rfl after sound_after

abbrev Cached (C ε α : Type) := ExceptT ε (StateT C Option) α

theorem implements_pure_ok (a : α) :
    Implements sound (pure a : Cached C ε α).run (pure a : Fallible ε α).run :=
  implements_pure (Except.ok a)

theorem implements_bind_ok {cachedRest : α → Cached C ε β}
    (first : Implements sound cached.run plain.run)
    (rest : ∀ a, Returns plain a → Implements sound (cachedRest a).run (plainRest a).run) :
    Implements sound (cached >>= cachedRest).run (plain >>= plainRest).run := by
  refine implements_bind first fun outcome returned => ?_
  cases outcome with
  | error failed => exact implements_pure _
  | ok a => exact rest a returned

/-- Looks a value up, and computes and stores it when it is missing. -/
def memo (lookup : C → Option α) (store : α → C → C) (plain : Fallible ε α) : Cached C ε α :=
  ExceptT.mk fun cache =>
    match lookup cache with
    | some a => some (.ok a, cache)
    | none => plain.run.map fun outcome =>
      match outcome with
      | .ok a => (.ok a, store a cache)
      | .error failed => (.error failed, cache)

theorem implements_memo (hit : ∀ cache a, sound cache → lookup cache = some a → Returns plain a)
    (filled : ∀ cache a, sound cache → Returns plain a → sound (store a cache)) :
    Implements sound (memo lookup store plain).run plain.run := by
  intro cache sound_cache
  rw [memo, ExceptT.run_mk, StateT.run]
  cases found : lookup cache with
  | some a =>
    have returned : plain.run = some (.ok a) := hit cache a sound_cache found
    rw [returned]
    exact implements_pure _ cache sound_cache
  | none =>
    cases outcome_eq : plain.run with
    | none => exact ⟨fun _ => rfl, by simp⟩
    | some outcome =>
      refine ⟨by simp, ?_⟩
      rintro _ ⟨⟩
      cases outcome with
      | error failed => exact ⟨cache, rfl, sound_cache⟩
      | ok a => exact ⟨store a cache, rfl, filled cache a sound_cache outcome_eq⟩

theorem implements_foldlM {items : List α}
    (steps : ∀ b a, a ∈ items → Implements sound (cachedStep b a) (plainStep b a)) (start : β) :
    Implements sound (items.foldlM cachedStep start) (items.foldlM plainStep start) := by
  induction items generalizing start with
  | nil => exact implements_pure start
  | cons first rest ih =>
    exact implements_bind (steps start first (.head _))
      fun b _ => ih (fun b a present => steps b a (.tail first present)) b

theorem implements_foldlM_ok {items : List α} {cachedStep : β → α → Cached C ε β}
    {plainStep : β → α → Fallible ε β}
    (steps : ∀ b a, a ∈ items → Implements sound (cachedStep b a).run (plainStep b a).run)
    (start : β) :
    Implements sound (items.foldlM cachedStep start).run (items.foldlM plainStep start).run := by
  induction items generalizing start with
  | nil => exact implements_pure_ok start
  | cons first rest ih =>
    exact implements_bind_ok (steps start first (.head _))
      fun b _ => ih (fun b a present => steps b a (.tail first present)) b

theorem Implements.run'_eq {plain : Option α} (implements : Implements sound cached plain)
    (sound_cache : sound cache) : cached.run' cache = plain := by
  obtain ⟨fails, returns⟩ := implements cache sound_cache
  change (fun result : α × C => result.1) <$> cached.run cache = plain
  cases plain with
  | none => rw [fails rfl]; rfl
  | some a =>
    obtain ⟨after, returned, -⟩ := returns a rfl
    rw [returned]
    rfl

end F1r3fly.Memo
