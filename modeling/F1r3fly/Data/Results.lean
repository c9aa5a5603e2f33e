import F1r3fly.Data.Lists
import Mathlib.Data.List.Forall2

/-! Computations that may fail, taken apart step by step. -/
namespace F1r3fly

/-- The texts of `{:?}`. -/
class Debug (α : Type) where
  debug : α → String

namespace Results

variable {ε α β : Type}

theorem bind_eq_ok {rest : α → Except ε β} :
    (first >>= rest) = .ok b ↔ ∃ a, first = .ok a ∧ rest a = .ok b := by
  cases first with
  | error failure | ok a => simp [bind, Except.bind]

theorem toOption_eq_some {call : Except ε α} : call.toOption = some a ↔ call = .ok a := by
  cases call <;> simp [Except.toOption]

variable {items : List α}

theorem foldlM_ok {step : β → α → Except ε β}
    (succeeds : ∀ item ∈ items, ∀ b, ∃ b', step b item = .ok b') (start : β) :
    ∃ final, items.foldlM step start = .ok final := by
  induction items generalizing start with
  | nil => exact ⟨start, rfl⟩
  | cons first rest ih =>
    obtain ⟨next, stepped⟩ := succeeds first (.head _) start
    rw [foldlM_cons, stepped]
    exact ih (fun item present => succeeds item (.tail first present)) next

theorem foldlM_eq_pure {m : Type → Type} [Monad m] [LawfulMonad m] {step : β → α → m β}
    (steps : ∀ b, ∀ a ∈ items, step b a = pure (value b a)) (start : β) :
    items.foldlM step start = pure (items.foldl value start) := by
  induction items generalizing start with
  | nil => rfl
  | cons first rest ih =>
    rw [foldlM_cons, steps start first (.head _), pure_bind]
    exact ih (fun b a later => steps b a (.tail _ later)) _

theorem mapM_eq_pure {m : Type → Type} [Monad m] [LawfulMonad m] {f : α → m β}
    (gives : ∀ a ∈ items, f a = pure (value a)) : items.mapM f = pure (items.map value) := by
  induction items with
  | nil => exact List.mapM_nil
  | cons item rest ih =>
    rw [mapM_cons, gives item (.head _), ih fun a later => gives a (.tail _ later)]
    simp

section

variable {f : α → Except ε β}

theorem mapM_ok
    (succeeds : ∀ item ∈ items, ∃ b, f item = .ok b) : ∃ results, items.mapM f = .ok results := by
  induction items with
  | nil => exact ⟨[], rfl⟩
  | cons first rest ih =>
    obtain ⟨b, computed⟩ := succeeds first (.head _)
    obtain ⟨results, rest_computed⟩ := ih fun item present =>
      succeeds item (.tail first present)
    refine ⟨b :: results, ?_⟩
    rw [mapM_cons]
    exact bind_eq_ok.mpr ⟨b, computed, bind_eq_ok.mpr ⟨results, rest_computed, rfl⟩⟩

theorem mapM_eq_ok : items.mapM f = .ok results ↔ items.map f = results.map .ok := by
  induction items generalizing results with
  | nil => simp [pure, Except.pure, eq_comm]
  | cons item rest ih =>
    rw [mapM_cons, bind_eq_ok, map_cons, eq_comm, List.map_eq_cons_iff]
    constructor
    · rintro ⟨first, first_computed, computed⟩
      obtain ⟨others, rest_computed, built⟩ := bind_eq_ok.mp computed
      cases built
      exact ⟨first, others, rfl, first_computed.symm, (ih.mp rest_computed).symm⟩
    · rintro ⟨first, others, rfl, first_computed, rest_computed⟩
      exact ⟨first, first_computed.symm, bind_eq_ok.mpr ⟨others, ih.mpr rest_computed.symm, rfl⟩⟩

theorem mapM_length (computed : items.mapM f = .ok results) : results.length = items.length := by
  simpa using congrArg List.length (mapM_eq_ok.mp computed).symm

theorem mem_mapM (computed : items.mapM f = .ok results) :
    b ∈ results ↔ ∃ a ∈ items, f a = .ok b := by
  rw [← mem_map, mapM_eq_ok.mp computed]
  exact (List.mem_map_of_injective fun _ _ => Except.ok.inj).symm

end

theorem mapM_ok_congr {ε' : Type} {f : α → Except ε β} {g : α → Except ε' β}
    (same : ∀ a b, f a = .ok b ↔ g a = .ok b) (items : List α) (results : List β) :
    items.mapM f = .ok results ↔ items.mapM g = .ok results := by
  simp only [mapM_eq_ok, ← List.forall₂_eq_eq_eq, List.forall₂_map_left_iff,
    List.forall₂_map_right_iff, same]

/-- A list survives a conversion and its way back when each of its items does. -/
theorem mapM_map_eq_ok {back : β → Except ε α} :
    (items.map convert).mapM back = .ok items ↔ ∀ a ∈ items, back (convert a) = .ok a := by
  rw [mapM_eq_ok, map_map, List.map_inj_left]
  rfl

/-- A call that returns, fails with an error or panics; `none` is a panic. -/
abbrev Fallible (ε α : Type) := ExceptT ε Option α

def Returns (call : Fallible ε α) (a : α) : Prop := call.run = some (.ok a)

def returned? (call : Fallible ε α) : Option α := call.run.bind Except.toOption

theorem returns_iff_returned? : Returns call a ↔ returned? call = some a := by
  rw [Returns, returned?]
  rcases call.run with _ | _ | b
  · simp
  · simp [Except.toOption]
  · simp [Except.toOption]

theorem returns_getD (default : α) (succeeds : (returned? call).isSome) :
    Returns call ((returned? call).getD default) := by
  obtain ⟨a, found⟩ := isSome_iff_exists.mp succeeds
  rw [returns_iff_returned?, found, getD_some]

theorem returns_pure : Returns (pure a : Fallible ε α) b ↔ a = b := by
  constructor
  · intro returned
    cases returned
    rfl
  · rintro rfl
    rfl

theorem returns_bind : Returns (first >>= rest) b ↔ ∃ a, Returns first a ∧ Returns (rest a) b := by
  unfold Returns
  rw [ExceptT.run_bind]
  cases first.run with
  | none => simp
  | some outcome =>
    cases outcome with
    | error failure => simp [pure]
    | ok a => simp

theorem Returns.unique (returned : Returns call a) (again : Returns call b) : b = a :=
  Except.ok.inj (Option.some.inj (again.symm.trans returned))

theorem Returns.bind_iff (returned : Returns first a) :
    Returns (first >>= rest) b ↔ Returns (rest a) b := by
  rw [returns_bind]
  refine ⟨fun ⟨a', again, rest_returned⟩ => ?_, fun rest_returned => ⟨a, returned, rest_returned⟩⟩
  rwa [← returned.unique again]

theorem returns_liftExcept {call : Except ε α} :
    Returns (liftM call : Fallible ε α) a ↔ call = .ok a := by
  constructor
  · intro returned
    exact Option.some.inj returned
  · rintro rfl
    rfl

theorem returns_map : Returns (f <$> call) b ↔ ∃ a, Returns call a ∧ f a = b := by
  rw [map_eq_pure_bind, returns_bind]
  simp only [returns_pure]

/-- A call within one that has errors of another kind. -/
def Fallible.mapError {ε' : Type} (wrap : ε → ε') (call : Fallible ε α) : Fallible ε' α :=
  ExceptT.mk (call.run.map (Except.mapError wrap))

theorem returns_mapError : Returns (call.mapError wrap) a ↔ Returns call a := by
  unfold Returns Fallible.mapError
  cases call.run with
  | none => simp
  | some outcome =>
    cases outcome with
    | error failure | ok a => simp [Except.mapError]

end Results

end F1r3fly
