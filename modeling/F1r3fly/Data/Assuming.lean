import Mathlib.Tactic.Common

/-! Total correctness of stateful programs under an assumption about the state a run ends in.
Programs only ever make it harder to satisfy, so it may be read backwards to every earlier state. -/
namespace F1r3fly.Assuming

variable {ε σ α β : Type}

def finalState : EStateM.Result ε σ α → σ
  | .ok _ s => s
  | .error _ s => s

/-- A run that ends in a fair state was in a fair state when it started. -/
def Inherits (fair : σ → Prop) (program : EStateM ε σ α) : Prop :=
  ∀ s, fair (finalState (program s)) → fair s

/-- From `s` the program returns and its result satisfies `post`, provided the
run ends in a fair state. -/
def Yields (fair : σ → Prop) (program : EStateM ε σ α) (s : σ) (post : α → σ → Prop) : Prop :=
  fair (finalState (program s)) → ∃ a s', program s = .ok a s' ∧ post a s'

theorem get_ok (s : σ) : (get : EStateM ε σ σ) s = .ok s s := rfl

variable {next : α → EStateM ε σ β}

theorem bind_ok (returned : program s = .ok a s') : (program >>= next) s = next a s' := by
  simp only [bind, EStateM.bind, returned]

theorem bind_error (failed : program s = .error e s') : (program >>= next) s = .error e s' := by
  simp only [bind, EStateM.bind, failed]

namespace Inherits

variable {fair : σ → Prop}

theorem of_ok (inherits : Inherits fair program) (returned : program s = .ok a s')
    (reached : fair s') : fair s :=
  inherits s (by rw [returned]; exact reached)

theorem pure (a : α) : Inherits fair (pure a : EStateM ε σ α) := fun _ holds => holds

theorem throw (e : ε) : Inherits fair (throw e : EStateM ε σ α) := fun _ holds => holds

theorem get : Inherits fair (get : EStateM ε σ σ) := fun _ holds => holds

theorem modify (backwards : ∀ s, fair (change s) → fair s) :
    Inherits fair (modify change : EStateM ε σ PUnit) := backwards

theorem bind (first : Inherits fair program)
    (rest : ∀ a, Inherits fair (next a)) : Inherits fair (program >>= next) := by
  intro s holds
  apply first s
  cases outcome : program s with
  | ok a s' =>
    rw [bind_ok outcome] at holds
    exact rest a s' holds
  | error e s' =>
    rw [bind_error outcome] at holds
    exact holds

theorem map (f : α → β) (first : Inherits fair program) : Inherits fair (f <$> program) := by
  intro s holds
  apply first s
  cases outcome : program s <;>
    simpa only [Functor.map, EStateM.map, outcome, finalState] using holds

theorem mapM (each : ∀ a, Inherits fair (body a)) (items : List α) :
    Inherits fair (items.mapM body) := by
  induction items with
  | nil => exact pure []
  | cons item items ih =>
    rw [List.mapM_cons]
    exact bind (each item) fun b => bind ih fun bs => pure (b :: bs)

end Inherits

namespace Yields

variable {fair : σ → Prop}

theorem of_ok (result : Yields fair program s post) (returned : program s = .ok a s')
    (reached : fair s') : post a s' := by
  obtain ⟨b, t, again, established⟩ := result (by rw [returned]; exact reached)
  rw [returned] at again
  cases again
  exact established

theorem pure (holds : post a s) :
    Yields fair (pure a : EStateM ε σ α) s post := fun _ => ⟨a, s, rfl, holds⟩

theorem weaken (result : Yields fair program s strong) (implied : ∀ a s', strong a s' → weak a s') :
    Yields fair program s weak := by
  intro holds
  obtain ⟨a, s', returned, post⟩ := result holds
  exact ⟨a, s', returned, implied a s' post⟩

/-- Sequencing: the second program may use what the first one established and
that the state between them is fair. -/
theorem bind (first : Yields fair program s middle)
    (inherits : ∀ a, Inherits fair (next a))
    (rest : ∀ a s', fair s' → middle a s' → Yields fair (next a) s' post) :
    Yields fair (program >>= next) s post := by
  intro holds
  have reached : fair (finalState (program s)) := by
    cases outcome : program s with
    | ok a s' =>
      rw [bind_ok outcome] at holds
      exact inherits a s' holds
    | error e s' =>
      rw [bind_error outcome] at holds
      exact holds
  obtain ⟨a, s', returned, established⟩ := first reached
  rw [bind_ok returned] at holds ⊢
  rw [returned] at reached
  exact rest a s' reached established holds

theorem map (result : Yields fair program s fun a s' => post (f a) s') :
    Yields fair (f <$> program) s post := by
  intro holds
  cases outcome : program s with
  | ok a s' =>
    simp only [Functor.map, EStateM.map, outcome, finalState] at holds ⊢
    obtain ⟨b, t, returned, established⟩ := result (by rw [outcome]; exact holds)
    rw [outcome] at returned
    cases returned
    exact ⟨f a, s', rfl, established⟩
  | error e s' =>
    simp only [Functor.map, EStateM.map, outcome, finalState] at holds
    obtain ⟨b, t, returned, _⟩ := result (by rw [outcome]; exact holds)
    rw [outcome] at returned
    cases returned

/-- A loop over a list: every round keeps the invariant and adds to the state,
and what earlier rounds established survives later additions. -/
theorem mapM {invariant : σ → Prop} {adds : σ → σ → Prop} {post : α → β → σ → Prop}
    (inherits : ∀ a, Inherits fair (body a)) (refl : ∀ s, adds s s)
    (trans : ∀ {s t u}, adds s t → adds t u → adds s u)
    (stable : ∀ {a b s t}, adds s t → post a b s → post a b t) (items : List α)
    (round : ∀ a ∈ items, ∀ s, fair s → invariant s →
      Yields fair (body a) s fun b t => invariant t ∧ adds s t ∧ post a b t)
    (start : invariant s) (between : fair s) :
    Yields fair (items.mapM body) s fun bs t =>
      invariant t ∧ adds s t ∧ List.Forall₂ (fun a b => post a b t) items bs := by
  induction items generalizing s with
  | nil => exact pure ⟨start, refl s, .nil⟩
  | cons item items ih =>
    rw [List.mapM_cons]
    refine bind (round item (by simp) s between start) ?_ ?_
    · exact fun b => (Inherits.mapM inherits items).bind fun bs => .pure (b :: bs)
    · rintro b t fairT ⟨kept, first, here⟩
      have rest := ih (fun a member => round a (by simp [member])) kept fairT
      refine bind rest (fun bs => .pure (b :: bs)) ?_
      rintro bs u _ ⟨kept', second, there⟩
      exact pure ⟨kept', trans first second, .cons (stable second here) there⟩

end Yields

end F1r3fly.Assuming
