import Mathlib.Data.List.Forall2

/-! Programs over a state that keep an invariant of it and yield results with a
property, composed along the operations of the state monad. -/
namespace F1r3fly.StateInvariant

variable {σ α β : Type} {inv : σ → Prop}

theorem run_bind (program : StateM σ α) (next : α → StateM σ β) (s : σ) :
    (program >>= next) s = next (program s).1 (program s).2 :=
  rfl

theorem run_mapM_cons (f : α → StateM σ β) (item : α) (items : List α) (s : σ) :
    (item :: items).mapM f s =
      ((f item s).1 :: (items.mapM f (f item s).2).1, (items.mapM f (f item s).2).2) := by
  rw [List.mapM_cons]
  rfl

def Yields (inv : σ → Prop) (program : StateM σ α) (post : α → Prop) : Prop :=
  ∀ s, inv s → inv (program s).2 ∧ post (program s).1

namespace Yields

theorem pure (holds : post a) : Yields inv (pure a) post :=
  fun _ keeps => ⟨keeps, holds⟩

theorem bind (first : Yields inv program mid) (rest : ∀ a, mid a → Yields inv (next a) post) :
    Yields inv (program >>= next) post := by
  intro s keeps
  obtain ⟨keeps, holds⟩ := first s keeps
  exact rest _ holds _ keeps

theorem mapM_of_mem {items : List α} (each : ∀ a ∈ items, Yields inv (f a) (post a)) :
    Yields inv (items.mapM f) (items.Forall₂ post) := by
  induction items with
  | nil => exact pure .nil
  | cons item items ih =>
    have rest := ih fun a member => each a (.tail _ member)
    rw [List.mapM_cons]
    exact (each item (.head _)).bind fun _ head => rest.bind fun _ tail =>
      pure (.cons head tail)

theorem mapM (each : ∀ a, Yields inv (f a) (post a)) (items : List α) :
    Yields inv (items.mapM f) (items.Forall₂ post) :=
  mapM_of_mem fun a _ => each a

theorem modify (keeps : ∀ s, inv s → inv (change s)) : Yields inv (modify change) fun _ => True :=
  fun s holds => ⟨keeps s holds, trivial⟩

theorem forM_of_mem {items : List α} (each : ∀ a ∈ items, Yields inv (f a) fun _ => True) :
    Yields inv (items.forM f) fun _ => True := by
  induction items with
  | nil => exact pure trivial
  | cons item items ih =>
    have rest := ih fun a member => each a (.tail _ member)
    exact (each item (.head _)).bind fun _ _ => rest

end Yields

end F1r3fly.StateInvariant
