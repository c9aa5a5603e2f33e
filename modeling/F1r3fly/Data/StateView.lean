import Mathlib.Tactic.Common

/-! Two implementations of one interface, compared through a view of the state of the first as a
state of the second. Programs built from operations that commute with the view commute with it. -/
namespace F1r3fly.StateView

variable {σ τ α β : Type}

def CommutesAt (view : σ → τ) (s : σ) (program : StateM σ α) (other : StateM τ α) : Prop :=
  other (view s) = ((program s).1, view (program s).2)

def Commutes (view : σ → τ) (program : StateM σ α) (other : StateM τ α) : Prop :=
  ∀ s, CommutesAt view s program other

theorem run_get_bind (next : σ → StateM σ α) (s : σ) : (get >>= next) s = next s s := rfl

theorem run_pure (a : α) (s : σ) : (pure a : StateM σ α) s = (a, s) := rfl

variable {view : σ → τ}

namespace CommutesAt

theorem bind (first : CommutesAt view s program other)
    (rest : CommutesAt view (program s).2 (next (program s).1) (otherNext (program s).1)) :
    CommutesAt view s (program >>= next) (other >>= otherNext) := by
  simp only [CommutesAt, Bind.bind, StateT.bind] at first ⊢
  rw [first]
  exact rest

theorem congr (commutes : CommutesAt view s program other)
    (same : other (view s) = other' (view s)) : CommutesAt view s program other' :=
  same.symm.trans commutes

theorem read_bind {read : StateM σ β} {field : τ → β}
    (reads : CommutesAt view s read fun t => (field t, t))
    (rest : CommutesAt view (read s).2 (next (read s).1) other) :
    CommutesAt view s (read >>= next) other := by
  obtain ⟨_, kept⟩ := Prod.mk.inj reads
  rw [CommutesAt, kept]
  exact rest

/-- Writing back what the view already has is not seen. -/
theorem fill {read : StateM σ β} {write : β → StateM σ PUnit} {field : τ → β} {update : τ → β → τ}
    (reads : CommutesAt view s read fun t => (field t, t))
    (writes : ∀ b s, CommutesAt view s (write b) (modify (update · b)))
    (update_self : ∀ t, update t (field t) = t) (f : β → α) :
    CommutesAt view s (do let b ← read; write b; pure (f b)) (fun t => (f (field t), t)) := by
  obtain ⟨value, kept⟩ := Prod.mk.inj reads
  have unchanged : update (view (read s).2) (read s).1 = view s := by
    rw [← kept, ← value, update_self]
  have written : update (view (read s).2) (read s).1 = view (write (read s).1 (read s).2).2 :=
    congrArg Prod.snd (writes (read s).1 (read s).2)
  exact Prod.ext (congrArg f value) (unchanged.symm.trans written)

theorem get_bind (rest : CommutesAt view s (next s) other) :
    CommutesAt view s (get >>= next) other :=
  rest

end CommutesAt

namespace Commutes

theorem result (commutes : Commutes view program other) (s : σ) :
    (program s).1 = (other (view s)).1 := by
  rw [commutes s]

theorem state (commutes : Commutes view program other) (s : σ) :
    view (program s).2 = (other (view s)).2 := by
  rw [commutes s]

theorem pure (a : α) : Commutes view (pure a) (pure a) := fun _ => rfl

theorem modify (same : ∀ s, otherChange (view s) = view (change s)) :
    Commutes view (modify change) (modify otherChange) :=
  fun s => congrArg (Prod.mk PUnit.unit) (same s)

theorem bind (first : Commutes view program other)
    (rest : ∀ a, Commutes view (next a) (otherNext a)) :
    Commutes view (program >>= next) (other >>= otherNext) :=
  fun s => (first s).bind (rest _ _)

theorem mapM (each : ∀ a, Commutes view (f a) (g a)) (items : List α) :
    Commutes view (items.mapM f) (items.mapM g) := by
  induction items with
  | nil => exact pure []
  | cons item items ih =>
    simp only [List.mapM_cons]
    exact (each item).bind fun _ => ih.bind fun _ => pure _

theorem forM (each : ∀ a, Commutes view (f a) (g a)) (items : List α) :
    Commutes view (items.forM f) (items.forM g) := by
  induction items with
  | nil => exact pure _
  | cons item items ih => exact (each item).bind fun _ => ih

end Commutes

end F1r3fly.StateView
