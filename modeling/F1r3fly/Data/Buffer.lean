import F1r3fly.Data.Lists

/-! Buffers of a fixed length that are filled by positions. Nothing is written out of
bounds. -/
namespace F1r3fly.Buffer

variable {α : Type}

def setAt (buffer : List α) (position : Nat) (value : α) : Option (List α) :=
  if position < buffer.length then some (buffer.set position value) else none

def copyInto (buffer : List α) (start : Nat) (source : List α) (size : Nat) : Option (List α) :=
  (List.range size).foldlM (fun buffer i => do
    let value ← source[i]?
    setAt buffer (start + i) value) buffer

theorem setAt_append (written rest : List α) (old value : α) :
    setAt (written ++ old :: rest) written.length value = some (written ++ value :: rest) := by
  simp [setAt]

/-- The values take the place of what was in the room for them. -/
theorem copyInto_append (written rest : List α) (fits : room.length = source.length) :
    copyInto (written ++ (room ++ rest)) written.length source source.length =
      some (written ++ (source ++ rest)) := by
  have copied : ∀ size ≤ source.length, copyInto (written ++ (room ++ rest)) written.length source
      size = some (written ++ (source.take size ++ (room.drop size ++ rest))) := by
    intro size bound
    induction size with
    | zero => rfl
    | succ size ih =>
      have value : source[size]? = some source[size] := getElem?_eq_getElem (by omega)
      have room_eq : room.drop size = room[size] :: room.drop (size + 1) :=
        List.drop_eq_getElem_cons (by omega)
      have taken : source.take (size + 1) = source.take size ++ [source[size]] :=
        List.take_succ_eq_append_getElem (by omega)
      have here : written.length + size = (written ++ source.take size).length := by
        rw [length_append, List.length_take, Nat.min_eq_left (by omega)]
      rw [copyInto, List.range_succ, List.foldlM_append]
      have before := ih (by omega)
      rw [copyInto] at before
      rw [before, room_eq, taken]
      simp only [Option.bind_eq_bind, bind_some, foldlM_cons, List.foldlM_nil, value]
      rw [← append_assoc written, here, cons_append, setAt_append]
      simp only [append_assoc, cons_append, nil_append]
      rfl
  have all := copied source.length (Nat.le_refl _)
  rwa [List.take_length, ← fits, List.drop_length, nil_append, fits] at all

end F1r3fly.Buffer
