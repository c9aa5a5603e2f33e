import F1r3fly.RSpace.Merger.StateChange

/-! From the combined change of a channel to the action on the trie, and when the
changes of consecutive steps, combined and applied to the first content of a
channel, give the last one. -/
namespace F1r3fly.RSpace.Merger

open StateChange

/-- The stored list without what was removed, followed by what was added. -/
def applyChange (init : List ByteVector) (change : ChannelChange ByteVector) : List ByteVector :=
  multisetDiff init change.removed ++ change.added

/-- Refuses a change that leaves the stored list as it is. -/
def makeTrieAction {Action : Type} (historyPointer : Blake2b256Hash)
    (initValue : Blake2b256Hash → Except MergerError (List ByteVector))
    (changes : ChannelChange ByteVector) (removeAction : Blake2b256Hash → Action)
    (updateAction : Blake2b256Hash → List ByteVector → Action) : Except MergerError Action := do
  let init ← initValue historyPointer
  let newVal := applyChange init changes
  if newVal.isEmpty && !init.isEmpty then
    return removeAction historyPointer
  else if init ≠ newVal then
    return updateAction historyPointer newVal
  else
    throw (.mergeError ("Merging logic error: empty channel change for produce or join when " ++
      "computing trie action."))

/-- The changes of the steps from each content of a channel to the next one. -/
def stepChanges (historyPointer : Blake2b256Hash) :
    List ByteVector → List (List ByteVector) → Except MergerError (List (ChannelChange ByteVector))
  | _, [] => return []
  | start, next :: rest => do
    let change ← computeValueChange historyPointer (fun _ => .ok start) fun _ => .ok next
    let changes ← stepChanges historyPointer next rest
    return change :: changes

variable (historyPointer : Blake2b256Hash)

variable (start : List ByteVector)

variable (later : List (List ByteVector))

/-- The content that the action for the combined changes leaves in a channel which
has the content `start` in the trie. -/
def mergedContent : Except MergerError (List ByteVector) := do
  let changes ← stepChanges historyPointer start later
  makeTrieAction historyPointer (fun _ => .ok start)
    (changes.foldl ChannelChange.combine .empty) (fun _ => []) fun _ data => data

def combinedChange : ChannelChange ByteVector → List ByteVector → List (List ByteVector) →
    ChannelChange ByteVector
  | change, _, [] => change
  | change, start, next :: rest =>
    combinedChange (change.combine (valueChange start next)) next rest

/-- By how much the count of an element grows at most in one step. -/
def largestRise (item : ByteVector) : List ByteVector → List (List ByteVector) → Nat
  | _, [] => 0
  | start, next :: rest => max (next.count item - start.count item) (largestRise item next rest)

/-- By how much the count of an element drops at most in one step. -/
def largestFall (item : ByteVector) : List ByteVector → List (List ByteVector) → Nat
  | _, [] => 0
  | start, next :: rest => max (start.count item - next.count item) (largestFall item next rest)

theorem makeTrieAction_ok {Action : Type} (historyPointer : Blake2b256Hash)
    (init : List ByteVector) (changes : ChannelChange ByteVector)
    (removeAction : Blake2b256Hash → Action)
    (updateAction : Blake2b256Hash → List ByteVector → Action)
    (changed : applyChange init changes ≠ init) :
    makeTrieAction historyPointer (fun _ => .ok init) changes removeAction updateAction =
      .ok (if applyChange init changes = [] then removeAction historyPointer
        else updateAction historyPointer (applyChange init changes)) := by
  simp only [makeTrieAction, bind, Except.bind]
  by_cases emptied : applyChange init changes = []
  · have nonempty : init ≠ [] := fun eq => changed (emptied.trans eq.symm)
    simp [emptied, nonempty, pure, Except.pure]
  · simp [emptied, changed.symm, pure, Except.pure]

theorem stepChanges_eq : ∃ changes, stepChanges historyPointer start later = .ok changes ∧
      ∀ change, changes.foldl ChannelChange.combine change = combinedChange change start later := by
  induction later generalizing start with
  | nil => exact ⟨[], rfl, fun _ => rfl⟩
  | cons next rest ih =>
    obtain ⟨changes, computed, combined⟩ := ih next
    refine ⟨valueChange start next :: changes, ?_, ?_⟩
    · rw [stepChanges, computed]
      rfl
    · intro change
      rw [foldl_cons, combined, combinedChange]

theorem mergedContent_eq : mergedContent historyPointer start later =
      makeTrieAction historyPointer (fun _ => .ok start) (combinedChange .empty start later)
        (fun _ => []) fun _ data => data := by
  obtain ⟨changes, computed, combined⟩ := stepChanges_eq historyPointer start later
  rw [mergedContent, computed, ← combined]
  rfl

/-- The combined change has, of each element, as many added as its largest rise and as
many removed as its largest fall. -/
theorem count_combinedChange (change : ChannelChange ByteVector) (start : List ByteVector)
    (later : List (List ByteVector)) (item : ByteVector) :
    (combinedChange change start later).added.count item =
        max (change.added.count item) (largestRise item start later) ∧
      (combinedChange change start later).removed.count item =
        max (change.removed.count item) (largestFall item start later) := by
  induction later generalizing change start with
  | nil => simp [combinedChange, largestRise, largestFall]
  | cons next rest ih =>
    obtain ⟨added, removed⟩ := ih (change.combine (valueChange start next)) next
    rw [combinedChange, added, removed, ChannelChange.combine, ChannelChange.count_union,
      ChannelChange.count_union, largestRise, largestFall, valueChange,
      count_multisetDiff, count_multisetDiff]
    constructor
    · exact max_assoc _ _ _
    · exact max_assoc _ _ _

theorem count_applyChange_combined (item : ByteVector) :
    (applyChange start (combinedChange .empty start later)).count item =
      start.count item - largestFall item start later + largestRise item start later := by
  obtain ⟨added, removed⟩ := count_combinedChange .empty start later item
  rw [applyChange, List.count_append, count_multisetDiff, added, removed]
  simp [ChannelChange.empty]

/-- What is written is the changed list; only a list that is the stored one is refused. -/
theorem mergedContent_ok_iff (content : List ByteVector) :
    mergedContent historyPointer start later = .ok content ↔
      content = applyChange start (combinedChange .empty start later) ∧ content ≠ start := by
  rw [mergedContent_eq]
  by_cases unchanged : applyChange start (combinedChange .empty start later) = start
  · constructor
    · intro written
      simp [makeTrieAction, unchanged, bind, Except.bind, throw, throwThe,
        MonadExceptOf.throw] at written
    · rintro ⟨rfl, changed⟩
      exact absurd unchanged changed
  · rw [makeTrieAction_ok historyPointer start _ _ _ unchanged]
    constructor
    · intro written
      have eq := Except.ok.inj written
      have written_eq : content = applyChange start (combinedChange .empty start later) := by
        rw [← eq]
        split <;> simp_all
      exact ⟨written_eq, written_eq ▸ unchanged⟩
    · rintro ⟨rfl, -⟩
      congr 1
      split <;> simp_all

/-- Applying the combined changes of a chain of contents to the first content gives
the last one exactly when, for every element, the first count without the largest fall
and with the largest rise of a single step is the last count, and the list to be written
is not the stored one itself. -/
theorem mergedContent_perm_iff (historyPointer : Blake2b256Hash) (start : List ByteVector)
    (later : List (List ByteVector)) :
    (∃ content, mergedContent historyPointer start later = .ok content ∧
        content.Perm (later.getLastD start)) ↔
      (∀ item, start.count item - largestFall item start later + largestRise item start later =
        (later.getLastD start).count item) ∧
      applyChange start (combinedChange .empty start later) ≠ start := by
  have balanced_iff : (applyChange start (combinedChange .empty start later)).Perm
      (later.getLastD start) ↔ ∀ item,
        start.count item - largestFall item start later + largestRise item start later =
          (later.getLastD start).count item := by
    rw [List.perm_iff_count]
    simp only [count_applyChange_combined]
  rw [← balanced_iff]
  constructor
  · rintro ⟨content, written, same⟩
    obtain ⟨rfl, changed⟩ := (mergedContent_ok_iff historyPointer start later content).mp written
    exact ⟨same, changed⟩
  · rintro ⟨same, changed⟩
    exact ⟨_, (mergedContent_ok_iff historyPointer start later _).mpr ⟨rfl, changed⟩, same⟩

/-- An element that appears in one step and goes away in the next is left behind. -/
theorem mergedContent_keeps_removed :
    mergedContent [] [] [[[1]], []] = .ok [[1]] ∧
      ¬ ∃ content, mergedContent [] [] [[[1]], []] = .ok content ∧ content.Perm [] := by
  have kept : mergedContent [] [] [[[1]], []] = .ok [[1]] := by decide
  refine ⟨kept, ?_⟩
  rintro ⟨content, written, same⟩
  cases written
  exact absurd same.length_eq (by decide)

end F1r3fly.RSpace.Merger
