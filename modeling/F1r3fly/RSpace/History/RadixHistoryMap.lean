import F1r3fly.RSpace.Hashing.Blake2bReference
import F1r3fly.RSpace.History.RadixHistory

/-! What the histories on a store are for: each is a map from keys to values, and
its root hash depends on nothing but that map. -/
namespace F1r3fly.RSpace.History

open Assuming RadixHistory

section Map

variable [Blake2b] [DashMapOrder]

theorem inherits_read (history : RadixHistory) (key : ByteVector) :
    Inherits World.NoCollision (history.read key) :=
  .bind (inherits_call (inherits_readAtCached _ _ _) _) fun _ => .pure _

theorem inherits_process (history : RadixHistory) (actions : List HistoryAction) :
    Inherits World.NoCollision (history.process actions) := by
  unfold process
  split
  · exact .throw _
  · refine .bind (inherits_call (inherits_makeActions _ _ _) _) fun result => ?_
    dsimp only
    split
    · exact .bind (inherits_call (inherits_saveRoot _) _) fun _ => .pure _
    · exact .pure _

theorem inherits_processAll (history : RadixHistory) (batches : List (List HistoryAction)) :
    Inherits World.NoCollision (history.processAll batches) := by
  induction batches generalizing history with
  | nil => exact .pure _
  | cons actions batches ih => exact .bind (inherits_process _ _) fun result => ih result.1

theorem processAll_spec {trie : Trie n} (small : n ≤ 127) (represents : Represents w history trie)
    (free : w.NoCollision) (wellFormed : ∀ actions ∈ batches, Batch (n + 1) actions) :
    Yields World.NoCollision (history.processAll batches) w fun result w' =>
      ∃ after : Trie n, Represents w' result after ∧
        after.lookup = applyBatches batches trie.lookup := by
  induction batches generalizing w history trie with
  | nil => exact .pure ⟨trie, represents, rfl⟩
  | cons actions batches ih =>
    refine .bind (process_spec small represents free (wellFormed actions (by simp)))
      (fun result => inherits_processAll result.1 batches) ?_
    rintro ⟨next, old⟩ w' freeW' ⟨_, _, after, representsNext, effect⟩
    refine (ih representsNext freeW' fun other member =>
      wellFormed other (by simp [member])).weaken ?_
    rintro last w'' ⟨final, representsLast, lookup⟩
    refine ⟨final, representsLast, ?_⟩
    rw [lookup, effect]
    rfl

def RadixHistory.run (batches : List (List HistoryAction)) : HistoryM RadixHistory := do
  let history ← emptyHistory
  history.processAll batches

/-- A run ends in the one trie of the map its batches describe. -/
theorem run_spec (small : n ≤ 127) (coherent : w.Coherent)
    (wellFormed : ∀ actions ∈ batches, Batch (n + 1) actions) :
    Yields World.NoCollision (run batches) w fun history w' =>
      ∃ trie : Trie n, Represents w' history trie ∧
        trie.lookup = applyBatches batches fun _ => none := by
  refine .bind (emptyHistory_spec n small coherent)
    (fun history => inherits_processAll history batches) ?_
  rintro history w' free ⟨_, represents⟩
  have vacant : (Trie.empty n).lookup = fun _ => none := funext Trie.lookup_empty
  rw [← vacant]
  exact processAll_spec small represents free wellFormed

omit [DashMapOrder] in
/-- History independence. Two sequences of batches with the same effect on the
map from keys to values return the same root hash, whatever the stores they
start on hold besides and in whatever order the caches are evicted. -/
theorem root_determined_by_map (first second : DashMapOrder) {n : Nat} (positive : 0 < n)
    (short : n ≤ 127) {left right : List (List HistoryAction)}
    (wellFormedLeft : ∀ actions ∈ left, Batch n actions)
    (wellFormedRight : ∀ actions ∈ right, Batch n actions)
    (sameMap : applyBatches left (fun _ => none) = applyBatches right fun _ => none)
    {w₁ w₂ : World} (coherent₁ : w₁.Coherent) (coherent₂ : w₂.Coherent)
    (free₁ : CollisionFree (finalState (@RadixHistory.run _ first left w₁)).hashed)
    (free₂ : CollisionFree (finalState (@RadixHistory.run _ second right w₂)).hashed) :
    ∃ h₁ w₁' h₂ w₂', @RadixHistory.run _ first left w₁ = .ok h₁ w₁' ∧
      @RadixHistory.run _ second right w₂ = .ok h₂ w₂' ∧ h₁.rootHash = h₂.rootHash := by
  obtain ⟨m, rfl⟩ := exists_eq_succ_of_ne_zero (Nat.pos_iff_ne_zero.mp positive)
  have small : m ≤ 127 := by omega
  obtain ⟨h₁, w₁', run₁, trie₁, represents₁, lookup₁⟩ :=
    @run_spec _ first m left w₁ small coherent₁ wellFormedLeft free₁
  obtain ⟨h₂, w₂', run₂, trie₂, represents₂, lookup₂⟩ :=
    @run_spec _ second m right w₂ small coherent₂ wellFormedRight free₂
  have same : trie₁ = trie₂ := Trie.ext (lookup₁.trans (sameMap.trans lookup₂.symm))
  refine ⟨h₁, w₁', h₂, w₂', run₁, run₂, ?_⟩
  rw [represents₁.hash, represents₂.hash, same]

end Map

@[reducible] def insertionOrder : DashMapOrder := ⟨id, .refl⟩

def sampleLeft : List (List HistoryAction) := [[.insert [7] (List.replicate 32 2)]]

def sampleRight : List (List HistoryAction) :=
  [[.insert [7] (List.replicate 32 1)], [.delete [9], .insert [7] (List.replicate 32 2)]]

theorem root_determined_by_map_sample :
    ∃ h₁ w₁ h₂ w₂,
      @RadixHistory.run blake2b insertionOrder sampleLeft ⟨∅, []⟩ = .ok h₁ w₁ ∧
      @RadixHistory.run blake2b insertionOrder sampleRight ⟨∅, []⟩ = .ok h₂ w₂ ∧
      h₁.rootHash = h₂.rootHash := by
  have batches : ∀ actions ∈ sampleLeft ++ sampleRight, Batch 1 actions := by
    simp [sampleLeft, sampleRight]
    refine ⟨⟨?_, ?_, ?_⟩, ⟨?_, ?_, ?_⟩, ⟨?_, ?_, ?_⟩⟩ <;>
      simp [HistoryAction.key, HistoryAction.result, defSize]
  have coherent : @World.Coherent blake2b ⟨∅, []⟩ := by
    intro key bytes found
    simp at found
  refine @root_determined_by_map blake2b insertionOrder insertionOrder 1 (by decide)
    (by decide) sampleLeft sampleRight (fun actions member => batches actions (by simp [member]))
    (fun actions member => batches actions (by simp [member])) ?_ _ _ coherent coherent
    (by decide +kernel) (by decide +kernel)
  funext key
  by_cases seven : key = [7] <;> by_cases nine : key = [9] <;>
    simp_all [sampleLeft, sampleRight, applyBatches, applyActions, applyAction, HistoryAction.key,
      HistoryAction.result]

section Reading

variable [Blake2b] [DashMapOrder]

/-- The histories on a store that holds nothing but entries filed under their
hash: the empty one, those returned by batches, and those that a batch, a read
or a call on another history has left behind. -/
inductive Reachable (n : Nat) : World → RadixHistory → Prop where
  | empty : w.Coherent → emptyHistory w = .ok history w' → Reachable n w' history
  | processed : Reachable n w history → Batch n actions →
      history.process actions w = .ok (next, old) w' → Reachable n w' next
  | kept : Reachable n w history → Batch n actions →
      history.process actions w = .ok (next, old) w' → Reachable n w' old
  | read : Reachable n w history → history.read key w = .ok (value, used) w' → Reachable n w' used
  | reset : Reachable n w history → Reachable n w self →
      self.reset history.rootHash w = .ok reopened w' → Reachable n w' reopened
  | besides : Reachable n w history → Reachable n w other → Batch n actions →
      other.process actions w = .ok result w' → Reachable n w' history

theorem Reachable.represents (small : n ≤ 127) (reachable : Reachable (n + 1) w history)
    (free : w.NoCollision) : ∃ trie : Trie n, Represents w history trie := by
  induction reachable with
  | empty coherent returned =>
    obtain ⟨_, represents⟩ := Yields.of_ok (emptyHistory_spec n small coherent) returned free
    exact ⟨_, represents⟩
  | processed _ batch returned ih =>
    have before := Inherits.of_ok (inherits_process _ _) returned free
    obtain ⟨trie, represents⟩ := ih before
    obtain ⟨_, _, after, representsNext, _⟩ :=
      Yields.of_ok (process_spec small represents before batch) returned free
    exact ⟨after, representsNext⟩
  | kept _ batch returned ih =>
    have before := Inherits.of_ok (inherits_process _ _) returned free
    obtain ⟨trie, represents⟩ := ih before
    obtain ⟨_, representsOld, _⟩ :=
      Yields.of_ok (process_spec small represents before batch) returned free
    exact ⟨trie, representsOld⟩
  | read _ returned ih =>
    have before := Inherits.of_ok (inherits_read _ _) returned free
    obtain ⟨trie, represents⟩ := ih before
    obtain ⟨_, _, representsUsed, _⟩ :=
      Yields.of_ok (read_spec small represents before _) returned free
    exact ⟨trie, representsUsed⟩
  | reset _ _ returned ih _ =>
    have before := Inherits.of_ok (inherits_create _) returned free
    obtain ⟨trie, represents⟩ := ih before
    obtain ⟨_, representsReopened⟩ :=
      Yields.of_ok (reset_spec small represents before _) returned free
    exact ⟨trie, representsReopened⟩
  | besides _ _ batch returned ih ihOther =>
    have before := Inherits.of_ok (inherits_process _ _) returned free
    obtain ⟨trie, represents⟩ := ih before
    obtain ⟨otherTrie, representsOther⟩ := ihOther before
    obtain ⟨grows, _⟩ :=
      Yields.of_ok (process_spec small representsOther before batch) returned free
    exact ⟨trie, represents.grows grows⟩

def Reads (history : RadixHistory) (w : World) (key : KeyPath) (value : Option ByteVector) : Prop :=
  ∃ used w', history.read key w = .ok (value, used) w'

omit [DashMapOrder] in
/-- A method that hashes nothing cannot bring a collision about. -/
theorem call_fair_of_quiet {method : RadixM α} {imple : RadixTreeImpl}
    (quiet : ∀ property, Inherits (Logs property) method) (free : w.NoCollision)
    (finish : α × RadixTreeImpl → β) :
    World.NoCollision (finalState
      ((imple.call method >>= fun result => pure (finish result)) w)) := by
  have kept := hashed_of_inherits quiet (imple.on w)
  have free' : CollisionFree (finalState (method (imple.on w))).hashed := by
    rw [kept]
    exact free
  cases outcome : method (imple.on w) with
  | ok a s | error failure s =>
    rw [outcome] at free'
    simp only [bind, EStateM.bind, RadixTreeImpl.call, outcome]
    exact free'

theorem Represents.reads {trie : Trie n} (represents : Represents w history trie) (small : n ≤ 127)
    (free : w.NoCollision) (key : KeyPath) : Reads history w key (trie.lookup key) := by
  obtain ⟨⟨value, used⟩, w', returned, rfl, _⟩ :=
    read_spec small represents free key
      (call_fair_of_quiet (fun _ => inherits_readAtCached _ _ _) free _)
  exact ⟨used, w', returned⟩

/-- Map semantics. On every history reached from the empty tree, a batch
succeeds. The new history reads what the batch put at a key and what the old one
read elsewhere; the old history and a history reset to the old root read what
the old one did. -/
theorem process_reads_as_map {n : Nat} (positive : 0 < n) (short : n ≤ 127)
    (reachable : Reachable n w history) (batch : Batch n actions)
    (free : CollisionFree (finalState (history.process actions w)).hashed) :
    ∃ next old w', history.process actions w = .ok (next, old) w' ∧
      ∃ reopened w'', next.reset history.rootHash w' = .ok reopened w'' ∧
      ∀ key, ∃ before, Reads history w key before ∧
        (∀ value, .insert key value ∈ actions → Reads next w' key (some value)) ∧
        (.delete key ∈ actions → Reads next w' key none) ∧
        ((∀ action ∈ actions, action.key ≠ key) → Reads next w' key before) ∧
        Reads old w' key before ∧ Reads reopened w'' key before := by
  obtain ⟨m, rfl⟩ := exists_eq_succ_of_ne_zero (Nat.pos_iff_ne_zero.mp positive)
  have small : m ≤ 127 := by omega
  have freeBefore : w.NoCollision := inherits_process history actions w free
  obtain ⟨trie, represents⟩ := reachable.represents small freeBefore
  obtain ⟨⟨next, old⟩, w', processed, _, representsOld, after, representsNext, effect⟩ :=
    process_spec small represents freeBefore batch free
  have freeAfter : w'.NoCollision := by
    rw [processed] at free
    exact free
  have sameRoot : old.rootHash = history.rootHash := by rw [representsOld.hash, represents.hash]
  have resetFair : World.NoCollision (finalState (create old.rootHash w')) :=
    call_fair_of_quiet (fun _ => inherits_loadNode _ _) freeAfter _
  obtain ⟨reopened, w'', reset, _, representsReopened⟩ :=
    reset_spec small representsOld freeAfter next resetFair
  have freeReopened : w''.NoCollision := by
    rw [RadixHistory.reset] at reset
    rw [reset] at resetFair
    exact resetFair
  refine ⟨next, old, w', processed, reopened, w'', sameRoot ▸ reset, ?_⟩
  intro key
  have reads := representsNext.reads small freeAfter key
  rw [effect] at reads
  refine ⟨trie.lookup key, represents.reads small freeBefore key, ?_, ?_, ?_,
    representsOld.reads small freeAfter key, representsReopened.reads small freeReopened key⟩
  · intro value member
    have put : applyActions actions trie.lookup key = some value :=
      applyActions_of_mem batch.distinct member trie.lookup
    rwa [put] at reads
  · intro member
    have removed : applyActions actions trie.lookup key = none :=
      applyActions_of_mem batch.distinct member trie.lookup
    rwa [removed] at reads
  · intro absent
    rwa [applyActions_of_absent absent] at reads

end Reading

theorem process_reads_as_map_sample :
    ∃ w history, @Reachable blake2b insertionOrder 1 w history ∧
      ∃ next old w', @RadixHistory.process blake2b insertionOrder history
          [.delete [9], .insert [7] (List.replicate 32 2)] w = .ok (next, old) w' ∧
        @Reads insertionOrder next w' [7] (some (List.replicate 32 2)) ∧
        @Reads insertionOrder next w' [9] none ∧
        ∃ before, @Reads insertionOrder history w [8] before ∧
          @Reads insertionOrder next w' [8] before := by
  let := blake2b
  let := insertionOrder
  have opened : emptyHistory ⟨∅, []⟩ =
      .ok ⟨Blake2b.hash (encodeBytes emptyNode), emptyNode, .new⟩ ⟨∅, [encodeBytes emptyNode]⟩ := by
    rw [emptyHistory, bind_ok (emptyRootNodeHash_eq _)]
    rfl
  have coherent : World.Coherent ⟨∅, []⟩ := by
    intro key bytes found
    simp at found
  have reachable : Reachable 1 _ _ := .empty coherent opened
  have batch : Batch 1 [.delete [9], .insert [7] (List.replicate 32 2)] := by
    refine ⟨?_, ?_, ?_⟩ <;> simp [HistoryAction.key, HistoryAction.result, defSize]
  obtain ⟨next, old, w', processed, _, _, _, reads⟩ :=
    process_reads_as_map (by decide) (by decide) reachable batch (by decide +kernel)
  obtain ⟨_, _, inserted, _⟩ := reads [7]
  obtain ⟨_, _, _, deleted, _⟩ := reads [9]
  obtain ⟨before, same, _, _, kept, _⟩ := reads [8]
  exact ⟨_, _, reachable, next, old, w', processed, inserted _ (by simp), deleted (by simp), before,
    same, kept (by simp [HistoryAction.key])⟩

end F1r3fly.RSpace.History
