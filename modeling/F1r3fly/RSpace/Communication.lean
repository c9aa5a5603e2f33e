import F1r3fly.RSpace.ByteSpace
import F1r3fly.RSpace.Removal

/-! What a communication takes from the space: the data that are handed over and
not persistent, provided no channel loses two at once. -/
namespace F1r3fly.RSpace

open InMemHotStore Space ConsumeCandidate

variable {S C P A K : Type}

def Outcome.fired : Outcome C P A K → Option (ContResult C P K × List (RSpaceResult C A))
  | .produced (some (continuation, results, _)) => some (continuation, results)
  | .consumed result => result
  | _ => none

namespace Space

variable [Blake2b] [Serialize C] [Serialize A] [DecidableEq C]

/-- The data that an operation finds on a channel, each with its position; the
datum it brings comes first and has none. -/
def offered [HotStore S C P A K] (self : Space S C P K) (operation : Operation C P A K)
    (channel : C) : Indexed A :=
  match operation with
  | .produce batChannel data persist =>
    if channel = batChannel then
      (datumAs batChannel data persist, -1) :: withIndex (self.getData channel)
    else withIndex (self.getData channel)
  | _ => withIndex (self.getData channel)

def chosen [HotStore S C P A K] [ThreadRng] [Match P A] [Serialize P] [Serialize K]
    (self : Space S C P K) : Operation C P A K → Option (List (ConsumeCandidate C A))
  | .produce channel data persist =>
    (produceCandidate channel (datumAs channel data persist) self).1.map (·.dataCandidates)
  | .consume channels patterns continuation persist _ =>
    (consumeCandidates channels patterns
      (Consume.create channels patterns continuation persist) self).1
  | .install .. => none

/-- A linear produce fires only with its own datum. -/
def HandsOver (operation : Operation C P A K) (candidates : List (ConsumeCandidate C A)) : Prop :=
  ∀ channel data, operation = .produce channel data false →
    ∃ candidate ∈ candidates, candidate.datumIndex < 0

variable [Debug P] [Debug K]

theorem offered_mapStore (self : Space (InMemHotStore C P A K) C P K)
    (operation : Operation C P A K) :
    (self.mapStore view).offered operation = self.offered operation := by
  funext channel
  cases operation <;> simp only [offered, getData_mapStore isView]

variable [Match P A] [Serialize P] [Serialize K]

theorem chosen_mapStore [ThreadRng] (self : Space (InMemHotStore C P A K) C P K)
    (operation : Operation C P A K) :
    (self.mapStore view).chosen operation = self.chosen operation := by
  cases operation with
  | produce channel data persist =>
    have commutes : StateView.Commutes
        (mapStore (C := C) (P := P) (K := K) (view : InMemHotStore C P A K → EagerStore C P A K))
        (produceCandidate channel (datumAs channel data persist))
        (produceCandidate channel (datumAs channel data persist)) := by
      refine (onStore_commutes (isView.getJoins channel)).bind fun grouped =>
        .bind (.modify fun _ => rfl) fun _ => ?_
      exact extractProduceCandidate_commutes isView grouped channel _
    exact congrArg (Option.map _) (commutes.result self).symm
  | consume channels patterns continuation persist peeks =>
    have commutes := fetchChannelToIndexData_commutes (P := P) (A := A) (K := K) isView channels
    have fetched := commutes.result
      (self.logged (.ioEvent (.consume (Consume.create channels patterns continuation persist))))
    exact congrArg (fun map => collect (extractDataCandidates (channels.zip patterns) map))
      fetched.symm
  | install => rfl

theorem Effect.fired_removes [ThreadRng]
    {operation : Operation C P A K} (effect : Effect self operation (outcome, after))
    (fired : outcome.fired = some (continuation, results)) :
    ∃ candidates : List (ConsumeCandidate C A), self.chosen operation = some candidates ∧
      results = candidates.map result ∧
      Handed (self.offered operation) (continuation.channels.zip continuation.patterns)
        candidates ∧
      (Separate candidates →
        (∀ channel, (after.getData channel ++ takenFrom channel candidates).Perm
          (self.getData channel)) ∧ after.dropped = self.dropped) := by
  cases effect with
  | failed | installed => cases fired
  | produced channel data persist outcome effect =>
    cases effect with
    | stored => cases fired
    | fired pc draws matched chosen =>
      obtain ⟨rfl, rfl⟩ := Prod.mk.inj (Option.some.inj fired)
      refine ⟨pc.dataCandidates, congrArg (Option.map _) chosen, rfl, matched.handed, ?_⟩
      intro separate
      have data : (claimed self.store pc).data = self.store.data := by rw [claimed_frame]
      have present := matched.handed.present_with
      rw [← data] at present
      constructor
      · intro channel
        change List.Perm ((removeMatchedDatumAndJoin pc.channels pc.dataCandidates
          (claimed self.store pc)).2.data channel ++ _) (self.store.data channel)
        rw [removeMatchedDatumAndJoin_frame, ← data]
        exact removalOrder_foldl_perm separate present channel
      · change (if _ then _ else _) = _
        rw [removeMatchedDatumAndJoin_done pc.channels separate present]
        rfl
  | consumed channels patterns continuation persist peeks outcome sameLength effect =>
    cases effect with
    | stored => cases fired
    | fired candidates draws handed chosen =>
      obtain ⟨rfl, rfl⟩ := Prod.mk.inj (Option.some.inj fired)
      refine ⟨candidates, chosen, rfl, handed, fun separate => ?_⟩
      constructor
      · intro channel
        change List.Perm ((storePersistentData candidates self.store).2.data channel ++ _)
          (self.store.data channel)
        rw [storePersistentData_frame handed.nonneg]
        exact removalOrder_foldl_perm separate handed.present channel
      · change (if _ then _ else _) = _
        rw [storePersistentData_done handed.nonneg separate handed.present]
        rfl

theorem perform_removes [ThreadRng] (self : Space (InMemHotStore C P A K) C P K)
    (operation : Operation C P A K)
    (fired : (perform operation self).1.fired = some (continuation, results)) :
    ∃ candidates : List (ConsumeCandidate C A), self.chosen operation = some candidates ∧
      results = candidates.map result ∧
      Handed (self.offered operation) (continuation.channels.zip continuation.patterns)
        candidates ∧
      (Separate candidates →
        (∀ channel, ((perform operation self).2.getData channel ++
          takenFrom channel candidates).Perm (self.getData channel)) ∧
        (perform operation self).2.dropped = self.dropped) := by
  have effect := perform_effect (self.mapStore view) operation
  rw [perform_commutes isView operation self] at effect
  have removes := effect.fired_removes fired
  simp only [chosen_mapStore, offered_mapStore, getData_mapStore isView] at removes
  exact removes

/-- An operation that fires hands over the data that it has chosen of those it found. Unless a
channel loses two of them, or a linear produce fires without its own datum, it removes exactly
those that are stored and not persistent, from every channel; the datum that a produce brings is
not stored, and no index error is ignored. -/
theorem communication_removes_matched [ThreadRng] (self : Space (InMemHotStore C P A K) C P K)
    (operation : Operation C P A K)
    (fired : (perform operation self).1.fired = some (continuation, results)) :
    ∃ candidates : List (ConsumeCandidate C A), self.chosen operation = some candidates ∧
      results = candidates.map result ∧
      Handed (self.offered operation) (continuation.channels.zip continuation.patterns)
        candidates ∧
      (Separate candidates → HandsOver operation candidates →
        (∀ channel, ((perform operation self).2.getData channel ++
          takenFrom channel candidates).Perm (self.getData channel)) ∧
        (perform operation self).2.dropped = self.dropped) := by
  obtain ⟨candidates, chosen, results_eq, handed, removes⟩ := perform_removes self operation fired
  exact ⟨candidates, chosen, results_eq, handed, fun separate _ => removes separate⟩

end Space

open ByteSpace in
/-- A produce on a channel that the join has twice, and whose stored datum it has also. -/
theorem communication_removes_matched_sample :
    let self := after
      [.produce 1 5 false, .produce 2 6 true, .consume [1, 2, 1] [0, 0, 0] 9 false .none]
    let operation : Op := .produce 1 7 false
    ∃ candidates : List (ConsumeCandidate UInt8 UInt8), self.chosen operation = some candidates ∧
      candidates.map result = [⟨1, 7, 7, false⟩, ⟨2, 6, 6, true⟩, ⟨1, 5, 5, false⟩] ∧
      ∀ channel, ((perform operation self).2.getData channel ++
        takenFrom channel candidates).Perm (self.getData channel) := by
  intro self operation
  have fired : (perform operation self).1.fired = some (⟨9, false, [1, 2, 1], [0, 0, 0], false⟩,
      [⟨1, 7, 7, false⟩, ⟨2, 6, 6, true⟩, ⟨1, 5, 5, false⟩]) := by decide +kernel
  obtain ⟨candidates, chosen, results_eq, -, removes⟩ :=
    communication_removes_matched self operation fired
  have checked : (self.chosen operation).all fun candidates =>
      (candidates.Pairwise fun a b => a.taken → b.taken → a.channel ≠ b.channel) &&
        candidates.any (·.datumIndex < 0) := by decide +kernel
  rw [chosen, Option.all_some, Bool.and_eq_true, decide_eq_true_iff, List.any_eq_true] at checked
  obtain ⟨separate, candidate, member, new⟩ := checked
  exact ⟨candidates, chosen, results_eq.symm,
    (removes separate fun _ _ _ => ⟨candidate, member, of_decide_eq_true new⟩).1⟩

open ByteSpace in
/-- Two data of one channel are both handed over, but the second removal finds
its index gone and is ignored; and a persistent datum that fires is not stored. -/
theorem communication_leaves_matched :
    (let self := after [.produce 1 5 false, .produce 1 6 false]
      let outcome := perform (.consume [1, 1] [0, 0] 9 false .none : Op) self
      outcome.1.fired = some (⟨9, false, [1, 1], [0, 0], false⟩,
          [⟨1, 6, 6, false⟩, ⟨1, 5, 5, false⟩]) ∧
        values self 1 = [6, 5] ∧ values outcome.2 1 = [5] ∧
        self.dropped = 0 ∧ outcome.2.dropped = 1) ∧
    (let self := after [.consume [1] [0] 9 false .none]
      let outcome := perform (.produce 1 5 true : Op) self
      outcome.1.fired = some (⟨9, false, [1], [0], false⟩, [⟨1, 5, 5, true⟩]) ∧
        values self 1 = [] ∧ values outcome.2 1 = []) := by
  decide +kernel

end F1r3fly.RSpace
