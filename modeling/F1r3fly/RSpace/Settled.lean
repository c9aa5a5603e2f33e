import F1r3fly.RSpace.ByteSpace
import F1r3fly.RSpace.JoinIndex

/-! No match is missed: a continuation that stays in the space on pairwise
distinct channels lacks a datum on one of them. -/
namespace F1r3fly.RSpace

open Function InMemHotStore

variable {C P A K : Type}

section Assign

variable [Match P A]

/-- One datum for each channel and pattern, given by its position; only persistent
data serve twice. -/
def Assignment (data : C → List (Datum A)) (pairs : List (C × P)) (positions : List Nat) : Prop :=
  pairs.Forall₂ (fun pair position => (data pair.1)[position]?.any fun datum =>
    (Match.get pair.2 datum.a).isSome) positions ∧
  (pairs.zip positions).Pairwise fun one other => one.1.1 = other.1.1 → one.2 = other.2 →
    (data one.1.1)[one.2]?.any (·.persist)

instance [DecidableEq C] (data : C → List (Datum A)) (pairs : List (C × P))
    (positions : List Nat) : Decidable (Assignment data pairs positions) :=
  inferInstanceAs (Decidable (_ ∧ _))

/-- Some channel has no datum that its pattern accepts. -/
def Lacks (data : C → List (Datum A)) (pairs : List (C × P)) : Prop :=
  ∃ pair ∈ pairs, ∀ datum ∈ data pair.1, Match.get pair.2 datum.a = none

variable {pairs : List (C × P)}

theorem Lacks.not_assignment {data : C → List (Datum A)}
    (lacks : Lacks data pairs) (positions : List Nat) : ¬ Assignment data pairs positions := by
  rintro ⟨each, -⟩
  obtain ⟨pair, member, none⟩ := lacks
  induction each with
  | nil => cases member
  | @cons _ position _ _ accepted _ ih =>
    rcases mem_cons.mp member with rfl | later
    · cases here : (data pair.1)[position]? with
      | none => simp [here] at accepted
      | some datum => simp [here, none datum (mem_of_getElem? here)] at accepted
    · exact ih later

theorem Lacks.mono {data less : C → List (Datum A)}
    (lacks : Lacks data pairs) (subset : ∀ pair ∈ pairs, less pair.1 ⊆ data pair.1) :
    Lacks less pairs := by
  obtain ⟨pair, member, none⟩ := lacks
  exact ⟨pair, member, fun datum stored => none datum (subset pair member stored)⟩

theorem Stuck.lacks {entries : C → Indexed A} (stuck : Stuck entries pairs)
    (listed : ∀ channel, ∀ datum ∈ data channel, ∃ index, (datum, index) ∈ entries channel) :
    Lacks data pairs := by
  obtain ⟨pair, member, none⟩ := stuck
  refine ⟨pair, member, fun datum stored => ?_⟩
  obtain ⟨index, entry⟩ := listed _ datum stored
  exact none (datum, index) entry

end Assign

theorem EagerStore.entries_listed (store : EagerStore C P A K) :
    ∀ channel, ∀ datum ∈ store.data channel, ∃ index, (datum, index) ∈ store.entries channel := by
  intro channel datum member
  obtain ⟨position, here⟩ := List.getElem?_of_mem member
  exact ⟨position, mem_withIndex.mpr ⟨Int.natCast_nonneg _, by simpa using here⟩⟩

theorem EagerStore.entriesWith_listed [DecidableEq C] (store : EagerStore C P A K)
    (batChannel : C) (new : Datum A) :
    ∀ channel, ∀ datum ∈ (store.setData batChannel (new :: store.data batChannel)).data channel,
      ∃ index, (datum, index) ∈ store.entriesWith batChannel new channel := by
  intro channel datum member
  unfold EagerStore.entriesWith
  by_cases same : channel = batChannel
  · subst same
    rw [if_pos rfl]
    simp only [EagerStore.setData, update_self, mem_cons] at member
    rcases member with rfl | stored
    · exact ⟨-1, by simp⟩
    · obtain ⟨index, entry⟩ := store.entries_listed channel datum stored
      exact ⟨index, mem_cons_of_mem _ entry⟩
  · rw [if_neg same]
    simp only [EagerStore.setData, update_of_ne same] at member
    exact store.entries_listed channel datum member

/-- Every continuation on pairwise distinct channels lacks a datum. -/
def Settled [Match P A] (store : EagerStore C P A K) : Prop :=
  ∀ channels, channels.Nodup → ∀ wk ∈ store.allContinuations channels,
    Lacks store.data (channels.zip wk.patterns)

/-- Nothing was added to what the store keeps. -/
structure Shrinks (store after : EagerStore C P A K) : Prop where
  data : ∀ channel, (after.data channel).Sublist (store.data channel)
  continuations : ∀ channels,
    (after.allContinuations channels).Sublist (store.allContinuations channels)

theorem Settled.mono [Match P A] {store after : EagerStore C P A K} (settled : Settled store)
    (shrinks : Shrinks store after) : Settled after :=
  fun channels distinct wk member =>
    (settled channels distinct wk ((shrinks.continuations channels).subset member)).mono
      fun pair _ => (shrinks.data pair.1).subset

namespace Space

variable [DecidableEq C] [Debug P] [Debug K]

theorem shrinks_consumed {store : EagerStore C P A K} {candidates : List (ConsumeCandidate C A)}
    (nonneg : ∀ candidate ∈ candidates, 0 ≤ candidate.datumIndex) :
    Shrinks store (storePersistentData candidates store).2 := by
  rw [storePersistentData_frame nonneg]
  exact ⟨fun _ => foldl_takeDatum_sublist .., fun _ => .refl _⟩

theorem shrinks_produced (store : EagerStore C P A K) (pc : ProduceCandidate C P A K) :
    Shrinks store
      (removeMatchedDatumAndJoin pc.channels pc.dataCandidates (claimed store pc)).2 := by
  rw [removeMatchedDatumAndJoin_frame]
  refine ⟨fun _ => ?_, claimed_allContinuations_sublist store pc⟩
  rw [claimed_frame]
  exact foldl_takeDatum_sublist ..

variable [Match P A] {self : Space (EagerStore C P A K) C P K}

theorem ProduceEffect.settled [ThreadRng]
    (consistent : Consistent self.store) (settled : Settled self.store)
    (effect : ProduceEffect self channel datum outcome) : Settled outcome.2.store := by
  cases effect with
  | fired pc draws matched =>
    exact settled.mono (shrinks_produced self.store pc)
  | stored draws stuck =>
    intro join distinct wk member
    change wk ∈ self.store.allContinuations join at member
    by_cases occurs : channel ∈ join
    · -- The produce has looked at this continuation, with the new datum among the data.
      have recorded : join ∈ self.store.allJoins channel :=
        (consistent.mem_allJoins channel join).mpr ⟨occurs, ne_nil_of_mem member⟩
      obtain ⟨position, here⟩ := List.getElem?_of_mem member
      have listed : (wk, (position : Int)) ∈ self.store.indexedContinuations join :=
        mem_withIndex.mpr ⟨Int.natCast_nonneg _, by simpa using here⟩
      exact (stuck join recorded distinct _ listed).lacks
        (self.store.entriesWith_listed channel datum)
    · refine (settled join distinct wk member).mono fun pair zipped => ?_
      have other : pair.1 ≠ channel := fun same => occurs (same ▸ (List.of_mem_zip zipped).1)
      intro stored here
      simpa [EagerStore.setData, other] using here

theorem ConsumeEffect.settled [ThreadRng]
    (settled : Settled self.store) (effect : ConsumeEffect self channels wk outcome) :
    Settled outcome.2.store := by
  cases effect with
  | fired candidates draws handed =>
    exact settled.mono (shrinks_consumed handed.nonneg)
  | stored draws stuck =>
    intro join distinct other member
    rw [storeWaitingContinuation_eq]
    rcases mem_allContinuations_stored member with ⟨rfl, rfl⟩ | before
    · exact (stuck distinct).lacks self.store.entries_listed
    · exact settled join distinct other before

variable [Blake2b] [Serialize C] [Serialize P] [Serialize A] [Serialize K]

theorem Effect.settled [ThreadRng] {after : Space (EagerStore C P A K) C P K}
    (consistent : Consistent self.store) (settled : Settled self.store)
    (effect : Effect self operation (outcome, after)) :
    Settled after.store := by
  cases effect with
  | failed => exact settled
  | produced channel data persist outcome effect => exact effect.settled consistent settled
  | consumed channels patterns continuation persist peeks outcome sameLength effect =>
    exact effect.settled settled
  | installed channels patterns continuation draws sameLength stuck =>
    intro join distinct wk member
    rw [installed_eq]
    rcases mem_allContinuations_installed member with ⟨rfl, rfl⟩ | before
    · exact (stuck distinct).lacks self.store.entries_listed
    · exact settled join distinct wk before

/-- In every state that a run from the empty space reaches, whatever the shuffles,
no continuation on pairwise distinct channels could be given data for its patterns. -/
theorem no_missed_match [ThreadRng] (operations : List (Operation C P A K)) (channels : List C)
    (distinct : channels.Nodup) :
    let self := (run operations (.empty : Space (InMemHotStore C P A K) C P K)).2
    ∀ wk ∈ self.getWaitingContinuations channels,
      ¬ ∃ positions, Assignment self.getData (channels.zip wk.patterns) positions := by
  intro self wk member
  have invariant := run_empty_invariant
    (fun space : Space (EagerStore C P A K) C P K => Consistent space.store ∧ Settled space.store)
    ⟨.empty, fun _ _ _ member => by cases member⟩
    (fun holds effect => ⟨effect.consistent holds.1, effect.settled holds.1 holds.2⟩) operations
  rw [← getWaitingContinuations_mapStore isView] at member
  rintro ⟨positions, assignment⟩
  refine (invariant.2 channels distinct wk member).not_assignment positions ?_
  have same : (self.mapStore view).store.data = self.getData :=
    funext (getData_mapStore isView self)
  exact same ▸ assignment

end Space

open ByteSpace in
theorem no_missed_match_sample :
    let self := after [.produce 1 5 false, .consume [1, 2] [0, 0] 9 false .none]
    ∃ wk ∈ self.getWaitingContinuations [1, 2],
      ¬ ∃ positions, Assignment self.getData (([1, 2] : List UInt8).zip wk.patterns) positions := by
  intro self
  have waiting : ∃ wk, wk ∈ self.getWaitingContinuations [1, 2] :=
    List.exists_mem_of_length_pos (by decide +kernel)
  obtain ⟨wk, member⟩ := waiting
  exact ⟨wk, member, Space.no_missed_match _ [1, 2] (by decide) wk member⟩

open ByteSpace in
/-- On a repeated channel the first pattern can take the only datum that the
second accepts, although another one would do for the first. -/
theorem missed_match_on_repeated_channel :
    let self := after [.produce 1 6 false, .produce 1 5 false, .consume [1, 1] [0, 5] 9 false .none]
    ∃ wk ∈ self.getWaitingContinuations [1, 1],
      Assignment self.getData (([1, 1] : List UInt8).zip wk.patterns) [1, 0] := by
  decide +kernel

end F1r3fly.RSpace
