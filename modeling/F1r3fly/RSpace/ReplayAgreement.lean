import F1r3fly.RSpace.ReplayTable
import F1r3fly.RSpace.Settled

/-! What a replayed operation finds when it looks for a communication that was played on a store
with the same content: the same continuation and the same data, at other positions perhaps. -/
namespace F1r3fly.RSpace

open Space

variable {C P A K : Type}

section Communication

theorem ProduceMap.get_congr (map : ProduceMap) (same : p.hash = q.hash) :
    map.get p = map.get q := by
  induction map with
  | nil => rfl
  | cons entry map ih => rw [get_cons, get_cons, same, ih]

theorem ProduceMap.get_collect {value : Produce → Int} {refs : List Produce}
    (congr : ∀ p q : Produce, p.hash = q.hash → value p = value q) (member : p ∈ refs) :
    (ProduceMap.collect (refs.map fun p => (p, value p))).get p = some (value p) := by
  rw [collect, foldl_map]
  -- Whatever was inserted before, the last insertion of an equal key has the same value.
  refine (foldl_iff_or (fun map : ProduceMap => map.get p = some (value p)) (·.hash = p.hash)
    fun map first => ?_).mpr (.inr ⟨p, member, rfl⟩)
  rw [get_insert]
  by_cases same : first.hash = p.hash
  · simp [same, congr first p same]
  · simp [same]

theorem ProduceMap.mem_insert {map : ProduceMap} (member : entry ∈ map.insert key value) :
    entry.1 = key ∨ entry.1 ∈ map.map Prod.fst := by
  fun_induction insert key value map with
  | case1 => exact .inl (congrArg Prod.fst (mem_singleton.mp member))
  | case2 k v rest =>
    rcases mem_cons.mp member with rfl | before
    · exact .inl rfl
    · exact .inr (mem_map_of_mem before)
  | case3 k v rest _ same =>
    rcases mem_cons.mp member with rfl | before
    · exact .inr (by simp)
    · exact .inr (mem_map_of_mem (.tail _ before))
  | case4 k v rest _ distinct ih =>
    rcases mem_cons.mp member with rfl | later
    · exact .inr (by simp)
    · exact (ih later).imp_right (.tail _)

theorem ProduceMap.mem_collect {entries : List (Produce × Int)}
    (member : entry ∈ ProduceMap.collect entries) : entry.1 ∈ entries.map Prod.fst := by
  refine foldlRecOn
    (motive := fun map : ProduceMap => ∀ entry ∈ map, entry.1 ∈ entries.map Prod.fst) entries _
    (by simp) (fun map known first here entry inserted => ?_) entry member
  rcases mem_insert inserted with same | before
  · rw [same]
    exact mem_map_of_mem here
  · obtain ⟨other, stored, same⟩ := mem_map.mp before
    rw [← same]
    exact known other stored

variable {candidates : List (ConsumeCandidate C A)} {consumeRef : Consume} {peeks : Peeks}
  {counter : ProduceMap}

theorem COMM.mem_produces_new :
    p ∈ (COMM.new candidates consumeRef peeks counters).produces ↔
      ∃ candidate ∈ candidates, candidate.datum.source = p := by
  simp [COMM.new]

theorem COMM.over_new (each : ∀ candidate ∈ candidates, refs candidate.datum.source) :
    (COMM.new candidates consumeRef peeks (produceCounters counter)).Over refs := by
  have produces : ∀ p ∈ (COMM.new candidates consumeRef peeks
      (produceCounters counter)).produces, refs p := by
    intro p member
    obtain ⟨candidate, here, rfl⟩ := mem_produces_new.mp member
    exact each candidate here
  refine ⟨produces, fun entry member => produces _ ?_⟩
  refine mem_produces_new.mpr ?_
  simpa [map_map, Function.comp_def] using ProduceMap.mem_collect member

/-- A datum of the communication was repeated often enough for it, as long as
nothing is produced in between. -/
theorem matchesComm_new {datum : Datum A}
    (member : ∃ candidate ∈ candidates, candidate.datum.source = datum.source) :
    matchesComm counter
      (COMM.new candidates consumeRef peeks (produceCounters counter)) datum := by
  have listed : datum.source ∈ (COMM.new candidates consumeRef peeks
      (produceCounters counter)).produces := COMM.mem_produces_new.mpr member
  have count : (COMM.new candidates consumeRef peeks
      (produceCounters counter)).timesRepeated.get datum.source = _ :=
    ProduceMap.get_collect (fun _ _ same => congrArg (·.getD 0) (counter.get_congr same)) listed
  refine and_eq_true_iff.mpr ⟨?_, ?_⟩
  · exact List.contains_iff_exists_mem_beq.mpr ⟨_, listed, beq_self_eq_true _⟩
  · unfold wasRepeatedEnoughTimes
    rw [count]
    split_ifs <;> simp [getProduceCount]

theorem matchesComm_mem {comm : COMM} (holds : matchesComm counter comm datum) :
    ∃ p ∈ comm.produces, p.hash = datum.source.hash := by
  obtain ⟨contained, -⟩ := and_eq_true_iff.mp holds
  obtain ⟨p, member, same⟩ := List.contains_iff_exists_mem_beq.mp contained
  exact ⟨p, member, (Produce.beq_iff.mp same).symm⟩

end Communication

section Search

/-- Two candidates that hand over the same datum, found at different positions perhaps. -/
structure SameButIndex (one other : ConsumeCandidate C A) : Prop where
  channel : one.channel = other.channel
  datum : one.datum = other.datum
  removedDatum : one.removedDatum = other.removedDatum

theorem SameButIndex.of_original (channel : one.channel = other.channel)
    (original : one.original = other.original) (a : one.datum.a = other.datum.a) :
    SameButIndex one other := by
  obtain ⟨_, ⟨_, _, _⟩, _, _⟩ := one
  simp only [ConsumeCandidate.original, Datum.mk.injEq] at channel original a
  constructor <;> simp [channel, original, a]

/-- Any two of the known data whose sources have the same hash are the same, on one channel. -/
def Determined (known : C → Datum A → Prop) : Prop :=
  ∀ c d c' d', known c d → known c' d' → d.source.hash = d'.source.hash → c = c' ∧ d = d'

theorem COMM.new_congr (same : candidates.Forall₂ SameButIndex others) (consumeRef : Consume)
    (peeks : Peeks) (counters : List Produce → ProduceMap) :
    COMM.new candidates consumeRef peeks counters = COMM.new others consumeRef peeks counters := by
  have sources : candidates.map (·.datum.source) = others.map (·.datum.source) := by
    induction same with
    | nil => rfl
    | cons head _ ih => simp [head.datum, ih]
  rw [COMM.new, COMM.new, sources]

theorem map_result_eq {candidates others : List (ConsumeCandidate C A)}
    (same : candidates.Forall₂ SameButIndex others) :
    candidates.map ConsumeCandidate.result = others.map ConsumeCandidate.result := by
  induction same with
  | nil => rfl
  | cons head _ ih =>
    simp [ConsumeCandidate.result, head.channel, head.datum, head.removedDatum, ih]

variable [Match P A] {entries others : C → Indexed A} {pairs : List (C × P)}
  {candidates : List (ConsumeCandidate C A)}

/-- Candidates for the same pairs are the same if the entries allow no other datum. -/
theorem Handed.same (handed : Handed entries pairs candidates) (other : Handed others pairs found)
    (only : ∀ candidate ∈ candidates, ∀ entry ∈ others candidate.channel,
      entry.1 = candidate.original) : candidates.Forall₂ SameButIndex found := by
  induction handed generalizing found with
  | nil =>
    cases other
    exact .nil
  | @cons pair candidate _ _ fits _ ih =>
    cases other with
    | @cons _ twin _ _ fitsTwin rest =>
      refine .cons ?_ (ih rest fun later member => only later (by simp [member]))
      have original : candidate.original = twin.original :=
        (only candidate (by simp) _ (fits.channel_eq ▸ fitsTwin.entry)).symm
      refine .of_original (fits.channel_eq.trans fitsTwin.channel_eq.symm) original ?_
      have removed : candidate.removedDatum = twin.removedDatum := congrArg Datum.a original
      exact Option.some.inj (fits.accepted.symm.trans (removed ▸ fitsTwin.accepted))

variable {known : C → Datum A → Prop} {counter : ProduceMap} {consumeRef : Consume} {peeks : Peeks}

section Permitted

variable (determined : Determined known) (handed : Handed entries pairs candidates)
  (knownEntries : ∀ channel, ∀ entry ∈ entries channel, known channel entry.1)

include determined handed knownEntries

/-- Of known data, a communication permits on each of its channels only its own. -/
theorem permitted_only (distinct : (pairs.map Prod.fst).Nodup)
    (knownOthers : ∀ channel, ∀ entry ∈ others channel, known channel entry.1) :
    ∀ candidate ∈ candidates, ∀ entry ∈ permitted counter
      (.new candidates consumeRef peeks (produceCounters counter)) others candidate.channel,
      entry.1 = candidate.original := by
  intro candidate member entry permitted
  obtain ⟨listed, holds⟩ := mem_filter.mp permitted
  obtain ⟨p, produced, same⟩ := matchesComm_mem holds
  obtain ⟨source, there, rfl⟩ := COMM.mem_produces_new.mp produced
  obtain ⟨pair, _, fits⟩ := handed.mem source there
  have stored : known source.channel source.original := by
    rw [fits.channel_eq]
    exact knownEntries _ _ fits.entry
  obtain ⟨channel, equal⟩ := determined _ _ _ _ stored (knownOthers _ _ listed) same
  -- The channels of the candidates are distinct, so both are one candidate.
  have channels : (candidates.map (·.channel)).Nodup := by
    rwa [Consistent.candidate_channels handed]
  rw [← equal, List.inj_on_of_nodup_map channels there member channel]

end Permitted

theorem Handed.not_stuck (handed : Handed entries pairs candidates)
    (listed : ∀ candidate ∈ candidates, ∀ channel,
      (candidate.original, candidate.datumIndex) ∈ entries channel →
        ∃ index, (candidate.original, index) ∈ others channel) : ¬ Stuck others pairs := by
  rintro ⟨pair, member, rejected⟩
  obtain ⟨candidate, here, fits⟩ := handed.of_pair member
  obtain ⟨index, there⟩ := listed candidate here _ fits.entry
  cases (rejected _ there).symm.trans fits.accepted

/-- A communication permits the data it was made from. -/
theorem permitted_not_stuck (handed : Handed entries pairs candidates)
    (listed : ∀ channel, ∀ entry ∈ entries channel, ∃ index, (entry.1, index) ∈ others channel) :
    ¬ Stuck (permitted counter
      (.new candidates consumeRef peeks (produceCounters counter)) others) pairs := by
  refine handed.not_stuck fun candidate member channel entry => ?_
  obtain ⟨index, there⟩ := listed channel _ entry
  exact ⟨index, mem_filter.mpr ⟨there, matchesComm_new ⟨candidate, member, rfl⟩⟩⟩

theorem Handed.of_permitted {comm : COMM}
    (handed : Handed (permitted counter comm entries) pairs candidates) :
    Handed entries pairs candidates :=
  handed.imp fun _ _ fits => fits.mono fun _ member => (mem_filter.mp member).1

end Search

/-- The stores have the same content; data may be in another order. -/
structure Agree (play replay : EagerStore C P A K) : Prop where
  data : ∀ channel, (replay.data channel).Perm (play.data channel)
  rest : replay = { play with data := replay.data }

/-- The same datum, stored for both or new for both. -/
structure Twins (one other : ConsumeCandidate C A) : Prop extends SameButIndex one other where
  stored : 0 ≤ one.datumIndex ↔ 0 ≤ other.datumIndex

theorem SameButIndex.twins {candidates others : List (ConsumeCandidate C A)}
    (same : candidates.Forall₂ SameButIndex others)
    (stored : ∀ one ∈ candidates, ∀ other ∈ others, one.channel = other.channel →
      (0 ≤ one.datumIndex ↔ 0 ≤ other.datumIndex)) : candidates.Forall₂ Twins others := by
  induction same with
  | nil => exact .nil
  | cons head _ ih =>
    refine .cons ⟨head, stored _ (by simp) _ (by simp) head.channel⟩ (ih ?_)
    exact fun one here other there => stored one (by simp [here]) other (by simp [there])

theorem EagerStore.mem_entries {store : EagerStore C P A K}
    (member : entry ∈ store.entries channel) : entry.1 ∈ store.data channel :=
  mem_of_getElem? (mem_withIndex.mp member).2

namespace Agree

variable {play replay : EagerStore C P A K}

theorem refl (store : EagerStore C P A K) : Agree store store := ⟨fun _ => .refl _, rfl⟩

section

variable (agree : Agree play replay)
include agree

theorem symm : Agree replay play :=
  ⟨fun channel => (agree.data channel).symm, by rw [agree.rest]⟩

theorem allJoins : replay.allJoins = play.allJoins := by
  rw [agree.rest]
  rfl

theorem allContinuations : replay.allContinuations = play.allContinuations := by
  rw [agree.rest]
  rfl

theorem listed :
    ∀ channel, ∀ entry ∈ play.entries channel, ∃ index, (entry.1, index) ∈ replay.entries channel :=
  fun channel entry member => replay.entries_listed channel entry.1
    ((agree.data channel).mem_iff.mpr (EagerStore.mem_entries member))

end

variable [DecidableEq C]

theorem listed_with (agree : Agree play replay) (batChannel : C) (datum : Datum A) :
    ∀ channel, ∀ entry ∈ play.entriesWith batChannel datum channel,
      ∃ index, (entry.1, index) ∈ replay.entriesWith batChannel datum channel := by
  intro channel entry member
  unfold EagerStore.entriesWith at member ⊢
  split_ifs at member ⊢ with same
  · rcases mem_cons.mp member with rfl | stored
    · exact ⟨-1, by simp⟩
    · obtain ⟨index, here⟩ := agree.listed channel entry stored
      exact ⟨index, mem_cons_of_mem _ here⟩
  · exact agree.listed channel entry member

theorem setData (agree : Agree play replay) (channel : C) (datum : Datum A) :
    Agree (play.setData channel (datum :: play.data channel))
      (replay.setData channel (datum :: replay.data channel)) := by
  constructor
  · intro other
    by_cases same : other = channel
    · subst same
      simpa [EagerStore.setData] using agree.data other
    · simpa [EagerStore.setData, same] using agree.data other
  · conv_lhs => rw [agree.rest]
    rfl

theorem takenFrom_eq (twins : candidates.Forall₂ Twins others) (channel : C) :
    takenFrom channel candidates = takenFrom channel others := by
  induction twins with
  | nil => rfl
  | @cons one other _ _ head _ ih =>
    have taken : one.taken = other.taken := by
      simp only [ConsumeCandidate.taken, head.datum, ge_iff_le, head.stored]
    have original : one.original = other.original := by
      simp only [ConsumeCandidate.original, head.datum, head.removedDatum]
    unfold takenFrom at ih ⊢
    rw [List.filter_cons, List.filter_cons, taken, head.channel]
    split_ifs
    · rw [map_cons, map_cons, original, ih]
    · exact ih

variable {candidates : List (ConsumeCandidate C A)}

omit [DecidableEq C] in
theorem separate_of_nodup (distinct : (candidates.map (·.channel)).Nodup) : Separate candidates :=
  (pairwise_map.mp distinct).imp fun apart _ _ => apart

omit [DecidableEq C] in
theorem map_channel_eq (twins : candidates.Forall₂ Twins others) :
    candidates.map (·.channel) = others.map (·.channel) := by
  induction twins with
  | nil => rfl
  | cons head _ ih => rw [map_cons, map_cons, head.channel, ih]

section Firing

variable {candidates others : List (ConsumeCandidate C A)} (agree : Agree play replay)
  (twins : candidates.Forall₂ Twins others) (distinct : (candidates.map (·.channel)).Nodup)
  (present : ∀ candidate ∈ candidates, Present play.data candidate)
  (presentOthers : ∀ candidate ∈ others, Present replay.data candidate)

include agree twins distinct present presentOthers

theorem taken (channel : C) :
    ((removalOrder others).foldl takeDatum replay.data channel).Perm
      ((removalOrder candidates).foldl takeDatum play.data channel) := by
  refine (List.perm_append_right_iff (takenFrom channel others)).mp ?_
  calc (removalOrder others).foldl takeDatum replay.data channel ++ takenFrom channel others
    List.Perm _ (replay.data channel) := removalOrder_foldl_perm
      (separate_of_nodup (map_channel_eq twins ▸ distinct)) presentOthers channel
    List.Perm _ (play.data channel) := agree.data channel
    List.Perm _ ((removalOrder candidates).foldl takeDatum play.data channel ++
        takenFrom channel candidates) :=
      (removalOrder_foldl_perm (separate_of_nodup distinct) present channel).symm
    List.Perm _ ((removalOrder candidates).foldl takeDatum play.data channel ++
        takenFrom channel others) := by rw [takenFrom_eq twins]

variable [Debug P] [Debug K]

theorem storePersistentData (nonneg : ∀ candidate ∈ candidates, 0 ≤ candidate.datumIndex)
    (nonnegOthers : ∀ candidate ∈ others, 0 ≤ candidate.datumIndex) :
    Agree (storePersistentData candidates play).2 (storePersistentData others replay).2 := by
  rw [storePersistentData_frame nonneg, storePersistentData_frame nonnegOthers]
  refine ⟨agree.taken twins distinct present presentOthers, ?_⟩
  conv_lhs => rw [agree.rest]

theorem removeMatchedDatumAndJoin (recorded : ∀ channel, (play.joins channel).Nodup)
    (channels : List C) :
    Agree (removeMatchedDatumAndJoin channels candidates play).2
      (removeMatchedDatumAndJoin channels others replay).2 := by
  have joins : (RSpace.removeMatchedDatumAndJoin channels others replay).2.joins =
      (RSpace.removeMatchedDatumAndJoin channels candidates play).2.joins := by
    have before : replay.joins = play.joins := by rw [agree.rest]
    by_cases empty : (play.allContinuations channels).isEmpty
    · funext channel
      rw [removeMatchedDatumAndJoin_joins empty (recorded channel) present,
        removeMatchedDatumAndJoin_joins (agree.allContinuations ▸ empty)
          (before ▸ recorded channel) presentOthers, before, map_channel_eq twins]
    · rw [removeMatchedDatumAndJoin_joins_of_waiting empty,
        removeMatchedDatumAndJoin_joins_of_waiting (agree.allContinuations ▸ empty), before]
  rw [removeMatchedDatumAndJoin_frame, removeMatchedDatumAndJoin_frame channels others, joins]
  refine ⟨agree.taken twins distinct present presentOthers, ?_⟩
  conv_lhs => rw [agree.rest]

end Firing

theorem claimed (agree : Agree play replay) (channels : found.channels = pc.channels)
    (continuation : found.continuation = pc.continuation)
    (index : found.continuationIndex = pc.continuationIndex) :
    Agree (Space.claimed play pc) (Space.claimed replay found) := by
  have same : Space.claimed replay found = { Space.claimed play pc with data := replay.data } := by
    rw [agree.rest]
    unfold Space.claimed EagerStore.removeContinuation
    rw [channels, continuation, index]
    dsimp only
    split_ifs <;> rfl
  rw [same]
  refine ⟨fun channel => ?_, rfl⟩
  rw [Space.claimed_frame]
  exact agree.data channel

variable [Debug P] [Debug K]

theorem storeWaitingContinuation (agree : Agree play replay) (channels : List C)
    (wk : WaitingContinuation P K) :
    Agree (storeWaitingContinuation channels wk play).2
      (storeWaitingContinuation channels wk replay).2 := by
  rw [storeWaitingContinuation_eq, storeWaitingContinuation_eq]
  refine ⟨agree.data, ?_⟩
  rw [agree.rest]

end Agree

end F1r3fly.RSpace
