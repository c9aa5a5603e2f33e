import F1r3fly.RSpace.Replayable

/-! Replay reproduces play: the replayed space follows the played one step by
step, with the same content and with the table of what is still to be logged. -/
namespace F1r3fly.RSpace

open Space StateInvariant

variable {C P A K : Type}

section Datum

variable [DecidableEq C] [Match P A] {store : EagerStore C P A K} {channel : C} {datum : Datum A}
  {pairs : List (C × P)} {candidates : List (ConsumeCandidate C A)}

omit [Match P A] in
theorem EagerStore.entriesWith_cases (member : entry ∈ store.entriesWith channel datum other) :
    other = channel ∧ entry = (datum, -1) ∨ entry ∈ store.entries other := by
  unfold EagerStore.entriesWith at member
  split_ifs at member with same
  · exact (mem_cons.mp member).imp_left fun new => ⟨same, new⟩
  · exact .inr member

section

variable (lacks : Lacks store.data pairs)
  (handed : Handed (store.entriesWith channel datum) pairs candidates)
include lacks handed

/-- A continuation that lacks a stored datum is only given all its data if one
of them is the new one. -/
theorem Handed.uses_new :
    ∃ candidate ∈ candidates, candidate.channel = channel ∧ candidate.original = datum ∧
      candidate.datumIndex = -1 := by
  obtain ⟨pair, member, rejected⟩ := lacks
  obtain ⟨candidate, here, fits⟩ := handed.of_pair member
  rcases EagerStore.entriesWith_cases fits.entry with ⟨same, new⟩ | stored
  · obtain ⟨original, index⟩ := Prod.mk.inj new
    exact ⟨candidate, here, fits.channel_eq.trans same, original, index⟩
  · cases (rejected _ (EagerStore.mem_entries stored)).symm.trans fits.accepted

/-- It is the one on the channel of the new datum; the others are stored. -/
theorem Handed.stored_iff (distinct : (pairs.map Prod.fst).Nodup) :
    ∀ candidate ∈ candidates, 0 ≤ candidate.datumIndex ↔ candidate.channel ≠ channel := by
  intro candidate member
  obtain ⟨new, here, onChannel, -, index⟩ := handed.uses_new lacks
  constructor
  · intro nonneg same
    have channels : (candidates.map (·.channel)).Nodup := by
      rwa [Consistent.candidate_channels handed]
    obtain rfl := List.inj_on_of_nodup_map channels here member (onChannel.trans same.symm)
    omega
  · intro other
    obtain ⟨pair, _, fits⟩ := handed.mem candidate member
    rcases EagerStore.entriesWith_cases fits.entry with ⟨same, _⟩ | stored
    · exact absurd (fits.channel_eq.trans same) other
    · exact (mem_withIndex.mp stored).1

end

/-- A datum that is stored already completes nothing. -/
theorem Lacks.not_handed_with (lacks : Lacks store.data pairs)
    (stored : datum ∈ store.data channel) :
    ¬ Handed (store.entriesWith channel datum) pairs candidates := by
  intro handed
  obtain ⟨pair, member, rejected⟩ := lacks
  obtain ⟨candidate, _, fits⟩ := handed.of_pair member
  have here : candidate.original ∈ store.data pair.1 := by
    rcases EagerStore.entriesWith_cases fits.entry with ⟨same, new⟩ | old
    · rwa [(Prod.mk.inj new).1, same]
    · exact EagerStore.mem_entries old
  cases (rejected _ here).symm.trans fits.accepted

end Datum

namespace ReplaySpace

/-- The two spaces have the same content, and the table has the communications
of the events that are still to be logged. -/
structure Related (newStuff : List IOEvent) (remaining : Log)
    (play : Space (EagerStore C P A K) C P K) (replay : ReplaySpace (EagerStore C P A K) C P K) :
    Prop where
  store : Agree play.store replay.space.store
  counter : replay.space.produceCounter = play.produceCounter
  table : replay.replayData.bindings.Perm (bindingsOf newStuff (remaining.filterMap Event.comm?))

theorem comms_stored (later : Log) (event : IOEvent) :
    (later ++ [Event.ioEvent event]).filterMap Event.comm? = later.filterMap Event.comm? := by
  rw [List.filterMap_append]
  exact append_nil _

theorem comms_fired (later : Log) (comm : COMM) (event : IOEvent) :
    (later ++ [Event.comm comm, Event.ioEvent event]).filterMap Event.comm? =
      later.filterMap Event.comm? ++ [comm] := by
  rw [List.filterMap_append]
  rfl

section Table

variable {newStuff : List IOEvent} {remaining : Log} {play : Space (EagerStore C P A K) C P K}
  {replay : ReplaySpace (EagerStore C P A K) C P K} {comm : COMM} {event : IOEvent}

section

variable (related : Related newStuff remaining play replay)

include related

theorem Related.mem_values (member : comm ∈ replay.replayData.values event) :
    comm ∈ remaining.filterMap Event.comm? ∧ ∃ e ∈ comm.ioEvents, e == event := by
  obtain ⟨e, bound, same⟩ := MultisetMultiMap.mem_values member
  obtain ⟨listed, mentioned, -⟩ := mem_bindingsOf.mp (related.table.mem_iff.mp bound)
  exact ⟨listed, e, mentioned, same⟩

theorem Related.consume_eq
    (member : comm ∈ replay.replayData.values (.consume ref)) : comm.consume = ref := by
  obtain ⟨-, e, mentioned, same⟩ := related.mem_values member
  rcases IOEvent.beq_iff.mp same with ⟨_, _, _, ⟨⟩, _⟩ | ⟨_, rfl, ⟨⟩⟩
  simpa [COMM.ioEvents, eq_comm] using mentioned

theorem Related.produce_mem (member : comm ∈ replay.replayData.values (.produce ref)) :
    ∃ p ∈ comm.produces, p.hash = ref.hash := by
  obtain ⟨-, e, mentioned, same⟩ := related.mem_values member
  rcases IOEvent.beq_iff.mp same with ⟨p, q, rfl, ⟨⟩, equal⟩ | ⟨_, _, ⟨⟩⟩
  exact ⟨p, by simpa [COMM.ioEvents] using mentioned, equal⟩

theorem Related.values_contains
    (listed : comm ∈ remaining.filterMap Event.comm?) (mentioned : event ∈ comm.ioEvents)
    (new : newStuff.contains event) : (replay.replayData.values event).contains comm :=
  MultisetMultiMap.values_contains
    (related.table.mem_iff.mpr (mem_bindingsOf.mpr ⟨listed, mentioned, new⟩)) (beq_self_eq_true _)

end

/-- Over references that are determined by their hashes, it is listed itself. -/
theorem Related.mem_of_contains (exact : Exact refs)
    (mentions : ∀ other ∈ remaining.filterMap Event.comm?, other.Over refs)
    (related : Related newStuff remaining play replay)
    (listed : comm ∈ remaining.filterMap Event.comm?)
    (contained : (replay.replayData.values event).contains comm) :
    comm ∈ replay.replayData.values event := by
  obtain ⟨other, member, same⟩ := List.contains_iff_exists_mem_beq.mp contained
  rwa [COMM.eq_of_beq exact (mentions comm listed)
    (mentions other (related.mem_values member).1) same]

/-- The communication that fires is listed for the event that makes it fire. -/
theorem Related.fired_contained
    (related : Related newStuff (remaining ++ [.comm comm, .ioEvent event]) play replay)
    (new : newStuff.contains event) (mentioned : event ∈ comm.ioEvents) :
    (replay.replayData.values event).contains comm := by
  refine related.values_contains ?_ mentioned new
  rw [comms_fired]
  simp

theorem Related.released_table (exact : Exact refs)
    (mentions : ∀ other ∈
      (remaining ++ [Event.comm comm, Event.ioEvent event]).filterMap Event.comm?,
      other.Over refs)
    (related : Related newStuff (remaining ++ [.comm comm, .ioEvent event]) play replay) :
    (released replay.replayData comm).bindings.Perm
      (bindingsOf newStuff (remaining.filterMap Event.comm?)) := by
  have table := related.table
  rw [comms_fired] at mentions table
  have swap : (remaining.filterMap Event.comm? ++ [comm]).Perm
      (comm :: remaining.filterMap Event.comm?) := List.perm_append_singleton _ _
  exact released_perm exact (fun other member => mentions other (swap.mem_iff.mpr member))
    (table.trans (swap.flatMap_right _))

end Table

section Step

variable [Blake2b] [Serialize C] [Serialize P] [Serialize A] [Serialize K] [DecidableEq C]
  [Match P A] [Debug P] [Debug K] {newStuff : List IOEvent} {remaining later : Log}
  {play after : Space (EagerStore C P A K) C P K} {replay : ReplaySpace (EagerStore C P A K) C P K}
  {operation : Operation C P A K} {operations : List (Operation C P A K)}

/-- What an operation of a run logs, and what is logged after it. -/
structure Ahead (newStuff : List IOEvent) (remaining later : Log)
    (play : Space (EagerStore C P A K) C P K) (operation : Operation C P A K)
    (operations : List (Operation C P A K)) (after : Space (EagerStore C P A K) C P K) : Prop where
  log : remaining ++ play.eventLog = later ++ after.eventLog
  new : ∀ event, .ioEvent event ∈ remaining → newStuff.contains event
  traced : ∀ comm ∈ remaining.filterMap Event.comm?,
    Traced play.store (operation :: operations) comm
  later : ∀ comm ∈ later.filterMap Event.comm?, Traced after.store operations comm

omit [DecidableEq C] [Match P A] [Debug P] [Debug K] in
theorem Ahead.logged (ahead : Ahead newStuff remaining later play operation operations after)
    (events : Log) (same : after.eventLog = events ++ play.eventLog) :
    remaining = later ++ events := by
  refine (List.append_left_inj play.eventLog).mp ?_
  rw [ahead.log, same, append_assoc]

omit [DecidableEq C] [Debug P] [Debug K] in
/-- A continuation that the replay finds is stored in the played space too, and
there it lacks a datum. -/
theorem Related.found {comm : COMM} {found : ProduceCandidate C P A K}
    (replayable : Replayable play.store operations)
    (related : Related newStuff remaining play replay)
    (matched : Matched groupedChannels (permittedContinuations replay.space.store comm) entries
      found) :
    comm.consume = found.continuation.source ∧
      (found.continuation, found.continuationIndex) ∈
        play.store.indexedContinuations found.channels ∧
      found.channels.Nodup ∧
      Lacks play.store.data (found.channels.zip found.continuation.patterns) := by
  obtain ⟨member, source⟩ := mem_filter.mp matched.continuation
  rw [EagerStore.indexedContinuations, related.store.allContinuations] at member
  have stored := mem_of_getElem? (mem_withIndex.mp member).2
  have distinct := replayable.joins _ (ne_nil_of_mem stored)
  exact ⟨LawfulBEq.eq_of_beq source, member, distinct,
    replayable.settled found.channels distinct _ stored⟩

variable {channels : List C} {patterns : List P} {continuation : K}
  {persist : Bool} {peeks : Peeks}

theorem Related.consumes [ThreadRng]
    (replayable : Replayable play.store
      (.consume channels patterns continuation persist peeks :: operations))
    (related : Related newStuff remaining play replay)
    (ahead : Ahead newStuff remaining later play
      (.consume channels patterns continuation persist peeks) operations after)
    (effect : Space.ConsumeEffect play channels
      (waitingAs channels patterns continuation persist peeks) (outcome, after))
    (found : ConsumeEffect replay channels
      (waitingAs channels patterns continuation persist peeks) result) :
    result.1 = .ok outcome ∧ Related newStuff later after result.2 := by
  have distinct : channels.Nodup := replayable.plain _ (.head _)
  have exact := replayable.determined.exact
  generalize waiting : waitingAs channels patterns continuation persist peeks = wk at effect found
  have ref : wk.source = .create channels patterns continuation persist := waiting ▸ rfl
  cases effect with
  | fired candidates draws handed =>
    obtain rfl := ahead.logged [.comm _, .ioEvent _] rfl
    obtain ⟨fresh, once⟩ := replayable.consume_fresh rfl
    have own : ∀ comm ∈ replay.replayData.values (.consume wk.source), comm =
        .new candidates wk.source wk.peeks (produceCounters play.produceCounter) := by
      intro comm listed
      have same := related.consume_eq listed
      have member := (related.mem_values listed).1
      rw [comms_fired] at member
      rcases mem_append.mp member with member | member
      · rcases (ahead.later comm member).consume with ⟨join, other, stored, source⟩ | again
        · have before := ((shrinks_consumed handed.nonneg).continuations join).subset stored
          exact absurd (source.trans (same.trans ref)) (fresh join other before)
        · exact absurd (ref ▸ same ▸ again) once
      · exact mem_singleton.mp member
    have contained := related.fired_contained (ahead.new _ (by simp)) List.mem_cons_self
    have mentions := fun comm member => (ahead.traced comm member).mentions
    have listed := related.mem_of_contains exact mentions (by rw [comms_fired]; simp) contained
    have counter := related.counter
    have twins : ∀ others, Handed (permitted replay.space.produceCounter
        (.new candidates wk.source wk.peeks (produceCounters play.produceCounter))
        replay.space.store.entries) (channels.zip wk.patterns) others →
        candidates.Forall₂ Twins others := by
      rw [counter]
      intro others permitted
      have same := handed.same permitted <| permitted_only replayable.determined handed
        (fun channel entry member => .inl (EagerStore.mem_entries member))
        (nodup_zip distinct wk.patterns) fun channel entry member => .inl
          ((related.store.data channel).mem_iff.mp (EagerStore.mem_entries member))
      refine SameButIndex.twins same fun one here other there _ => ?_
      exact iff_of_true (handed.nonneg one here) (permitted.of_permitted.nonneg other there)
    cases found with
    | stored draws' refused =>
      refine absurd (refused _ listed distinct) ?_
      rw [counter]
      exact permitted_not_stuck handed related.store.listed
    | failed comm others draws' failure listed' permitted missing =>
      obtain rfl := own comm listed'
      have same := (twins others permitted).imp fun _ _ twin => twin.toSameButIndex
      rw [counter, ← COMM.new_congr same] at missing
      exact absurd contained missing
    | fired comm others draws' listed' permitted contained' =>
      obtain rfl := own comm listed'
      have twin := twins others permitted
      have same := twin.imp fun _ _ twin => twin.toSameButIndex
      refine ⟨congrArg Except.ok ?_, ?_, counter, ?_⟩
      · rw [wrapResult, wrapResult, map_result_eq same]
      · exact related.store.storePersistentData twin
          (Consistent.candidate_channels handed ▸ nodup_zip distinct wk.patterns)
          handed.present permitted.of_permitted.present handed.nonneg permitted.of_permitted.nonneg
      · rw [counter, ← COMM.new_congr same]
        exact related.released_table exact mentions
  | stored draws stuck =>
    obtain rfl := ahead.logged [.ioEvent _] rfl
    have refused {comm : COMM} {others : List (ConsumeCandidate C A)} :
        ¬ Handed (permitted replay.space.produceCounter comm replay.space.store.entries)
          (channels.zip wk.patterns) others := fun handed =>
      handed.of_permitted.not_stuck (fun _ _ channel entry =>
        related.store.symm.listed channel _ entry) (stuck distinct)
    cases found with
    | fired comm others draws listed handed | failed comm others draws failure listed handed =>
      exact absurd handed refused
    | stored draws' refused =>
      refine ⟨rfl, related.store.storeWaitingContinuation channels wk, related.counter, ?_⟩
      rw [← comms_stored later]
      exact related.table

theorem Related.produces [ThreadRng]
    (replayable : Replayable play.store (.produce channel data persist :: operations))
    (related : Related newStuff remaining play replay)
    (ahead : Ahead newStuff remaining later play (.produce channel data persist) operations after)
    (effect : Space.ProduceEffect play channel (datumAs channel data persist) (outcome, after))
    (found : ProduceEffect replay channel (datumAs channel data persist) result) :
    result.1 = .ok outcome ∧ Related newStuff later after result.2 := by
  have exact := replayable.determined.exact
  have fresh := replayable.produce_fresh rfl
  have brought : Available play.store (.produce channel data persist :: operations) channel
      (datumAs channel data persist) := .inr (by simp [Operation.datum?])
  generalize datumAs channel data persist = datum at effect found fresh brought
  have counter : (replay.counted datum).space.produceCounter =
      (play.produced datum).produceCounter := by
    change (if _ then _ else countProduce replay.space.produceCounter _) = _
    rw [related.counter]
    rfl
  have lacksReplay {pairs : List (C × P)} (lacks : Lacks play.store.data pairs) :
      Lacks replay.space.store.data pairs :=
    lacks.mono fun pair _ => (related.store.data pair.1).subset
  have available (store : EagerStore C P A K)
      (same : ∀ other, (store.data other).Perm (play.store.data other)) :
      ∀ other, ∀ entry ∈ store.entriesWith channel datum other, Available play.store
        (.produce channel data persist :: operations) other entry.1 := by
    intro other entry member
    rcases EagerStore.entriesWith_cases member with ⟨rfl, rfl⟩ | stored
    · exact brought
    · exact .inl ((same other).mem_iff.mp (EagerStore.mem_entries stored))
  let Finds (comm : COMM) := Matched (replay.space.store.allJoins channel)
    (permittedContinuations replay.space.store comm)
    (permitted (replay.counted datum).space.produceCounter comm
      (replay.space.store.entriesWith channel datum))
  cases effect with
  | fired pc draws matched =>
    set firing := commOf pc (play.produced datum).produceCounter with firing_eq
    obtain rfl := ahead.logged [.comm _, .ioEvent (.produce datum.source)] rfl
    have listed := mem_of_getElem? (mem_withIndex.mp matched.continuation).2
    have distinct := replayable.joins _ (ne_nil_of_mem listed)
    have lacks := replayable.settled pc.channels distinct pc.continuation listed
    obtain ⟨new, usedNew, -, original, -⟩ := matched.handed.uses_new lacks
    have used : datum.source ∈ firing.produces :=
      COMM.mem_produces_new.mpr ⟨new, usedNew, original ▸ rfl⟩
    have contained := related.fired_contained (ahead.new _ (by simp))
      (.tail _ (mem_map_of_mem used))
    have mentions := fun comm member => (ahead.traced comm member).mentions
    -- Another communication with this reference would be made of the same datum stored
    -- before, and then its continuation would have had all its data before.
    have own : ∀ comm ∈ replay.replayData.values (.produce datum.source), ∀ found,
        Finds comm found → comm = firing := by
      intro comm member found foundMatched
      have inLog := (related.mem_values member).1
      rw [comms_fired] at inLog
      rcases mem_append.mp inLog with inLater | this
      · exfalso
        obtain ⟨p, inComm, hash⟩ := related.produce_mem member
        obtain ⟨c, d, available, rfl⟩ := (ahead.later comm inLater).mentions.produces p inComm
        rcases available with stored | broughtLater
        · have before := ((shrinks_produced play.store pc).data c).subset stored
          obtain ⟨rfl, rfl⟩ := replayable.determined c d channel datum (.inl before) brought hash
          obtain ⟨-, -, -, lacksFound⟩ := related.found replayable foundMatched
          exact (lacksReplay lacksFound).not_handed_with ((related.store.data c).mem_iff.mpr before)
            foundMatched.handed.of_permitted
        · exact fresh _ broughtLater hash
      · exact mem_singleton.mp this
    have twins : ∀ found, Finds firing found →
        found.channels = pc.channels ∧ found.continuation = pc.continuation ∧
          found.continuationIndex = pc.continuationIndex ∧
          pc.dataCandidates.Forall₂ Twins found.dataCandidates := by
      intro found foundMatched
      obtain ⟨source, position, -, -⟩ := related.found replayable foundMatched
      obtain ⟨channels, continuation, index⟩ :=
        replayable.continuation_eq matched.continuation position source.symm
      refine ⟨channels, continuation, index, ?_⟩
      have permitted := foundMatched.handed
      rw [channels, continuation, counter] at permitted
      have zipped := nodup_zip distinct pc.continuation.patterns
      have same := matched.handed.same permitted <| permitted_only replayable.determined
        matched.handed (available play.store fun _ => .refl _) zipped
        (available replay.space.store related.store.data)
      refine SameButIndex.twins same fun one here other there onChannel => ?_
      rw [matched.handed.stored_iff lacks zipped one here,
        permitted.of_permitted.stored_iff (lacksReplay lacks) zipped other there, onChannel]
    have remade : ∀ found : ProduceCandidate C P A K, found.continuation = pc.continuation →
        pc.dataCandidates.Forall₂ Twins found.dataCandidates →
        commOf found (replay.counted datum).space.produceCounter = firing := by
      intro found continuation twin
      rw [firing_eq, commOf, commOf, continuation, counter]
      exact (COMM.new_congr (twin.imp fun _ _ twin => twin.toSameButIndex) _ _ _).symm
    cases found with
    | stored draws' refused =>
      have inTable := related.mem_of_contains exact mentions (by rw [comms_fired]; simp) contained
      have permitted : (pc.continuation, pc.continuationIndex) ∈
          permittedContinuations replay.space.store firing pc.channels := by
        refine mem_filter.mpr ⟨?_, beq_self_eq_true _⟩
        rw [EagerStore.indexedContinuations, related.store.allContinuations]
        exact matched.continuation
      have stuck := refused _ inTable pc.channels (related.store.allJoins ▸ matched.join) distinct _
        permitted
      rw [counter] at stuck
      exact absurd stuck
        (permitted_not_stuck matched.handed (related.store.listed_with channel datum))
    | failed comm found draws' failure listed' foundMatched missing =>
      obtain rfl := own comm listed' found foundMatched
      obtain ⟨-, continuation, -, twin⟩ := twins found foundMatched
      rw [remade found continuation twin] at missing
      exact absurd contained missing
    | fired comm found draws' listed' foundMatched contained' =>
      obtain rfl := own comm listed' found foundMatched
      obtain ⟨channels, continuation, index, twin⟩ := twins found foundMatched
      have same := twin.imp fun _ _ twin => twin.toSameButIndex
      have reference : (firing.produces.find? fun p =>
          p.hash == datum.source.hash).getD datum.source = datum.source := by
        cases first : firing.produces.find? fun p => p.hash == datum.source.hash with
        | none => rfl
        | some p =>
          have hash := find?_some first
          refine exact p datum.source ?_ ⟨channel, datum, brought, rfl⟩ (LawfulBEq.eq_of_beq hash)
          refine (mentions _ ?_).produces p (mem_of_find?_eq_some first)
          rw [comms_fired]
          simp
      refine ⟨congrArg Except.ok ?_, ?_, counter, ?_⟩
      · rw [wrapResult, wrapResult, map_result_eq same, channels, continuation, reference]
      · have claims := related.store.claimed channels continuation index
        rw [channels]
        refine claims.removeMatchedDatumAndJoin twin ?_ ?_ ?_ ?_ pc.channels
        · rw [Consistent.candidate_channels matched.handed]
          exact nodup_zip distinct _
        · rw [claimed_frame]
          exact matched.handed.present_with
        · rw [claimed_frame]
          exact foundMatched.handed.of_permitted.present_with
        · rw [claimed_frame]
          exact replayable.consistent.distinct
      · rw [remade found continuation twin]
        exact related.released_table exact mentions
  | stored draws stuck =>
    obtain rfl := ahead.logged [.ioEvent (.produce datum.source)] rfl
    have refused {comm : COMM} {found : ProduceCandidate C P A K} : ¬ Finds comm found := by
      intro matched
      obtain ⟨-, listed, distinct, -⟩ := related.found replayable matched
      refine matched.handed.of_permitted.not_stuck (fun _ _ other entry =>
        related.store.symm.listed_with channel datum other _ entry) ?_
      exact stuck found.channels (related.store.allJoins ▸ matched.join) distinct _ listed
    cases found with
    | fired comm found draws' listed matched | failed comm found draws' failure listed matched =>
      exact absurd matched refused
    | stored draws' _ =>
      refine ⟨rfl, related.store.setData channel datum, counter, ?_⟩
      rw [← comms_stored later]
      exact related.table

variable [CounterOrder] [Debug COMM] [ThreadRng]

theorem Related.performs (replayable : Replayable play.store (operation :: operations))
    (related : Related newStuff remaining play replay)
    (ahead : Ahead newStuff remaining later play operation operations
      (Space.perform operation play).2) :
    (perform operation replay).1 = (Space.perform operation play).1 ∧
      Related newStuff later (Space.perform operation play).2 (perform operation replay).2 := by
  cases operation with
  | produce channel data persist =>
    obtain ⟨result, still⟩ := related.produces replayable ahead
      (Space.lockedProduce_effect play channel (datumAs channel data persist))
      (lockedProduce_effect replay channel (datumAs channel data persist))
    have returned : (lockedProduce channel data persist (.create channel data persist) replay).1 =
        .ok _ := result
    rw [perform, run_bind, produce, returned]
    exact ⟨rfl, still⟩
  | consume channels patterns continuation persist peeks =>
    rw [Space.perform, run_bind, Space.consume] at ahead ⊢
    rw [perform, run_bind, consume]
    split_ifs at ahead ⊢
    · obtain rfl : remaining = later := (List.append_left_inj play.eventLog).mp ahead.log
      exact ⟨rfl, related⟩
    · obtain rfl : remaining = later := (List.append_left_inj play.eventLog).mp ahead.log
      exact ⟨rfl, related⟩
    · obtain ⟨result, still⟩ := related.consumes replayable ahead
        (Space.lockedConsume_effect play channels
          (waitingAs channels patterns continuation persist peeks))
        (lockedConsume_effect replay channels
          (waitingAs channels patterns continuation persist peeks))
      have returned : (lockedConsume channels patterns continuation persist peeks
        (.create channels patterns continuation persist) replay).1 = .ok _ := result
      rw [returned]
      exact ⟨rfl, still⟩
  | install => exact (replayable.plain _ (.head _)).elim

theorem Related.runs (replayable : Replayable play.store operations)
    (related : Related newStuff remaining play replay)
    (logged : (Space.run operations play).2.eventLog = remaining ++ play.eventLog)
    (new : ∀ event, .ioEvent event ∈ remaining → newStuff.contains event) :
    (run operations replay).1 = (Space.run operations play).1 ∧
      Related newStuff [] (Space.run operations play).2 (run operations replay).2 := by
  induction operations generalizing remaining play replay with
  | nil =>
    obtain rfl : remaining = [] := (List.append_left_inj play.eventLog).mp logged.symm
    exact ⟨rfl, related⟩
  | cons operation operations ih =>
    obtain ⟨all, loggedAll, traced⟩ := run_traced replayable.plain play
    obtain rfl := (List.append_left_inj play.eventLog).mp (loggedAll.symm.trans logged)
    have effect := perform_effect play operation
    have adds : Adds play operation (Space.perform operation play).2 :=
      effect.adds (replayable.plain operation (by simp))
    have rest := replayable.rest adds (effect.consistent replayable.consistent)
      (effect.settled replayable.consistent replayable.settled)
    obtain ⟨later, loggedLater, tracedLater⟩ := run_traced rest.plain
      (Space.perform operation play).2
    have split : all ++ play.eventLog = later ++ (Space.perform operation play).2.eventLog := by
      rw [← loggedAll, ← loggedLater, Space.run, run_mapM_cons]
      rfl
    have ahead : Ahead newStuff all later play operation operations
        (Space.perform operation play).2 := ⟨split, new, traced, tracedLater⟩
    obtain ⟨outcome, still⟩ := related.performs replayable ahead
    have newLater : ∀ event, .ioEvent event ∈ later → newStuff.contains event := by
      intro event member
      obtain ⟨first, loggedFirst, -⟩ := adds.log
      exact new event (ahead.logged first loggedFirst ▸ mem_append_left _ member)
    obtain ⟨outcomes, done⟩ := ih rest still loggedLater newLater
    rw [run, Space.run, run_mapM_cons, run_mapM_cons]
    exact ⟨congrArg₂ List.cons outcome outcomes, done⟩

/-- Whatever was shuffled in play and in whatever order counters are iterated in
replay, the operations of a replayable run, run again from the same start on the
table of its log, return what they returned in play, end with the same content,
and use up the table. -/
theorem replay_reproduces_play (start : Space (InMemHotStore C P A K) C P K)
    (operations : List (Operation C P A K)) (replayable : Replayable start.store.view operations)
    (log : Log) (logged : (Space.run operations start).2.eventLog = log ++ start.eventLog) :
    let played := Space.run operations start
    let replayed := run operations ⟨start, rig log⟩
    replayed.1 = played.1 ∧
      (∀ channel, (replayed.2.space.getData channel).Perm (played.2.getData channel)) ∧
      (∀ channels, (replayed.2.space.getWaitingContinuations channels).Perm
        (played.2.getWaitingContinuations channels)) ∧
      (∀ channel, (replayed.2.space.getJoins channel).Perm (played.2.getJoins channel)) ∧
      replayed.2.checkReplayData = .ok () := by
  intro played replayed
  have view := InMemHotStore.isView (C := C) (P := P) (A := A) (K := K)
  have play := Space.run_commutes view operations start
  have replay := run_commutes view operations ⟨start, rig log⟩
  have initial : Related (log.filterMap Event.ioEvent?) log (start.mapStore InMemHotStore.view)
      (mapStore InMemHotStore.view ⟨start, rig log⟩) := ⟨.refl _, rfl, rig_perm log⟩
  have new : ∀ event, .ioEvent event ∈ log → (log.filterMap Event.ioEvent?).contains event :=
    fun event member => List.contains_iff_exists_mem_beq.mpr
      ⟨event, mem_filterMap.mpr ⟨_, member, rfl⟩, beq_self_eq_true event⟩
  obtain ⟨outcomes, final⟩ := initial.runs replayable (by rw [play]; exact logged) new
  rw [play, replay] at outcomes final
  have content := final.store
  refine ⟨outcomes, fun channel => ?_, fun channels => ?_, fun channel => ?_, ?_⟩
  · rw [← getData_mapStore view, ← getData_mapStore view]
    exact content.data channel
  · rw [← getWaitingContinuations_mapStore view, ← getWaitingContinuations_mapStore view]
    exact .of_eq (congrFun content.allContinuations channels)
  · rw [← getJoins_mapStore view, ← getJoins_mapStore view]
    exact .of_eq (congrFun content.allJoins channel)
  · have empty : replayed.2.replayData.bindings = [] := final.table.eq_nil
    rw [checkReplayData, MultisetMultiMap.isEmpty, empty]
    rfl

end Step

end ReplaySpace

open ByteSpace

theorem replay_reproduces_play_sample :
    ∃ operations : List Op, ((after operations).eventLog.filterMap Event.comm?).length = 1 ∧
      (ReplaySpace.run operations
        ⟨(.empty : State), ReplaySpace.rig (after operations).eventLog⟩).1 =
        (Space.run operations (.empty : State)).1 := by
  have same : ∀ operations : List Op, Replayable (.ofHistory .empty) operations →
      (ReplaySpace.run operations
        ⟨(.empty : State), ReplaySpace.rig (after operations).eventLog⟩).1 =
        (Space.run operations (.empty : State)).1 := by
    intro operations replayable
    have view : (Space.empty : State).store.view = .ofHistory .empty :=
      InMemHotStore.view_createFromHr _
    exact (ReplaySpace.replay_reproduces_play .empty operations (view ▸ replayable)
      (after operations).eventLog (append_nil _).symm).1
  refine ⟨[.consume [1, 2] [0, 0] 9 false .none, .produce 1 5 false, .produce 2 6 false], ?_, ?_⟩
  · decide +kernel
  · exact same _ (.of_empty (by decide) (by decide +kernel) (by decide +kernel))

/-- Two equal persistent produces fire two continuations; the replay of the first
may take the communication of the second. -/
theorem replay_diverges_on_repeated_produce :
    let operations : List Op := [.consume [1] [0] 8 false .none, .consume [1] [0] 9 false .none,
      .produce 1 5 true, .produce 1 5 true]
    (∀ operation ∈ operations, operation.Plain) ∧ (consumeRefs operations).Nodup ∧
      ((operations.filterMap Operation.datum?).filter fun entry => !entry.2.persist) = [] ∧
      (ReplaySpace.run operations
        ⟨(.empty : State), ReplaySpace.rig (after operations).eventLog⟩).1 ≠
          (Space.run operations (.empty : State)).1 := by
  decide +kernel

end F1r3fly.RSpace
