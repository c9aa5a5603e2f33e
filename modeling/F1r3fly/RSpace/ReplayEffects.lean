import F1r3fly.RSpace.Effects
import F1r3fly.RSpace.ReplaySpace

/-! What a replayed operation can do: it fires with data that one of the
communications in the table permits, provided the communication it makes is in the
table; it stores what it was given when each of them finds too little. -/
namespace F1r3fly.RSpace

open HotStore StateInvariant

variable {C P A K σ γ : Type}

namespace MultisetMultiMap

variable {κ ν : Type} [BEq κ] [BEq ν]

/-- The values of a key; none if it is not in the map. -/
def values (self : MultisetMultiMap κ ν) (k : κ) : List ν := (self.get k).getD []

theorem get_eq (self : MultisetMultiMap κ ν) (k : κ) :
    self.get k = if (self.values k).isEmpty then none else some (self.values k) := by
  unfold values get
  dsimp only
  split_ifs with empty
  · rfl
  · contradiction
  · simp [empty] at *
  · rfl

end MultisetMultiMap

namespace Space

/-- The entries that a communication permits. -/
def permitted (counter : ProduceMap) (comm : COMM) (entries : C → Indexed A) (channel : C) :
    Indexed A :=
  (entries channel).filter fun entry => matchesComm counter comm entry.1

def permittedContinuations (store : EagerStore C P A K) (comm : COMM) (channels : List C) :
    List (WaitingContinuation P K × Int) :=
  (store.indexedContinuations channels).filter fun entry => comm.consume == entry.1.source

theorem getCommOrCandidate_yields {post : COMM → Option γ → Prop}
    (each : ∀ comm, Yields inv (runMatcher comm) (post comm)) (inhabited : comms ≠ []) :
    Yields inv (getCommOrCandidate runMatcher comms) fun result =>
      (∃ comm ∈ comms, ∃ found, post comm (some found) ∧ result = .ok (some (comm, found))) ∨
      (∀ comm ∈ comms, post comm none) ∧ result = .ok none := by
  induction comms with
  | nil => exact absurd rfl inhabited
  | cons comm comms ih =>
    refine (each comm).bind fun candidate holds => ?_
    cases candidate with
    | some found => exact .pure (.inl ⟨comm, by simp, found, holds, rfl⟩)
    | none =>
      split_ifs with last
      · obtain rfl := List.isEmpty_iff.mp last
        exact .pure (.inr ⟨by simpa using holds, rfl⟩)
      · intro s keeps
        obtain ⟨keeps, result⟩ := ih (fun empty => last (by simp [empty])) s keeps
        refine ⟨keeps, ?_⟩
        rcases result with ⟨later, member, found⟩ | ⟨missing, result⟩
        · exact .inl ⟨later, mem_cons_of_mem _ member, found⟩
        · exact .inr ⟨by simpa using ⟨holds, missing⟩, result⟩

variable [DecidableEq C] [Debug P] [Debug K] [Match P A]

theorem runMatcherConsume_yields (self : Space (EagerStore C P A K) C P K) (channels : List C)
    (patterns : List P) (comm : COMM) :
    Yields (· = self) (runMatcherConsume channels patterns comm) fun found =>
      (∀ candidates, found = some candidates →
        Handed (permitted self.produceCounter comm self.store.entries) (channels.zip patterns)
          candidates) ∧
      (found = none → channels.Nodup →
        Stuck (permitted self.produceCounter comm self.store.entries) (channels.zip patterns)) := by
  have fetched : Yields (· = self) (channels.mapM fun channel => do
      let data ← onStore (getData channel)
      pure (channel, (withIndex data).filter fun entry =>
        matchesComm self.produceCounter comm entry.1))
      (channels.Forall₂ fun channel entry => entry.1 = channel ∧
        entry.2.Perm (permitted self.produceCounter comm self.store.entries channel)) := by
    refine .mapM (fun channel s same => ?_) channels
    subst same
    exact ⟨rfl, rfl, .refl _⟩
  rintro _ rfl
  obtain ⟨kept, each⟩ := fetched _ rfl
  have lists := indexByChannel_lists each
  refine ⟨kept, fun candidates full => ?_, fun missing distinct => ?_⟩
  · exact lists.handed (extractDataCandidates_sound full)
  · exact lists.stuck (extractDataCandidates_complete (nodup_zip distinct patterns) missing)

theorem runMatcherProduce_yields (self : Space (EagerStore C P A K) C P K) (channel : C)
    (datum : Datum A) (groupedChannels : List (List C)) (comm : COMM) :
    Yields (· = self) (runMatcherProduce channel datum groupedChannels comm) fun found =>
      (∀ pc, found = some pc → Matched groupedChannels (permittedContinuations self.store comm)
        (permitted self.produceCounter comm (self.store.entriesWith channel datum)) pc) ∧
      (found = none → AllStuck groupedChannels (permittedContinuations self.store comm)
        (permitted self.produceCounter comm (self.store.entriesWith channel datum))) := by
  have counter : Yields (· = self) getProduceCounter (· = self.produceCounter) :=
    fun _ same => ⟨same, congrArg produceCounter same⟩
  refine counter.bind ?_
  rintro _ rfl
  refine runMatcherForChannels_yields (fun channels => ?_) (fun other => ?_) groupedChannels
  · rintro _ rfl
    exact ⟨rfl, .refl _⟩
  · rintro _ rfl
    exact ⟨rfl, rfl, .refl _⟩

end Space

namespace ReplaySpace

open Space

def released (table : MultisetMultiMap IOEvent COMM) (comm : COMM) :
    MultisetMultiMap IOEvent COMM :=
  comm.ioEvents.foldl (fun table event => table.removeBindingInPlace event comm) table

theorem run_removeBindingsFor (self : ReplaySpace S C P K) (comm : COMM) :
    removeBindingsFor comm self =
      ((), { self with replayData := released self.replayData comm }) := by
  rw [released, COMM.ioEvents, foldl_cons, foldl_map]
  rfl

/-- The state with another store and some number of counters iterated. -/
def withStore (self : ReplaySpace S C P K) (store : S) (draws : Nat) : ReplaySpace S C P K :=
  { self with space := { self.space with store := store, draws := draws } }

theorem order_contains [CounterOrder] (draws : Nat) (comms : List COMM) (comm : COMM) :
    (CounterOrder.order draws comms).contains comm ↔ comms.contains comm := by
  simp only [List.contains_iff_exists_mem_beq, (CounterOrder.perm draws comms).mem_iff]

/-- The search goes through the communications of an event until one is found
that has its candidate, and changes nothing. -/
theorem getCommOrCandidate_ordered [CounterOrder] {post : COMM → Option γ → Prop}
    (each : ∀ comm, Yields (· = s) (runMatcher comm) (post comm)) (inhabited : ¬ comms.isEmpty)
    (draws : Nat) :
    (∃ comm ∈ comms, ∃ found, post comm (some found) ∧
      getCommOrCandidate runMatcher (CounterOrder.order draws comms) s =
        (.ok (some (comm, found)), s)) ∨
    (∀ comm ∈ comms, post comm none) ∧
      getCommOrCandidate runMatcher (CounterOrder.order draws comms) s = (.ok none, s) := by
  have perm := CounterOrder.perm draws comms
  have nonempty : CounterOrder.order draws comms ≠ [] := by
    intro empty
    rw [empty] at perm
    exact inhabited (by simp [perm.nil_eq.symm])
  obtain ⟨same, result⟩ := getCommOrCandidate_yields each nonempty s rfl
  rcases result with ⟨comm, member, found, holds, result⟩ | ⟨missing, result⟩
  · exact .inl ⟨comm, perm.mem_iff.mp member, found, holds, Prod.ext result same⟩
  · exact .inr ⟨fun comm member => missing comm (perm.mem_iff.mpr member), Prod.ext result same⟩

section Effect

variable [DecidableEq C] [Match P A] [Debug P] [Debug K]

inductive ConsumeEffect (self : ReplaySpace (EagerStore C P A K) C P K) (channels : List C)
    (wk : WaitingContinuation P K) :
    Except Failure (MaybeConsumeResult C P A K) × ReplaySpace (EagerStore C P A K) C P K → Prop
  | fired (comm : COMM) (candidates : List (ConsumeCandidate C A)) (draws : Nat)
      (listed : comm ∈ self.replayData.values (.consume wk.source))
      (handed : Handed (permitted self.space.produceCounter comm self.space.store.entries)
        (channels.zip wk.patterns) candidates)
      (contained : (self.replayData.values (.consume wk.source)).contains
        (.new candidates wk.source wk.peeks (produceCounters self.space.produceCounter))) :
      ConsumeEffect self channels wk (.ok (some (wrapResult channels wk candidates)),
        { self.withStore (storePersistentData candidates self.space.store).2 draws with
          replayData := released self.replayData
            (.new candidates wk.source wk.peeks (produceCounters self.space.produceCounter)) })
  | stored (draws : Nat)
      (stuck : ∀ comm ∈ self.replayData.values (.consume wk.source), channels.Nodup →
        Stuck (permitted self.space.produceCounter comm self.space.store.entries)
          (channels.zip wk.patterns)) :
      ConsumeEffect self channels wk (.ok none,
        self.withStore (storeWaitingContinuation channels wk self.space.store).2 draws)
  | failed (comm : COMM) (candidates : List (ConsumeCandidate C A)) (draws : Nat)
      (failure : Failure) (listed : comm ∈ self.replayData.values (.consume wk.source))
      (handed : Handed (permitted self.space.produceCounter comm self.space.store.entries)
        (channels.zip wk.patterns) candidates)
      (missing : ¬ (self.replayData.values (.consume wk.source)).contains
        (.new candidates wk.source wk.peeks (produceCounters self.space.produceCounter))) :
      ConsumeEffect self channels wk (.error failure, self.withStore self.space.store draws)

def counted (self : ReplaySpace S C P K) (datum : Datum A) : ReplaySpace S C P K :=
  { self with space := (logProduce datum.source datum.persist self.space).2 }

variable [CounterOrder] [Debug COMM]

variable (self : ReplaySpace (EagerStore C P A K) C P K)

theorem lockedConsume_effect (channels : List C) (wk : WaitingContinuation P K) :
    ConsumeEffect self channels wk
      (lockedConsume channels wk.patterns wk.continuation wk.persist wk.peeks wk.source self) := by
  have read : commsOf (.consume wk.source) self =
      ((self.replayData.get (.consume wk.source)).map (CounterOrder.order self.space.draws),
        self.withStore self.space.store (self.space.draws + 1)) := rfl
  rw [lockedConsume, run_bind, read, MultisetMultiMap.get_eq]
  generalize listed : self.replayData.values (.consume wk.source) = comms
  split_ifs with empty
  · refine .stored (self.space.draws + 1) ?_
    simp [listed, List.isEmpty_iff.mp empty]
  · have search := getCommOrCandidate_ordered (runMatcherConsume_yields
      (self.withStore self.space.store (self.space.draws + 1)).space channels wk.patterns)
        empty self.space.draws
    dsimp only [map_some]
    rw [run_bind, onSpace]
    rcases search with ⟨comm, member, candidates, holds, result⟩ | ⟨missing, result⟩
    · rw [result]
      dsimp only
      rw [run_bind]
      have handed := holds.1 candidates rfl
      split_ifs with contained
      · rw [run_bind, run_bind, run_removeBindingsFor]
        exact .fired comm candidates (self.space.draws + 1) (listed ▸ member) handed
          (listed ▸ (order_contains _ _ _).mp contained)
      · exact .failed comm candidates (self.space.draws + 1) _ (listed ▸ member) handed
          fun contained' => contained ((order_contains _ _ _).mpr (listed ▸ contained'))
    · rw [result]
      exact .stored (self.space.draws + 1) fun comm member distinct =>
        (missing comm (listed ▸ member)).2 rfl distinct

omit [Match P A] [CounterOrder] in
theorem run_handleMatch (pc : ProduceCandidate C P A K) (comms : List COMM) :
    handleMatch pc comms self =
      if comms.contains (commOf pc self.space.produceCounter) then
        (.ok (wrapResult pc.channels pc.continuation pc.dataCandidates),
          { self.withStore (removeMatchedDatumAndJoin pc.channels pc.dataCandidates
              (claimed self.space.store pc)).2 self.space.draws with
            replayData := released self.replayData (commOf pc self.space.produceCounter) })
      else (.error (notContained (commOf pc self.space.produceCounter) comms), self) := by
  by_cases contained : comms.contains (commOf pc self.space.produceCounter)
  · rw [if_pos contained]
    refine (congrFun (if_pos contained) _).trans ?_
    cases persist : pc.continuation.persist with
    | true =>
      have kept : claimed self.space.store pc = self.space.store := if_pos persist
      rw [kept]
      exact congrArg (Prod.mk _) (congrArg Prod.snd (run_removeBindingsFor _ _))
    | false =>
      have gone : claimed self.space.store pc =
          (self.space.store.removeContinuation pc.channels pc.continuationIndex).2 := by
        simp [claimed, persist]
      rw [gone]
      exact congrArg (Prod.mk _) (congrArg Prod.snd (run_removeBindingsFor _ _))
  · rw [if_neg contained]
    exact congrFun (if_neg contained) _

inductive ProduceEffect (self : ReplaySpace (EagerStore C P A K) C P K) (channel : C)
    (datum : Datum A) :
    Except Failure (MaybeProduceResult C P A K) × ReplaySpace (EagerStore C P A K) C P K → Prop
  | fired (comm : COMM) (pc : ProduceCandidate C P A K) (draws : Nat)
      (listed : comm ∈ self.replayData.values (.produce datum.source))
      (matched : Matched (self.space.store.allJoins channel)
        (permittedContinuations self.space.store comm)
        (permitted (self.counted datum).space.produceCounter comm
          (self.space.store.entriesWith channel datum)) pc)
      (contained : (self.replayData.values (.produce datum.source)).contains
        (commOf pc (self.counted datum).space.produceCounter)) :
      ProduceEffect self channel datum
        (.ok (some ((wrapResult pc.channels pc.continuation pc.dataCandidates).1,
          (wrapResult pc.channels pc.continuation pc.dataCandidates).2,
          (comm.produces.find? fun p => p.hash == datum.source.hash).getD datum.source)),
        { (self.counted datum).withStore (removeMatchedDatumAndJoin pc.channels pc.dataCandidates
            (claimed self.space.store pc)).2 draws with
          replayData := released self.replayData
            (commOf pc (self.counted datum).space.produceCounter) })
  | stored (draws : Nat)
      (stuck : ∀ comm ∈ self.replayData.values (.produce datum.source),
        AllStuck (self.space.store.allJoins channel) (permittedContinuations self.space.store comm)
          (permitted (self.counted datum).space.produceCounter comm
            (self.space.store.entriesWith channel datum))) :
      ProduceEffect self channel datum (.ok none, (self.counted datum).withStore
        (self.space.store.setData channel (datum :: self.space.store.data channel)) draws)
  | failed (comm : COMM) (pc : ProduceCandidate C P A K) (draws : Nat) (failure : Failure)
      (listed : comm ∈ self.replayData.values (.produce datum.source))
      (matched : Matched (self.space.store.allJoins channel)
        (permittedContinuations self.space.store comm)
        (permitted (self.counted datum).space.produceCounter comm
          (self.space.store.entriesWith channel datum)) pc)
      (missing : ¬ (self.replayData.values (.produce datum.source)).contains
        (commOf pc (self.counted datum).space.produceCounter)) :
      ProduceEffect self channel datum (.error failure,
        (self.counted datum).withStore self.space.store draws)

theorem lockedProduce_effect (channel : C) (datum : Datum A) :
    ProduceEffect self channel datum
      (lockedProduce channel datum.a datum.persist datum.source self) := by
  have joins : onSpace (onStore (getJoins channel)) self =
      (self.space.store.allJoins channel, self) := rfl
  have logs : onSpace (logProduce datum.source datum.persist) self = ((), self.counted datum) := rfl
  have read : commsOf (.produce datum.source) (self.counted datum) =
      ((self.replayData.get (.produce datum.source)).map (CounterOrder.order self.space.draws),
        (self.counted datum).withStore self.space.store (self.space.draws + 1)) := rfl
  rw [lockedProduce, run_bind, joins, run_bind, logs, run_bind, read, MultisetMultiMap.get_eq]
  generalize listed : self.replayData.values (.produce datum.source) = comms
  split_ifs with empty
  · refine .stored (self.space.draws + 1) ?_
    simp [listed, List.isEmpty_iff.mp empty]
  · have search := getCommOrCandidate_ordered (runMatcherProduce_yields
      ((self.counted datum).withStore self.space.store (self.space.draws + 1)).space channel datum
        (self.space.store.allJoins channel)) empty self.space.draws
    dsimp only [map_some]
    rw [run_bind, onSpace]
    rcases search with ⟨comm, member, pc, holds, result⟩ | ⟨missing, result⟩
    · rw [result]
      dsimp only
      rw [run_bind, run_handleMatch]
      have matched := holds.1 pc rfl
      split_ifs with contained
      · exact .fired comm pc (self.space.draws + 1) (listed ▸ member) matched
          (listed ▸ (order_contains _ _ _).mp contained)
      · exact .failed comm pc (self.space.draws + 1) _ (listed ▸ member) matched
          fun contained' => contained ((order_contains _ _ _).mpr (listed ▸ contained'))
    · rw [result]
      exact .stored (self.space.draws + 1) fun comm member =>
        (missing comm (listed ▸ member)).2 rfl

end Effect

end ReplaySpace

end F1r3fly.RSpace
