import F1r3fly.Data.StateInvariant
import F1r3fly.RSpace.Space

/-! What an operation on the space can do, said once: whatever the shuffles, it
either fires with data that are there, or stores what it was given because no
match was found. -/
namespace F1r3fly.RSpace

open Function HotStore StateInvariant

variable {C P A K σ : Type}

section Search

/-- The map has the given entries of each of the channels, in some order, and no other channel. -/
structure Lists (map : ChannelToIndexedData C A) (channels : List C) (entries : C → Indexed A) :
    Prop where
  listed : ∀ channel ∈ channels, ∃ found, map channel = some found ∧ found.Perm (entries channel)
  others : ∀ channel ∉ channels, map channel = none

theorem indexByChannel_lists [DecidableEq C] {entries : C → Indexed A}
    (each : channels.Forall₂ (fun c entry => entry.1 = c ∧ entry.2.Perm (entries c)) fetched) :
    Lists (indexByChannel fetched) channels entries := by
  -- Each step of the fold replaces one entry by a listing of its channel.
  suffices folded : ∀ map : ChannelToIndexedData C A, ∀ channel,
      (channel ∈ channels ∨ (∃ found, map channel = some found ∧ found.Perm (entries channel)) →
        ∃ found, restore map fetched channel = some found ∧ found.Perm (entries channel)) ∧
      (channel ∉ channels → restore map fetched channel = map channel) from
    ⟨fun channel member => (folded _ channel).1 (.inl member),
      fun channel absent => (folded _ channel).2 absent⟩
  induction each with
  | nil => simp [restore]
  | @cons c entry channels fetched head each ih =>
    obtain ⟨rfl, perm⟩ := head
    intro map channel
    obtain ⟨listed, others⟩ := ih (Function.update map entry.1 (some entry.2)) channel
    constructor
    · rintro (member | before)
      · rcases mem_cons.mp member with rfl | member
        · exact listed (.inr ⟨entry.2, update_self .., perm⟩)
        · exact listed (.inl member)
      · by_cases same : channel = entry.1
        · subst same
          exact listed (.inr ⟨entry.2, update_self .., perm⟩)
        · exact listed (.inr (by rwa [update_of_ne same]))
    · intro absent
      obtain ⟨other, absent⟩ := not_or.mp (mt mem_cons.mpr absent)
      exact (others absent).trans (update_of_ne other ..)

variable [Match P A]

/-- One candidate for each channel and pattern, among the entries of the channel. -/
def Handed (entries : C → Indexed A) (pairs : List (C × P))
    (candidates : List (ConsumeCandidate C A)) : Prop :=
  pairs.Forall₂ (fun pair candidate => Fits pair.1 pair.2 (entries pair.1) candidate) candidates

/-- Some channel has no entry that its pattern accepts. -/
def Stuck (entries : C → Indexed A) (pairs : List (C × P)) : Prop :=
  ∃ pair ∈ pairs, ∀ entry ∈ entries pair.1, Match.get pair.2 entry.1.a = none

variable {map : ChannelToIndexedData C A}

theorem Lists.handed {pairs : List (C × P)}
    (lists : Lists map channels entries) (selection : Selection map pairs candidates) :
    Handed entries pairs candidates := by
  refine selection.imp fun pair candidate ⟨found, here, fits⟩ => ?_
  by_cases member : pair.1 ∈ channels
  · obtain ⟨listed, same, perm⟩ := lists.listed _ member
    obtain rfl := Option.some.inj (here.symm.trans same)
    exact fits.mono perm.subset
  · rw [lists.others _ member] at here
    cases here

theorem Lists.stuck {patterns : List P}
    (lists : Lists map channels entries) (unmatched : Unmatched map (channels.zip patterns)) :
    Stuck entries (channels.zip patterns) := by
  obtain ⟨pair, member, none⟩ := unmatched
  obtain ⟨found, here, perm⟩ := lists.listed _ (List.of_mem_zip member).1
  exact ⟨pair, member, fun entry stored => none found here entry (perm.mem_iff.mpr stored)⟩

/-- A candidate of a produce: one of the continuations under one of the joins,
with all its data. -/
structure Matched (groupedChannels : List (List C))
    (continuations : List C → List (WaitingContinuation P K × Int)) (entries : C → Indexed A)
    (pc : ProduceCandidate C P A K) : Prop where
  join : pc.channels ∈ groupedChannels
  continuation : (pc.continuation, pc.continuationIndex) ∈ continuations pc.channels
  handed : Handed entries (pc.channels.zip pc.continuation.patterns) pc.dataCandidates

/-- None of the continuations under the joins on distinct channels has all its data. -/
def AllStuck (groupedChannels : List (List C))
    (continuations : List C → List (WaitingContinuation P K × Int)) (entries : C → Indexed A) :
    Prop :=
  ∀ channels ∈ groupedChannels, channels.Nodup →
    ∀ wk ∈ continuations channels, Stuck entries (channels.zip wk.1.patterns)

theorem runMatcherForChannels_yields [DecidableEq C] {inv : σ → Prop}
    {fetchContinuations : List C → StateM σ (List (WaitingContinuation P K × Int))}
    {fetchData : C → StateM σ (C × Indexed A)}
    (eachJoin : ∀ channels, Yields inv (fetchContinuations channels)
      (·.Perm (continuations channels)))
    (eachChannel : ∀ channel, Yields inv (fetchData channel)
      fun entry => entry.1 = channel ∧ entry.2.Perm (entries channel))
    (groupedChannels : List (List C)) :
    Yields inv (runMatcherForChannels fetchContinuations fetchData groupedChannels) fun found =>
      (∀ pc, found = some pc → Matched groupedChannels continuations entries pc) ∧
      (found = none → AllStuck groupedChannels continuations entries) := by
  induction groupedChannels with
  | nil => exact .pure ⟨by simp, by simp [AllStuck]⟩
  | cons channels rest ih =>
    refine (eachJoin channels).bind fun candidates perm =>
      (Yields.mapM eachChannel channels).bind fun fetched each => ?_
    have lists := indexByChannel_lists each
    cases result : extractFirstMatch channels candidates (indexByChannel fetched) with
    | some pc =>
      refine .pure ⟨?_, by simp⟩
      rintro _ ⟨⟩
      obtain ⟨same, member, selection⟩ := extractFirstMatch_sound (.refl _) result
      rw [← same] at selection perm
      exact ⟨by simp [same], perm.subset member, lists.handed selection⟩
    | none =>
      intro s keeps
      obtain ⟨keeps, found, missing⟩ := ih s keeps
      refine ⟨keeps, fun pc here => ?_, fun nothing => ?_⟩
      · exact { found pc here with join := .tail _ (found pc here).join }
      · intro other member distinct wk here
        rcases mem_cons.mp member with rfl | member
        · exact lists.stuck (extractFirstMatch_complete distinct result wk
            (perm.mem_iff.mpr here))
        · exact missing nothing other member distinct wk here

end Search

section Entries

/-- What is stored on a channel, each datum with its position. -/
def EagerStore.entries (self : EagerStore C P A K) (channel : C) : Indexed A :=
  Space.withIndex (self.data channel)

/-- The entries with one more datum, which is not stored. -/
def EagerStore.entriesWith [DecidableEq C] (self : EagerStore C P A K) (batChannel : C)
    (datum : Datum A) (channel : C) : Indexed A :=
  if channel = batChannel then (datum, -1) :: self.entries channel else self.entries channel

def EagerStore.indexedContinuations (self : EagerStore C P A K) (channels : List C) :
    List (WaitingContinuation P K × Int) :=
  Space.withIndex (self.allContinuations channels)

end Entries

namespace Space

/-- The state with some number of shuffles drawn. -/
def Drawn (self s : Space S C P K) : Prop := ∃ draws, s = { self with draws := draws }

def logged (self : Space S C P K) (event : Event) : Space S C P K :=
  { self with eventLog := event :: self.eventLog }

def removed (self : Space S C P K) (outcome : Option (List Unit) × S) : Space S C P K :=
  { self with
    store := outcome.2
    dropped := if outcome.1.isNone then self.dropped + 1 else self.dropped }

theorem run_logConsume (self : Space S C P K) (consumeRef : Consume) :
    logConsume consumeRef self = ((), self.logged (.ioEvent (.consume consumeRef))) :=
  rfl

theorem run_logComm (self : Space S C P K) (comm : COMM) :
    logComm comm self = ((), self.logged (.comm comm)) :=
  rfl

theorem run_onStore_ignore (self : Space S C P K) (loop : StateM S (Option (List Unit))) :
    (do ignore (← onStore loop) : StateM (Space S C P K) Unit) self =
      ((), self.removed (loop self.store)) := by
  refine congrArg (Prod.mk ()) ?_
  dsimp only [removed, onStore]
  split_ifs <;> rfl

variable (self : Space (EagerStore C P A K) C P K)

theorem onStore_yields {α : Type} (read : EagerStore C P A K → α) :
    Yields (Drawn self) (onStore fun store => (read store, store)) (· = read self.store) := by
  rintro _ ⟨draws, rfl⟩
  exact ⟨⟨draws, rfl⟩, rfl⟩

variable [DecidableEq C] [Debug P] [Debug K]

theorem run_installJoins (join channels : List C) :
    (channels.forM fun channel => do let _ ← onStore (installJoin channel join) :
        StateM (Space (EagerStore C P A K) C P K) Unit) self =
      ((), { self with
        store :=
          channels.foldl (fun store channel => store.installJoin channel join) self.store }) := by
  induction channels generalizing self with
  | nil => rfl
  | cons channel channels ih => exact ih _

variable [ThreadRng]

omit [DecidableEq C] [Debug P] [Debug K] in
theorem shuffleWithIndex_yields (self : Space S C P K) (items : List α) :
    Yields (Drawn self) (shuffleWithIndex items) (·.Perm (withIndex items)) := by
  rintro _ ⟨draws, rfl⟩
  exact ⟨⟨draws + 1, rfl⟩, ThreadRng.perm draws _⟩

variable (self : Space (EagerStore C P A K) C P K)

theorem fetchChannelToIndexData_yields (channels : List C) :
    Yields (Drawn self) (fetchChannelToIndexData channels)
      (Lists · channels self.store.entries) := by
  refine (Yields.mapM (fun channel => ?_) channels).bind fun _ each =>
    .pure (indexByChannel_lists each)
  refine (onStore_yields self (·.data channel)).bind ?_
  rintro _ rfl
  exact (shuffleWithIndex_yields self _).bind fun _ perm => .pure ⟨rfl, perm⟩

variable [Match P A]

/-- A consume up to the choice of its data. -/
def consumeCandidates [HotStore S C P A K] (channels : List C) (patterns : List P)
    (consumeRef : Consume) : StateM (Space S C P K) (Option (List (ConsumeCandidate C A))) := do
  logConsume consumeRef
  let channelToIndexedData ← fetchChannelToIndexData channels
  pure (collect (extractDataCandidates (channels.zip patterns) channelToIndexedData))

/-- A produce up to the choice of a continuation and its data. -/
def produceCandidate [HotStore S C P A K] (channel : C) (datum : Datum A) :
    StateM (Space S C P K) (Option (ProduceCandidate C P A K)) := do
  let groupedChannels ← onStore (getJoins channel)
  logProduce datum.source datum.persist
  extractProduceCandidate groupedChannels channel datum

inductive ConsumeEffect (self : Space (EagerStore C P A K) C P K) (channels : List C)
    (wk : WaitingContinuation P K) :
    MaybeConsumeResult C P A K × Space (EagerStore C P A K) C P K → Prop
  | fired (candidates : List (ConsumeCandidate C A)) (draws : Nat)
      (handed : Handed self.store.entries (channels.zip wk.patterns) candidates)
      (chosen : (consumeCandidates channels wk.patterns wk.source self).1 = some candidates) :
      ConsumeEffect self channels wk (some (wrapResult channels wk candidates),
        removed { (self.logged (.ioEvent (.consume wk.source))).logged
            (.comm (.new candidates wk.source wk.peeks (produceCounters self.produceCounter)))
          with draws := draws } (storePersistentData candidates self.store))
  | stored (draws : Nat)
      (stuck : channels.Nodup → Stuck self.store.entries (channels.zip wk.patterns)) :
      ConsumeEffect self channels wk (none,
        { self.logged (.ioEvent (.consume wk.source)) with
          store := (storeWaitingContinuation channels wk self.store).2, draws := draws })

theorem lockedConsume_effect (channels : List C) (wk : WaitingContinuation P K) :
    ConsumeEffect self channels wk
      (lockedConsume channels wk.patterns wk.continuation wk.persist wk.peeks wk.source self) := by
  obtain ⟨⟨draws, after⟩, lists⟩ := fetchChannelToIndexData_yields
    (self.logged (.ioEvent (.consume wk.source))) channels _ ⟨_, rfl⟩
  rw [lockedConsume, run_bind, run_logConsume, run_bind, after]
  generalize fetched : (fetchChannelToIndexData channels _ :
    ChannelToIndexedData C A × Space (EagerStore C P A K) C P K).1 = map at lists ⊢
  cases full : collect (extractDataCandidates (channels.zip wk.patterns) map) with
  | some candidates =>
    dsimp only
    rw [run_bind, run_bind, run_logComm, ← bind_assoc, run_bind, run_onStore_ignore]
    exact .fired candidates draws (lists.handed (extractDataCandidates_sound full))
      ((congrArg (fun map => collect (extractDataCandidates _ map)) fetched).trans full)
  | none =>
    refine .stored draws fun distinct => lists.stuck ?_
    exact extractDataCandidates_complete (nodup_zip distinct wk.patterns) full

def produced (self : Space S C P K) (datum : Datum A) : Space S C P K :=
  (logProduce datum.source datum.persist self).2

variable (store : EagerStore C P A K)

variable (pc : ProduceCandidate C P A K)

def claimed : EagerStore C P A K :=
  if pc.continuation.persist then store
  else (store.removeContinuation pc.channels pc.continuationIndex).2

omit [Debug P] [Debug K] [ThreadRng] [Match P A] in
theorem claimed_cases :
    claimed store pc = store ∨ ∃ index, claimed store pc = store.setContinuations pc.channels
      (removeIndex index (store.continuations pc.channels)).1 := by
  unfold claimed EagerStore.removeContinuation
  dsimp only
  by_cases persist : pc.continuation.persist
  · exact .inl (if_pos persist)
  · rw [if_neg persist]
    split
    · exact .inl rfl
    · exact .inr ⟨_, rfl⟩

omit [Debug P] [Debug K] [ThreadRng] [Match P A] in
theorem claimed_frame :
    claimed store pc = { store with continuations := (claimed store pc).continuations } := by
  obtain same | ⟨index, same⟩ := claimed_cases store pc
  · rw [same]
  · rw [same]
    rfl

def commOf (counter : ProduceMap) : COMM :=
  .new pc.dataCandidates pc.continuation.source pc.continuation.peeks (produceCounters counter)

omit [ThreadRng] [Match P A] in
theorem run_processMatchFound (pc : ProduceCandidate C P A K) :
    processMatchFound pc self = (wrapResult pc.channels pc.continuation pc.dataCandidates,
      removed { self.logged (.comm (commOf pc self.produceCounter)) with
          store := claimed self.store pc }
        (removeMatchedDatumAndJoin pc.channels pc.dataCandidates (claimed self.store pc))) := by
  rw [processMatchFound, run_bind, run_bind, run_logComm]
  cases persist : pc.continuation.persist with
  | true =>
    have kept : claimed self.store pc = self.store := if_pos persist
    rw [kept]
    exact congrArg (Prod.mk _) (congrArg Prod.snd (run_onStore_ignore _ _))
  | false =>
    have gone : claimed self.store pc =
        (self.store.removeContinuation pc.channels pc.continuationIndex).2 := by
      simp [claimed, persist]
    rw [gone]
    exact congrArg (Prod.mk _) (congrArg Prod.snd (run_onStore_ignore _ _))

inductive ProduceEffect (self : Space (EagerStore C P A K) C P K) (channel : C) (datum : Datum A) :
    MaybeProduceResult C P A K × Space (EagerStore C P A K) C P K → Prop
  | fired (pc : ProduceCandidate C P A K) (draws : Nat)
      (matched : Matched (self.store.allJoins channel) self.store.indexedContinuations
        (self.store.entriesWith channel datum) pc)
      (chosen : (produceCandidate channel datum self).1 = some pc) :
      ProduceEffect self channel datum
        (some ((wrapResult pc.channels pc.continuation pc.dataCandidates).1,
          (wrapResult pc.channels pc.continuation pc.dataCandidates).2, datum.source),
        removed { (self.produced datum).logged
          (.comm (commOf pc (self.produced datum).produceCounter))
            with store := claimed self.store pc, draws := draws }
          (removeMatchedDatumAndJoin pc.channels pc.dataCandidates (claimed self.store pc)))
  | stored (draws : Nat)
      (stuck : AllStuck (self.store.allJoins channel) self.store.indexedContinuations
        (self.store.entriesWith channel datum)) :
      ProduceEffect self channel datum (none, { self.produced datum with
        store := self.store.setData channel (datum :: self.store.data channel), draws := draws })

theorem extractProduceCandidate_yields
    (groupedChannels : List (List C)) (channel : C) (datum : Datum A) :
    Yields (Drawn self) (extractProduceCandidate groupedChannels channel datum) fun found =>
      (∀ pc, found = some pc → Matched groupedChannels self.store.indexedContinuations
        (self.store.entriesWith channel datum) pc) ∧
      (found = none → AllStuck groupedChannels self.store.indexedContinuations
        (self.store.entriesWith channel datum)) := by
  refine runMatcherForChannels_yields (fun channels => ?_) (fun other => ?_) groupedChannels
  · refine (onStore_yields self (·.allContinuations channels)).bind ?_
    rintro _ rfl
    exact shuffleWithIndex_yields self _
  · refine (onStore_yields self (·.data other)).bind ?_
    rintro _ rfl
    refine (shuffleWithIndex_yields self _).bind fun _ perm => .pure ⟨rfl, ?_⟩
    dsimp only [EagerStore.entriesWith]
    split_ifs
    · exact perm.cons _
    · exact perm

theorem lockedProduce_effect (channel : C) (datum : Datum A) :
    ProduceEffect self channel datum
      (lockedProduce channel datum.a datum.persist datum.source self) := by
  obtain ⟨⟨draws, after⟩, found, missing⟩ := extractProduceCandidate_yields (self.produced datum)
    (self.store.allJoins channel) channel datum _ ⟨_, rfl⟩
  have joins : onStore (getJoins channel) self = (self.store.allJoins channel, self) := rfl
  have logs : logProduce datum.source datum.persist self = ((), self.produced datum) := rfl
  rw [lockedProduce, run_bind, joins, run_bind, logs, run_bind, after]
  cases result : (extractProduceCandidate (self.store.allJoins channel) channel datum
      (self.produced datum)).1 with
  | some pc =>
    dsimp only
    rw [run_bind, run_processMatchFound]
    exact .fired pc draws (found pc result) result
  | none => exact .stored draws (missing result)

/-- The continuation is installed, and its join on each of its channels. -/
def installed (channels : List C) (wk : WaitingContinuation P K) : EagerStore C P A K :=
  channels.foldl (fun store channel => store.installJoin channel channels)
    (store.installContinuation channels wk)

variable [Blake2b] [Serialize C] [Serialize P] [Serialize A] [Serialize K]

def installedAs (channels : List C) (patterns : List P) (continuation : K) :
    WaitingContinuation P K :=
  ⟨patterns, continuation, true, .none, Consume.create channels patterns continuation true⟩

def waitingAs (channels : List C) (patterns : List P) (continuation : K) (persist : Bool)
    (peeks : Peeks) : WaitingContinuation P K :=
  ⟨patterns, continuation, persist, peeks, Consume.create channels patterns continuation persist⟩

def datumAs (channel : C) (data : A) (persist : Bool) : Datum A :=
  ⟨data, persist, Produce.create channel data persist⟩

/-- What an operation can return, and the state it can end in. -/
inductive Effect (self : Space (EagerStore C P A K) C P K) :
    Operation C P A K → Outcome C P A K × Space (EagerStore C P A K) C P K → Prop
  | failed (operation : Operation C P A K) (failure : Failure) (draws : Nat) :
      Effect self operation (.failed failure, { self with draws := draws })
  | produced (channel : C) (data : A) (persist : Bool) (outcome)
      (effect : ProduceEffect self channel (datumAs channel data persist) outcome) :
      Effect self (.produce channel data persist) (.produced outcome.1, outcome.2)
  | consumed (channels : List C) (patterns : List P) (continuation : K) (persist : Bool)
      (peeks : Peeks) (outcome) (sameLength : channels.length = patterns.length)
      (effect : ConsumeEffect self channels
        (waitingAs channels patterns continuation persist peeks) outcome) :
      Effect self (.consume channels patterns continuation persist peeks)
        (.consumed outcome.1, outcome.2)
  | installed (channels : List C) (patterns : List P) (continuation : K) (draws : Nat)
      (sameLength : channels.length = patterns.length)
      (stuck : channels.Nodup → Stuck self.store.entries (channels.zip patterns)) :
      Effect self (.install channels patterns continuation) (.installed none, { self with
        installs := self.installs.insert channels ⟨patterns, continuation⟩
        store := installed self.store channels (installedAs channels patterns continuation)
        draws := draws })

theorem perform_effect (operation : Operation C P A K) :
    Effect self operation (perform operation self) := by
  cases operation with
  | produce channel data persist =>
    exact .produced channel data persist _ (lockedProduce_effect self channel _)
  | consume channels patterns continuation persist peeks =>
    rw [perform, run_bind, consume]
    split_ifs with empty sameLength
    · exact .failed _ _ self.draws
    · exact .failed _ _ self.draws
    · exact .consumed channels patterns continuation persist peeks _ (not_not.mp sameLength)
        (lockedConsume_effect self channels
          (waitingAs channels patterns continuation persist peeks))
  | install channels patterns continuation =>
    rw [perform, run_bind, install, lockedInstallInternal]
    split_ifs with sameLength recorded
    · exact .failed _ _ self.draws
    · obtain ⟨⟨draws, after⟩, lists⟩ := fetchChannelToIndexData_yields self channels _ ⟨_, rfl⟩
      rw [run_bind, after]
      generalize (fetchChannelToIndexData channels _ :
        ChannelToIndexedData C A × Space (EagerStore C P A K) C P K).1 = map at lists ⊢
      cases full : collect (extractDataCandidates (channels.zip patterns) map) with
      | some candidates => exact .failed _ _ draws
      | none =>
        dsimp only
        rw [run_bind, run_bind, run_bind, run_installJoins]
        refine .installed channels patterns continuation draws (not_not.mp sameLength) ?_
        exact fun distinct => lists.stuck
          (extractDataCandidates_complete (nodup_zip distinct patterns) full)
    · simp at recorded

/-- What every effect keeps holds, as seen through the view, after every run
from the empty space. -/
theorem run_empty_invariant (inv : Space (EagerStore C P A K) C P K → Prop)
    (initial : inv (apply (.ofHistory .empty)))
    (keeps : ∀ {self operation outcome after}, inv self →
      Effect self operation (outcome, after) → inv after) (operations : List (Operation C P A K)) :
    inv ((run operations (.empty : Space (InMemHotStore C P A K) C P K)).2.mapStore
      InMemHotStore.view) := by
  have each : ∀ operation, Yields inv (perform operation) fun _ => True :=
    fun operation self holds => ⟨keeps holds (perform_effect self operation), trivial⟩
  rw [(run_commutes InMemHotStore.isView operations).state]
  exact (Yields.mapM each operations _ initial).1

end Space

end F1r3fly.RSpace
