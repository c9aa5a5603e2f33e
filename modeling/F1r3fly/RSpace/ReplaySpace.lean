import F1r3fly.RSpace.Space

/-! The tuple space as it is replayed. A log of a run is turned into a table of
the communications that each of its produces and consumes took part in, and an
operation fires only as the table permits. -/
namespace F1r3fly.RSpace

open HotStore StateView Commutes

variable {S T C P A K : Type}

/-- The order in which a counter of communications is iterated, each time. -/
class CounterOrder where
  order : Nat → List COMM → List COMM
  perm : ∀ draw comms, (order draw comms).Perm comms

section Search

namespace Space

def getProduceCount (counter : ProduceMap) (produceRef : Produce) : Int :=
  (counter.get produceRef).getD 0

def wasRepeatedEnoughTimes (counter : ProduceMap) (comm : COMM) (datum : Datum A) : Bool :=
  if !datum.persist then
    (comm.timesRepeated.get datum.source).getD 0 == getProduceCount counter datum.source
  else true

def matchesComm (counter : ProduceMap) (comm : COMM) (datum : Datum A) : Bool :=
  comm.produces.contains datum.source && wasRepeatedEnoughTimes counter comm datum

variable [HotStore S C P A K] [Match P A] [DecidableEq C]

def runMatcherConsume (channels : List C) (patterns : List P) (comm : COMM) :
    StateM (Space S C P K) (Option (List (ConsumeCandidate C A))) := do
  let counter ← getProduceCounter
  let fetched ← channels.mapM fun channel => do
    let data ← onStore (getData channel)
    pure (channel, (withIndex data).filter fun entry => matchesComm counter comm entry.1)
  pure (collect (extractDataCandidates (channels.zip patterns) (indexByChannel fetched)))

def runMatcherProduce (channel : C) (datum : Datum A) (groupedChannels : List (List C))
    (comm : COMM) : StateM (Space S C P K) (Option (ProduceCandidate C P A K)) := do
  let counter ← getProduceCounter
  runMatcherForChannels (fun channels => do
      let continuations ← onStore (getContinuations channels)
      pure ((withIndex continuations).filter fun entry => comm.consume == entry.1.source))
    (fun c => do
      let storeData ← onStore (getData c)
      let result := if c = channel then (datum, -1) :: withIndex storeData else withIndex storeData
      pure (c, result.filter fun entry => matchesComm counter comm entry.1))
    groupedChannels

/-- The data of each channel as they are stored. -/
def fetchChannelToIndexDataInOrder (channels : List C) :
    StateM (Space S C P K) (ChannelToIndexedData C A) := do
  let fetched ← channels.mapM fun channel => do
    let data ← onStore (getData channel)
    pure (channel, withIndex data)
  pure (indexByChannel fetched)

/-- The first of the communications, in the given order, for which the matcher finds a candidate. -/
def getCommOrCandidate {σ γ : Type} (runMatcher : COMM → StateM σ (Option γ)) :
    List COMM → StateM σ (Except Failure (Option (COMM × γ)))
  | [] => pure (.error (.panic "List comms must not be empty"))
  | commRef :: rem => do
    match ← runMatcher commRef with
    | some candidate => pure (.ok (some (commRef, candidate)))
    | none => if rem.isEmpty then pure (.ok none) else getCommOrCandidate runMatcher rem

end Space

end Search

/-- The events that took part in a communication. -/
def COMM.ioEvents (comm : COMM) : List IOEvent :=
  .consume comm.consume :: comm.produces.map .produce

def Event.ioEvent? : Event → Option IOEvent
  | .ioEvent event => some event
  | .comm _ => none

def Event.comm? : Event → Option COMM
  | .ioEvent _ => none
  | .comm event => some event

/-- The fields of `ReplayRSpace`: those of the space, where `draws` counts the
counters iterated so far and nothing is logged, and the table. -/
structure ReplaySpace (S C P K : Type) where
  space : Space S C P K
  replayData : MultisetMultiMap IOEvent COMM

namespace ReplaySpace

/-- The table of a log. Events that are older than the log get no entry. -/
def rig (log : Log) : MultisetMultiMap IOEvent COMM :=
  let newStuff := log.filterMap Event.ioEvent?
  (log.filterMap Event.comm?).foldl (fun table comm =>
    comm.ioEvents.foldl (fun table event =>
      if newStuff.contains event then table.addBinding event comm else table) table) .empty

def checkReplayData (self : ReplaySpace S C P K) : Except RSpaceError Unit :=
  if self.replayData.isEmpty then .ok ()
  else
    let len := self.replayData.len
    .error (.bugFoundError s!"Unused COMM event: replayData multimap has {len} elements left")

def onSpace (program : StateM (Space S C P K) α) : StateM (ReplaySpace S C P K) α := fun self =>
  ((program self.space).1, { self with space := (program self.space).2 })

def removeBindingsFor (commRef : COMM) : StateM (ReplaySpace S C P K) Unit :=
  modify fun self => { self with
    replayData := commRef.produces.foldl
      (fun table produceRef => table.removeBindingInPlace (.produce produceRef) commRef)
      (self.replayData.removeBindingInPlace (.consume commRef.consume) commRef) }

/-- Only the counter is kept; the log goes to a listener. -/
def logProduce (produceRef : Produce) (persist : Bool) : StateM (Space S C P K) Unit :=
  modify fun self => { self with
    produceCounter := if persist then self.produceCounter
      else Space.countProduce self.produceCounter produceRef }

section Operations

variable [CounterOrder]

def commsOf (event : IOEvent) : StateM (ReplaySpace S C P K) (Option (List COMM)) := fun self =>
  ((self.replayData.get event).map (CounterOrder.order self.space.draws),
    { self with space := { self.space with draws := self.space.draws + 1 } })

variable [Debug COMM]

def notContained (commRef : COMM) (comms : List COMM) : Failure :=
  .panic ("COMM Event " ++ Debug.debug commRef ++ " was not contained in the trace " ++
    debugList "[" "]" (comms.map Debug.debug))

variable [HotStore S C P A K] [Match P A] [DecidableEq C]

def lockedConsume (channels : List C) (patterns : List P) (continuation : K) (persist : Bool)
    (peeks : Peeks) (consumeRef : Consume) :
    StateM (ReplaySpace S C P K) (Except Failure (MaybeConsumeResult C P A K)) := do
  let wk : WaitingContinuation P K := ⟨patterns, continuation, persist, peeks, consumeRef⟩
  match ← commsOf (.consume consumeRef) with
  | none =>
    onSpace (Space.onStore (storeWaitingContinuation channels wk))
    pure (.ok none)
  | some commsList =>
    match ← onSpace (Space.getCommOrCandidate (Space.runMatcherConsume channels patterns)
        commsList) with
    | .error failure => pure (.error failure)
    | .ok none =>
      onSpace (Space.onStore (storeWaitingContinuation channels wk))
      pure (.ok none)
    | .ok (some (_, dataCandidates)) =>
      let counter ← onSpace Space.getProduceCounter
      let commRef := COMM.new dataCandidates consumeRef peeks (Space.produceCounters counter)
      if commsList.contains commRef then
        let _ ← onSpace (Space.onStore (storePersistentData dataCandidates))
        removeBindingsFor commRef
        pure (.ok (some (wrapResult channels wk dataCandidates)))
      else pure (.error (notContained commRef commsList))

def handleMatch (pc : ProduceCandidate C P A K) (comms : List COMM) :
    StateM (ReplaySpace S C P K) (Except Failure (ContResult C P K × List (RSpaceResult C A))) := do
  let counter ← onSpace Space.getProduceCounter
  let commRef := COMM.new pc.dataCandidates pc.continuation.source pc.continuation.peeks
    (Space.produceCounters counter)
  if comms.contains commRef then
    if !pc.continuation.persist then
      let _ ← onSpace (Space.onStore (removeContinuation pc.channels pc.continuationIndex))
    let _ ← onSpace (Space.onStore (removeMatchedDatumAndJoin pc.channels pc.dataCandidates))
    removeBindingsFor commRef
    pure (.ok (wrapResult pc.channels pc.continuation pc.dataCandidates))
  else pure (.error (notContained commRef comms))

def lockedProduce (channel : C) (data : A) (persist : Bool) (produceRef : Produce) :
    StateM (ReplaySpace S C P K) (Except Failure (MaybeProduceResult C P A K)) := do
  let groupedChannels ← onSpace (Space.onStore (getJoins channel))
  onSpace (logProduce produceRef persist)
  match ← commsOf (.produce produceRef) with
  | none =>
    onSpace (Space.onStore (storeData channel data persist produceRef))
    pure (.ok none)
  | some comms =>
    match ← onSpace (Space.getCommOrCandidate (Space.runMatcherProduce channel
        ⟨data, persist, produceRef⟩ groupedChannels) comms) with
    | .error failure => pure (.error failure)
    | .ok none =>
      onSpace (Space.onStore (storeData channel data persist produceRef))
      pure (.ok none)
    | .ok (some (comm, pc)) =>
      match ← handleMatch pc comms with
      | .error failure => pure (.error failure)
      | .ok result =>
        let p := comm.produces.find? fun p => p.hash == produceRef.hash
        pure (.ok (some (result.1, result.2, p.getD produceRef)))

variable [Blake2b] [Serialize C] [Serialize P] [Serialize A] [Serialize K]

def consume (channels : List C) (patterns : List P) (continuation : K) (persist : Bool)
    (peeks : Peeks) :
    StateM (ReplaySpace S C P K) (Except Failure (MaybeConsumeResult C P A K)) := do
  if channels.isEmpty then pure (.error (.panic "RUST ERROR: channels can't be empty"))
  else if channels.length ≠ patterns.length then
    pure (.error (.panic "RUST ERROR: channels.length must equal patterns.length"))
  else
    let consumeRef := Consume.create channels patterns continuation persist
    lockedConsume channels patterns continuation persist peeks consumeRef

def produce (channel : C) (data : A) (persist : Bool) :
    StateM (ReplaySpace S C P K) (Except Failure (MaybeProduceResult C P A K)) :=
  lockedProduce channel data persist (Produce.create channel data persist)

omit [CounterOrder] [Debug COMM] in
/-- Unlike in play, lists of different lengths are an error and not a panic. -/
def lockedInstallInternal (channels : List C) (patterns : List P) (continuation : K)
    (recordInstall : Bool) : StateM (Space S C P K) (Except Failure (Option (K × List A))) := do
  if channels.length ≠ patterns.length then
    pure (.error (.error (.bugFoundError "RUST ERROR: channels.length must equal patterns.length")))
  else
    let consumeRef := Consume.create channels patterns continuation true
    let channelToIndexedData ← Space.fetchChannelToIndexDataInOrder channels
    let options := collect (extractDataCandidates (channels.zip patterns) channelToIndexedData)
    match options with
    | none =>
      if recordInstall then
        modify fun self => { self with
          installs := self.installs.insert channels ⟨patterns, continuation⟩ }
      let _ ← Space.onStore
        (installContinuation channels ⟨patterns, continuation, true, .none, consumeRef⟩)
      channels.forM fun channel => do
        let _ ← Space.onStore (installJoin channel channels)
      pure (.ok none)
    | some _ =>
      pure (.error (.error (.bugFoundError "RUST ERROR: Installing can be done only on startup")))

def install (channels : List C) (patterns : List P) (continuation : K) :
    StateM (ReplaySpace S C P K) (Except Failure (Option (K × List A))) :=
  onSpace (lockedInstallInternal channels patterns continuation true)

def perform : Operation C P A K → StateM (ReplaySpace S C P K) (Outcome C P A K)
  | .produce channel data persist => do
    match ← produce channel data persist with
    | .ok result => pure (.produced result)
    | .error failure => pure (.failed failure)
  | .consume channels patterns continuation persist peeks => do
    match ← consume channels patterns continuation persist peeks with
    | .ok result => pure (.consumed result)
    | .error failure => pure (.failed failure)
  | .install channels patterns continuation => do
    match ← install channels patterns continuation with
    | .ok result => pure (.installed result)
    | .error failure => pure (.failed failure)

def run (operations : List (Operation C P A K)) :
    StateM (ReplaySpace S C P K) (List (Outcome C P A K)) :=
  operations.mapM perform

end Operations

def mapStore (view : S → T) (self : ReplaySpace S C P K) : ReplaySpace T C P K :=
  ⟨self.space.mapStore view, self.replayData⟩

section Commutes

variable {view : S → T}

theorem onSpace_commutes (commutes : Commutes (Space.mapStore view) program other) :
    Commutes (mapStore view) (onSpace program) (onSpace other) := by
  intro self
  simp only [CommutesAt, onSpace, mapStore, commutes.result, commutes.state]

theorem removeBindingsFor_commutes (commRef : COMM) :
    Commutes (mapStore (C := C) (P := P) (K := K) view) (removeBindingsFor commRef)
      (removeBindingsFor commRef) :=
  .modify fun _ => rfl

theorem logProduce_commutes (produceRef : Produce) (persist : Bool) :
    Commutes (Space.mapStore (C := C) (P := P) (K := K) view) (logProduce produceRef persist)
      (logProduce produceRef persist) :=
  .modify fun _ => rfl

theorem commsOf_commutes [CounterOrder] (event : IOEvent) :
    Commutes (mapStore (C := C) (P := P) (K := K) view) (commsOf event) (commsOf event) :=
  fun _ => rfl

theorem getCommOrCandidate_commutes {σ τ γ : Type} {view : σ → τ}
    {runMatcher : COMM → StateM σ (Option γ)} {other : COMM → StateM τ (Option γ)}
    (matcher : ∀ comm, Commutes view (runMatcher comm) (other comm)) (comms : List COMM) :
    Commutes view (Space.getCommOrCandidate runMatcher comms)
      (Space.getCommOrCandidate other comms) := by
  induction comms with
  | nil => exact .pure _
  | cons comm comms ih =>
    refine (matcher comm).bind fun candidate => ?_
    cases candidate with
    | some found => exact .pure _
    | none =>
      split_ifs
      · exact .pure _
      · exact ih

variable [HotStore S C P A K] [HotStore T C P A K] (isView : IsView view)

include isView

variable [Match P A] [DecidableEq C]

theorem runMatcherConsume_commutes (channels : List C) (patterns : List P) (comm : COMM) :
    Commutes (Space.mapStore (P := P) (K := K) view)
      (Space.runMatcherConsume channels patterns comm)
      (Space.runMatcherConsume channels patterns comm) :=
  bind (fun _ => rfl) fun _ =>
    (mapM (fun channel => (Space.onStore_commutes (isView.getData channel)).bind fun _ =>
      .pure _) channels).bind fun _ => .pure _

theorem runMatcherProduce_commutes (channel : C) (datum : Datum A)
    (groupedChannels : List (List C)) (comm : COMM) :
    Commutes (Space.mapStore (P := P) (K := K) view)
      (Space.runMatcherProduce channel datum groupedChannels comm)
      (Space.runMatcherProduce channel datum groupedChannels comm) :=
  bind (fun _ => rfl) fun _ => runMatcherForChannels_commutes
    (fun channels => (Space.onStore_commutes (isView.getContinuations channels)).bind fun _ =>
      .pure _)
    (fun c => (Space.onStore_commutes (isView.getData c)).bind fun _ => .pure _) groupedChannels

variable [CounterOrder] [Debug COMM]

theorem lockedConsume_commutes (channels : List C) (patterns : List P) (continuation : K)
    (persist : Bool) (peeks : Peeks) (consumeRef : Consume) :
    Commutes (mapStore view)
      (lockedConsume channels patterns continuation persist peeks consumeRef)
      (lockedConsume channels patterns continuation persist peeks consumeRef) := by
  have store := (onSpace_commutes (Space.onStore_commutes (C := C) (P := P) (K := K)
    (storeWaitingContinuation_commutes isView channels
      ⟨patterns, continuation, persist, peeks, consumeRef⟩))).bind
        fun _ => pure (.ok none : Except Failure (MaybeConsumeResult C P A K))
  refine (commsOf_commutes _).bind fun found => ?_
  cases found with
  | none => exact store
  | some comms =>
    refine (onSpace_commutes (getCommOrCandidate_commutes
      (runMatcherConsume_commutes isView channels patterns) comms)).bind fun candidate => ?_
    rcases candidate with failure | _ | ⟨comm, dataCandidates⟩
    · exact .pure _
    · exact store
    · refine bind (fun _ => rfl) fun counter => ?_
      dsimp only
      split_ifs
      · exact (onSpace_commutes (Space.onStore_commutes
          (storePersistentData_commutes isView dataCandidates))).bind fun _ =>
            (removeBindingsFor_commutes _).bind fun _ => .pure _
      · exact .pure _

omit [Match P A] [DecidableEq C] [CounterOrder] in
theorem handleMatch_commutes (pc : ProduceCandidate C P A K) (comms : List COMM) :
    Commutes (mapStore view) (handleMatch pc comms) (handleMatch pc comms) := by
  refine bind (fun _ => rfl) fun counter => ?_
  have finish (commRef : COMM) := (onSpace_commutes (Space.onStore_commutes (C := C) (P := P)
    (K := K) (removeMatchedDatumAndJoin_commutes isView pc.channels pc.dataCandidates))).bind
      fun _ => (removeBindingsFor_commutes commRef).bind fun _ => pure
        (.ok (wrapResult pc.channels pc.continuation pc.dataCandidates) :
          Except Failure (ContResult C P K × List (RSpaceResult C A)))
  by_cases contained : comms.contains (COMM.new pc.dataCandidates pc.continuation.source
      pc.continuation.peeks (Space.produceCounters counter))
  · rw [if_pos contained, if_pos contained]
    cases pc.continuation.persist with
    | true => exact finish _
    | false =>
      exact (onSpace_commutes (Space.onStore_commutes (isView.removeContinuation _ _))).bind
        fun _ => finish _
  · rw [if_neg contained, if_neg contained]
    exact .pure _

theorem lockedProduce_commutes (channel : C) (data : A) (persist : Bool) (produceRef : Produce) :
    Commutes (mapStore view) (lockedProduce channel data persist produceRef)
      (lockedProduce channel data persist produceRef) := by
  have store := (onSpace_commutes (Space.onStore_commutes (C := C) (P := P) (K := K)
    (isView.putDatum channel ⟨data, persist, produceRef⟩))).bind
      fun _ => pure (.ok none : Except Failure (MaybeProduceResult C P A K))
  refine (onSpace_commutes (Space.onStore_commutes (isView.getJoins channel))).bind fun joins =>
    (onSpace_commutes (logProduce_commutes produceRef persist)).bind fun _ =>
      (commsOf_commutes _).bind fun found => ?_
  cases found with
  | none => exact store
  | some comms =>
    refine (onSpace_commutes (getCommOrCandidate_commutes
      (runMatcherProduce_commutes isView channel _ joins) comms)).bind fun candidate => ?_
    rcases candidate with failure | _ | ⟨comm, pc⟩
    · exact .pure _
    · exact store
    · refine (handleMatch_commutes isView pc comms).bind fun result => ?_
      cases result <;> exact .pure _

variable [Blake2b] [Serialize C] [Serialize P] [Serialize K]

omit [CounterOrder] [Debug COMM] in
theorem install_commutes (channels : List C) (patterns : List P) (continuation : K) :
    Commutes (mapStore view) (install channels patterns continuation)
      (install channels patterns continuation) := by
  refine onSpace_commutes ?_
  unfold lockedInstallInternal
  split_ifs with h h
  · exact .pure _
  · refine ((mapM (fun channel => (Space.onStore_commutes (isView.getData channel)).bind
      fun _ => .pure _) channels).bind fun _ => .pure _).bind fun map => ?_
    cases collect (extractDataCandidates (channels.zip patterns) map) with
    | some dataCandidates => exact .pure _
    | none =>
      exact bind (.modify fun _ => rfl) fun _ =>
        (Space.onStore_commutes (isView.installContinuation _ _)).bind fun _ =>
          (forM (fun channel =>
            (Space.onStore_commutes (isView.installJoin channel channels)).bind fun _ => .pure _)
              channels).bind fun _ => .pure _
  · simp at h

theorem perform_commutes [Serialize A] (operation : Operation C P A K) :
    Commutes (mapStore view) (perform operation) (perform operation) := by
  cases operation with
  | produce channel data persist =>
    refine bind (lockedProduce_commutes isView _ _ _ _) fun result => ?_
    cases result <;> exact .pure _
  | consume channels patterns continuation persist peeks =>
    refine bind ?_ fun result => ?_
    · unfold consume
      split_ifs
      · exact .pure _
      · exact .pure _
      · exact lockedConsume_commutes isView _ _ _ _ _ _
    · cases result <;> exact .pure _
  | install channels patterns continuation =>
    refine (install_commutes isView _ _ _).bind fun result => ?_
    cases result <;> exact .pure _

theorem run_commutes [Serialize A] (operations : List (Operation C P A K)) :
    Commutes (mapStore view) (run operations) (run operations) :=
  .mapM (perform_commutes isView) operations

end Commutes

end ReplaySpace

end F1r3fly.RSpace
