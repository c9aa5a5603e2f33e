import F1r3fly.RSpace.RSpaceOps

/-! The tuple space as it is played. `produce` and `consume` search the hot
store in the order of the thread's random generator, store what found no match
and remove what did. -/
namespace F1r3fly.RSpace

open HotStore StateView Commutes

variable {S T C P A K : Type}

/-- The shuffles that the thread's generator draws, one after the other. -/
class ThreadRng where
  shuffle : Nat → {α : Type} → List α → List α
  perm : ∀ draw {α : Type} (items : List α), (shuffle draw items).Perm items

inductive Operation (C P A K : Type) where
  | produce (channel : C) (data : A) (persist : Bool)
  | consume (channels : List C) (patterns : List P) (continuation : K) (persist : Bool)
      (peeks : Peeks)
  | install (channels : List C) (patterns : List P) (continuation : K)
deriving DecidableEq

inductive Outcome (C P A K : Type) where
  | produced (result : MaybeProduceResult C P A K)
  | consumed (result : MaybeConsumeResult C P A K)
  | installed (result : Option (K × List A))
  | failed (failure : Failure)
deriving DecidableEq

/-- The fields of `RSpace` that its operations use. `draws` counts the shuffles
so far, and `dropped` the removal loops whose failure was ignored; no operation
reads the latter. -/
structure Space (S C P K : Type) where
  store : S
  installs : AList fun _ : List C => Install P K
  eventLog : Log
  produceCounter : ProduceMap
  draws : Nat
  dropped : Nat

namespace Space

def apply (store : S) : Space S C P K := ⟨store, ∅, [], [], 0, 0⟩

def empty : Space (InMemHotStore C P A K) C P K := apply (.createFromHr .empty)

def onStore (operation : StateM S α) : StateM (Space S C P K) α := fun self =>
  ((operation self.store).1, { self with store := (operation self.store).2 })

section Observe

variable [HotStore S C P A K]

protected def getData (self : Space S C P K) (channel : C) : List (Datum A) :=
  (getData channel self.store).1

protected def getWaitingContinuations (self : Space S C P K) (channels : List C) :
    List (WaitingContinuation P K) :=
  (getContinuations channels self.store).1

protected def getJoins (self : Space S C P K) (channel : C) : List (List C) :=
  (getJoins channel self.store).1

end Observe

/-- The result of a removal loop is not used. -/
def ignore (done : Option (List Unit)) : StateM (Space S C P K) Unit :=
  modify fun self => if done.isNone then { self with dropped := self.dropped + 1 } else self

def getProduceCounter : StateM (Space S C P K) ProduceMap := fun self =>
  (self.produceCounter, self)

def produceCounters (counter : ProduceMap) (produceRefs : List Produce) : ProduceMap :=
  .collect (produceRefs.map fun p => (p, (counter.get p).getD 0))

def logComm (comm : COMM) : StateM (Space S C P K) Unit :=
  modify fun self => { self with eventLog := .comm comm :: self.eventLog }

def logConsume (consumeRef : Consume) : StateM (Space S C P K) Unit :=
  modify fun self => { self with eventLog := .ioEvent (.consume consumeRef) :: self.eventLog }

def countProduce (counter : ProduceMap) (produceRef : Produce) : ProduceMap :=
  counter.insert produceRef ((counter.get produceRef).getD 0 + 1)

def logProduce (produceRef : Produce) (persist : Bool) : StateM (Space S C P K) Unit :=
  modify fun self => { self with
    eventLog := .ioEvent (.produce produceRef) :: self.eventLog
    produceCounter :=
      if persist then self.produceCounter else countProduce self.produceCounter produceRef }

section Shuffle

variable [ThreadRng]

def withIndex (items : List α) : List (α × Int) := items.zipIdx.map fun item => (item.1, item.2)

def shuffleWithIndex (items : List α) : StateM (Space S C P K) (List (α × Int)) := fun self =>
  (ThreadRng.shuffle self.draws (withIndex items), { self with draws := self.draws + 1 })

variable [HotStore S C P A K] [Match P A] [DecidableEq C]

def fetchChannelToIndexData (channels : List C) :
    StateM (Space S C P K) (ChannelToIndexedData C A) := do
  let fetched ← channels.mapM fun channel => do
    let data ← onStore (getData channel)
    pure (channel, ← shuffleWithIndex data)
  pure (indexByChannel fetched)

def lockedConsume (channels : List C) (patterns : List P) (continuation : K) (persist : Bool)
    (peeks : Peeks) (consumeRef : Consume) :
    StateM (Space S C P K) (MaybeConsumeResult C P A K) := do
  logConsume consumeRef
  let channelToIndexedData ← fetchChannelToIndexData channels
  let options := collect (extractDataCandidates (channels.zip patterns) channelToIndexedData)
  let wk : WaitingContinuation P K := ⟨patterns, continuation, persist, peeks, consumeRef⟩
  match options with
  | some dataCandidates =>
    let counter ← getProduceCounter
    logComm (.new dataCandidates consumeRef peeks (produceCounters counter))
    ignore (← onStore (storePersistentData dataCandidates))
    pure (some (wrapResult channels wk dataCandidates))
  | none =>
    onStore (storeWaitingContinuation channels wk)
    pure none

def fetchMatchingContinuations (channels : List C) :
    StateM (Space S C P K) (List (WaitingContinuation P K × Int)) := do
  let continuations ← onStore (getContinuations channels)
  shuffleWithIndex continuations

/-- The new datum comes before all that are stored on its channel. -/
def fetchMatchingData (batChannel : C) (data : Datum A) (channel : C) :
    StateM (Space S C P K) (C × Indexed A) := do
  let dataVec ← onStore (getData channel)
  let shuffledData ← shuffleWithIndex dataVec
  pure (channel, if channel = batChannel then (data, -1) :: shuffledData else shuffledData)

def extractProduceCandidate (groupedChannels : List (List C)) (batChannel : C) (data : Datum A) :
    StateM (Space S C P K) (Option (ProduceCandidate C P A K)) :=
  runMatcherForChannels fetchMatchingContinuations (fetchMatchingData batChannel data)
    groupedChannels

def processMatchFound (pc : ProduceCandidate C P A K) :
    StateM (Space S C P K) (ContResult C P K × List (RSpaceResult C A)) := do
  let counter ← getProduceCounter
  logComm (.new pc.dataCandidates pc.continuation.source pc.continuation.peeks
    (produceCounters counter))
  if !pc.continuation.persist then
    let _ ← onStore (removeContinuation pc.channels pc.continuationIndex)
  ignore (← onStore (removeMatchedDatumAndJoin pc.channels pc.dataCandidates))
  pure (wrapResult pc.channels pc.continuation pc.dataCandidates)

def lockedProduce (channel : C) (data : A) (persist : Bool) (produceRef : Produce) :
    StateM (Space S C P K) (MaybeProduceResult C P A K) := do
  let groupedChannels ← onStore (getJoins channel)
  logProduce produceRef persist
  match ← extractProduceCandidate groupedChannels channel ⟨data, persist, produceRef⟩ with
  | some pc =>
    let result ← processMatchFound pc
    pure (some (result.1, result.2, produceRef))
  | none =>
    onStore (storeData channel data persist produceRef)
    pure none

variable [Blake2b] [Serialize C] [Serialize P] [Serialize A] [Serialize K]

def consume (channels : List C) (patterns : List P) (continuation : K) (persist : Bool)
    (peeks : Peeks) : StateM (Space S C P K) (Except Failure (MaybeConsumeResult C P A K)) := do
  if channels.isEmpty then pure (.error (.panic "RUST ERROR: channels can't be empty"))
  else if channels.length ≠ patterns.length then
    pure (.error (.panic "RUST ERROR: channels.length must equal patterns.length"))
  else
    let consumeRef := Consume.create channels patterns continuation persist
    pure (.ok (← lockedConsume channels patterns continuation persist peeks consumeRef))

def produce (channel : C) (data : A) (persist : Bool) :
    StateM (Space S C P K) (MaybeProduceResult C P A K) :=
  lockedProduce channel data persist (Produce.create channel data persist)

def lockedInstallInternal (channels : List C) (patterns : List P) (continuation : K)
    (recordInstall : Bool) : StateM (Space S C P K) (Except Failure (Option (K × List A))) := do
  if channels.length ≠ patterns.length then
    pure (.error (.panic "RUST ERROR: channels.length must equal patterns.length"))
  else
    let consumeRef := Consume.create channels patterns continuation true
    let channelToIndexedData ← fetchChannelToIndexData channels
    let options := collect (extractDataCandidates (channels.zip patterns) channelToIndexedData)
    match options with
    | none =>
      if recordInstall then
        modify fun self => { self with
          installs := self.installs.insert channels ⟨patterns, continuation⟩ }
      let _ ← onStore (installContinuation channels
        ⟨patterns, continuation, true, .none, consumeRef⟩)
      channels.forM fun channel => do
        let _ ← onStore (installJoin channel channels)
      pure (.ok none)
    | some _ =>
      pure (.error (.error (.bugFoundError "RUST ERROR: Installing can be done only on startup")))

def install (channels : List C) (patterns : List P) (continuation : K) :
    StateM (Space S C P K) (Except Failure (Option (K × List A))) :=
  lockedInstallInternal channels patterns continuation true

def perform : Operation C P A K → StateM (Space S C P K) (Outcome C P A K)
  | .produce channel data persist => do
    pure (.produced (← produce channel data persist))
  | .consume channels patterns continuation persist peeks => do
    match ← consume channels patterns continuation persist peeks with
    | .ok result => pure (.consumed result)
    | .error failure => pure (.failed failure)
  | .install channels patterns continuation => do
    match ← install channels patterns continuation with
    | .ok result => pure (.installed result)
    | .error failure => pure (.failed failure)

def run (operations : List (Operation C P A K)) : StateM (Space S C P K) (List (Outcome C P A K)) :=
  operations.mapM perform

end Shuffle

def mapStore (view : S → T) (self : Space S C P K) : Space T C P K :=
  ⟨view self.store, self.installs, self.eventLog, self.produceCounter, self.draws, self.dropped⟩

section Commutes

theorem onStore_commutes (commutes : Commutes view operation other) :
    Commutes (mapStore (C := C) (P := P) (K := K) view) (onStore operation) (onStore other) := by
  intro self
  simp only [CommutesAt, onStore, mapStore, commutes.result, commutes.state]

theorem ignore_commutes (done : Option (List Unit)) :
    Commutes (mapStore (C := C) (P := P) (K := K) view) (ignore done) (ignore done) := by
  refine .modify fun self => ?_
  cases done <;> rfl

theorem shuffleWithIndex_commutes [ThreadRng] (items : List α) :
    Commutes (mapStore (C := C) (P := P) (K := K) view) (shuffleWithIndex items)
      (shuffleWithIndex items) :=
  fun _ => rfl

variable [HotStore S C P A K] [HotStore T C P A K] {view : S → T} (isView : IsView view)

include isView

theorem getData_mapStore (self : Space S C P K) (channel : C) :
    (self.mapStore view).getData channel = self.getData channel :=
  ((isView.getData channel).result self.store).symm

theorem getWaitingContinuations_mapStore (self : Space S C P K) (channels : List C) :
    (self.mapStore view).getWaitingContinuations channels = self.getWaitingContinuations channels :=
  ((isView.getContinuations channels).result self.store).symm

theorem getJoins_mapStore (self : Space S C P K) (channel : C) :
    (self.mapStore view).getJoins channel = self.getJoins channel :=
  ((isView.getJoins channel).result self.store).symm

theorem processMatchFound_commutes (pc : ProduceCandidate C P A K) :
    Commutes (mapStore view) (processMatchFound pc) (processMatchFound pc) := by
  refine bind (fun _ => rfl) fun _ => bind (.modify fun _ => rfl) fun _ => ?_
  have finish := (onStore_commutes (C := C) (P := P) (K := K)
    (removeMatchedDatumAndJoin_commutes isView pc.channels pc.dataCandidates)).bind fun done =>
      (ignore_commutes done).bind fun _ =>
        .pure (wrapResult pc.channels pc.continuation pc.dataCandidates)
  cases pc.continuation.persist with
  | true => exact finish
  | false => exact (onStore_commutes (isView.removeContinuation _ _)).bind fun _ => finish

variable [ThreadRng] [DecidableEq C]

theorem fetchChannelToIndexData_commutes (channels : List C) :
    Commutes (mapStore (P := P) (K := K) view) (fetchChannelToIndexData channels)
      (fetchChannelToIndexData channels) :=
  (mapM (fun channel => (onStore_commutes (isView.getData channel)).bind fun _ =>
    (shuffleWithIndex_commutes _).bind fun _ => .pure _) channels).bind fun _ => .pure _

variable [Match P A]

theorem lockedConsume_commutes (channels : List C) (patterns : List P) (continuation : K)
    (persist : Bool) (peeks : Peeks) (consumeRef : Consume) :
    Commutes (mapStore view)
      (lockedConsume channels patterns continuation persist peeks consumeRef)
      (lockedConsume channels patterns continuation persist peeks consumeRef) := by
  refine bind (.modify fun _ => rfl) fun _ =>
    (fetchChannelToIndexData_commutes isView channels).bind fun map => ?_
  cases collect (extractDataCandidates (channels.zip patterns) map) with
  | some dataCandidates =>
    exact bind (fun _ => rfl) fun _ => bind (.modify fun _ => rfl) fun _ =>
      (onStore_commutes (storePersistentData_commutes isView dataCandidates)).bind fun done =>
        (ignore_commutes done).bind fun _ => .pure _
  | none =>
    exact (onStore_commutes (storeWaitingContinuation_commutes isView _ _)).bind fun _ => .pure _

theorem extractProduceCandidate_commutes (groupedChannels : List (List C)) (batChannel : C)
    (data : Datum A) :
    Commutes (mapStore (P := P) (K := K) view)
      (extractProduceCandidate groupedChannels batChannel data)
      (extractProduceCandidate groupedChannels batChannel data) := by
  refine runMatcherForChannels_commutes ?_ ?_ groupedChannels
  · exact fun channels => (onStore_commutes (isView.getContinuations channels)).bind fun _ =>
      shuffleWithIndex_commutes _
  · exact fun channel => (onStore_commutes (isView.getData channel)).bind fun _ =>
      (shuffleWithIndex_commutes _).bind fun _ => .pure _

theorem lockedProduce_commutes (channel : C) (data : A) (persist : Bool) (produceRef : Produce) :
    Commutes (mapStore view) (lockedProduce channel data persist produceRef)
      (lockedProduce channel data persist produceRef) := by
  refine (onStore_commutes (isView.getJoins channel)).bind fun groupedChannels =>
    bind (.modify fun _ => rfl) fun _ => ?_
  refine (extractProduceCandidate_commutes isView _ _ _).bind fun extracted => ?_
  cases extracted with
  | some pc => exact (processMatchFound_commutes isView pc).bind fun _ => .pure _
  | none => exact (onStore_commutes (isView.putDatum _ _)).bind fun _ => .pure _

variable [Blake2b] [Serialize C] [Serialize P] [Serialize K]

theorem consume_commutes (channels : List C) (patterns : List P) (continuation : K)
    (persist : Bool) (peeks : Peeks) :
    Commutes (mapStore view) (consume channels patterns continuation persist peeks)
      (consume channels patterns continuation persist peeks) := by
  unfold consume
  split_ifs
  · exact .pure _
  · exact .pure _
  · exact bind (lockedConsume_commutes isView _ _ _ _ _ _) fun _ => .pure _

theorem install_commutes (channels : List C) (patterns : List P) (continuation : K) :
    Commutes (mapStore view) (install channels patterns continuation)
      (install channels patterns continuation) := by
  unfold install lockedInstallInternal
  split_ifs with h h
  · exact .pure _
  · refine (fetchChannelToIndexData_commutes isView channels).bind fun map => ?_
    cases collect (extractDataCandidates (channels.zip patterns) map) with
    | some dataCandidates => exact .pure _
    | none =>
      exact bind (.modify fun _ => rfl) fun _ =>
        (onStore_commutes (isView.installContinuation _ _)).bind fun _ =>
          (forM (fun channel =>
            (onStore_commutes (isView.installJoin channel channels)).bind fun _ => .pure _)
              channels).bind fun _ => .pure _
  · simp at h

theorem perform_commutes [Serialize A] (operation : Operation C P A K) :
    Commutes (mapStore view) (perform operation) (perform operation) := by
  cases operation with
  | produce channel data persist =>
    exact bind (lockedProduce_commutes isView _ _ _ _) fun _ => .pure _
  | consume channels patterns continuation persist peeks =>
    refine (consume_commutes isView _ _ _ _ _).bind fun result => ?_
    cases result <;> exact .pure _
  | install channels patterns continuation =>
    refine (install_commutes isView _ _ _).bind fun result => ?_
    cases result <;> exact .pure _

theorem run_commutes [Serialize A] (operations : List (Operation C P A K)) :
    Commutes (mapStore view) (run operations) (run operations) :=
  .mapM (perform_commutes isView) operations

end Commutes

end Space

end F1r3fly.RSpace
