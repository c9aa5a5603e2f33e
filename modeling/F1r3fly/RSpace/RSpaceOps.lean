import F1r3fly.RSpace.EagerStore
import F1r3fly.RSpace.SpaceMatcher

/-! What playing and replaying share: the results they return, and the loops
over the hot store that store what found no match and remove what did. -/
namespace F1r3fly.RSpace

open HotStore StateView

variable {S T C P A K : Type}

structure ContResult (C P K : Type) where
  continuation : K
  persistent : Bool
  channels : List C
  patterns : List P
  peek : Bool
deriving DecidableEq

structure RSpaceResult (C A : Type) where
  channel : C
  matchedDatum : A
  removedDatum : A
  persistent : Bool
deriving DecidableEq

abbrev MaybeConsumeResult (C P A K : Type) := Option (ContResult C P K × List (RSpaceResult C A))

abbrev MaybeProduceResult (C P A K : Type) :=
  Option (ContResult C P K × List (RSpaceResult C A) × Produce)

/-- A failed call, or one that ends the program. -/
inductive Failure where
  | error (error : RSpaceError)
  | panic (message : String)
deriving DecidableEq

def ConsumeCandidate.result (candidate : ConsumeCandidate C A) : RSpaceResult C A :=
  ⟨candidate.channel, candidate.datum.a, candidate.removedDatum, candidate.datum.persist⟩

def wrapResult (channels : List C) (wk : WaitingContinuation P K)
    (dataCandidates : List (ConsumeCandidate C A)) : ContResult C P K × List (RSpaceResult C A) :=
  (⟨wk.continuation, wk.persist, channels, wk.patterns, !wk.peeks.1.isEmpty⟩,
    dataCandidates.map ConsumeCandidate.result)

section Loops

variable [HotStore S C P A K]

def storeWaitingContinuation (channels : List C) (wc : WaitingContinuation P K) :
    StateM S Unit := do
  let _ ← putContinuation channels wc
  channels.forM fun channel => do
    let _ ← putJoin channel channels

def storeData (channel : C) (data : A) (persist : Bool) (produceRef : Produce) : StateM S Unit :=
  putDatum channel ⟨data, persist, produceRef⟩

/-- Sorted by falling index, and then reversed. -/
def removalOrder (dataCandidates : List (ConsumeCandidate C A)) : List (ConsumeCandidate C A) :=
  (dataCandidates.insertionSort fun a b => b.datumIndex ≤ a.datumIndex).reverse

def allDone (results : List (Option Unit)) : Option (List Unit) :=
  if results.any Option.isNone then none else some (results.filterMap id)

def removeCandidate (candidate : ConsumeCandidate C A) : StateM S (Option Unit) := do
  if candidate.datum.persist then pure (some ())
  else pure (← removeDatum candidate.channel candidate.datumIndex).toOption

def storePersistentData (dataCandidates : List (ConsumeCandidate C A)) :
    StateM S (Option (List Unit)) := do
  pure (allDone (← (removalOrder dataCandidates).mapM removeCandidate))

/-- A datum that was just produced has index -1 and is not in the store. -/
def removeIfStored (candidate : ConsumeCandidate C A) : StateM S (Option Unit) := do
  if candidate.datumIndex ≥ 0 && !candidate.datum.persist then
    pure (← removeDatum candidate.channel candidate.datumIndex).toOption
  else pure (some ())

/-- The join is not looked at when the datum cannot be removed. -/
def removeCandidateAndJoin (channels : List C) (candidate : ConsumeCandidate C A) :
    StateM S (Option Unit) := do
  match ← removeIfStored candidate with
  | none => pure none
  | some _ =>
    let _ ← removeJoin candidate.channel channels
    pure (some ())

def removeMatchedDatumAndJoin (channels : List C) (dataCandidates : List (ConsumeCandidate C A)) :
    StateM S (Option (List Unit)) := do
  pure (allDone (← (removalOrder dataCandidates).mapM (removeCandidateAndJoin channels)))

end Loops

/-- A later entry replaces an earlier one of the same channel. -/
def indexByChannel [DecidableEq C] (fetched : List (C × Indexed A)) : ChannelToIndexedData C A :=
  fetched.foldl (fun map entry => Function.update map entry.1 (some entry.2)) fun _ => none

/-- The first join, in the given order, one of whose continuations has all its data. -/
def runMatcherForChannels [Match P A] [DecidableEq C]
    (fetchMatchingContinuations : List C → StateM S (List (WaitingContinuation P K × Int)))
    (fetchMatchingData : C → StateM S (C × Indexed A)) :
    List (List C) → StateM S (Option (ProduceCandidate C P A K))
  | [] => pure none
  | channels :: rest => do
    let matchCandidates ← fetchMatchingContinuations channels
    let fetched ← channels.mapM fetchMatchingData
    match extractFirstMatch channels matchCandidates (indexByChannel fetched) with
    | some produceCandidate => pure (some produceCandidate)
    | none => runMatcherForChannels fetchMatchingContinuations fetchMatchingData rest

section Commutes

variable [HotStore S C P A K] [HotStore T C P A K] {view : S → T} (isView : IsView view)

include isView

theorem storeWaitingContinuation_commutes (channels : List C) (wc : WaitingContinuation P K) :
    Commutes view (storeWaitingContinuation channels wc) (storeWaitingContinuation channels wc) :=
  (isView.putContinuation channels wc).bind fun _ =>
    .forM (fun channel => (isView.putJoin channel channels).bind fun _ => .pure _) channels

theorem removeCandidate_commutes (candidate : ConsumeCandidate C A) :
    Commutes view (removeCandidate candidate) (removeCandidate candidate) := by
  unfold removeCandidate
  split
  · exact .pure _
  · exact (isView.removeDatum _ _).bind fun _ => .pure _

theorem storePersistentData_commutes (dataCandidates : List (ConsumeCandidate C A)) :
    Commutes view (storePersistentData dataCandidates) (storePersistentData dataCandidates) :=
  (Commutes.mapM (removeCandidate_commutes isView) _).bind fun _ => .pure _

theorem removeCandidateAndJoin_commutes (channels : List C) (candidate : ConsumeCandidate C A) :
    Commutes view (removeCandidateAndJoin channels candidate)
      (removeCandidateAndJoin channels candidate) := by
  have removes : Commutes view (removeIfStored candidate) (removeIfStored candidate) := by
    unfold removeIfStored
    split
    · exact (isView.removeDatum _ _).bind fun _ => .pure _
    · exact .pure _
  refine removes.bind fun removed => ?_
  cases removed with
  | none => exact .pure _
  | some _ => exact (isView.removeJoin _ _).bind fun _ => .pure _

theorem removeMatchedDatumAndJoin_commutes (channels : List C)
    (dataCandidates : List (ConsumeCandidate C A)) :
    Commutes view (removeMatchedDatumAndJoin channels dataCandidates)
      (removeMatchedDatumAndJoin channels dataCandidates) :=
  (Commutes.mapM (removeCandidateAndJoin_commutes isView channels) _).bind fun _ => .pure _

omit isView in
theorem runMatcherForChannels_commutes [Match P A] [DecidableEq C] {σ τ : Type} {view : σ → τ}
    {fetchContinuations : List C → StateM σ (List (WaitingContinuation P K × Int))}
    {otherFetchContinuations : List C → StateM τ (List (WaitingContinuation P K × Int))}
    {fetchData : C → StateM σ (C × Indexed A)} {otherFetchData : C → StateM τ (C × Indexed A)}
    (continuations : ∀ channels,
      Commutes view (fetchContinuations channels) (otherFetchContinuations channels))
    (data : ∀ channel, Commutes view (fetchData channel) (otherFetchData channel))
    (groupedChannels : List (List C)) :
    Commutes view (runMatcherForChannels fetchContinuations fetchData groupedChannels)
      (runMatcherForChannels otherFetchContinuations otherFetchData groupedChannels) := by
  induction groupedChannels with
  | nil => exact .pure _
  | cons channels rest ih =>
    refine (continuations channels).bind fun matchCandidates =>
      (Commutes.mapM data channels).bind fun fetched => ?_
    cases extractFirstMatch channels matchCandidates (indexByChannel fetched) with
    | some found => exact .pure _
    | none => exact ih

end Commutes

end F1r3fly.RSpace
