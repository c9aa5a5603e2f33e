import F1r3fly.Data.ReadCache
import F1r3fly.Data.Results
import F1r3fly.RSpace.Internal

/-! The hot store: what the space has touched since the last checkpoint, over a
history it reads on demand. -/
namespace F1r3fly.RSpace

variable {C P A K : Type}

class HotStore (S : Type) (C P A K : outParam Type) where
  getContinuations : List C → StateM S (List (WaitingContinuation P K))
  putContinuation : List C → WaitingContinuation P K → StateM S (Option Bool)
  installContinuation : List C → WaitingContinuation P K → StateM S (Option Unit)
  removeContinuation : List C → Int → StateM S (Option Unit)
  getData : C → StateM S (List (Datum A))
  putDatum : C → Datum A → StateM S Unit
  removeDatum : C → Int → StateM S (Except RSpaceError Unit)
  getJoins : C → StateM S (List (List C))
  putJoin : C → List C → StateM S (Option Unit)
  installJoin : C → List C → StateM S (Option Unit)
  removeJoin : C → List C → StateM S (Option Unit)

/-- What the store sees of a history. -/
structure HistoryReaderBase (C P A K : Type) where
  getData : C → List (Datum A)
  getContinuations : List C → List (WaitingContinuation P K)
  getJoins : C → List (List C)

def HistoryReaderBase.empty : HistoryReaderBase C P A K := ⟨fun _ => [], fun _ => [], fun _ => []⟩

structure HotStoreState (C P A K : Type) where
  continuations : AList fun _ : List C => List (WaitingContinuation P K)
  installedContinuations : AList fun _ : List C => WaitingContinuation P K
  data : AList fun _ : C => List (Datum A)
  joins : AList fun _ : C => List (List C)
  installedJoins : AList fun _ : C => List (List C)

def HotStoreState.empty : HotStoreState C P A K := ⟨∅, ∅, ∅, ∅, ∅⟩

structure HistoryStoreCache (reader : HistoryReaderBase C P A K) where
  continuations : ReadCache reader.getContinuations
  datums : ReadCache reader.getData
  joins : ReadCache reader.getJoins

def HistoryStoreCache.empty {reader : HistoryReaderBase C P A K} : HistoryStoreCache reader :=
  ⟨.empty, .empty, .empty⟩

structure InMemHotStore (C P A K : Type) where
  state : HotStoreState C P A K
  historyReaderBase : HistoryReaderBase C P A K
  historyCache : HistoryStoreCache historyReaderBase

def maxHistoryStoreCacheEntries : Nat := 512
def maxHistoryStoreCacheContItems : Nat := 8192
def maxHistoryStoreCacheDataItems : Nat := 8192
def maxHistoryStoreCacheJoinItems : Nat := 8192

section Elements

def debugList (openText closeText : String) (items : List String) : String :=
  openText ++ ", ".intercalate items ++ closeText

def continuationIdentity [Debug P] [Debug K] (wc : WaitingContinuation P K) : String :=
  debugList "[" "]" (wc.patterns.map Debug.debug) ++ "|" ++ Debug.debug wc.continuation ++ "|" ++
    toString wc.persist ++ "|" ++ debugList "\x7b" "\x7d" (wc.peeks.1.map toString)

/-- The continuations with `wc` in front, unless one of the same identity is
there; and whether it was added. -/
def insertContinuation [Debug P] [Debug K] (wc : WaitingContinuation P K)
    (continuations : List (WaitingContinuation P K)) : List (WaitingContinuation P K) × Bool :=
  if continuations.any fun existing => continuationIdentity existing = continuationIdentity wc then
    (continuations, false)
  else (wc :: continuations, true)

def insertJoin [DecidableEq C] (join : List C) (joins : List (List C)) : List (List C) :=
  if joins.any (· = join) then joins else join :: joins

def outOfBounds (index : Int) (items : List A) : Bool :=
  index < 0 || index.toNat ≥ items.length

/-- The items without the one at `index`, or as they are when there is none. -/
def removeIndex (index : Int) (items : List A) : List A × Option Unit :=
  if outOfBounds index items then (items, none) else (items.eraseIdx index.toNat, some ())

def removeDatumIndex (index : Int) (data : List (Datum A)) :
    List (Datum A) × Except RSpaceError Unit :=
  if outOfBounds index data then
    let len := data.length
    (data, .error (.bugFoundError
      s!"Index {index} out of bounds when removing datum (len={len})"))
  else (data.eraseIdx index.toNat, .ok ())

end Elements

namespace InMemHotStore

/-- `HotStoreInstances::create_from_hr`. -/
def createFromHr (reader : HistoryReaderBase C P A K) : InMemHotStore C P A K :=
  ⟨.empty, reader, .empty⟩

def enforceHistoryCacheBounds {reader : HistoryReaderBase C P A K}
    (cache : HistoryStoreCache reader) : HistoryStoreCache reader where
  continuations :=
    if cache.continuations.size ≥ maxHistoryStoreCacheEntries ||
      cache.continuations.items ≥ maxHistoryStoreCacheContItems then .empty
    else cache.continuations
  datums :=
    if cache.datums.size ≥ maxHistoryStoreCacheEntries ||
      cache.datums.items ≥ maxHistoryStoreCacheDataItems then .empty
    else cache.datums
  joins :=
    if cache.joins.size ≥ maxHistoryStoreCacheEntries ||
      cache.joins.items ≥ maxHistoryStoreCacheJoinItems then .empty
    else cache.joins

section Methods

variable [DecidableEq C]

variable (channels : List C)

def getContFromHistoryStore :
    StateM (InMemHotStore C P A K) (List (WaitingContinuation P K)) := fun self =>
  let cache := enforceHistoryCacheBounds self.historyCache
  let (ks, continuations) := cache.continuations.get channels
  (ks, { self with historyCache := { cache with continuations := continuations } })

variable (channel : C)

def getDataFromHistoryStore : StateM (InMemHotStore C P A K) (List (Datum A)) :=
  fun self =>
    let cache := enforceHistoryCacheBounds self.historyCache
    let (datums, entries) := cache.datums.get channel
    (datums, { self with historyCache := { cache with datums := entries } })

def getJoinsFromHistoryStore : StateM (InMemHotStore C P A K) (List (List C)) :=
  fun self =>
    let cache := enforceHistoryCacheBounds self.historyCache
    let (joins, entries) := cache.joins.get channel
    (joins, { self with historyCache := { cache with joins := entries } })

def setContinuations (value : List (WaitingContinuation P K)) :
    StateM (InMemHotStore C P A K) Unit :=
  modify fun self => { self with state := { self.state with
    continuations := self.state.continuations.insert channels value } }

def setData (value : List (Datum A)) : StateM (InMemHotStore C P A K) Unit :=
  modify fun self => { self with state := { self.state with
    data := self.state.data.insert channel value } }

def setJoins (value : List (List C)) : StateM (InMemHotStore C P A K) Unit :=
  modify fun self => { self with state := { self.state with
    joins := self.state.joins.insert channel value } }

/-- The entry of the state if it is occupied, and what history has otherwise. -/
def currentContinuations : StateM (InMemHotStore C P A K) (List (WaitingContinuation P K)) := do
  match (← get).state.continuations.lookup channels with
  | some continuations => pure continuations
  | none => getContFromHistoryStore channels

def currentData : StateM (InMemHotStore C P A K) (List (Datum A)) := do
  match (← get).state.data.lookup channel with
  | some data => pure data
  | none => getDataFromHistoryStore channel

def currentJoins : StateM (InMemHotStore C P A K) (List (List C)) := do
  match (← get).state.joins.lookup channel with
  | some joins => pure joins
  | none => getJoinsFromHistoryStore channel

def getContinuations : StateM (InMemHotStore C P A K) (List (WaitingContinuation P K)) := do
  let state := (← get).state
  match state.continuations.lookup channels, state.installedContinuations.lookup channels with
  | some conts, some inst => pure (inst :: conts)
  | some conts, none => pure conts
  | none, some inst =>
    let fromHistoryStore ← getContFromHistoryStore channels
    setContinuations channels fromHistoryStore
    pure (inst :: fromHistoryStore)
  | none, none =>
    let fromHistoryStore ← getContFromHistoryStore channels
    setContinuations channels fromHistoryStore
    pure fromHistoryStore

def putContinuation [Debug P] [Debug K] (channels : List C) (wc : WaitingContinuation P K) :
    StateM (InMemHotStore C P A K) (Option Bool) := do
  let outcome := insertContinuation wc (← currentContinuations channels)
  setContinuations channels outcome.1
  pure (some outcome.2)

def installContinuation (wc : WaitingContinuation P K) :
    StateM (InMemHotStore C P A K) (Option Unit) := do
  modify fun self => { self with state := { self.state with
    installedContinuations := self.state.installedContinuations.insert channels wc } }
  pure (some ())

def removeContinuation (index : Int) : StateM (InMemHotStore C P A K) (Option Unit) := do
  let isInstalled := ((← get).state.installedContinuations.lookup channels).isSome
  let removedIndex := if isInstalled then index - 1 else index
  if isInstalled && index = 0 then pure none
  else
    let outcome := removeIndex removedIndex (← currentContinuations channels)
    setContinuations channels outcome.1
    pure outcome.2

def getData : StateM (InMemHotStore C P A K) (List (Datum A)) := do
  match (← get).state.data.lookup channel with
  | some data => pure data
  | none =>
    let data ← getDataFromHistoryStore channel
    setData channel data
    pure data

def putDatum (d : Datum A) : StateM (InMemHotStore C P A K) Unit := do
  setData channel (d :: (← currentData channel))

def removeDatum (index : Int) : StateM (InMemHotStore C P A K) (Except RSpaceError Unit) := do
  let outcome := removeDatumIndex index (← currentData channel)
  setData channel outcome.1
  pure outcome.2

def getJoins : StateM (InMemHotStore C P A K) (List (List C)) := do
  let state := (← get).state
  let installed := (state.installedJoins.lookup channel).getD []
  match state.joins.lookup channel with
  | some joins => pure (installed ++ joins)
  | none =>
    let fromHistoryStore ← getJoinsFromHistoryStore channel
    setJoins channel fromHistoryStore
    pure (installed ++ fromHistoryStore)

def putJoin (join : List C) : StateM (InMemHotStore C P A K) (Option Unit) := do
  setJoins channel (insertJoin join (← currentJoins channel))
  pure (some ())

def installJoin (join : List C) : StateM (InMemHotStore C P A K) (Option Unit) := do
  modify fun self =>
    let installed := (self.state.installedJoins.lookup channel).getD []
    { self with state := { self.state with
      installedJoins := self.state.installedJoins.insert channel (insertJoin join installed) } }
  pure (some ())

/-- The join stays as long as a continuation is stored under it. -/
def removeJoin (join : List C) : StateM (InMemHotStore C P A K) (Option Unit) := do
  let state := (← get).state
  let installed := (state.installedContinuations.lookup join).toList
  let currentContinuations := installed ++ (← currentContinuations join)
  if currentContinuations.isEmpty then
    setJoins channel ((← currentJoins channel).erase join)
  else if (state.joins.lookup channel).isNone then
    setJoins channel (← getJoinsFromHistoryStore channel)
  pure (some ())

instance [Debug P] [Debug K] : HotStore (InMemHotStore C P A K) C P A K where
  getContinuations := getContinuations
  putContinuation := putContinuation
  installContinuation := installContinuation
  removeContinuation := removeContinuation
  getData := getData
  putDatum := putDatum
  removeDatum := removeDatum
  getJoins := getJoins
  putJoin := putJoin
  installJoin := installJoin
  removeJoin := removeJoin

end Methods

end InMemHotStore

end F1r3fly.RSpace
