import F1r3fly.Data.StateView
import F1r3fly.RSpace.HotStore

/-! What the hot store is for: the maps of a history, read in full at the start and then changed in
place. Every operation of the hot store commutes with this view of it. -/
namespace F1r3fly.RSpace

open StateView Function

variable {C P A K : Type}

/-- A view of one hot store as another that every operation respects. -/
structure HotStore.IsView {S T : Type} [HotStore S C P A K] [HotStore T C P A K] (view : S → T) :
    Prop where
  getContinuations : ∀ channels, Commutes view (getContinuations channels)
    (getContinuations channels)
  putContinuation : ∀ channels wc, Commutes view (putContinuation channels wc)
    (putContinuation channels wc)
  installContinuation : ∀ channels wc, Commutes view (installContinuation channels wc)
    (installContinuation channels wc)
  removeContinuation : ∀ channels index, Commutes view (removeContinuation channels index)
    (removeContinuation channels index)
  getData : ∀ channel, Commutes view (getData channel) (getData channel)
  putDatum : ∀ channel d, Commutes view (putDatum channel d) (putDatum channel d)
  removeDatum : ∀ channel index, Commutes view (removeDatum channel index)
    (removeDatum channel index)
  getJoins : ∀ channel, Commutes view (getJoins channel) (getJoins channel)
  putJoin : ∀ channel join, Commutes view (putJoin channel join) (putJoin channel join)
  installJoin : ∀ channel join, Commutes view (installJoin channel join) (installJoin channel join)
  removeJoin : ∀ channel join, Commutes view (removeJoin channel join) (removeJoin channel join)

@[ext]
structure EagerStore (C P A K : Type) where
  continuations : List C → List (WaitingContinuation P K)
  installedContinuations : List C → Option (WaitingContinuation P K)
  data : C → List (Datum A)
  joins : C → List (List C)
  installedJoins : C → List (List C)

namespace EagerStore

def ofHistory (reader : HistoryReaderBase C P A K) : EagerStore C P A K :=
  ⟨reader.getContinuations, fun _ => none, reader.getData, reader.getJoins, fun _ => []⟩

def allContinuations (self : EagerStore C P A K) (channels : List C) :
    List (WaitingContinuation P K) :=
  (self.installedContinuations channels).toList ++ self.continuations channels

def allJoins (self : EagerStore C P A K) (channel : C) : List (List C) :=
  self.installedJoins channel ++ self.joins channel

variable [DecidableEq C]

section

variable (self : EagerStore C P A K)

variable (channels : List C)

def setContinuations (value : List (WaitingContinuation P K)) : EagerStore C P A K :=
  { self with continuations := update self.continuations channels value }

def setData (channel : C) (value : List (Datum A)) : EagerStore C P A K :=
  { self with data := update self.data channel value }

def setJoins (channel : C) (value : List (List C)) : EagerStore C P A K :=
  { self with joins := update self.joins channel value }

theorem setContinuations_self :
    self.setContinuations channels (self.continuations channels) = self := by
  simp [setContinuations]

theorem setData_self (channel : C) : self.setData channel (self.data channel) = self := by
  simp [setData]

theorem setJoins_self (channel : C) : self.setJoins channel (self.joins channel) = self := by
  simp [setJoins]

def installContinuation (wc : WaitingContinuation P K) : EagerStore C P A K :=
  let installed := update self.installedContinuations channels (some wc)
  { self with installedContinuations := installed }

def installJoin (channel : C) (join : List C) : EagerStore C P A K :=
  let joins := insertJoin join (self.installedJoins channel)
  { self with installedJoins := update self.installedJoins channel joins }

def removeContinuation (index : Int) : Option Unit × EagerStore C P A K :=
  let isInstalled := (self.installedContinuations channels).isSome
  let removedIndex := if isInstalled then index - 1 else index
  if isInstalled && index = 0 then (none, self)
  else
    let outcome := removeIndex removedIndex (self.continuations channels)
    (outcome.2, self.setContinuations channels outcome.1)

end

instance [Debug P] [Debug K] : HotStore (EagerStore C P A K) C P A K where
  getContinuations channels self := (self.allContinuations channels, self)
  putContinuation channels wc self :=
    let outcome := insertContinuation wc (self.continuations channels)
    (some outcome.2, self.setContinuations channels outcome.1)
  installContinuation channels wc self := (some (), self.installContinuation channels wc)
  removeContinuation channels index self := self.removeContinuation channels index
  getData channel self := (self.data channel, self)
  putDatum channel d self := ((), self.setData channel (d :: self.data channel))
  removeDatum channel index self :=
    let outcome := removeDatumIndex index (self.data channel)
    (outcome.2, self.setData channel outcome.1)
  getJoins channel self := (self.allJoins channel, self)
  putJoin channel join self :=
    (some (), self.setJoins channel (insertJoin join (self.joins channel)))
  installJoin channel join self := (some (), self.installJoin channel join)
  removeJoin channel join self :=
    (some (), if (self.allContinuations join).isEmpty then
      self.setJoins channel ((self.joins channel).erase join) else self)

end EagerStore

namespace InMemHotStore

variable [DecidableEq C]

def view (self : InMemHotStore C P A K) : EagerStore C P A K where
  continuations channels := (self.state.continuations.lookup channels).getD
    (self.historyReaderBase.getContinuations channels)
  installedContinuations channels := self.state.installedContinuations.lookup channels
  data channel := (self.state.data.lookup channel).getD (self.historyReaderBase.getData channel)
  joins channel := (self.state.joins.lookup channel).getD (self.historyReaderBase.getJoins channel)
  installedJoins channel := (self.state.installedJoins.lookup channel).getD []

theorem view_createFromHr (reader : HistoryReaderBase C P A K) :
    (createFromHr reader).view = .ofHistory reader := by
  ext <;> simp [view, createFromHr, HotStoreState.empty, EagerStore.ofHistory]

theorem getD_lookup_insert {α : Type} {β : Type} [DecidableEq α] (map : AList fun _ : α => β)
    (key : α) (value : β) (other : α → β) :
    (fun k => ((map.insert key value).lookup k).getD (other k)) =
      update (fun k => (map.lookup k).getD (other k)) key value := by
  funext k
  by_cases same : k = key
  · subst same; simp
  · simp [same]

theorem setContinuations_commutes (channels : List C) (value : List (WaitingContinuation P K)) :
    Commutes (view (A := A)) (setContinuations channels value)
      (modify (·.setContinuations channels value)) := by
  refine .modify fun s => ?_
  simp only [view, EagerStore.setContinuations, getD_lookup_insert]

theorem setData_commutes (channel : C) (value : List (Datum A)) :
    Commutes (view (P := P) (K := K)) (setData channel value)
      (modify (·.setData channel value)) := by
  refine .modify fun s => ?_
  simp only [view, EagerStore.setData, getD_lookup_insert]

theorem setJoins_commutes (channel : C) (value : List (List C)) :
    Commutes (view (P := P) (A := A) (K := K)) (setJoins channel value)
      (modify (·.setJoins channel value)) := by
  refine .modify fun s => ?_
  simp only [view, EagerStore.setJoins, getD_lookup_insert]

variable {s : InMemHotStore C P A K}

theorem getContFromHistoryStore_commutes (vacant : s.state.continuations.lookup channels = none) :
    CommutesAt view s (getContFromHistoryStore channels)
      (fun t => (t.continuations channels, t)) := by
  simp [CommutesAt, view, vacant, getContFromHistoryStore, ReadCache.get_eq_source]

theorem getDataFromHistoryStore_commutes (vacant : s.state.data.lookup channel = none) :
    CommutesAt view s (getDataFromHistoryStore channel) (fun t => (t.data channel, t)) := by
  simp [CommutesAt, view, vacant, getDataFromHistoryStore, ReadCache.get_eq_source]

theorem getJoinsFromHistoryStore_commutes (vacant : s.state.joins.lookup channel = none) :
    CommutesAt view s (getJoinsFromHistoryStore channel) (fun t => (t.joins channel, t)) := by
  simp [CommutesAt, view, vacant, getJoinsFromHistoryStore, ReadCache.get_eq_source]

theorem currentContinuations_commutes (channels : List C) :
    Commutes (view (P := P) (A := A) (K := K)) (currentContinuations channels)
      (fun t => (t.continuations channels, t)) := by
  intro s
  refine .get_bind ?_
  cases entry : s.state.continuations.lookup channels with
  | some continuations => simp [CommutesAt, view, entry, run_pure]
  | none => exact getContFromHistoryStore_commutes entry

variable (channel : C)

theorem currentData_commutes : Commutes (view (P := P) (A := A) (K := K)) (currentData channel)
      (fun t => (t.data channel, t)) := by
  intro s
  refine .get_bind ?_
  cases entry : s.state.data.lookup channel with
  | some data => simp [CommutesAt, view, entry, run_pure]
  | none => exact getDataFromHistoryStore_commutes entry

theorem currentJoins_commutes : Commutes (view (P := P) (A := A) (K := K)) (currentJoins channel)
      (fun t => (t.joins channel, t)) := by
  intro s
  refine .get_bind ?_
  cases entry : s.state.joins.lookup channel with
  | some joins => simp [CommutesAt, view, entry, run_pure]
  | none => exact getJoinsFromHistoryStore_commutes entry

theorem getContinuations_commutes (channels : List C) :
    Commutes (view (P := P) (A := A) (K := K)) (getContinuations channels)
      (fun t => (t.allContinuations channels, t)) := by
  intro s
  have filled (vacant : s.state.continuations.lookup channels = none)
      (f : List (WaitingContinuation P K) → List (WaitingContinuation P K)) :=
    (getContFromHistoryStore_commutes vacant).fill (setContinuations_commutes channels)
      (EagerStore.setContinuations_self · channels) f
  refine .get_bind ?_
  cases entry : s.state.continuations.lookup channels <;>
    cases installed : s.state.installedContinuations.lookup channels <;>
    simp only [entry, installed]
  · exact (filled entry id).congr (by simp [EagerStore.allContinuations, view, installed])
  · exact (filled entry _).congr (by simp [EagerStore.allContinuations, view, installed])
  all_goals simp [CommutesAt, view, entry, installed, EagerStore.allContinuations, run_pure]

theorem getData_commutes :
    Commutes (view (P := P) (A := A) (K := K)) (getData channel)
      (fun t => (t.data channel, t)) := by
  intro s
  refine .get_bind ?_
  cases entry : s.state.data.lookup channel with
  | some data => simp [CommutesAt, view, entry, run_pure]
  | none =>
    exact (getDataFromHistoryStore_commutes entry).fill (setData_commutes channel)
      (EagerStore.setData_self · channel) id

theorem getJoins_commutes : Commutes (view (P := P) (A := A) (K := K)) (getJoins channel)
      (fun t => (t.allJoins channel, t)) := by
  intro s
  refine .get_bind ?_
  cases entry : s.state.joins.lookup channel with
  | some joins => simp [CommutesAt, view, entry, EagerStore.allJoins, run_pure]
  | none =>
    simp only [entry]
    exact ((getJoinsFromHistoryStore_commutes entry).fill (setJoins_commutes channel)
      (EagerStore.setJoins_self · channel) _).congr rfl

theorem installContinuation_commutes (channels : List C) (wc : WaitingContinuation P K) :
    Commutes (view (A := A)) (installContinuation channels wc)
      (fun t => (some (), t.installContinuation channels wc)) := by
  intro s
  refine congrArg (Prod.mk (some ())) (EagerStore.ext rfl ?_ rfl rfl rfl)
  have lookup (other : List C) : (s.state.installedContinuations.insert channels wc).lookup other =
      update s.view.installedContinuations channels (some wc) other := by
    by_cases same : other = channels
    · subst same; simp
    · simp [same, view]
  exact funext fun other => (lookup other).symm

theorem installJoin_commutes (join : List C) :
    Commutes (view (P := P) (A := A) (K := K)) (installJoin channel join)
      (fun t => (some (), t.installJoin channel join)) := by
  intro s
  refine congrArg (Prod.mk (some ())) (EagerStore.ext rfl rfl rfl rfl ?_)
  exact (getD_lookup_insert s.state.installedJoins channel _ fun _ => []).symm

theorem removeContinuation_commutes [Debug P] [Debug K] (channels : List C) (index : Int) :
    Commutes (view (P := P) (A := A) (K := K)) (removeContinuation channels index)
      (HotStore.removeContinuation channels index) := by
  intro s
  refine .get_bind ?_
  have eager : HotStore.removeContinuation channels index s.view =
    s.view.removeContinuation channels index := rfl
  cases installed : (s.state.installedContinuations.lookup channels).isSome &&
    decide (index = 0) with
  | true =>
    simp only [installed, if_true, CommutesAt, eager, EagerStore.removeContinuation]
    simp only [view, installed, if_true]
    rfl
  | false =>
    simp only [installed, false_eq_true, if_false]
    refine (((currentContinuations_commutes channels).bind fun _ =>
      (setContinuations_commutes channels _).bind fun _ => .pure _) s).congr ?_
    simp only [eager, EagerStore.removeContinuation]
    simp only [view, installed, false_eq_true, if_false]
    rfl

theorem state_currentContinuations (channels : List C) (s : InMemHotStore C P A K) :
    (currentContinuations channels s).2.state = s.state := by
  rw [currentContinuations, run_get_bind]
  cases s.state.continuations.lookup channels with
  | some continuations => rfl
  | none => rfl

theorem removeJoin_commutes [Debug P] [Debug K] (channel : C) (join : List C) :
    Commutes (view (P := P) (A := A) (K := K)) (removeJoin channel join)
      (HotStore.removeJoin channel join) := by
  intro s
  obtain ⟨read, kept⟩ := Prod.mk.inj (currentContinuations_commutes join s)
  have stored : (s.state.installedContinuations.lookup join).toList ++
    (currentContinuations join s).1 = s.view.allContinuations join := by rw [← read]; rfl
  have eager (t : EagerStore C P A K) : HotStore.removeJoin channel join t = (some (),
    if (t.allContinuations join).isEmpty then t.setJoins channel ((t.joins channel).erase join)
    else t) := rfl
  refine .get_bind (.read_bind (currentContinuations_commutes join s) ?_)
  dsimp only
  rw [stored]
  cases empty : (s.view.allContinuations join).isEmpty with
  | true =>
    refine (((currentJoins_commutes channel).bind fun joins =>
      (setJoins_commutes channel (joins.erase join)).bind fun _ => .pure (some ())) _).congr ?_
    rw [eager, ← kept, empty]
    rfl
  | false =>
    have unchanged : HotStore.removeJoin channel join s.view = (some (), s.view) := by
      rw [eager, empty]
      rfl
    rw [kept] at unchanged
    cases entry : s.state.joins.lookup channel with
    | some joins => exact unchanged
    | none =>
      have vacant : (currentContinuations join s).2.state.joins.lookup channel = none := by
        rw [state_currentContinuations, entry]
      exact ((getJoinsFromHistoryStore_commutes vacant).fill (setJoins_commutes channel)
        (EagerStore.setJoins_self · channel) fun _ => some ()).congr unchanged.symm

theorem isView [Debug P] [Debug K] :
    HotStore.IsView (view (C := C) (P := P) (A := A) (K := K)) where
  getContinuations := getContinuations_commutes
  putContinuation channels wc := (currentContinuations_commutes channels).bind fun continuations =>
    (setContinuations_commutes channels (insertContinuation wc continuations).1).bind fun _ =>
      .pure (some (insertContinuation wc continuations).2)
  installContinuation := installContinuation_commutes
  removeContinuation := removeContinuation_commutes
  getData := getData_commutes
  putDatum channel _ := (currentData_commutes channel).bind fun _ => setData_commutes channel _
  removeDatum channel index := (currentData_commutes channel).bind fun data =>
    (setData_commutes channel (removeDatumIndex index data).1).bind fun _ =>
      .pure (removeDatumIndex index data).2
  getJoins := getJoins_commutes
  putJoin channel _ := (currentJoins_commutes channel).bind fun _ =>
    (setJoins_commutes channel _).bind fun _ => .pure _
  installJoin := installJoin_commutes
  removeJoin := removeJoin_commutes

end InMemHotStore

end F1r3fly.RSpace
