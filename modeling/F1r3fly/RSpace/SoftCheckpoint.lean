import F1r3fly.RSpace.ByteSpace
import F1r3fly.RSpace.Effects

/-! Soft checkpoints: a copy of the hot store, with the log and the counters, which are taken out
of the space. -/
namespace F1r3fly.RSpace

open StateInvariant InMemHotStore Space

variable {C P A K : Type}

structure SoftCheckpoint (C P A K : Type) where
  cacheSnapshot : HotStoreState C P A K
  log : Log
  produceCounter : ProduceMap

namespace InMemHotStore

def snapshot (self : InMemHotStore C P A K) : HotStoreState C P A K := self.state

/-- `HotStoreInstances::create_from_hs_and_hr`. -/
def createFromHsAndHr (cache : HotStoreState C P A K) (reader : HistoryReaderBase C P A K) :
    InMemHotStore C P A K :=
  ⟨cache, reader, .empty⟩

end InMemHotStore

def Operation.isInstall : Operation C P A K → Bool
  | .install _ _ _ => true
  | _ => false

namespace Space

def createSoftCheckpoint :
    StateM (Space (InMemHotStore C P A K) C P K) (SoftCheckpoint C P A K) := fun self =>
  (⟨self.store.snapshot, self.eventLog, self.produceCounter⟩,
    { self with eventLog := [], produceCounter := [] })

/-- The history is that of the current root. -/
def revertToSoftCheckpoint (reader : HistoryReaderBase C P A K)
    (checkpoint : SoftCheckpoint C P A K) : StateM (Space (InMemHotStore C P A K) C P K) Unit :=
  modify fun self => { self with
    store := .createFromHsAndHr checkpoint.cacheSnapshot reader
    eventLog := checkpoint.log
    produceCounter := checkpoint.produceCounter }

variable [DecidableEq C] [Debug P] [Debug K] [Match P A] [ThreadRng] [Blake2b] [Serialize C]
  [Serialize P] [Serialize A] [Serialize K]

def afterRevert (reader : HistoryReaderBase C P A K) (between : List (Operation C P A K))
    (self : Space (InMemHotStore C P A K) C P K) : Space (InMemHotStore C P A K) C P K :=
  let (checkpoint, taken) := createSoftCheckpoint self
  (revertToSoftCheckpoint reader checkpoint (run between taken).2).2

/-- Only an installation changes the installs. -/
theorem run_installs (plain : ∀ operation ∈ operations, operation.isInstall = false)
    (self : Space (InMemHotStore C P A K) C P K) :
    (run operations self).2.installs = self.installs := by
  have each (operation : Operation C P A K) (member : operation ∈ operations) :
      Yields (fun t : Space (EagerStore C P A K) C P K => t.installs = self.installs)
        (perform operation) fun _ => True := by
    intro t same
    have effect := perform_effect t operation
    generalize perform operation t = outcome at effect
    have kind := plain operation member
    refine ⟨?_, trivial⟩
    cases effect with
    | failed => exact same
    | produced channel data persist outcome effect => cases effect <;> exact same
    | consumed channels patterns continuation persist peeks outcome _ effect =>
      cases effect <;> exact same
    | installed => cases kind
  have view := (run_commutes InMemHotStore.isView operations).state self
  have kept := (Yields.mapM_of_mem each (self.mapStore InMemHotStore.view) rfl).1
  rw [← run, ← view] at kept
  exact kept

/-- The space with the generator, and what no operation reads, as in another. -/
def alignedWith (self other : Space (InMemHotStore C P A K) C P K) :
    Space (InMemHotStore C P A K) C P K :=
  { self with draws := other.draws, dropped := other.dropped }

variable {s t : Space (InMemHotStore C P A K) C P K}

omit [Debug P] [Debug K] [Match P A] [ThreadRng] [Blake2b] [Serialize C] [Serialize P] [Serialize A]
  [Serialize K] in
theorem mapStore_eq_iff :
    s.mapStore view = t.mapStore view ↔
      s.store.view = t.store.view ∧ s.installs = t.installs ∧ s.eventLog = t.eventLog ∧
      s.produceCounter = t.produceCounter ∧ s.draws = t.draws ∧ s.dropped = t.dropped := by
  simp [mapStore]

theorem run_congr
    (same : s.mapStore view = t.mapStore view)
    (operations : List (Operation C P A K)) :
    (run operations s).1 = (run operations t).1 ∧
      (run operations s).2.eventLog = (run operations t).2.eventLog ∧
      (run operations s).2.produceCounter = (run operations t).2.produceCounter := by
  have commutes := run_commutes (isView (C := C) (P := P) (A := A) (K := K)) operations
  have states := commutes.state s
  rw [same, ← commutes.state t] at states
  obtain ⟨_, _, log, counter, _, _⟩ := mapStore_eq_iff.mp states
  refine ⟨?_, log, counter⟩
  rw [commutes.result s, commutes.result t, same]

/-- A soft checkpoint, produces and consumes in any number, and the way back restore
every read. With the same shuffles, the space then goes on as from where the
checkpoint was taken, with the log and the counters that were there; and after
another soft checkpoint, as after the first. -/
theorem soft_checkpoint_round_trip {reader : HistoryReaderBase C P A K}
    {self : Space (InMemHotStore C P A K) C P K} (reads : self.store.historyReaderBase = reader)
    {between : List (Operation C P A K)}
    (plain : ∀ operation ∈ between, operation.isInstall = false) :
    let reverted := afterRevert reader between self
    (∀ channel, reverted.getData channel = self.getData channel) ∧
    (∀ channels, reverted.getWaitingContinuations channels =
      self.getWaitingContinuations channels) ∧
    (∀ channel, reverted.getJoins channel = self.getJoins channel) ∧
    ∀ operations : List (Operation C P A K),
      (let again := run operations (reverted.alignedWith self)
       let direct := run operations self
       again.1 = direct.1 ∧ again.2.eventLog = direct.2.eventLog ∧
         again.2.produceCounter = direct.2.produceCounter) ∧
      let again := run operations ((createSoftCheckpoint reverted).2.alignedWith self)
      let direct := run operations (createSoftCheckpoint self).2
      again.1 = direct.1 ∧ again.2.eventLog = direct.2.eventLog ∧
        again.2.produceCounter = direct.2.produceCounter := by
  intro reverted
  have isView := isView (C := C) (P := P) (A := A) (K := K)
  -- The way back leads to what was there, up to the caches and the generator.
  have same : (reverted.alignedWith self).mapStore view = self.mapStore view := by
    subst reads
    -- The caches of the history do not show.
    exact mapStore_eq_iff.mpr
      ⟨rfl, run_installs plain (createSoftCheckpoint self).2, rfl, rfl, rfl, rfl⟩
  refine ⟨fun channel => ?_, fun channels => ?_, fun channel => ?_, fun operations => ⟨?_, ?_⟩⟩
  · calc reverted.getData channel
      _ = (reverted.alignedWith self).getData channel := rfl
      _ = self.getData channel := by
        rw [← getData_mapStore isView, same, getData_mapStore isView]
  · calc reverted.getWaitingContinuations channels
      _ = (reverted.alignedWith self).getWaitingContinuations channels := rfl
      _ = self.getWaitingContinuations channels := by
        rw [← getWaitingContinuations_mapStore isView, same,
          getWaitingContinuations_mapStore isView]
  · calc reverted.getJoins channel
      _ = (reverted.alignedWith self).getJoins channel := rfl
      _ = self.getJoins channel := by
        rw [← getJoins_mapStore isView, same, getJoins_mapStore isView]
  · exact run_congr same operations
  · obtain ⟨store, installs, _, _, draws, dropped⟩ := mapStore_eq_iff.mp same
    have taken : ((createSoftCheckpoint reverted).2.alignedWith self).mapStore view =
        (createSoftCheckpoint self).2.mapStore view :=
      mapStore_eq_iff.mpr ⟨store, installs, rfl, rfl, draws, dropped⟩
    exact run_congr taken operations

end Space

section Runs

open ByteSpace

def countedProduce : State := ByteSpace.after [.produce 1 5 false]

/-- After the way back, a consume logs a communication that counts the produce, and
leaves the counter that was there; directly after the checkpoint it does neither. -/
theorem reverted_run_differs :
    let again := run [(.consume [1] [0] 7 false .none : Op)]
      ((afterRevert .empty [] countedProduce).alignedWith countedProduce)
    let direct := run [(.consume [1] [0] 7 false .none : Op)]
      (createSoftCheckpoint countedProduce).2
    again.2.eventLog ≠ direct.2.eventLog ∧ again.2.produceCounter ≠ direct.2.produceCounter := by
  intro again direct
  have logs : again.2.eventLog.length ≠ direct.2.eventLog.length := by decide +kernel
  have counters : again.2.produceCounter.length ≠ direct.2.produceCounter.length := by
    decide +kernel
  exact ⟨fun same => logs (congrArg List.length same),
    fun same => counters (congrArg List.length same)⟩

theorem soft_checkpoint_round_trip_sample :
    (afterRevert .empty [(.consume [1] [0] 7 false .none : Op)] countedProduce).getData 1 =
      countedProduce.getData 1 :=
  (soft_checkpoint_round_trip (rfl : countedProduce.store.historyReaderBase = .empty)
    (by decide)).1 1

end Runs

end F1r3fly.RSpace
