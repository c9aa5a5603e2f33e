import F1r3fly.RSpace.Access

/-! Which lists of channels a run names: those of its consumes and installations, and the joins it
started with. -/
namespace F1r3fly.RSpace

open HotStore StateView StateInvariant

variable {S C P A K : Type}

def Operation.channelLists : Operation C P A K → List (List C)
  | .produce _ _ _ => []
  | .consume channels _ _ _ _ => [channels]
  | .install channels _ _ => [channels]

def StoreOperation.channelLists : StoreOperation C P A K → List (List C)
  | .getContinuations channels | .putContinuation channels _ | .installContinuation channels _
  | .removeContinuation channels _ => [channels]
  | .putJoin _ join | .installJoin _ join => [join]
  | _ => []

def StoreOperation.Listed (lists : List C → Prop) (operation : StoreOperation C P A K) : Prop :=
  ∀ channels ∈ operation.channelLists, lists channels

theorem mem_insertJoin [DecidableEq C] {joins : List (List C)}
    (member : found ∈ insertJoin join joins) : found = join ∨ found ∈ joins := by
  unfold insertJoin at member
  split at member
  · exact .inr member
  · exact mem_cons.mp member

namespace EagerStore

variable [DecidableEq C] [Debug P] [Debug K]

/-- A join is added only by storing or installing it. -/
theorem mem_allJoins_run (operation : StoreOperation C P A K) (t : EagerStore C P A K)
    (member : found ∈ (operation.run (fun _ _ _ => pure ()) t).2.allJoins channel) :
    found ∈ t.allJoins channel ∨ operation = .putJoin channel found ∨
      operation = .installJoin channel found := by
  cases operation with
  | putJoin other join =>
    rcases mem_append.mp member with installed | stored
    · exact .inl (mem_append_left _ installed)
    · rcases mem_update stored with ⟨rfl, added⟩ | old
      · rcases mem_insertJoin added with rfl | old
        · exact .inr (.inl rfl)
        · exact .inl (mem_append_right _ old)
      · exact .inl (mem_append_right _ old)
  | installJoin other join =>
    rcases mem_append.mp member with installed | stored
    · rcases mem_update installed with ⟨rfl, added⟩ | old
      · rcases mem_insertJoin added with rfl | old
        · exact .inr (.inr rfl)
        · exact .inl (mem_append_left _ old)
      · exact .inl (mem_append_left _ old)
    · exact .inl (mem_append_right _ stored)
  | removeJoin other join =>
    change found ∈ EagerStore.allJoins (if _ then _ else _) channel at member
    split at member
    · rcases mem_append.mp member with installed | stored
      · exact .inl (mem_append_left _ installed)
      · rcases mem_update stored with ⟨rfl, left⟩ | old
        · exact .inl (mem_append_right _ (List.mem_of_mem_erase left))
        · exact .inl (mem_append_right _ old)
    · exact .inl member
  | removeContinuation channels index =>
    change found ∈ (t.removeContinuation channels index).2.allJoins channel at member
    rw [EagerStore.removeContinuation] at member
    split at member
    · exact .inl member
    · exact .inl member
  | _ => exact .inl member

end EagerStore

namespace InMemHotStore

variable [DecidableEq C]

theorem mem_setContinuations {s : InMemHotStore C P A K}
    (member : other ∈ (setContinuations channels value s).2.state.continuations) :
    other ∈ s.state.continuations ∨ other ∈ [channels] := by
  rcases (AList.mem_insert _).mp member with rfl | member
  · exact .inr (.head _)
  · exact .inl member

theorem continuations_currentData (channel : C) (s : InMemHotStore C P A K) :
    (currentData channel s).2.state.continuations = s.state.continuations := by
  rw [currentData, run_get_bind]
  cases s.state.data.lookup channel with
  | some data => rfl
  | none => rfl

theorem continuations_currentJoins (channel : C) (s : InMemHotStore C P A K) :
    (currentJoins channel s).2.state.continuations = s.state.continuations := by
  rw [currentJoins, run_get_bind]
  cases s.state.joins.lookup channel with
  | some joins => rfl
  | none => rfl

theorem continuations_removeJoin (channel : C) (join : List C) (s : InMemHotStore C P A K) :
    (removeJoin channel join s).2.state.continuations = s.state.continuations := by
  have read := congrArg HotStoreState.continuations (state_currentContinuations join s)
  rw [removeJoin, run_get_bind, StateInvariant.run_bind]
  split
  · exact (continuations_currentJoins channel _).trans read
  · split
    · exact read
    · exact read

variable [Debug P] [Debug K]

theorem mem_continuations_run (operation : StoreOperation C P A K) (s : InMemHotStore C P A K)
    (member : channels ∈ (operation.run (fun _ _ _ => pure ()) s).2.state.continuations) :
    channels ∈ s.state.continuations ∨ channels ∈ operation.channelLists := by
  cases operation with
  | getContinuations named =>
    change channels ∈ (getContinuations named s).2.state.continuations at member
    rw [getContinuations, run_get_bind] at member
    cases stored : s.state.continuations.lookup named <;>
      cases installed : s.state.installedContinuations.lookup named <;>
      simp only [stored, installed] at member
    · exact mem_setContinuations member
    · exact mem_setContinuations member
    · exact .inl member
    · exact .inl member
  | putContinuation named wc =>
    have kept := mem_setContinuations (s := (currentContinuations named s).2) member
    rwa [state_currentContinuations] at kept
  | removeContinuation named index =>
    change channels ∈ (removeContinuation named index s).2.state.continuations at member
    rw [removeContinuation, run_get_bind] at member
    split at member
    · exact .inl member
    · have kept := mem_setContinuations (s := (currentContinuations named s).2) member
      rwa [state_currentContinuations] at kept
  | getData channel =>
    change channels ∈ (getData channel s).2.state.continuations at member
    rw [getData, run_get_bind] at member
    cases stored : s.state.data.lookup channel <;> simp only [stored] at member <;>
      exact .inl member
  | putDatum channel d | removeDatum channel index =>
    exact .inl (continuations_currentData channel s ▸ member)
  | getJoins channel =>
    change channels ∈ (getJoins channel s).2.state.continuations at member
    rw [getJoins, run_get_bind] at member
    cases stored : s.state.joins.lookup channel <;> simp only [stored] at member <;>
      exact .inl member
  | putJoin channel join => exact .inl (continuations_currentJoins channel s ▸ member)
  | removeJoin channel join => exact .inl (continuations_removeJoin channel join s ▸ member)
  | installContinuation named wc | installJoin channel join
  | clearCaches continuations datums joins => exact .inl member

/-- The store keeps continuations under listed channels only, and has listed joins only. -/
structure Within (lists : List C → Prop) (store : InMemHotStore C P A K) : Prop where
  keys : ∀ channels ∈ store.state.continuations, lists channels
  joins : ∀ channel, ∀ join ∈ store.view.allJoins channel, lists join

variable {lists : List C → Prop}

omit [Debug P] [Debug K] in
theorem Within.createFromHr {reader : HistoryReaderBase C P A K}
    (stored : ∀ channel, ∀ join ∈ reader.getJoins channel, lists join) :
    Within lists (createFromHr reader) where
  keys channels member := absurd member (AList.notMem_empty channels)
  joins := by
    exact stored

theorem permits_listed :
    Permits (StoreOperation.Listed lists) lists
      (Within (C := C) (P := P) (A := A) (K := K) lists) := by
  intro operation listed s within
  have commutes : Commutes view (operation.run fun _ _ _ => pure ())
    (operation.run fun _ _ _ => pure ()) := run_commutes (fun _ _ _ => .pure _) operation
  refine ⟨⟨fun channels member => ?_, fun channel join member => ?_⟩, ?_⟩
  · exact (mem_continuations_run operation s member).elim (within.keys channels) (listed channels)
  · rw [commutes.state] at member
    rcases EagerStore.mem_allJoins_run operation s.view member with old | rfl | rfl
    · exact within.joins channel join old
    · exact listed join (.head _)
    · exact listed join (.head _)
  · rw [commutes.result]
    rintro found same join member
    cases operation with
    | getJoins channel =>
      obtain rfl : s.view.allJoins channel = found := StoreOutcome.joins.inj same
      exact within.joins channel join member
    | _ => cases same

end InMemHotStore

namespace Space

variable [HotStore S C P A K] [DecidableEq C] [Match P A] [ThreadRng] [Blake2b] [Serialize C]
  [Serialize P] [Serialize A] [Serialize K] {lists : List C → Prop} {inv : S → Prop}

section

variable (permits : Permits (StoreOperation.Listed (P := P) (A := A) (K := K) lists) lists inv)
include permits

theorem perform_keeps (named : ∀ channels ∈ operation.channelLists, lists channels) :
    Yields (OnStore (C := C) (P := P) (K := K) inv) (perform operation) fun _ => True := by
  cases operation with
  | produce channel data persist =>
    refine Yields.bind (lockedProduce_keeps permits (fun _ member => by cases member) ?_ _ _ _)
      fun _ _ => .pure trivial
    intro groupedChannels among operation access
    cases access with
    | getContinuations join | removeContinuation join =>
      exact forall_mem_singleton.mpr (among _ join)
    | _ => exact fun _ member => by cases member
  | consume channels patterns continuation persist peeks =>
    have here := named channels (.head _)
    refine Yields.bind (consume_keeps permits ?_ _ _ _ _) fun result _ => ?_
    · intro operation access
      cases access with
      | putContinuation wc | putJoin member => exact forall_mem_singleton.mpr here
      | _ => exact fun _ member => by cases member
    · cases result <;> exact .pure trivial
  | install channels patterns continuation =>
    have here := named channels (.head _)
    refine Yields.bind (install_keeps permits ?_ _ _) fun result _ => ?_
    · intro operation access
      cases access with
      | installContinuation wc | installJoin member => exact forall_mem_singleton.mpr here
      | _ => exact fun _ member => by cases member
    · cases result <;> exact .pure trivial

theorem run_keeps
    (named : ∀ operation ∈ operations, ∀ channels ∈ operation.channelLists, lists channels)
    (holds : inv self.store) : inv (run operations self).2.store := by
  induction operations generalizing self with
  | nil => exact holds
  | cons operation operations ih =>
    have step := perform_keeps permits (named operation (.head _)) self holds
    rw [run, run_mapM_cons]
    exact ih (fun later member => named later (.tail _ member)) step.1

end

end Space

end F1r3fly.RSpace
