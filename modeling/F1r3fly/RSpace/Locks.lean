import Mathlib.Data.List.Destutter
import Mathlib.Data.Prod.Lex
import F1r3fly.Data.OrderedLocks
import F1r3fly.RSpace.ByteSpace
import F1r3fly.RSpace.ChannelLists
import F1r3fly.RSpace.JoinIndex

/-! The locks of produces and consumes that run at the same time. A produce locks its channel,
reads the joins of the channel, and then locks every channel in them. -/
namespace F1r3fly.RSpace

open Function HotStore StateView OrderedLocks

variable {ι C P A K : Type}

/-- The hash of a channel by the standard library's hasher. -/
class ChannelHash (C : Type) where
  channelHash : C → UInt64

export ChannelHash (channelHash)

inductive LockPhase where
  | a
  | b
deriving DecidableEq

structure Lock where
  phase : LockPhase
  key : UInt64
deriving DecidableEq

/-- The first phase before the second, and by key within a phase. -/
def Lock.rank (lock : Lock) : Nat ×ₗ Nat := toLex (lock.phase.ctorIdx, lock.key.toNat)

/-- The keys in the order in which `acquire_locks` takes them. -/
def acquireOrder (keys : List UInt64) : List UInt64 :=
  (keys.insertionSort (· ≤ ·)).destutter (· ≠ ·)

inductive Request (C : Type) where
  | consume (channels : List C)
  | produce (channel : C)

/-- How far an operation is. `joins` are those that `produce_lock` has read, and
`groupedChannels` those that `locked_produce` has read. A produce that did not find the
joins of its channel in the state is `filling`, until it has put there what history has. -/
inductive Stage (C : Type) where
  | phaseA (pending : List UInt64)
  | filling (installed fromHistory : List (List C))
  | phaseB (joins : List (List C)) (pending : List UInt64)
  | locked (joins : List (List C))
  | body (joins groupedChannels : List (List C))
  | finished

structure Task (C : Type) where
  request : Request C
  stage : Stage C
  held : List Lock

structure Tasks (ι C P A K : Type) where
  store : InMemHotStore C P A K
  task : ι → Task C

section Locks

variable [ChannelHash C]

def Request.phaseA : Request C → List UInt64
  | .consume channels => acquireOrder (channels.map channelHash)
  | .produce channel => acquireOrder [channelHash channel]

def Request.phaseB (joins : List (List C)) : Request C → List UInt64
  | .consume channels => acquireOrder (channels.map channelHash)
  | .produce _ => acquireOrder (joins.flatten.map channelHash)

def Request.locks (request : Request C) (joins : List (List C)) : List Lock :=
  request.phaseA.map (⟨.a, ·⟩) ++ (request.phaseB joins).map (⟨.b, ·⟩)

def Task.new (request : Request C) : Task C := ⟨request, .phaseA request.phaseA, []⟩

theorem acquireOrder_eq (keys : List UInt64) :
    acquireOrder keys = (keys.insertionSort (· ≤ ·)).dedup :=
  (List.pairwise_insertionSort (· ≤ ·) keys).destutter_eq_dedup

theorem mem_acquireOrder : key ∈ acquireOrder keys ↔ key ∈ keys := by
  rw [acquireOrder_eq, List.mem_dedup, List.mem_insertionSort]

theorem acquireOrder_ascending (keys : List UInt64) :
    (acquireOrder keys).Pairwise fun a b => a.toNat < b.toNat := by
  have sorted : (acquireOrder keys).Pairwise (· ≤ ·) :=
    (List.pairwise_insertionSort (· ≤ ·) keys).sublist (List.destutter_sublist _ _)
  have distinct : (acquireOrder keys).Pairwise (· ≠ ·) := by
    rw [acquireOrder_eq]
    exact List.nodup_dedup _
  refine (sorted.and distinct).imp ?_
  rintro a b ⟨le, ne⟩
  exact lt_of_le_of_ne (UInt64.le_iff_toNat_le.mp le) fun same => ne (UInt64.toNat_inj.mp same)

theorem Request.locks_ascending (request : Request C) (joins : List (List C)) :
    (request.locks joins).Pairwise fun a b => a.rank < b.rank := by
  have phase (which : LockPhase) (keys : List UInt64)
      (rising : keys.Pairwise fun a b => a.toNat < b.toNat) :
      (keys.map (Lock.mk which)).Pairwise fun a b => a.rank < b.rank := by
    refine pairwise_map.mpr (rising.imp ?_)
    intro a b less
    exact Prod.Lex.toLex_lt_toLex.mpr (.inr ⟨rfl, less⟩)
  have first : request.phaseA.Pairwise fun a b => a.toNat < b.toNat := by
    cases request <;> exact acquireOrder_ascending _
  have second : (request.phaseB joins).Pairwise fun a b => a.toNat < b.toNat := by
    cases request <;> exact acquireOrder_ascending _
  refine pairwise_append.mpr ⟨phase .a _ first, phase .b _ second, ?_⟩
  intro x memberA y memberB
  obtain ⟨_, _, rfl⟩ := mem_map.mp memberA
  obtain ⟨_, _, rfl⟩ := mem_map.mp memberB
  exact Prod.Lex.toLex_lt_toLex.mpr (.inl Nat.zero_lt_one)

end Locks

section Steps

/-- The joins whose channels a produce locks in the second phase. -/
def Stage.joins : Stage C → List (List C)
  | .phaseB joins _ | .locked joins | .body joins _ => joins
  | _ => []

def Task.wants (task : Task C) : Option Lock :=
  match task.stage with
  | .phaseA (key :: _) => some ⟨.a, key⟩
  | .phaseB _ (key :: _) => some ⟨.b, key⟩
  | _ => none

/-- What the task may do to the store, with the locks that it holds. -/
def Task.Accesses (task : Task C) (operation : StoreOperation C P A K) : Prop :=
  match task.request, task.stage with
  | .consume channels, .locked _ => ConsumeAccess channels operation
  | .produce channel, .phaseA [] | .produce channel, .filling _ _ | .produce channel, .locked _ =>
    operation = .getJoins channel
  | .produce channel, .body _ groupedChannels => ProduceAccess channel groupedChannels operation
  | _, _ => False

/-- The channels whose data, continuations or joins the task reads or writes, with
the locks that it holds. -/
def Task.footprint (task : Task C) : List C :=
  match task.request, task.stage with
  | .consume channels, .locked _ => channels
  | .produce channel, .phaseA [] | .produce channel, .filling _ _ | .produce channel, .locked _ =>
    [channel]
  | .produce channel, .body _ groupedChannels => channel :: groupedChannels.flatten
  | _, _ => []

def StoreOperation.touched : StoreOperation C P A K → List C
  | .getContinuations channels | .putContinuation channels _ | .installContinuation channels _
  | .removeContinuation channels _ => channels
  | .getData channel | .putDatum channel _ | .removeDatum channel _ | .getJoins channel => [channel]
  | .putJoin channel join | .installJoin channel join | .removeJoin channel join => channel :: join
  | .clearCaches _ _ _ => []

theorem Task.touched_subset {task : Task C} (accesses : task.Accesses operation) :
    operation.touched ⊆ task.footprint := by
  obtain ⟨request, stage, held⟩ := task
  have flat {joins : List (List C)} {join : List C} (member : join ∈ joins) :
      join ⊆ joins.flatten := fun channel here => mem_flatten.mpr ⟨join, member, here⟩
  have one {channel : C} {channels : List C} (member : channel ∈ channels) :
      [channel] ⊆ channels := by simpa using member
  cases request with
  | consume channels =>
    cases stage with
    | locked joins =>
      cases accesses with
      | getData member | removeDatum member => exact one member
      | putContinuation wc => exact List.Subset.refl _
      | putJoin member => exact List.cons_subset.mpr ⟨member, List.Subset.refl _⟩
    | _ => exact accesses.elim
  | produce channel =>
    cases stage with
    | phaseA pending =>
      cases pending with
      | nil =>
        obtain rfl : operation = .getJoins channel := accesses
        exact List.Subset.refl _
      | cons key pending => exact accesses.elim
    | filling installed fromHistory | locked joins =>
      obtain rfl : operation = .getJoins channel := accesses
      exact List.Subset.refl _
    | body joins groupedChannels =>
      cases accesses with
      | getContinuations join => exact List.subset_cons_of_subset _ (flat join)
      | getData join member => exact one (.tail _ (flat join member))
      | removeContinuation join => exact List.subset_cons_of_subset _ (flat join)
      | removeDatum join member => exact one (.tail _ (flat join member))
      | removeJoin join member =>
        exact List.subset_cons_of_subset _ (List.cons_subset.mpr ⟨flat join member, flat join⟩)
      | putDatum d => exact one (.head _)
    | _ => exact accesses.elim

def Tasks.set [DecidableEq ι] (self : Tasks ι C P A K) (t : ι) (task : Task C) : Tasks ι C P A K :=
  { self with task := update self.task t task }

/-- A consume is done in the stage that follows its locks, a produce in the one
that follows its second look at the joins. -/
def Task.CanFinish (task : Task C) : Prop :=
  match task.request, task.stage with
  | .consume _, .locked _ => True
  | .produce _, .body _ _ => True
  | _, _ => False

variable [DecidableEq ι] [DecidableEq C] [Debug P] [Debug K] [ChannelHash C]

/-- One step of one task. Any task that can take a step may be the next. `produce_lock`
reads the joins at once, or looks for them and fills the gap while others take steps. -/
inductive Step (s : Tasks ι C P A K) : Tasks ι C P A K → Prop
  | takeA (t : ι) (key : UInt64) (pending : List UInt64)
      (stage : (s.task t).stage = .phaseA (key :: pending))
      (free : ∀ u, ⟨.a, key⟩ ∉ (s.task u).held) :
      Step s (s.set t ⟨(s.task t).request, .phaseA pending, (s.task t).held ++ [⟨.a, key⟩]⟩)
  | consumeB (t : ι) (channels : List C) (request : (s.task t).request = .consume channels)
      (stage : (s.task t).stage = .phaseA []) :
      Step s (s.set t ⟨.consume channels, .phaseB [] (Request.phaseB [] (.consume channels)),
        (s.task t).held⟩)
  | produceB (t : ι) (channel : C) (joins : List (List C))
      (request : (s.task t).request = .produce channel) (stage : (s.task t).stage = .phaseA [])
      (read : (getJoins channel s.store).1 = joins) :
      Step s (Tasks.set ⟨(getJoins channel s.store).2, s.task⟩ t ⟨.produce channel,
        .phaseB joins (Request.phaseB joins (.produce channel)), (s.task t).held⟩)
  | readJoins (t : ι) (channel : C) (fromHistory : List (List C))
      (request : (s.task t).request = .produce channel) (stage : (s.task t).stage = .phaseA [])
      (vacant : s.store.state.joins.lookup channel = none)
      (read : (InMemHotStore.getJoinsFromHistoryStore channel s.store).1 = fromHistory) :
      Step s (Tasks.set ⟨(InMemHotStore.getJoinsFromHistoryStore channel s.store).2, s.task⟩ t
        ⟨.produce channel, .filling ((s.store.state.installedJoins.lookup channel).getD [])
          fromHistory, (s.task t).held⟩)
  | fillJoins (t : ι) (channel : C) (installed fromHistory : List (List C))
      (request : (s.task t).request = .produce channel)
      (stage : (s.task t).stage = .filling installed fromHistory) :
      Step s (Tasks.set ⟨(InMemHotStore.setJoins channel fromHistory s.store).2, s.task⟩ t
        ⟨.produce channel, .phaseB (installed ++ fromHistory)
          (Request.phaseB (installed ++ fromHistory) (.produce channel)), (s.task t).held⟩)
  | takeB (t : ι) (joins : List (List C)) (key : UInt64) (pending : List UInt64)
      (stage : (s.task t).stage = .phaseB joins (key :: pending))
      (free : ∀ u, ⟨.b, key⟩ ∉ (s.task u).held) :
      Step s (s.set t ⟨(s.task t).request, .phaseB joins pending, (s.task t).held ++ [⟨.b, key⟩]⟩)
  | lock (t : ι) (joins : List (List C)) (stage : (s.task t).stage = .phaseB joins []) :
      Step s (s.set t ⟨(s.task t).request, .locked joins, (s.task t).held⟩)
  | enter (t : ι) (channel : C) (joins groupedChannels : List (List C))
      (request : (s.task t).request = .produce channel) (stage : (s.task t).stage = .locked joins)
      (read : (getJoins channel s.store).1 = groupedChannels) :
      Step s (Tasks.set ⟨(getJoins channel s.store).2, s.task⟩ t ⟨.produce channel,
        .body joins groupedChannels, (s.task t).held⟩)
  | access (t : ι) (operation : StoreOperation C P A K) (may : (s.task t).Accesses operation) :
      Step s ⟨(operation.run (fun _ _ _ => pure ()) s.store).2, s.task⟩
  | finish (t : ι) (done : (s.task t).CanFinish) :
      Step s (s.set t ⟨(s.task t).request, .finished, []⟩)

abbrev Reaches : Tasks ι C P A K → Tasks ι C P A K → Prop := Relation.ReflTransGen Step

end Steps

section Invariant

variable [ChannelHash C]

/-- The joins that a produce has locked cover those of its channel, in each of
which its channel is. -/
def Request.Covers (joinsOf : C → List (List C)) (joins : List (List C)) : Request C → Prop
  | .consume _ => True
  | .produce channel => joinsOf channel ⊆ joins ∧ ∀ join ∈ joins, channel ∈ join

/-- What is held and what is still to be taken are the locks of the task in their order. -/
def Task.Sound (joinsOf : C → List (List C)) (task : Task C) : Prop :=
  match task.stage with
  | .phaseA pending =>
    task.held ++ pending.map (⟨.a, ·⟩) = task.request.phaseA.map (⟨.a, ·⟩)
  | .filling installed fromHistory =>
    task.held = task.request.phaseA.map (⟨.a, ·⟩) ∧
      task.request.Covers joinsOf (installed ++ fromHistory)
  | .phaseB joins pending =>
    task.held ++ pending.map (⟨.b, ·⟩) = task.request.locks joins ∧
      task.request.Covers joinsOf joins
  | .locked joins => task.held = task.request.locks joins ∧ task.request.Covers joinsOf joins
  | .body joins groupedChannels =>
    task.held = task.request.locks joins ∧ task.request.Covers joinsOf joins ∧
      groupedChannels ⊆ joins
  | .finished => True

/-- The task holds all its locks of the first phase. -/
def Task.PastPhaseA (task : Task C) : Prop :=
  match task.stage with
  | .phaseA _ | .finished => False
  | _ => True

variable {task : Task C} {store : InMemHotStore C P A K} {s : Tasks ι C P A K}

theorem Task.Sound.holds_phaseA (sound : task.Sound joinsOf)
    (past : task.PastPhaseA) (member : key ∈ task.request.phaseA) :
    (⟨.a, key⟩ : Lock) ∈ task.held := by
  obtain ⟨request, stage, held⟩ := task
  have all (joins : List (List C)) : (⟨.a, key⟩ : Lock) ∈ request.locks joins :=
    mem_append_left _ (mem_map_of_mem member)
  cases stage with
  | phaseA pending => exact past.elim
  | filling installed fromHistory => exact sound.1 ▸ mem_map_of_mem member
  | phaseB joins pending =>
    have split := all joins
    rw [← sound.1, mem_append] at split
    exact split.resolve_right (by simp)
  | locked joins | body joins groupedChannels => exact sound.1 ▸ all joins
  | finished => exact past.elim

theorem Task.Sound.holds_own (sound : task.Sound joinsOf)
    (request : task.request = .produce channel)
    (past : task.PastPhaseA) : (⟨.a, channelHash channel⟩ : Lock) ∈ task.held := by
  refine sound.holds_phaseA past ?_
  rw [request]
  exact mem_acquireOrder.mpr (.head _)

theorem Task.Sound.lt_wanted (sound : task.Sound joinsOf)
    (wanted : task.wants = some lock) : ∀ other ∈ task.held, other.rank < lock.rank := by
  obtain ⟨request, stage, held⟩ := task
  cases stage with
  | phaseA pending =>
    cases pending with
    | nil => cases wanted
    | cons key pending =>
      obtain rfl := Option.some.inj wanted
      have sorted := (pairwise_append.mp (request.locks_ascending [])).1
      rw [← show held ++ (key :: pending).map (⟨.a, ·⟩) = request.phaseA.map (⟨.a, ·⟩) from sound]
        at sorted
      exact lt_of_pairwise sorted
  | phaseB joins pending =>
    cases pending with
    | nil => cases wanted
    | cons key pending =>
      obtain rfl := Option.some.inj wanted
      have sorted := request.locks_ascending joins
      rw [← sound.1] at sorted
      exact lt_of_pairwise sorted
  | _ => cases wanted

theorem Task.Sound.mono (sound : task.Sound joinsOf)
    (fewer : ∀ channel, task.request = .produce channel → task.PastPhaseA →
      joinsOf' channel ⊆ joinsOf channel) : task.Sound joinsOf' := by
  obtain ⟨request, stage, held⟩ := task
  have covers {joins : List (List C)} (past : Task.PastPhaseA ⟨request, stage, held⟩)
      (covered : request.Covers joinsOf joins) : request.Covers joinsOf' joins := by
    cases request with
    | consume channels => trivial
    | produce channel =>
      exact ⟨List.Subset.trans (fewer channel rfl past) covered.1, covered.2⟩
  cases stage with
  | phaseA pending => exact sound
  | filling installed fromHistory | phaseB joins pending | locked joins =>
    exact ⟨sound.1, covers trivial sound.2⟩
  | body joins groupedChannels => exact ⟨sound.1, covers trivial sound.2.1, sound.2.2⟩
  | finished => trivial

variable [DecidableEq C]

/-- In every state that is reached, each join of a channel has the channel in it,
no lock is held twice, and each task holds the locks it should. -/
structure Tasks.Sound (s : Tasks ι C P A K) : Prop where
  joins : ∀ channel, ∀ join ∈ s.store.view.allJoins channel, channel ∈ join
  exclusive : Exclusive fun t => (s.task t).held
  task : ∀ t, (s.task t).Sound s.store.view.allJoins

theorem Tasks.Sound.start
    (joins : ∀ channel, ∀ join ∈ store.view.allJoins channel, channel ∈ join)
    (requests : ι → Request C) :
    Tasks.Sound (⟨store, fun t => .new (requests t)⟩ : Tasks ι C P A K) where
  joins := joins
  exclusive t u lock member := by cases member
  task t := nil_append _

variable [DecidableEq ι]

theorem Tasks.Sound.set (sound : s.Sound)
    (view : store.view = s.store.view)
    (exclusive : Exclusive (update (fun u => (s.task u).held) t task.held))
    (moved : task.Sound s.store.view.allJoins) : (Tasks.set ⟨store, s.task⟩ t task).Sound where
  joins := by
    change ∀ channel, ∀ join ∈ store.view.allJoins channel, channel ∈ join
    rw [view]
    exact sound.joins
  exclusive := by
    change Exclusive (Task.held ∘ update s.task t task)
    rw [comp_update]
    exact exclusive
  task u := by
    change (update s.task t task u).Sound store.view.allJoins
    rw [view]
    by_cases same : u = t
    · subst same
      rw [update_self]
      exact moved
    · rw [update_of_ne same]
      exact sound.task u

theorem Tasks.Sound.same_held (sound : s.Sound) (t : ι) :
    Exclusive (update (fun u => (s.task u).held) t (s.task t).held) := by
  rw [update_eq_self (f := fun u => (s.task u).held)]
  exact sound.exclusive

variable [Debug P] [Debug K]

omit [DecidableEq ι] [ChannelHash C] in
/-- Only a consume adds a join, to one of its channels. -/
theorem Task.Accesses.mem_allJoins (may : task.Accesses operation)
    (member : join ∈ (operation.run (fun _ _ _ => pure ()) store).2.view.allJoins channel) :
    join ∈ store.view.allJoins channel ∨ channel ∈ join ∧ task.request = .consume join ∧
      ∃ joins, task.stage = .locked joins := by
  have commutes : Commutes InMemHotStore.view (operation.run fun _ _ _ => pure ())
    (operation.run fun _ _ _ => pure ()) :=
      InMemHotStore.run_commutes (fun _ _ _ => .pure _) operation
  rw [commutes.state] at member
  refine (EagerStore.mem_allJoins_run operation store.view member).imp_right fun added => ?_
  obtain ⟨request, stage, held⟩ := task
  cases request with
  | consume channels =>
    cases stage with
    | locked joins =>
      rcases added with rfl | rfl
      · cases may with
        | putJoin member => exact ⟨member, rfl, joins, rfl⟩
      · cases may
    | _ => exact may.elim
  | produce produced =>
    cases stage with
    | phaseA pending =>
      cases pending with
      | nil => rcases added with rfl | rfl <;> cases may
      | cons key pending => exact may.elim
    | filling installed fromHistory | locked joins | body joins groupedChannels =>
      rcases added with rfl | rfl <;> cases may
    | _ => exact may.elim

omit [DecidableEq ι] [ChannelHash C] in
theorem getJoins_read {s : InMemHotStore C P A K} (read : (getJoins channel s).1 = joins) :
    joins = s.view.allJoins channel ∧ (getJoins channel s).2.view = s.view := by
  have commutes := (InMemHotStore.isView (C := C) (P := P) (A := A) (K := K)).getJoins channel
  exact ⟨read.symm.trans (commutes.result s), commutes.state s⟩

omit [DecidableEq ι] [Debug P] [Debug K] in
/-- A task has changed the store, and has added joins only to channels whose first lock
it holds. -/
theorem Tasks.Sound.mapStore (sound : s.Sound) (own : (s.task t).Sound store.view.allJoins)
    (added : ∀ channel, ∀ join ∈ store.view.allJoins channel,
      join ∈ s.store.view.allJoins channel ∨
        channel ∈ join ∧ (⟨.a, channelHash channel⟩ : Lock) ∈ (s.task t).held) :
    Tasks.Sound (⟨store, s.task⟩ : Tasks ι C P A K) where
  joins channel join member := by
    rcases added channel join member with old | ⟨inside, _⟩
    · exact sound.joins channel join old
    · exact inside
  exclusive := sound.exclusive
  task u := by
    rcases eq_or_ne u t with rfl | other
    · exact own
    · refine (sound.task u).mono fun channel request past join member => ?_
      rcases added channel join member with old | ⟨_, taken⟩
      · exact old
      -- both would hold the lock of the produce's channel
      · exact absurd (sound.exclusive u t _ ((sound.task u).holds_own request past) taken) other

omit [DecidableEq ι] in
theorem Tasks.Sound.access (sound : s.Sound) (may : (s.task t).Accesses operation) :
    Tasks.Sound
      (⟨(operation.run (fun _ _ _ => pure ()) s.store).2, s.task⟩ : Tasks ι C P A K) := by
  refine sound.mapStore (t := t) ?_ fun channel join member => ?_
  · refine (sound.task t).mono fun channel request _ join member => ?_
    rcases may.mem_allJoins member with old | ⟨_, consume, _⟩
    · exact old
    · rw [request] at consume
      cases consume
  · refine (may.mem_allJoins member).imp_right ?_
    rintro ⟨inside, consume, joins, stage⟩
    refine ⟨inside, (sound.task t).holds_phaseA (by rw [Task.PastPhaseA, stage]; trivial) ?_⟩
    rw [consume]
    exact mem_acquireOrder.mpr (mem_map_of_mem inside)

omit [DecidableEq ι] [ChannelHash C] [Debug P] [Debug K] in
theorem mem_allJoins_setJoins
    (member : join ∈ (InMemHotStore.setJoins own joins store).2.view.allJoins channel) :
    join ∈ store.view.allJoins channel ∨ channel = own ∧ join ∈ joins := by
  have state : (InMemHotStore.setJoins own joins store).2.view = store.view.setJoins own joins :=
    (InMemHotStore.setJoins_commutes own joins).state store
  rw [state] at member
  rcases mem_append.mp member with installed | joined
  · exact .inl (mem_append_left _ installed)
  · exact (mem_update joined).symm.imp_left (mem_append_right _)

omit [DecidableEq ι] [Debug P] [Debug K] in
/-- The joins that history had are among those that the produce is going to lock. -/
theorem Tasks.Sound.fill (sound : s.Sound) (request : (s.task t).request = .produce channel)
    (stage : (s.task t).stage = .filling installed fromHistory) :
    Tasks.Sound (⟨(InMemHotStore.setJoins channel fromHistory s.store).2, s.task⟩ :
      Tasks ι C P A K) := by
  have before := sound.task t
  rw [Task.Sound, stage, request] at before
  refine sound.mapStore (t := t) ?_ fun other join member => ?_
  · rw [Task.Sound, stage, request]
    refine ⟨before.1, fun join member => ?_, before.2.2⟩
    rcases mem_allJoins_setJoins member with old | ⟨_, here⟩
    · exact before.2.1 old
    · exact mem_append_right _ here
  · rcases mem_allJoins_setJoins member with old | ⟨rfl, here⟩
    · exact .inl old
    · refine .inr ⟨before.2.2 join (mem_append_right _ here), ?_⟩
      exact (sound.task t).holds_own request (by rw [Task.PastPhaseA, stage]; trivial)

theorem Tasks.Sound.step {s' : Tasks ι C P A K} (sound : s.Sound) (step : Step s s') :
    s'.Sound := by
  cases step with
  | takeA t key pending stage free =>
    have before := sound.task t
    rw [Task.Sound, stage] at before
    refine sound.set rfl (sound.exclusive.take free t) ?_
    simpa [Task.Sound] using before
  | consumeB t channels request stage =>
    have before := sound.task t
    rw [Task.Sound, stage, request] at before
    refine sound.set rfl (sound.same_held t) ⟨?_, trivial⟩
    rw [Request.locks, ← before]
    simp
  | produceB t channel joins request stage read =>
    obtain ⟨rfl, view⟩ := getJoins_read read
    have before := sound.task t
    rw [Task.Sound, stage, request] at before
    refine sound.set view (sound.same_held t) ⟨?_, List.Subset.refl _, sound.joins _⟩
    rw [Request.locks, ← before]
    simp
  | readJoins t channel fromHistory request stage vacant read =>
    obtain ⟨result, view⟩ :=
      Prod.ext_iff.mp (InMemHotStore.getJoinsFromHistoryStore_commutes vacant)
    have all : s.store.view.allJoins channel =
        (s.store.state.installedJoins.lookup channel).getD [] ++ fromHistory :=
      congrArg (_ ++ ·) (result.trans read)
    have before := sound.task t
    rw [Task.Sound, stage, request] at before
    refine sound.set view.symm (sound.same_held t) ⟨?_, all ▸ List.Subset.refl _, ?_⟩
    · rw [← before]
      simp
    · rw [← all]
      exact sound.joins channel
  | fillJoins t channel installed fromHistory request stage =>
    have filled := sound.fill request stage
    have after := filled.task t
    rw [Task.Sound, stage, request] at after
    refine filled.set rfl (filled.same_held t) ⟨?_, after.2⟩
    exact congrArg (· ++ _) after.1
  | takeB t joins key pending stage free =>
    have before := sound.task t
    rw [Task.Sound, stage] at before
    refine sound.set rfl (sound.exclusive.take free t) ?_
    simpa [Task.Sound] using before
  | lock t joins stage =>
    have before := sound.task t
    rw [Task.Sound, stage] at before
    refine sound.set rfl (sound.same_held t) ?_
    simpa [Task.Sound] using before
  | enter t channel joins groupedChannels request stage read =>
    obtain ⟨rfl, view⟩ := getJoins_read read
    have before := sound.task t
    rw [Task.Sound, stage, request] at before
    exact sound.set view (sound.same_held t) ⟨before.1, before.2, before.2.1⟩
  | access t operation may => exact sound.access may
  | finish t done => exact sound.set rfl (sound.exclusive.release t) trivial

theorem Tasks.Sound.reaches (sound : s.Sound) (run : Reaches s s') : s'.Sound := by
  induction run with
  | refl => exact sound
  | tail _ step ih => exact ih.step step

end Invariant

section Coverage

variable [ChannelHash C]

/-- A produce that found no joins of its channel or still looks for them, beside one on
another channel that found joins with this channel in them. -/
def LeftOut (left right : Task C) : Prop :=
  ∃ channel other, left.request = .produce channel ∧ left.stage.joins = [] ∧
    right.request = .produce other ∧ channel ∈ right.stage.joins.flatten

/-- The channels of a task's footprint are locked: its own in the first phase, and
all others in the second. -/
inductive Task.Locks (task : Task C) (channel : C) : Prop
  | consumed (first : (⟨.a, channelHash channel⟩ : Lock) ∈ task.held)
      (second : (⟨.b, channelHash channel⟩ : Lock) ∈ task.held)
  | produced (own : task.request = .produce channel)
      (first : (⟨.a, channelHash channel⟩ : Lock) ∈ task.held)
      (joined : task.stage.joins ≠ [] → (⟨.b, channelHash channel⟩ : Lock) ∈ task.held)
  | joined (produced : task.request = .produce other)
      (inside : channel ∈ task.stage.joins.flatten)
      (second : (⟨.b, channelHash channel⟩ : Lock) ∈ task.held)

theorem Request.joined_mem_locks (inside : channel ∈ joins.flatten) (own : C) :
    (⟨.b, channelHash channel⟩ : Lock) ∈ (Request.produce own).locks joins :=
  mem_append_right _ (mem_map_of_mem (mem_acquireOrder.mpr (mem_map_of_mem inside)))

theorem Request.own_mem_locks (joins : List (List C)) (own : C) :
    (⟨.a, channelHash own⟩ : Lock) ∈ (Request.produce own).locks joins :=
  mem_append_left _ (mem_map_of_mem (mem_acquireOrder.mpr (.head _)))

theorem Request.consumed_mem_locks (member : channel ∈ channels) (phase : LockPhase)
    (joins : List (List C)) :
    ⟨phase, channelHash channel⟩ ∈ (Request.consume channels).locks joins := by
  have key : channelHash channel ∈ acquireOrder (channels.map channelHash) :=
    mem_acquireOrder.mpr (mem_map_of_mem member)
  cases phase with
  | a => exact mem_append_left _ (mem_map_of_mem key)
  | b => exact mem_append_right _ (mem_map_of_mem key)

theorem Task.Sound.locks {task : Task C} (sound : task.Sound joinsOf)
    (member : channel ∈ task.footprint) : task.Locks channel := by
  obtain ⟨request, stage, held⟩ := task
  cases request with
  | consume channels =>
    cases stage with
    | locked joins =>
      have holds : held = (Request.consume channels).locks joins := sound.1
      subst holds
      exact .consumed (Request.consumed_mem_locks member .a joins)
        (Request.consumed_mem_locks member .b joins)
    | _ => cases member
  | produce own =>
    have joined {joins : List (List C)} (inside : ∀ join ∈ joins, own ∈ join) (some : joins ≠ []) :
        (⟨.b, channelHash own⟩ : Lock) ∈ (Request.produce own).locks joins := by
      obtain ⟨join, here⟩ := exists_mem_of_ne_nil joins some
      exact Request.joined_mem_locks (mem_flatten.mpr ⟨join, here, inside join here⟩) own
    cases stage with
    | phaseA pending =>
      cases pending with
      | nil =>
        obtain rfl := mem_singleton.mp member
        have holds : held = (Request.produce channel).phaseA.map (⟨.a, ·⟩) :=
          (append_nil held).symm.trans sound
        subst holds
        exact .produced rfl (mem_map_of_mem (mem_acquireOrder.mpr (.head _))) (absurd rfl)
      | cons key pending => cases member
    | filling installed fromHistory =>
      obtain rfl := mem_singleton.mp member
      exact .produced rfl (sound.holds_own rfl trivial) (absurd rfl)
    | locked joins =>
      have holds : held = (Request.produce own).locks joins := sound.1
      subst holds
      obtain rfl := mem_singleton.mp member
      exact .produced rfl (Request.own_mem_locks joins _) (joined sound.2.2)
    | body joins groupedChannels =>
      have holds : held = (Request.produce own).locks joins := sound.1
      subst holds
      rcases mem_cons.mp member with rfl | grouped
      · exact .produced rfl (Request.own_mem_locks joins _) (joined sound.2.1.2)
      · obtain ⟨join, here, member⟩ := mem_flatten.mp grouped
        have flat := mem_flatten.mpr ⟨join, sound.2.2 here, member⟩
        exact .joined rfl flat (Request.joined_mem_locks flat own)
    | _ => cases member

theorem Task.Locks.common {left right : Task C} (first : left.Locks channel)
    (second : right.Locks channel) :
    (∃ lock ∈ left.held, lock ∈ right.held) ∨ LeftOut left right ∨ LeftOut right left := by
  cases first with
  | consumed a b =>
    cases second with
    | consumed a' b' | produced own a' joined => exact .inl ⟨_, a, a'⟩
    | joined produced inside b' => exact .inl ⟨_, b, b'⟩
  | produced own a joined =>
    cases second with
    | consumed a' b' | produced own' a' joined' => exact .inl ⟨_, a, a'⟩
    | joined produced inside b' =>
      by_cases none : left.stage.joins = []
      · exact .inr (.inl ⟨_, _, own, none, produced, inside⟩)
      · exact .inl ⟨_, joined none, b'⟩
  | joined produced inside b =>
    cases second with
    | consumed a' b' => exact .inl ⟨_, b, b'⟩
    | produced own' a' joined' =>
      by_cases none : right.stage.joins = []
      · exact .inr (.inr ⟨_, _, own', none, produced, inside⟩)
      · exact .inl ⟨_, b, joined' none⟩
    | joined produced' inside' b' => exact .inl ⟨_, b, b'⟩

variable [DecidableEq ι] [DecidableEq C] [Debug P] [Debug K]

/-- Lock coverage, in every state that tasks reach, however their steps interleave,
from a store in which every join of a channel has the channel in it. What a task
reads or writes is in its footprint. Two tasks whose footprints meet share a lock,
unless one is a produce that found no join of its channel, or still looks for them
under its first lock, and the other a produce that found this channel in a join. And no
task waits for itself. -/
theorem lock_coverage {store : InMemHotStore C P A K} {requests : ι → Request C}
    (joins : ∀ channel, ∀ join ∈ store.view.allJoins channel, channel ∈ join)
    (run : Reaches ⟨store, fun t => .new (requests t)⟩ s) :
    (∀ t (operation : StoreOperation C P A K), (s.task t).Accesses operation →
      operation.touched ⊆ (s.task t).footprint) ∧
    (∀ t u, t ≠ u → ∀ channel ∈ (s.task t).footprint, channel ∈ (s.task u).footprint →
      (∃ lock ∈ (s.task t).held, lock ∈ (s.task u).held) ∨
        LeftOut (s.task t) (s.task u) ∨ LeftOut (s.task u) (s.task t)) ∧
    ∀ t, ¬ Relation.TransGen
      (WaitsFor (fun u => (s.task u).wants) fun u => (s.task u).held) t t := by
  have sound := (Tasks.Sound.start joins requests).reaches run
  refine ⟨fun t operation may => Task.touched_subset may, ?_, ?_⟩
  · intro t u _ channel first second
    exact ((sound.task t).locks first).common ((sound.task u).locks second)
  · have ascending : Ascending Lock.rank (fun u => (s.task u).wants) fun u => (s.task u).held :=
      fun t lock wanted => (sound.task t).lt_wanted wanted
    exact ascending.no_cycle

end Coverage

section Bodies

variable [DecidableEq C] [Debug P] [Debug K] [ThreadRng] [Match P A]

/-- Whatever others do to the store between its accesses, the body of a consume or of a produce
does to it only what the task may do that holds its locks. -/
theorem bodies_follow_tasks (self : Space (InMemHotStore C P A K) C P K)
    (others : List (InMemHotStore C P A K → InMemHotStore C P A K)) (joins : List (List C))
    (held : List Lock) :
    let shared := self.mapStore (Interfered.mk · others [])
    (∀ channels patterns continuation persist peeks consumeRef,
      ∀ operation ∈ (Space.lockedConsume channels patterns continuation persist peeks consumeRef
        shared).2.store.accesses,
          Task.Accesses ⟨.consume channels, .locked joins, held⟩ operation) ∧
    ∀ channel data persist produceRef,
      ∀ operation ∈ (Space.lockedProduce channel data persist produceRef shared).2.store.accesses,
        Task.Accesses ⟨.produce channel, .locked joins, held⟩ operation ∨
        Task.Accesses ⟨.produce channel, .body joins (getJoins channel shared.store).1, held⟩
          operation := by
  intro shared
  constructor
  · intro channels patterns continuation persist peeks consumeRef
    refine (Space.lockedConsume_keeps (Interfered.permits (ConsumeAccess channels))
      (fun _ access => access) patterns continuation persist peeks consumeRef shared ?_).1
    exact fun _ member => by cases member
  · intro channel data persist produceRef
    refine Space.lockedProduce_run_keeps (Interfered.permits fun operation =>
      operation = .getJoins channel ∨ ProduceAccess channel (getJoins channel shared.store).1
        operation) shared ?_ (fun _ access => .inr access) data persist produceRef
    -- the joins are read first
    exact forall_mem_singleton.mpr (.inl rfl)

end Bodies

section Runs

open ByteSpace

local instance : ChannelHash UInt8 := ⟨UInt8.toUInt64⟩

/-- A continuation waits on three channels, with data on the first and the last. -/
def waitingStore : InMemHotStore UInt8 UInt8 UInt8 UInt8 :=
  (ByteSpace.after [.consume [1, 2, 3] [0, 0, 0] 7 false .none, .produce 1 5 false,
    .produce 3 6 false]).store

def twoProduces (t : Bool) : Task UInt8 := .new (if t then .produce 3 else .produce 2)

/-- The produce on 2 fires the continuation. When it has removed the join from the
last channel, the produce on 3 takes its locks. -/
theorem twoProduces_reach :
    ∃ s : Tasks Bool UInt8 UInt8 UInt8 UInt8, Reaches ⟨waitingStore, twoProduces⟩ s ∧
      s.task false = ⟨.produce 2, .body [[1, 2, 3]] [[1, 2, 3]],
        [⟨.a, 2⟩, ⟨.b, 1⟩, ⟨.b, 2⟩, ⟨.b, 3⟩]⟩ ∧
      s.task true = ⟨.produce 3, .body [] [], [⟨.a, 3⟩]⟩ := by
  have join : [1, 2, 3] ∈ [[(1 : UInt8), 2, 3]] := mem_singleton_self _
  have run : Reaches (⟨waitingStore, twoProduces⟩ : Tasks Bool UInt8 UInt8 UInt8 UInt8) _ := .refl
  replace run := run.tail (.takeA false 2 [] rfl (by decide))
  replace run := run.tail (.produceB false 2 [[1, 2, 3]] rfl rfl (by decide +kernel))
  replace run := run.tail (.takeB false _ 1 [2, 3] rfl (by decide))
  replace run := run.tail (.takeB false _ 2 [3] rfl (by decide))
  replace run := run.tail (.takeB false _ 3 [] rfl (by decide))
  replace run := run.tail (.lock false _ rfl)
  replace run := run.tail (.enter false 2 _ [[1, 2, 3]] rfl rfl (by decide +kernel))
  replace run := run.tail (.access false (.removeContinuation [1, 2, 3] 0)
    (.removeContinuation join 0))
  replace run := run.tail (.access false (.removeJoin 2 [1, 2, 3]) (.removeJoin join (by decide)))
  replace run := run.tail (.access false (.removeDatum 3 0) (.removeDatum join (by decide) 0))
  replace run := run.tail (.access false (.removeJoin 3 [1, 2, 3]) (.removeJoin join (by decide)))
  replace run := run.tail (.takeA true 3 [] rfl (by decide))
  replace run := run.tail (.produceB true 3 [] rfl rfl (by decide +kernel))
  replace run := run.tail (.lock true [] rfl)
  replace run := run.tail (.enter true 3 [] [] rfl rfl (by decide +kernel))
  exact ⟨_, run, rfl, rfl⟩

/-- Two produces that both hold their locks and share none, although both may
still access channel 3. -/
theorem produces_share_no_lock :
    ∃ s : Tasks Bool UInt8 UInt8 UInt8 UInt8, Reaches ⟨waitingStore, twoProduces⟩ s ∧
      3 ∈ (s.task false).footprint ∧ 3 ∈ (s.task true).footprint ∧
      (∀ lock ∈ (s.task false).held, lock ∉ (s.task true).held) ∧
      (s.task false).Accesses
        (.removeJoin 1 [1, 2, 3] : StoreOperation UInt8 UInt8 UInt8 UInt8) ∧
      ∀ d, (s.task true).Accesses (.putDatum 3 d : StoreOperation UInt8 UInt8 UInt8 UInt8) := by
  obtain ⟨s, run, first, second⟩ := twoProduces_reach
  refine ⟨s, run, ?_⟩
  rw [first, second]
  exact ⟨by decide, by decide, by decide, .removeJoin (mem_singleton_self _) (by decide),
    fun d => .putDatum d⟩

theorem after_joins (operations : List ByteSpace.Op) :
    ∀ channel, ∀ join ∈ (ByteSpace.after operations).store.view.allJoins channel,
      channel ∈ join := by
  intro channel join member
  have consistent : Consistent ((ByteSpace.after operations).mapStore InMemHotStore.view).store :=
    Space.run_empty_invariant (fun space => Consistent space.store) .empty
      (fun consistent effect => effect.consistent consistent) operations
  exact ((consistent.mem_allJoins channel join).mp member).1

def threeRequests : Fin 3 → Request UInt8
  | 0 => .produce 2
  | 1 => .consume [4, 5]
  | 2 => .produce 3

/-- A produce and a consume on other channels in their bodies, and a produce that waits. -/
theorem lock_coverage_sample :
    ∃ s : Tasks (Fin 3) UInt8 UInt8 UInt8 UInt8,
      Reaches ⟨waitingStore, fun t => .new (threeRequests t)⟩ s ∧
      (s.task 0).footprint = [2, 1, 2, 3] ∧ (s.task 1).footprint = [4, 5] ∧
      (s.task 2).wants = some ⟨.b, 1⟩ ∧
      (∀ t u, t ≠ u → ∀ channel ∈ (s.task t).footprint, channel ∈ (s.task u).footprint →
        (∃ lock ∈ (s.task t).held, lock ∈ (s.task u).held) ∨
          LeftOut (s.task t) (s.task u) ∨ LeftOut (s.task u) (s.task t)) ∧
      ∀ t, ¬ Relation.TransGen
        (WaitsFor (fun u => (s.task u).wants) fun u => (s.task u).held) t t := by
  have run : Reaches (⟨waitingStore, fun t => .new (threeRequests t)⟩ :
    Tasks (Fin 3) UInt8 UInt8 UInt8 UInt8) _ := .refl
  replace run := run.tail (.takeA 0 2 [] rfl (by decide))
  replace run := run.tail (.produceB 0 2 [[1, 2, 3]] rfl rfl (by decide +kernel))
  replace run := run.tail (.takeB 0 _ 1 [2, 3] rfl (by decide))
  replace run := run.tail (.takeB 0 _ 2 [3] rfl (by decide))
  replace run := run.tail (.takeB 0 _ 3 [] rfl (by decide))
  replace run := run.tail (.lock 0 _ rfl)
  replace run := run.tail (.enter 0 2 _ [[1, 2, 3]] rfl rfl (by decide +kernel))
  replace run := run.tail (.takeA 1 4 [5] rfl (by decide))
  replace run := run.tail (.takeA 1 5 [] rfl (by decide))
  replace run := run.tail (.consumeB 1 _ rfl rfl)
  replace run := run.tail (.takeB 1 _ 4 [5] rfl (by decide))
  replace run := run.tail (.takeB 1 _ 5 [] rfl (by decide))
  replace run := run.tail (.lock 1 _ rfl)
  replace run := run.tail (.takeA 2 3 [] rfl (by decide))
  replace run := run.tail (.produceB 2 3 [[1, 2, 3]] rfl rfl (by decide +kernel))
  exact ⟨_, run, rfl, rfl, rfl, (lock_coverage (after_joins _) run).2⟩

end Runs

end F1r3fly.RSpace
