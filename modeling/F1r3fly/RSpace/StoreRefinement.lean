import F1r3fly.Data.StateInvariant
import F1r3fly.RSpace.Changes

/-! Whole runs of a hot store against the maps it stands for. The bounded caches of the history may
be cleared between any two operations. -/
namespace F1r3fly.RSpace

open StateView StateInvariant Function HashMapOrder

variable {C P A K : Type}

section Writing

variable [DecidableEq C]

def HistoryReaderBase.apply (self : HistoryReaderBase C P A K) :
    HotStoreAction C P A K → HistoryReaderBase C P A K
  | .insertData channel data => { self with getData := update self.getData channel data }
  | .insertContinuations channels continuations =>
    { self with getContinuations := update self.getContinuations channels continuations }
  | .insertJoins channel joins =>
    { self with getJoins := update self.getJoins channel joins }
  | .deleteData channel => { self with getData := update self.getData channel [] }
  | .deleteContinuations channels =>
    { self with getContinuations := update self.getContinuations channels [] }
  | .deleteJoins channel => { self with getJoins := update self.getJoins channel [] }

/-- The history that holds what a store holds, without what is installed. -/
def EagerStore.toHistory (self : EagerStore C P A K) : HistoryReaderBase C P A K :=
  ⟨self.data, self.continuations, self.joins⟩

/-- A loop over the entries of a map, in any order, that changes what is seen at the entry of
one key only. -/
theorem foldl_entries {α β γ σ : Type} [DecidableEq α] [HashMapOrder] (map : AList fun _ : α => β)
    (see : σ → γ) (key : Option α) (change : γ → β → γ)
    (step : σ → (Sigma fun _ : α => β) → σ)
    (steps : ∀ s entry, see (step s entry) =
      if key = some entry.1 then change (see s) entry.2 else see s) (start : σ) :
    see ((order map.entries).foldl step start) =
      (key.bind map.lookup).elim (see start) (change (see start)) := by
  have seen (entries : List (Sigma fun _ : α => β)) (nodup : entries.NodupKeys) (start : σ) :
      see (entries.foldl step start) =
        (key.bind entries.dlookup).elim (see start) (change (see start)) := by
    induction entries generalizing start with
    | nil => cases key <;> rfl
    | cons entry entries ih =>
      obtain ⟨fresh, nodup⟩ := List.nodupKeys_cons.mp nodup
      rw [foldl_cons, ih nodup, steps]
      rcases key with _ | key
      · rfl
      by_cases same : key = entry.1
      · subst same
        rw [bind_some, List.dlookup_eq_none.mpr fresh, bind_some, List.dlookup_cons_eq]
        simp
      · simp [List.dlookup_cons_ne _ _ same, same]
  have perm := perm map.entries
  have nodup : (order map.entries).NodupKeys :=
    (List.perm_nodupKeys perm).mpr map.nodupKeys
  rw [seen _ nodup]
  cases key with
  | none => rfl
  | some key =>
    rw [bind_some, List.perm_dlookup key nodup perm]
    rfl

theorem foldl_update_entries {α β : Type} [DecidableEq α] [HashMapOrder]
    (map : AList fun _ : α => β)
    (f : α → β) :
    (order map.entries).foldl (fun g entry => update g entry.1 entry.2) f =
      fun key => (map.lookup key).getD (f key) := by
  funext key
  rw [foldl_entries map (fun g : α → β => g key) (some key) fun _ value => value]
  · cases found : map.lookup key <;> simp [found]
  · intro g entry
    simp [update_apply]

/-- Actions that each write one entry of a field write the entries to the field. -/
theorem foldl_apply_entries {α β : Type} [DecidableEq α]
    (field : HistoryReaderBase C P A K → α → β)
    (set : HistoryReaderBase C P A K → (α → β) → HistoryReaderBase C P A K)
    (field_set : ∀ reader f, field (set reader f) = f)
    (set_field : ∀ reader, set reader (field reader) = reader)
    (set_set : ∀ reader f g, set (set reader f) g = set reader g)
    (action : (Sigma fun _ : α => β) → HotStoreAction C P A K)
    (writes : ∀ reader entry, HistoryReaderBase.apply reader (action entry) =
      set reader (update (field reader) entry.1 entry.2))
    (entries : List (Sigma fun _ : α => β)) (reader : HistoryReaderBase C P A K) :
    (entries.map action).foldl .apply reader = set reader
      (entries.foldl (fun g entry => update g entry.1 entry.2) (field reader)) := by
  induction entries generalizing reader with
  | nil => exact (set_field reader).symm
  | cons entry entries ih =>
    rw [map_cons, foldl_cons, ih, writes, field_set, set_set]
    rfl

namespace InMemHotStore

def single : List C → Option C
  | [channel] => some channel
  | _ => none

theorem single_eq_some : single channels = some channel ↔ channels = [channel] := by
  rcases channels with _ | ⟨first, _ | ⟨second, rest⟩⟩ <;> simp [single]

variable [HashMapOrder]

/-- The changes of a store, written to the history it reads, give the history of
what it holds. -/
theorem foldl_apply_changes (self : InMemHotStore C P A K) :
    self.changes.foldl .apply self.historyReaderBase = self.view.toHistory := by
  have continuations := foldl_apply_entries (C := C) (P := P) (A := A) (K := K)
    (·.getContinuations) (fun reader f => { reader with getContinuations := f })
    (fun _ _ => rfl) (fun _ => rfl) (fun _ _ _ => rfl)
    (fun entry => if entry.2.isEmpty then .deleteContinuations entry.1
      else .insertContinuations entry.1 entry.2)
  have data := foldl_apply_entries (C := C) (P := P) (A := A) (K := K)
    (·.getData) (fun reader f => { reader with getData := f })
    (fun _ _ => rfl) (fun _ => rfl) (fun _ _ _ => rfl)
    (fun entry => if entry.2.isEmpty then .deleteData entry.1 else .insertData entry.1 entry.2)
  have joins := foldl_apply_entries (C := C) (P := P) (A := A) (K := K)
    (·.getJoins) (fun reader f => { reader with getJoins := f })
    (fun _ _ => rfl) (fun _ => rfl) (fun _ _ _ => rfl)
    (fun entry => if entry.2.isEmpty then .deleteJoins entry.1 else .insertJoins entry.1 entry.2)
  rw [changes, foldl_append, foldl_append, continuations, data, joins]
  · simp only [foldl_update_entries]
    rfl
  -- an entry that is left empty is deleted, which is writing the empty list
  · rintro reader ⟨channel, _ | ⟨join, joins⟩⟩ <;> rfl
  · rintro reader ⟨channel, _ | ⟨datum, datums⟩⟩ <;> rfl
  · rintro reader ⟨channels, _ | ⟨wc, wcs⟩⟩ <;> rfl

variable (self : InMemHotStore C P A K)

theorem lookup_allContinuations (channels : List C) :
    (self.allContinuations.lookup channels).getD [] =
      (self.state.continuations.lookup channels).getD [] ++
        (self.state.installedContinuations.lookup channels).toList := by
  have pushed := foldl_entries self.state.installedContinuations
    (fun all : AList fun _ : List C => List (WaitingContinuation P K) => all.lookup channels)
    (some channels) fun old wc => some (old.getD [] ++ [wc])
  rw [allContinuations, pushed]
  · cases found : self.state.installedContinuations.lookup channels <;> simp [found]
  · intro all entry
    by_cases same : channels = entry.1
    · subst same
      simp
    · simp [same]

/-- What is stored under a list of channels. Data are under a single channel. -/
def row (channels : List C) : Row P A K where
  data := ((single channels).bind self.state.data.lookup).getD []
  wks := (self.state.continuations.lookup channels).getD [] ++
    (self.state.installedContinuations.lookup channels).toList

/-- The rows of a dump are those of the channels that have an entry for data. -/
theorem lookup_toMap (channels : List C) :
    self.toMap.lookup channels = ((single channels).bind self.state.data.lookup).bind fun data =>
      if data.isEmpty && (self.row channels).wks.isEmpty then none
      else some ⟨data, (self.row channels).wks⟩ := by
  have written := foldl_entries self.state.data
    (fun map : AList fun _ : List C => Row P A K => map.lookup channels) (single channels)
    fun old data => if data.isEmpty && (self.row channels).wks.isEmpty then old
      else some ⟨data, (self.row channels).wks⟩
  rw [toMap, written]
  · cases (single channels).bind self.state.data.lookup <;> simp
  · intro map entry
    simp only [lookup_allContinuations, single_eq_some]
    by_cases same : channels = [entry.1]
    · subst same
      split <;> simp_all [row]
    · rw [if_neg same]
      split
      · rfl
      · exact AList.lookup_insert_ne same

theorem toMap_complete_iff :
    (∀ channels, self.row channels ≠ ⟨[], []⟩ →
      self.toMap.lookup channels = some (self.row channels)) ↔
    ∀ channels, (self.row channels).wks ≠ [] →
      ∃ channel ∈ self.state.data, channels = [channel] := by
  constructor
  · intro complete channels waiting
    have found := complete channels fun empty => waiting (congrArg Row.wks empty)
    rw [lookup_toMap, bind_eq_some_iff] at found
    obtain ⟨data, stored, -⟩ := found
    obtain ⟨channel, only, stored⟩ := bind_eq_some_iff.mp stored
    exact ⟨channel, AList.lookup_isSome.mp (Option.isSome_of_mem stored), single_eq_some.mp only⟩
  · intro covered channels nonempty
    rw [lookup_toMap]
    cases stored : (single channels).bind self.state.data.lookup with
    | some data =>
      have shown : self.row channels = ⟨data, (self.row channels).wks⟩ := by
        simp only [row, stored, getD_some]
      have kept : ¬ (data.isEmpty && (self.row channels).wks.isEmpty) = true := by
        intro empty
        rw [and_eq_true, List.isEmpty_iff, List.isEmpty_iff] at empty
        exact nonempty (by rw [shown, empty.1, empty.2])
      rw [bind_some, if_neg kept, ← shown]
    | none =>
      have waiting : (self.row channels).wks ≠ [] := by
        intro none
        refine nonempty ?_
        simp only [row, stored, Option.getD_none] at none ⊢
        rw [none]
      obtain ⟨channel, present, rfl⟩ := covered channels waiting
      obtain ⟨data, found⟩ := isSome_iff_exists.mp (AList.lookup_isSome.mpr present)
      rw [single, bind_some, found] at stored
      cases stored

end InMemHotStore

end Writing

def InMemHotStore.joined : InMemHotStore Nat Unit Unit Unit where
  state := { HotStoreState.empty with
    continuations := AList.singleton [0, 1] [⟨[(), ()], (), false, .none, ⟨[], [], false⟩⟩] }
  historyReaderBase := .empty
  historyCache := .empty

theorem InMemHotStore.joined_not_dumped :
    (joined.row [0, 1]).wks ≠ [] ∧
      ¬ ∃ _ : HashMapOrder, joined.toMap.lookup [0, 1] = some (joined.row [0, 1]) := by
  constructor
  · decide
  · rintro ⟨_, found⟩
    rw [lookup_toMap] at found
    cases found

/-- The operations of a hot store, and the clearing of its caches. -/
inductive StoreOperation (C P A K : Type) where
  | getContinuations (channels : List C)
  | putContinuation (channels : List C) (wc : WaitingContinuation P K)
  | installContinuation (channels : List C) (wc : WaitingContinuation P K)
  | removeContinuation (channels : List C) (index : Int)
  | getData (channel : C)
  | putDatum (channel : C) (d : Datum A)
  | removeDatum (channel : C) (index : Int)
  | getJoins (channel : C)
  | putJoin (channel : C) (join : List C)
  | installJoin (channel : C) (join : List C)
  | removeJoin (channel : C) (join : List C)
  | clearCaches (continuations datums joins : Bool)

inductive StoreOutcome (C P A K : Type) where
  | continuations (found : List (WaitingContinuation P K))
  | data (found : List (Datum A))
  | joins (found : List (List C))
  | inserted (added : Option Bool)
  | changed (done : Option Unit)
  | removed (result : Except RSpaceError Unit)
  | none

/-- The caches of a store emptied, each or not. -/
def InMemHotStore.clearCaches (continuations datums joins : Bool) :
    StateM (InMemHotStore C P A K) Unit :=
  modify fun self => { self with historyCache := {
    continuations := if continuations then .empty else self.historyCache.continuations
    datums := if datums then .empty else self.historyCache.datums
    joins := if joins then .empty else self.historyCache.joins } }

def StoreOperation.run {S : Type} [HotStore S C P A K]
    (clearCaches : Bool → Bool → Bool → StateM S Unit) :
    StoreOperation C P A K → StateM S (StoreOutcome C P A K)
  | .getContinuations channels => do pure (.continuations (← HotStore.getContinuations channels))
  | .putContinuation channels wc => do pure (.inserted (← HotStore.putContinuation channels wc))
  | .installContinuation channels wc => do
    pure (.changed (← HotStore.installContinuation channels wc))
  | .removeContinuation channels index => do
    pure (.changed (← HotStore.removeContinuation channels index))
  | .getData channel => do pure (.data (← HotStore.getData channel))
  | .putDatum channel d => do
    HotStore.putDatum channel d
    pure .none
  | .removeDatum channel index => do pure (.removed (← HotStore.removeDatum channel index))
  | .getJoins channel => do pure (.joins (← HotStore.getJoins channel))
  | .putJoin channel join => do pure (.changed (← HotStore.putJoin channel join))
  | .installJoin channel join => do pure (.changed (← HotStore.installJoin channel join))
  | .removeJoin channel join => do pure (.changed (← HotStore.removeJoin channel join))
  | .clearCaches continuations datums joins => do
    clearCaches continuations datums joins
    pure .none

def StoreOperation.runAll {S : Type} [HotStore S C P A K]
    (clearCaches : Bool → Bool → Bool → StateM S Unit)
    (operations : List (StoreOperation C P A K)) :
    StateM S (List (StoreOutcome C P A K)) :=
  operations.mapM (StoreOperation.run clearCaches)

namespace InMemHotStore

variable [DecidableEq C]

section History

variable (channel : C) (channels : List C) (s : InMemHotStore C P A K)

theorem reader_currentContinuations :
    (currentContinuations channels s).2.historyReaderBase = s.historyReaderBase := by
  rw [currentContinuations, run_get_bind]
  cases s.state.continuations.lookup channels <;> rfl

theorem reader_currentData : (currentData channel s).2.historyReaderBase = s.historyReaderBase := by
  rw [currentData, run_get_bind]
  cases s.state.data.lookup channel <;> rfl

theorem reader_currentJoins :
    (currentJoins channel s).2.historyReaderBase = s.historyReaderBase := by
  rw [currentJoins, run_get_bind]
  cases s.state.joins.lookup channel <;> rfl

theorem reader_getContinuations :
    (getContinuations channels s).2.historyReaderBase = s.historyReaderBase := by
  rw [getContinuations, run_get_bind]
  cases s.state.continuations.lookup channels <;>
    cases s.state.installedContinuations.lookup channels <;> rfl

theorem reader_getData : (getData channel s).2.historyReaderBase = s.historyReaderBase := by
  rw [getData, run_get_bind]
  cases s.state.data.lookup channel <;> rfl

theorem reader_getJoins : (getJoins channel s).2.historyReaderBase = s.historyReaderBase := by
  rw [getJoins, run_get_bind]
  cases s.state.joins.lookup channel <;> rfl

theorem reader_removeContinuation (index : Int) :
    (removeContinuation channels index s).2.historyReaderBase = s.historyReaderBase := by
  rw [removeContinuation, run_get_bind]
  split
  · rfl
  · exact reader_currentContinuations channels s

theorem reader_removeJoin (join : List C) :
    (removeJoin channel join s).2.historyReaderBase = s.historyReaderBase := by
  have kept := reader_currentContinuations join s
  rw [removeJoin, run_get_bind, StateInvariant.run_bind]
  split
  · exact (reader_currentJoins channel _).trans kept
  · split <;> exact kept

end History

theorem clearCaches_commutes (continuations datums joins : Bool) :
    Commutes (view (C := C) (P := P) (A := A) (K := K)) (clearCaches continuations datums joins)
      (pure ()) :=
  fun _ => rfl

variable [Debug P] [Debug K]

theorem reader_run (operation : StoreOperation C P A K) (s : InMemHotStore C P A K) :
    (operation.run clearCaches s).2.historyReaderBase = s.historyReaderBase := by
  cases operation with
  | getContinuations channels => exact reader_getContinuations channels s
  | putContinuation channels wc => exact reader_currentContinuations channels s
  | installContinuation channels wc => rfl
  | removeContinuation channels index => exact reader_removeContinuation channels s index
  | getData channel => exact reader_getData channel s
  | putDatum channel d | removeDatum channel index => exact reader_currentData channel s
  | getJoins channel => exact reader_getJoins channel s
  | putJoin channel join => exact reader_currentJoins channel s
  | installJoin channel join => rfl
  | removeJoin channel join => exact reader_removeJoin channel s join
  | clearCaches continuations datums joins => rfl

/-- Clearing that the view does not see, and every operation, commute with the view. -/
theorem run_commutes {clear : Bool → Bool → Bool → StateM (InMemHotStore C P A K) Unit}
    (unseen : ∀ continuations datums joins,
      Commutes view (clear continuations datums joins) (pure ()))
    (operation : StoreOperation C P A K) :
    Commutes view (operation.run clear) (operation.run fun _ _ _ => pure ()) := by
  cases operation with
  | getContinuations channels => exact (isView.getContinuations channels).bind fun _ => .pure _
  | putContinuation channels wc => exact (isView.putContinuation channels wc).bind fun _ => .pure _
  | installContinuation channels wc =>
    exact (isView.installContinuation channels wc).bind fun _ => .pure _
  | removeContinuation channels index =>
    exact (isView.removeContinuation channels index).bind fun _ => .pure _
  | getData channel => exact (isView.getData channel).bind fun _ => .pure _
  | putDatum channel d => exact (isView.putDatum channel d).bind fun _ => .pure _
  | removeDatum channel index => exact (isView.removeDatum channel index).bind fun _ => .pure _
  | getJoins channel => exact (isView.getJoins channel).bind fun _ => .pure _
  | putJoin channel join => exact (isView.putJoin channel join).bind fun _ => .pure _
  | installJoin channel join => exact (isView.installJoin channel join).bind fun _ => .pure _
  | removeJoin channel join => exact (isView.removeJoin channel join).bind fun _ => .pure _
  | clearCaches continuations datums joins =>
    exact (unseen continuations datums joins).bind fun _ => .pure _

/-- The hot store refines the maps of its history: whatever operations are
performed, and wherever between them the caches are cleared, every operation
returns what it returns on the maps; and the changes written to the history give
the data, the continuations that are not installed and the joins of the maps. -/
theorem hotStore_refines_eagerStore [HashMapOrder] (reader : HistoryReaderBase C P A K)
    (operations : List (StoreOperation C P A K)) :
    let hot := StoreOperation.runAll clearCaches operations (createFromHr reader)
    let eager := StoreOperation.runAll (fun _ _ _ => pure ()) operations
      (EagerStore.ofHistory reader)
    hot.1 = eager.1 ∧
      hot.2.changes.foldl .apply reader = ⟨eager.2.data, eager.2.continuations, eager.2.joins⟩ := by
  intro hot eager
  have commutes : Commutes view (StoreOperation.runAll (S := InMemHotStore C P A K) clearCaches
      operations) (StoreOperation.runAll (fun _ _ _ => pure ()) operations) :=
    .mapM (run_commutes clearCaches_commutes) operations
  have same := commutes (createFromHr reader)
  obtain ⟨outcomes, store⟩ := Prod.mk.inj same
  have each (operation : StoreOperation C P A K) :
      Yields (·.historyReaderBase = reader) (operation.run clearCaches) fun _ => True :=
    fun s same => ⟨(reader_run operation s).trans same, trivial⟩
  have kept : hot.2.historyReaderBase = reader := (Yields.mapM each operations _ rfl).1
  constructor
  · exact outcomes.symm
  · calc hot.2.changes.foldl .apply reader
      _ = hot.2.changes.foldl .apply hot.2.historyReaderBase := by rw [kept]
      _ = hot.2.view.toHistory := foldl_apply_changes hot.2
      _ = eager.2.toHistory := congrArg EagerStore.toHistory store.symm

end InMemHotStore

end F1r3fly.RSpace
