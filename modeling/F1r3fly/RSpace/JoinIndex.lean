import F1r3fly.RSpace.Removal

/-! The join index: the joins of a channel are the channel lists it occurs in
under which a continuation is stored. -/
namespace F1r3fly.RSpace

open Function HotStore StateInvariant InMemHotStore Space

variable {C P A K : Type}

section Store

variable [DecidableEq C]

theorem insertJoin_eq (join : List C) (joins : List (List C)) :
    insertJoin join joins = joins.insert join := by
  by_cases member : join ∈ joins
  · simp [insertJoin, member]
  · simp [insertJoin, member, List.insert_of_not_mem]

/-- One idempotent change at each of the keys, however often a key occurs. -/
theorem foldl_update_of_idempotent {β : Type} {change : β → β}
    (idempotent : ∀ b, change (change b) = change b) (keys : List C) (f : C → β) (key : C) :
    keys.foldl (fun f k => update f k (change (f k))) f key =
      if key ∈ keys then change (f key) else f key := by
  induction keys generalizing f with
  | nil => rfl
  | cons first keys ih =>
    rw [foldl_cons, ih]
    by_cases same : key = first
    · subst same
      simp [idempotent]
    · simp [same]

def addJoin (join channels : List C) (joins : C → List (List C)) : C → List (List C) :=
  channels.foldl (fun joins c => update joins c (insertJoin join (joins c))) joins

theorem addJoin_apply (join channels : List C) (joins : C → List (List C)) (channel : C) :
    addJoin join channels joins channel =
      if channel ∈ channels then (joins channel).insert join else joins channel := by
  rw [addJoin, foldl_update_of_idempotent (fun joins => ?_), insertJoin_eq]
  simp only [insertJoin_eq]
  exact List.insert_of_mem List.mem_insert_self

theorem mem_addJoin {channel : C} :
    other ∈ addJoin join channels joins channel ↔
      other = join ∧ channel ∈ channels ∨ other ∈ joins channel := by
  rw [addJoin_apply]
  split_ifs with member
  · simp [member]
  · simp [member]

theorem nodup_addJoin (distinct : (joins channel).Nodup) (join channels : List C) :
    (addJoin join channels joins channel).Nodup := by
  rw [addJoin_apply]
  split_ifs
  · exact distinct.insert
  · exact distinct

variable (store : EagerStore C P A K)

theorem installed_eq (channels : List C) (wk : WaitingContinuation P K) :
    installed store channels wk =
      { store with
        installedContinuations := update store.installedContinuations channels (some wk)
        installedJoins := addJoin channels channels store.installedJoins } := by
  suffices folded : ∀ join (store : EagerStore C P A K),
      channels.foldl (fun store channel => store.installJoin channel join) store =
        { store with installedJoins := addJoin join channels store.installedJoins } from
    folded channels _
  intro join
  induction channels with
  | nil => exact fun _ => rfl
  | cons channel channels ih => exact fun store => ih _

theorem mem_allContinuations_installed {store : EagerStore C P A K}
    (member : other ∈ (installed store channels wk).allContinuations join) :
    join = channels ∧ other = wk ∨ other ∈ store.allContinuations join := by
  rw [installed_eq] at member
  by_cases same : join = channels
  · subst same
    simp only [EagerStore.allContinuations, update_self, Option.toList_some,
      List.singleton_append, mem_cons] at member
    exact member.imp (⟨rfl, ·⟩) (mem_append_right _)
  · simp only [EagerStore.allContinuations, update_of_ne same] at member
    exact .inr member

theorem claimed_continuations_of_ne (other : join ≠ pc.channels) (store : EagerStore C P A K) :
    (claimed store pc).continuations join = store.continuations join := by
  obtain same | ⟨index, same⟩ := claimed_cases store pc
  · rw [same]
  · rw [same]
    exact update_of_ne other ..

theorem removeIndex_sublist (index : Int) (items : List α) :
    (removeIndex index items).1.Sublist items := by
  unfold removeIndex
  split_ifs
  · exact .refl _
  · exact List.eraseIdx_sublist ..

theorem claimed_continuations_sublist (pc : ProduceCandidate C P A K) (join : List C) :
    ((claimed store pc).continuations join).Sublist (store.continuations join) := by
  obtain same | ⟨index, same⟩ := claimed_cases store pc
  · rw [same]
  · by_cases here : join = pc.channels
    · subst here
      rw [same, EagerStore.setContinuations]
      dsimp only
      rw [update_self]
      exact removeIndex_sublist ..
    · rw [claimed_continuations_of_ne here]

theorem claimed_allContinuations_sublist (pc : ProduceCandidate C P A K) (join : List C) :
    ((claimed store pc).allContinuations join).Sublist (store.allContinuations join) := by
  have sublist := claimed_continuations_sublist store pc join
  rw [claimed_frame]
  exact (List.Sublist.refl _).append sublist

variable [Debug P] [Debug K]

theorem run_putJoins (join channels : List C) (store : EagerStore C P A K) :
    (channels.forM fun channel => do let _ ← putJoin channel join :
        StateM (EagerStore C P A K) Unit) store =
      ((), { store with joins := addJoin join channels store.joins }) := by
  induction channels generalizing store with
  | nil => rfl
  | cons channel channels ih => exact ih _

theorem storeWaitingContinuation_eq (channels : List C) (wk : WaitingContinuation P K)
    (store : EagerStore C P A K) :
    (storeWaitingContinuation channels wk store).2 =
      { store with
        continuations := update store.continuations channels
          (insertContinuation wk (store.continuations channels)).1
        joins := addJoin channels channels store.joins } := by
  rw [storeWaitingContinuation, run_bind, run_putJoins]
  rfl

theorem allContinuations_storeWaitingContinuation
    (channels join : List C) (wk : WaitingContinuation P K) :
    (storeWaitingContinuation channels wk store).2.allContinuations join =
        store.allContinuations join ∨
      join = channels ∧ ((storeWaitingContinuation channels wk store).2.allContinuations join).Perm
        (wk :: store.allContinuations join) := by
  rw [storeWaitingContinuation_eq]
  by_cases same : join = channels
  · subst same
    simp only [EagerStore.allContinuations, update_self, insertContinuation]
    split_ifs
    · exact .inl rfl
    · exact .inr ⟨trivial, List.perm_middle⟩
  · exact .inl (by simp [EagerStore.allContinuations, same])

theorem mem_allContinuations_stored {store : EagerStore C P A K}
    (member : other ∈ (storeWaitingContinuation channels wk store).2.allContinuations join) :
    join = channels ∧ other = wk ∨ other ∈ store.allContinuations join := by
  rcases allContinuations_storeWaitingContinuation store channels join wk with same | ⟨rfl, perm⟩
  · exact .inr (same ▸ member)
  · exact (mem_cons.mp (perm.subset member)).imp_left (⟨rfl, ·⟩)

omit [DecidableEq C] in
theorem insertContinuation_ne_nil (wk : WaitingContinuation P K)
    (continuations : List (WaitingContinuation P K)) :
    (insertContinuation wk continuations).1 ≠ [] := by
  unfold insertContinuation
  split_ifs with same
  · rintro rfl
    simp at same
  · simp

end Store

/-- A join is recorded for the channels that occur in it while a continuation is
stored under it, and every stored continuation has a pattern for each channel. -/
structure Consistent (store : EagerStore C P A K) : Prop where
  distinct : ∀ channel, (store.joins channel).Nodup
  waiting : ∀ channel, ∀ join ∈ store.joins channel,
    channel ∈ join ∧ store.allContinuations join ≠ []
  indexed : ∀ channel join, store.continuations join ≠ [] → channel ∈ join →
    join ∈ store.joins channel
  installed : ∀ channel join, join ∈ store.installedJoins channel ↔
    channel ∈ join ∧ (store.installedContinuations join).isSome
  lengths : ∀ join, ∀ wk ∈ store.allContinuations join, wk.patterns.length = join.length

namespace Consistent

variable {store : EagerStore C P A K}

theorem empty : Consistent (.ofHistory .empty : EagerStore C P A K) := by
  constructor <;> simp [EagerStore.ofHistory, EagerStore.allContinuations, HistoryReaderBase.empty]

theorem mem_allJoins (consistent : Consistent store) (channel : C) (join : List C) :
    join ∈ store.allJoins channel ↔ channel ∈ join ∧ store.allContinuations join ≠ [] := by
  constructor
  · intro member
    rcases mem_append.mp member with installed | waiting
    · obtain ⟨occurs, present⟩ := (consistent.installed channel join).mp installed
      obtain ⟨wk, found⟩ := isSome_iff_exists.mp present
      exact ⟨occurs, by simp [EagerStore.allContinuations, found]⟩
    · exact consistent.waiting channel join waiting
  · rintro ⟨occurs, stored⟩
    refine mem_append.mpr ?_
    cases found : store.installedContinuations join with
    | some wk => exact .inl ((consistent.installed channel join).mpr ⟨occurs, by simp [found]⟩)
    | none =>
      have waiting : store.continuations join ≠ [] := by
        simpa [EagerStore.allContinuations, found] using stored
      exact .inr (consistent.indexed channel join waiting occurs)

theorem withData (consistent : Consistent store) (data : C → List (Datum A)) :
    Consistent { store with data := data } :=
  { consistent with }

theorem candidate_channels [Match P A] {pairs : List (C × P)}
    {candidates : List (ConsumeCandidate C A)} (handed : Handed entries pairs candidates) :
    candidates.map (·.channel) = pairs.map Prod.fst := by
  induction handed with
  | nil => rfl
  | cons fits _ ih => exact congrArg₂ List.cons fits.channel_eq ih

variable [DecidableEq C] [Debug P] [Debug K]

theorem storeWaitingContinuation (consistent : Consistent store)
    (sameLength : wk.patterns.length = channels.length) :
    Consistent (storeWaitingContinuation channels wk store).2 := by
  rw [storeWaitingContinuation_eq]
  constructor
  · intro channel
    exact nodup_addJoin (consistent.distinct channel) ..
  · intro channel join member
    have occurs : channel ∈ join := by
      rcases mem_addJoin.mp member with ⟨rfl, occurs⟩ | before
      · exact occurs
      · exact (consistent.waiting channel join before).1
    refine ⟨occurs, ?_⟩
    by_cases same : join = channels
    · subst same
      simp [EagerStore.allContinuations, insertContinuation_ne_nil]
    · rcases mem_addJoin.mp member with ⟨rfl, _⟩ | before
      · exact absurd rfl same
      · simpa [EagerStore.allContinuations, same] using (consistent.waiting channel join before).2
  · intro channel join waiting occurs
    refine mem_addJoin.mpr ?_
    by_cases same : join = channels
    · exact .inl ⟨same, same ▸ occurs⟩
    · simp only [update_of_ne same] at waiting
      exact .inr (consistent.indexed channel join waiting occurs)
  · exact consistent.installed
  · intro join other member
    rw [← storeWaitingContinuation_eq] at member
    rcases mem_allContinuations_stored member with ⟨rfl, rfl⟩ | before
    · exact sameLength
    · exact consistent.lengths join other before

omit [Debug P] [Debug K] in
theorem installed_continuation (consistent : Consistent store)
    (sameLength : wk.patterns.length = channels.length) :
    Consistent (Space.installed store channels wk) := by
  rw [installed_eq]
  constructor
  · exact consistent.distinct
  · intro channel join member
    obtain ⟨occurs, stored⟩ := consistent.waiting channel join member
    refine ⟨occurs, ?_⟩
    by_cases same : join = channels
    · simp [EagerStore.allContinuations, same]
    · simpa [EagerStore.allContinuations, same] using stored
  · exact consistent.indexed
  · intro channel join
    rw [mem_addJoin, consistent.installed]
    by_cases same : join = channels
    · subst same
      simp +contextual
    · simp [same]
  · intro join other member
    rw [← installed_eq] at member
    rcases mem_allContinuations_installed member with ⟨rfl, rfl⟩ | before
    · exact sameLength
    · exact consistent.lengths join other before

omit [Debug P] [Debug K] in
/-- Firing keeps the index consistent once its joins are right: those recorded
before, without that of the continuation if none is left under it. -/
theorem claimed (consistent : Consistent store) (pc : ProduceCandidate C P A K)
    (distinct : ∀ channel, (joins channel).Nodup)
    (kept : ∀ channel join, join ∈ joins channel ↔ join ∈ store.joins channel ∧
      ((Space.claimed store pc).allContinuations pc.channels = [] → join ≠ pc.channels))
    (data : C → List (Datum A)) :
    Consistent { Space.claimed store pc with data := data, joins := joins } := by
  constructor
  · exact distinct
  · intro channel join member
    obtain ⟨before, still⟩ := (kept channel join).mp member
    obtain ⟨occurs, stored⟩ := consistent.waiting channel join before
    refine ⟨occurs, ?_⟩
    change (Space.claimed store pc).allContinuations join ≠ []
    by_cases same : join = pc.channels
    · subst same
      exact fun empty => still empty rfl
    · rwa [claimed_frame, EagerStore.allContinuations, claimed_continuations_of_ne same]
  · intro channel join waiting occurs
    have before : store.continuations join ≠ [] := fun empty =>
      waiting (List.sublist_nil.mp (empty ▸ claimed_continuations_sublist store pc join))
    refine (kept channel join).mpr ⟨consistent.indexed channel join before occurs, ?_⟩
    rintro empty rfl
    exact waiting (List.append_eq_nil_iff.mp empty).2
  · intro channel join
    rw [Space.claimed_frame]
    exact consistent.installed channel join
  · intro join wk member
    exact consistent.lengths join wk ((claimed_allContinuations_sublist store pc join).subset
      member)

theorem communicated [Match P A] (consistent : Consistent store) {channel : C} {datum : Datum A}
    (matched : Matched (store.allJoins channel) store.indexedContinuations
      (store.entriesWith channel datum) pc) :
    Consistent (removeMatchedDatumAndJoin pc.channels pc.dataCandidates
      (Space.claimed store pc)).2 := by
  have stored : pc.continuation ∈ store.allContinuations pc.channels :=
    mem_of_getElem? (mem_withIndex.mp matched.continuation).2
  have channels : pc.dataCandidates.map (·.channel) = pc.channels := by
    rw [candidate_channels matched.handed, List.map_fst_zip]
    exact (consistent.lengths _ _ stored).ge
  have present : ∀ candidate ∈ pc.dataCandidates,
      Present (Space.claimed store pc).data candidate := by
    rw [Space.claimed_frame]
    exact matched.handed.present_with
  have joins : (Space.claimed store pc).joins = store.joins := by rw [Space.claimed_frame]
  rw [removeMatchedDatumAndJoin_frame]
  by_cases empty : ((Space.claimed store pc).allContinuations pc.channels).isEmpty
  · have after : ∀ c, (removeMatchedDatumAndJoin pc.channels pc.dataCandidates
        (Space.claimed store pc)).2.joins c =
        if c ∈ pc.channels then (store.joins c).erase pc.channels else store.joins c := by
      intro c
      rw [removeMatchedDatumAndJoin_joins empty (joins ▸ consistent.distinct c) present, channels,
        joins]
    refine consistent.claimed pc (fun c => ?_) (fun c join => ?_) _
    · rw [after]
      split_ifs
      · exact (consistent.distinct c).erase _
      · exact consistent.distinct c
    · rw [after]
      split_ifs with occurs
      · rw [(consistent.distinct c).mem_erase_iff]
        simp [List.isEmpty_iff.mp empty, and_comm]
      · refine (and_iff_left_of_imp fun member _ same => ?_).symm
        exact occurs (same ▸ (consistent.waiting c join member).1)
  · rw [removeMatchedDatumAndJoin_joins_of_waiting empty, joins]
    refine consistent.claimed pc consistent.distinct (fun c join => ?_) _
    exact (and_iff_left fun none => absurd (by simp [none]) empty).symm

end Consistent

namespace Space

variable [DecidableEq C] [Debug P] [Debug K] [Match P A] [Blake2b] [Serialize C] [Serialize P]
  [Serialize A] [Serialize K]

theorem Effect.consistent [ThreadRng] {operation : Operation C P A K}
    (consistent : Consistent self.store)
    (effect : Effect self operation (outcome, after)) : Consistent after.store := by
  cases effect with
  | failed => exact consistent
  | installed channels patterns continuation draws sameLength stuck =>
    exact consistent.installed_continuation sameLength.symm
  | produced channel data persist outcome effect =>
    cases effect with
    | stored draws stuck => exact consistent.withData _
    | fired pc draws matched => exact consistent.communicated matched
  | consumed channels patterns continuation persist peeks outcome sameLength effect =>
    cases effect with
    | stored draws stuck => exact consistent.storeWaitingContinuation sameLength.symm
    | fired candidates draws handed =>
      change Consistent (storePersistentData candidates self.store).2
      rw [storePersistentData_frame handed.nonneg]
      exact consistent.withData _

/-- In every state that a run from the empty space reaches, the joins of a
channel are the channel lists that it occurs in and that have a continuation. -/
theorem mem_getJoins_iff [ThreadRng] (operations : List (Operation C P A K)) (channel : C)
    (join : List C) :
    let self := (run operations (.empty : Space (InMemHotStore C P A K) C P K)).2
    join ∈ self.getJoins channel ↔ channel ∈ join ∧ self.getWaitingContinuations join ≠ [] := by
  intro self
  have consistent : Consistent (self.mapStore view).store :=
    run_empty_invariant (fun space => Consistent space.store) .empty
      (fun consistent effect => effect.consistent consistent) operations
  rw [← getJoins_mapStore isView,
    ← getWaitingContinuations_mapStore isView]
  exact consistent.mem_allJoins channel join

end Space

end F1r3fly.RSpace
