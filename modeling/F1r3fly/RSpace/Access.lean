import F1r3fly.RSpace.Effects
import F1r3fly.RSpace.StoreRefinement

/-! Which operations of the hot store the operations of the space perform. What
every such store operation keeps, the operation of the space keeps, whatever else
is in the store. -/
namespace F1r3fly.RSpace

open HotStore StateInvariant Yields

variable {S C P A K : Type}

inductive ConsumeAccess (channels : List C) : StoreOperation C P A K → Prop
  | getData (member : channel ∈ channels) : ConsumeAccess channels (.getData channel)
  | removeDatum (member : channel ∈ channels) (index : Int) :
      ConsumeAccess channels (.removeDatum channel index)
  | putContinuation (wc : WaitingContinuation P K) :
      ConsumeAccess channels (.putContinuation channels wc)
  | putJoin (member : channel ∈ channels) : ConsumeAccess channels (.putJoin channel channels)

/-- After the joins of the channel have been read. -/
inductive ProduceAccess (batChannel : C) (groupedChannels : List (List C)) :
    StoreOperation C P A K → Prop
  | getContinuations (join : channels ∈ groupedChannels) :
      ProduceAccess batChannel groupedChannels (.getContinuations channels)
  | getData (join : channels ∈ groupedChannels) (member : channel ∈ channels) :
      ProduceAccess batChannel groupedChannels (.getData channel)
  | removeContinuation (join : channels ∈ groupedChannels) (index : Int) :
      ProduceAccess batChannel groupedChannels (.removeContinuation channels index)
  | removeDatum (join : channels ∈ groupedChannels) (member : channel ∈ channels) (index : Int) :
      ProduceAccess batChannel groupedChannels (.removeDatum channel index)
  | removeJoin (join : channels ∈ groupedChannels) (member : channel ∈ channels) :
      ProduceAccess batChannel groupedChannels (.removeJoin channel channels)
  | putDatum (d : Datum A) : ProduceAccess batChannel groupedChannels (.putDatum batChannel d)

inductive InstallAccess (channels : List C) : StoreOperation C P A K → Prop
  | getData (member : channel ∈ channels) : InstallAccess channels (.getData channel)
  | installContinuation (wc : WaitingContinuation P K) :
      InstallAccess channels (.installContinuation channels wc)
  | installJoin (member : channel ∈ channels) :
      InstallAccess channels (.installJoin channel channels)

/-- Every allowed operation keeps the invariant, and under it only the given joins
are read. -/
def HotStore.Permits [HotStore S C P A K] (allowed : StoreOperation C P A K → Prop)
    (joins : List C → Prop) (inv : S → Prop) : Prop :=
  ∀ operation, allowed operation →
    Yields inv (operation.run fun _ _ _ => pure ()) fun outcome =>
      ∀ found, outcome = .joins found → ∀ join ∈ found, joins join

theorem Selection.channel_mem [Match P A] {map : ChannelToIndexedData C A} {channels : List C}
    {patterns : List P} (selection : Selection map (channels.zip patterns) candidates) :
    ∀ candidate ∈ candidates, candidate.channel ∈ channels := by
  have among {pairs : List (C × P)} {found : List (ConsumeCandidate C A)}
      (selection : Selection map pairs found) :
      ∀ candidate ∈ found, ∃ pair ∈ pairs, candidate.channel = pair.1 := by
    induction selection with
    | nil => simp
    | cons head tail ih =>
      obtain ⟨_, _, fits⟩ := head
      simp only [forall_mem_cons, exists_mem_cons_iff]
      exact ⟨.inl fits.channel_eq, fun candidate member => .inr (ih candidate member)⟩
  intro candidate member
  obtain ⟨pair, zipped, same⟩ := among selection candidate member
  rw [same]
  exact (List.of_mem_zip zipped).1

namespace HotStore.Permits

variable [HotStore S C P A K] {allowed : StoreOperation C P A K → Prop} {joins : List C → Prop}
  {inv : S → Prop} (permits : Permits allowed joins inv)

include permits

/-- An operation that is allowed, run for its effect on the store. -/
theorem keeps {program : StateM S α} (granted : allowed operation)
    (same : ∀ s, (operation.run (fun _ _ _ => pure ()) s).2 = (program s).2 := by intro; rfl) :
    Yields inv program fun _ => True :=
  fun s holds => ⟨same s ▸ (permits _ granted s holds).1, trivial⟩

theorem getJoins (granted : allowed (.getJoins channel)) :
    Yields inv (getJoins channel) fun found => ∀ join ∈ found, joins join :=
  fun s holds => ⟨(permits _ granted s holds).1, (permits _ granted s holds).2 _ rfl⟩

end HotStore.Permits

section Loops

theorem mem_removalOrder (member : candidate ∈ removalOrder candidates) : candidate ∈ candidates :=
  (List.perm_insertionSort _ _).subset (mem_reverse.mp member)

variable [HotStore S C P A K] {allowed : StoreOperation C P A K → Prop} {joins : List C → Prop}
  {inv : S → Prop} (permits : Permits allowed joins inv)

include permits

theorem storeWaitingContinuation_keeps
    (granted : ∀ operation, ConsumeAccess channels operation → allowed operation)
    (wc : WaitingContinuation P K) :
    Yields inv (storeWaitingContinuation channels wc) fun _ => True := by
  refine (permits.keeps (granted _ (.putContinuation wc))).bind fun _ _ => ?_
  exact .forM_of_mem fun channel member => permits.keeps (granted _ (.putJoin member))

theorem storePersistentData_keeps
    (granted : ∀ operation, ConsumeAccess channels operation → allowed operation)
    (among : ∀ candidate ∈ candidates, candidate.channel ∈ channels) :
    Yields inv (storePersistentData candidates) fun _ => True := by
  have removes (candidate : ConsumeCandidate C A) (member : candidate ∈ removalOrder candidates) :
      Yields inv (removeCandidate candidate) fun _ => True := by
    unfold removeCandidate
    split
    · exact .pure trivial
    · have here := among candidate (mem_removalOrder member)
      exact (permits.keeps (granted _ (.removeDatum here _))).bind fun _ _ => .pure trivial
  exact (mapM_of_mem removes).bind fun _ _ => .pure trivial

theorem removeMatchedDatumAndJoin_keeps
    (granted : ∀ operation, ProduceAccess channel groupedChannels operation → allowed operation)
    (join : channels ∈ groupedChannels)
    (among : ∀ candidate ∈ candidates, candidate.channel ∈ channels) :
    Yields inv (removeMatchedDatumAndJoin channels candidates) fun _ => True := by
  have removes (candidate : ConsumeCandidate C A) (here : candidate.channel ∈ channels) :
      Yields inv (removeIfStored candidate) fun _ => True := by
    unfold removeIfStored
    split
    · exact (permits.keeps (granted _ (.removeDatum join here _))).bind fun _ _ =>
        .pure trivial
    · exact .pure trivial
  have each (candidate : ConsumeCandidate C A) (member : candidate ∈ removalOrder candidates) :
      Yields inv (removeCandidateAndJoin channels candidate) fun _ => True := by
    have here := among candidate (mem_removalOrder member)
    refine (removes candidate here).bind fun removed _ => ?_
    cases removed with
    | none => exact .pure trivial
    | some _ =>
      exact (permits.keeps (granted _ (.removeJoin join here))).bind fun _ _ => .pure trivial
  exact (mapM_of_mem each).bind fun _ _ => .pure trivial

end Loops

namespace Space

section Frame

variable {inv : S → Prop}

abbrev OnStore (inv : S → Prop) (self : Space S C P K) : Prop := inv self.store

theorem onStore_keeps (yields : Yields inv operation post) :
    Yields (OnStore (C := C) (P := P) (K := K) inv) (onStore operation) post :=
  fun self holds => yields self.store holds

theorem shuffleWithIndex_keeps [ThreadRng] (items : List α) :
    Yields (OnStore (C := C) (P := P) (K := K) inv) (shuffleWithIndex items) fun _ => True :=
  fun _ holds => ⟨holds, trivial⟩

theorem ignore_keeps (done : Option (List Unit)) :
    Yields (OnStore (C := C) (P := P) (K := K) inv) (ignore done) fun _ => True := by
  refine .modify fun self holds => ?_
  cases done with
  | none | some _ => exact holds

theorem getProduceCounter_keeps :
    Yields (OnStore (C := C) (P := P) (K := K) inv) getProduceCounter fun _ => True :=
  fun _ holds => ⟨holds, trivial⟩

end Frame

variable [HotStore S C P A K]
  {allowed : StoreOperation C P A K → Prop} {joins : List C → Prop} {inv : S → Prop}
  (permits : Permits allowed joins inv)

include permits

theorem processMatchFound_keeps
    (granted : ∀ operation, ProduceAccess batChannel groupedChannels operation → allowed operation)
    (join : pc.channels ∈ groupedChannels)
    (among : ∀ candidate ∈ pc.dataCandidates, candidate.channel ∈ pc.channels) :
    Yields (OnStore inv) (processMatchFound pc) fun _ => True := by
  refine getProduceCounter_keeps.bind fun counter _ =>
    bind (.modify fun _ holds => holds) fun _ _ => ?_
  have finish : Yields (OnStore (C := C) (P := P) (K := K) inv) (do
      ignore (← onStore (removeMatchedDatumAndJoin pc.channels pc.dataCandidates))
      pure (wrapResult pc.channels pc.continuation pc.dataCandidates)) fun _ => True :=
    (onStore_keeps (removeMatchedDatumAndJoin_keeps permits granted join among)).bind
      fun done _ => (ignore_keeps done).bind fun _ _ => .pure trivial
  dsimp only
  cases pc.continuation.persist with
  | true => exact finish
  | false =>
    have granted := granted (.removeContinuation pc.channels pc.continuationIndex)
      (.removeContinuation join _)
    exact (onStore_keeps (permits.keeps granted)).bind fun _ _ => finish

variable [DecidableEq C] [ThreadRng]

theorem fetchChannelToIndexData_keeps (granted : ∀ channel ∈ channels, allowed (.getData channel)) :
    Yields (OnStore (P := P) (K := K) inv) (fetchChannelToIndexData channels) fun _ => True := by
  have fetches (channel : C) (member : channel ∈ channels) :
      Yields (OnStore (C := C) (P := P) (K := K) inv) (do
        let data ← onStore (getData channel)
        pure (channel, ← shuffleWithIndex data)) fun _ => True :=
    (onStore_keeps (permits.keeps (granted channel member))).bind fun _ _ =>
      (shuffleWithIndex_keeps _).bind fun _ _ => .pure trivial
  exact (mapM_of_mem fetches).bind fun _ _ => .pure trivial

variable [Match P A]

theorem lockedConsume_keeps {channels : List C}
    (granted : ∀ operation, ConsumeAccess channels operation → allowed operation)
    (patterns : List P) (continuation : K) (persist : Bool) (peeks : Peeks) (consumeRef : Consume) :
    Yields (OnStore inv) (lockedConsume channels patterns continuation persist peeks consumeRef)
      fun _ => True := by
  refine bind (.modify fun _ holds => holds) fun _ _ =>
    (fetchChannelToIndexData_keeps permits fun _ member => granted _ (.getData member)).bind
      fun map _ => ?_
  dsimp only
  cases full : collect (extractDataCandidates (channels.zip patterns) map) with
  | some dataCandidates =>
    have among := (extractDataCandidates_sound full).channel_mem
    refine getProduceCounter_keeps.bind fun counter _ =>
      bind (.modify fun _ holds => holds) fun _ _ => ?_
    exact (onStore_keeps (storePersistentData_keeps permits granted among)).bind fun done _ =>
      (ignore_keeps done).bind fun _ _ => .pure trivial
  | none =>
    exact (onStore_keeps (storeWaitingContinuation_keeps permits granted _)).bind fun _ _ =>
      .pure trivial

theorem extractProduceCandidate_keeps {batChannel : C} {groupedChannels searched : List (List C)}
    (granted : ∀ operation, ProduceAccess batChannel groupedChannels operation → allowed operation)
    (subset : searched ⊆ groupedChannels) (data : Datum A) :
    Yields (OnStore inv) (extractProduceCandidate searched batChannel data) fun found =>
      ∀ pc : ProduceCandidate C P A K, found = some pc → pc.channels ∈ groupedChannels ∧
        ∀ candidate ∈ pc.dataCandidates, candidate.channel ∈ pc.channels := by
  unfold extractProduceCandidate
  induction searched with
  | nil => exact .pure (by simp)
  | cons channels rest ih =>
    have join := subset (.head _)
    have fetches (channel : C) (member : channel ∈ channels) :
        Yields (OnStore inv) (fetchMatchingData batChannel data channel) fun _ => True :=
      (onStore_keeps (permits.keeps (granted _ (.getData join member)))).bind fun _ _ =>
        (shuffleWithIndex_keeps _).bind fun _ _ => .pure trivial
    refine bind ((onStore_keeps (permits.keeps
      (granted _ (.getContinuations join)))).bind fun _ _ => shuffleWithIndex_keeps _)
        fun candidates _ => (mapM_of_mem fetches).bind fun fetched _ => ?_
    cases result : extractFirstMatch channels candidates (indexByChannel fetched) with
    | some pc =>
      refine .pure ?_
      rintro _ ⟨⟩
      obtain ⟨same, _, selection⟩ := extractFirstMatch_sound (.refl _) result
      rw [same]
      exact ⟨join, selection.channel_mem⟩
    | none => exact ih fun join member => subset (.tail _ member)

/-- What a produce does depends on the joins that it reads first. -/
theorem lockedProduce_run_keeps (self : Space S C P K)
    (holds : inv (getJoins channel self.store).2)
    (granted : ∀ operation, ProduceAccess channel (getJoins channel self.store).1 operation →
      allowed operation) (data : A) (persist : Bool) (produceRef : Produce) :
    inv (lockedProduce channel data persist produceRef self).2.store := by
  rw [lockedProduce, run_bind]
  have rest := extractProduceCandidate_keeps permits granted (List.Subset.refl _)
    ⟨data, persist, produceRef⟩
  refine (bind (.modify fun _ holds => holds) (fun _ _ => rest.bind fun extracted found => ?_) :
    Yields (OnStore inv) _ fun _ => True) _ holds |>.1
  cases extracted with
  | some pc =>
    obtain ⟨join, channels⟩ := found pc rfl
    exact (processMatchFound_keeps permits granted join channels).bind fun _ _ => .pure trivial
  | none =>
    exact (onStore_keeps (permits.keeps (granted _ (.putDatum _)))).bind fun _ _ => .pure trivial

theorem lockedProduce_keeps (reads : allowed (.getJoins channel))
    (granted : ∀ groupedChannels, (∀ join ∈ groupedChannels, joins join) →
      ∀ operation, ProduceAccess channel groupedChannels operation → allowed operation)
    (data : A) (persist : Bool) (produceRef : Produce) :
    Yields (OnStore inv) (lockedProduce channel data persist produceRef) fun _ => True := by
  intro self holds
  obtain ⟨kept, among⟩ := permits.getJoins reads self.store holds
  exact ⟨lockedProduce_run_keeps permits self kept (granted _ among)
    data persist produceRef, trivial⟩

variable [Blake2b] [Serialize C] [Serialize P] [Serialize K]

theorem consume_keeps
    (granted : ∀ operation, ConsumeAccess channels operation → allowed operation)
    (patterns : List P) (continuation : K) (persist : Bool) (peeks : Peeks) :
    Yields (OnStore inv) (consume channels patterns continuation persist peeks) fun _ => True := by
  unfold consume
  split_ifs
  · exact .pure trivial
  · exact .pure trivial
  · exact (lockedConsume_keeps permits granted _ _ _ _ _).bind fun _ _ => .pure trivial

theorem install_keeps
    (granted : ∀ operation, InstallAccess channels operation → allowed operation)
    (patterns : List P) (continuation : K) :
    Yields (OnStore inv) (install channels patterns continuation) fun _ => True := by
  unfold install lockedInstallInternal
  split_ifs with h h
  · exact .pure trivial
  · refine (fetchChannelToIndexData_keeps permits fun _ member =>
      granted _ (.getData member)).bind fun map _ => ?_
    dsimp only
    cases collect (extractDataCandidates (channels.zip patterns) map) with
    | some dataCandidates => exact .pure trivial
    | none =>
      refine bind (.modify fun _ holds => holds) fun _ _ =>
        (onStore_keeps (permits.keeps (granted _ (.installContinuation _)))).bind fun _ _ => ?_
      exact (forM_of_mem fun channel member =>
        (onStore_keeps (permits.keeps (granted _ (.installJoin member)))).bind fun _ _ =>
          .pure trivial).bind fun _ _ => .pure trivial
  · simp at h

end Space

section Interference

/-- A hot store that others use at the same time: before each access they may
change it in any way. The accesses are recorded. -/
structure Interfered (C P A K : Type) where
  store : InMemHotStore C P A K
  others : List (InMemHotStore C P A K → InMemHotStore C P A K)
  accesses : List (StoreOperation C P A K)

def Interfered.perform (operation : StoreOperation C P A K)
    (method : StateM (InMemHotStore C P A K) α) : StateM (Interfered C P A K) α := fun self =>
  let result := method (self.others.head?.getD id self.store)
  (result.1, ⟨result.2, self.others.tail, self.accesses ++ [operation]⟩)

variable [DecidableEq C] [Debug P] [Debug K]

open Interfered in
instance : HotStore (Interfered C P A K) C P A K where
  getContinuations channels := perform (.getContinuations channels) (getContinuations channels)
  putContinuation channels wc :=
    perform (.putContinuation channels wc) (putContinuation channels wc)
  installContinuation channels wc :=
    perform (.installContinuation channels wc) (installContinuation channels wc)
  removeContinuation channels index :=
    perform (.removeContinuation channels index) (removeContinuation channels index)
  getData channel := perform (.getData channel) (getData channel)
  putDatum channel d := perform (.putDatum channel d) (putDatum channel d)
  removeDatum channel index := perform (.removeDatum channel index) (removeDatum channel index)
  getJoins channel := perform (.getJoins channel) (getJoins channel)
  putJoin channel join := perform (.putJoin channel join) (putJoin channel join)
  installJoin channel join := perform (.installJoin channel join) (installJoin channel join)
  removeJoin channel join := perform (.removeJoin channel join) (removeJoin channel join)

theorem Interfered.permits (allowed : StoreOperation C P A K → Prop) :
    Permits allowed (fun _ => True)
      fun self : Interfered C P A K => ∀ operation ∈ self.accesses, allowed operation := by
  intro operation granted self holds
  have recorded : ∀ other ∈ self.accesses ++ [operation], allowed other :=
    forall_mem_append.mpr ⟨holds, forall_mem_singleton.mpr granted⟩
  refine ⟨?_, fun _ _ _ _ => trivial⟩
  cases operation with
  | clearCaches continuations datums joins => exact holds
  | _ => exact recorded

end Interference

end F1r3fly.RSpace
