import Mathlib.Data.List.Perm.Basic
import F1r3fly.RSpace.ChannelLists
import F1r3fly.RSpace.History.HistoryRepository

/-! The keys of a checkpoint. Continuations are kept under lists of channels but filed under the
hash of the sorted list, so that two lists which differ only in their order are one key. -/
namespace F1r3fly.RSpace

section HashFromVec

/-- Lists whose images under a function that tells their elements apart are the
same up to order are the same up to order. -/
theorem perm_of_map_perm {α β : Type} {f : α → β} {left right : List α}
    (tells : ∀ x ∈ left ++ right, ∀ y ∈ left ++ right, f x = f y → x = y)
    (perm : (left.map f).Perm (right.map f)) : left.Perm right := by
  have injective : (fun x : { x // x ∈ left ++ right } => f x).Injective := by
    intro x y same
    exact Subtype.ext (tells x x.2 y y.2 same)
  have lifted (items : List α) (among : ∀ x ∈ items, x ∈ left ++ right) :
      items.map f = (items.attachWith _ among).map fun x : { x // x ∈ left ++ right } => f x := by
    rw [List.map_attachWith, List.map_attach_eq_pmap, List.pmap_eq_map]
  rw [lifted left fun _ => mem_append_left _, lifted right fun _ => mem_append_right _,
    List.map_perm_map_iff injective] at perm
  simpa using perm.map Subtype.val

variable [Blake2b] {C : Type} [Serialize C]

/-- What is hashed for the key of a channel list: the channels, and their hashes. -/
def hashedForKey (channels : List C) : List ByteVector :=
  (sortBytes (hashVec channels)).flatten :: channels.map serialize

theorem hashFromVec_perm {channels others : List C} (perm : channels.Perm others) :
    hashFromVec channels = hashFromVec others := by
  rw [hashFromVec, hashFromVec, hashVec, hashVec, sortBytes_perm (perm.map hash)]

theorem perm_of_hashFromVec {channels others : List C}
    (free : CollisionFree (hashedForKey channels ++ hashedForKey others))
    (same : hashFromVec channels = hashFromVec others) : channels.Perm others := by
  have length (list : List C) : ∀ part ∈ sortBytes (hashVec list), part.length = 32 := by
    intro part member
    have sorted : part ∈ hashVec list := (List.perm_insertionSort _ _).subset member
    have listed : part ∈ list.map hash := (List.perm_insertionSort _ _).subset sorted
    obtain ⟨channel, _, rfl⟩ := mem_map.mp listed
    exact Blake2b.length_hash _
  have flattened := free _ (mem_append_left _ (.head _)) _ (mem_append_right _ (.head _)) same
  have hashes := flatten_injective (by decide) (length channels) (length others) flattened
  have serialized (x : C) (member : x ∈ channels ++ others) :
      serialize x ∈ hashedForKey channels ++ hashedForKey others := by
    rcases mem_append.mp member with first | second
    · exact mem_append_left _ (.tail _ (mem_map_of_mem first))
    · exact mem_append_right _ (.tail _ (mem_map_of_mem second))
  apply perm_of_map_perm (f := hash)
  · intro x first y second equal
    exact serialize_injective (free _ (serialized x first) _ (serialized y second) equal)
  · calc channels.map hash
      List.Perm _ (hashVec channels) := (List.perm_insertionSort _ _).symm
      List.Perm _ (sortBytes (hashVec channels)) := (List.perm_insertionSort _ _).symm
      List.Perm _ (sortBytes (hashVec others)) := .of_eq hashes
      List.Perm _ (hashVec others) := List.perm_insertionSort _ _
      List.Perm _ (others.map hash) := List.perm_insertionSort _ _

end HashFromVec

/-- No two of the lists differ in their order only. -/
def OneOrder {C : Type} (lists : List C → Prop) : Prop :=
  ∀ channels others, lists channels → lists others → channels.Perm others → channels = others

namespace History

section Keys

theorem hasNoDuplicates_iff (actions : List HistoryAction) :
    RadixHistory.hasNoDuplicates actions ↔ (actions.map HistoryAction.key).Nodup := by
  have length : actions.length = (actions.map HistoryAction.key).length := by simp
  rw [RadixHistory.hasNoDuplicates, decide_eq_true_iff, ← List.dedup_eq_self, length]
  constructor
  · exact fun same => (List.dedup_sublist _).eq_of_length same
  · exact fun same => congrArg List.length same

variable [Blake2b] {C P A K : Type} [Serialize C]

def hashedForChanges (store : InMemHotStore C P A K) : List ByteVector :=
  store.state.data.keys.map serialize ++ store.state.joins.keys.map serialize ++
    store.state.continuations.keys.flatMap hashedForKey

theorem nodup_map_hash {channels : List C} (element : UInt8) (distinct : channels.Nodup)
    (free : CollisionFree (channels.map serialize)) :
    (channels.map fun channel => element :: hash channel).Nodup := by
  refine distinct.map_on fun x first y second same => ?_
  have hashes := (List.cons.inj same).2
  exact serialize_injective (free _ (mem_map_of_mem first) _ (mem_map_of_mem second) hashes)

variable [HashMapOrder] [Serialize P] [Serialize A] [Serialize K]

theorem key_historyActions (store : InMemHotStore C P A K) :
    ((historyActions store.changes).map HistoryAction.key).Perm
      (store.state.continuations.keys.map (fun channels => prefixKont :: hashFromVec channels) ++
        store.state.data.keys.map (fun channel => prefixDatum :: hash channel) ++
        store.state.joins.keys.map (fun channel => prefixJoins :: hash channel)) := by
  have keys {α β : Type} (entries : List (Sigma fun _ : α => β)) (key : α → KeyPath) :
      ((HashMapOrder.order entries).map fun entry => key entry.1).Perm (entries.keys.map key) := by
    rw [List.keys, map_map]
    exact (HashMapOrder.perm entries).map _
  simp only [historyActions, InMemHotStore.changes, map_append, map_map]
  refine (List.Perm.append (List.Perm.append ?_ ?_) ?_)
  · refine .trans (.of_eq (map_congr_left fun entry _ => ?_)) (keys _ _)
    obtain ⟨channels, _ | ⟨wc, wcs⟩⟩ := entry <;> rfl
  · refine .trans (.of_eq (map_congr_left fun entry _ => ?_)) (keys _ _)
    obtain ⟨channel, _ | ⟨datum, datums⟩⟩ := entry <;> rfl
  · refine .trans (.of_eq (map_congr_left fun entry _ => ?_)) (keys _ _)
    obtain ⟨channel, _ | ⟨join, joins⟩⟩ := entry <;> rfl

variable {store : InMemHotStore C P A K}

/-- Two orders of one list are one key, whatever the hash function. -/
theorem oneOrder_of_nodup_keys
    (distinct : ((historyActions store.changes).map HistoryAction.key).Nodup) :
    OneOrder (· ∈ store.state.continuations) := by
  rw [(key_historyActions store).nodup_iff, nodup_append, nodup_append] at distinct
  have injective := (List.nodup_map_iff_inj_on store.state.continuations.keys_nodup).mp distinct.1.1
  intro channels others first second perm
  exact injective channels first others second (congrArg _ (hashFromVec_perm perm))

theorem nodup_keys_iff (free : CollisionFree (hashedForChanges store)) :
    ((historyActions store.changes).map HistoryAction.key).Nodup ↔
      OneOrder (· ∈ store.state.continuations) := by
  have data := nodup_map_hash prefixDatum store.state.data.keys_nodup
    (free.of_subset fun x member => by simp [hashedForChanges, member])
  have joins := nodup_map_hash prefixJoins store.state.joins.keys_nodup
    (free.of_subset fun x member => by simp [hashedForChanges, member])
  refine ⟨oneOrder_of_nodup_keys, fun oneOrder => ?_⟩
  have continuations : (store.state.continuations.keys.map
      fun channels => prefixKont :: hashFromVec channels).Nodup := by
    refine store.state.continuations.keys_nodup.map_on fun channels first others second same => ?_
    refine oneOrder channels others first second (perm_of_hashFromVec ?_ (List.cons.inj same).2)
    refine free.of_subset fun x member => mem_append_right _ (mem_flatMap.mpr ?_)
    rcases mem_append.mp member with here | there
    · exact ⟨channels, first, here⟩
    · exact ⟨others, second, there⟩
  -- keys of different kinds differ in their first byte
  have kinds {α β : Type} {f : α → Blake2b256Hash} {g : β → Blake2b256Hash} {a b : UInt8}
      (different : a ≠ b) (left : List α) (right : List β) :
      ∀ x ∈ left.map (fun item => a :: f item), ∀ y ∈ right.map (fun item => b :: g item),
        x ≠ y := by
    intro x first y second same
    obtain ⟨i, _, rfl⟩ := mem_map.mp first
    obtain ⟨j, _, rfl⟩ := mem_map.mp second
    exact different (List.cons.inj same).1
  rw [(key_historyActions store).nodup_iff, nodup_append, nodup_append]
  refine ⟨⟨continuations, data, kinds (by decide) _ _⟩, joins, ?_⟩
  intro x first
  rcases mem_append.mp first with kont | datum
  · exact kinds (by decide) _ _ x kont
  · exact kinds (by decide) _ _ x datum

def duplicateActionsPanic : Failure :=
  .panic ("called `Result::unwrap()` on an `Err` value: " ++
    "ActionError(\"Cannot process duplicate actions on one key.\")")

variable [DashMapOrder]

omit [HashMapOrder] in
theorem checkpoint_of_duplicates {actions : List (HotStoreAction C P A K)}
    (duplicates : ¬ ((historyActions actions).map HistoryAction.key).Nodup)
    (repository : HistoryRepository) (stores : Stores) :
    ∃ after, repository.checkpoint actions stores = .error duplicateActionsPanic after := by
  have nonempty : actions.isEmpty = false := by
    cases actions with
    | nil => exact absurd List.nodup_nil duplicates
    | cons action actions => rfl
  have mapped : (actions.map transform).isEmpty = false := by
    rw [List.isEmpty_map, nonempty]
  have refused : (!RadixHistory.hasNoDuplicates
      (((actions.map transform).map calculateStorageActions).map (·.2))) = true := by
    rw [map_map, map_map, not_eq_true', ← not_eq_true, hasNoDuplicates_iff]
    exact duplicates
  simp only [HistoryRepository.checkpoint, HistoryRepository.doCheckpoint, nonempty, mapped,
    false_eq_true, if_false, RadixHistory.process, refused, if_true]
  exact ⟨_, rfl⟩

variable [DecidableEq C] [Debug P] [Debug K] [Match P A] [ThreadRng]

/-- A checkpoint finds its keys distinct exactly if the hot store does not keep
continuations under two orders of one list of channels, and panics otherwise. In
a run whose lists of channels, those of the history included, come in one order
each, that never happens. -/
theorem checkpoint_keys_distinct_iff :
    (∀ store : InMemHotStore C P A K, CollisionFree (hashedForChanges store) →
      (RadixHistory.hasNoDuplicates (historyActions store.changes) = true ↔
        OneOrder (· ∈ store.state.continuations)) ∧
      (¬ OneOrder (· ∈ store.state.continuations) →
        ∀ (repository : HistoryRepository) (stores : Stores), ∃ after,
          repository.checkpoint store.changes stores = .error duplicateActionsPanic after)) ∧
    ∀ (reader : HistoryReaderBase C P A K) (operations : List (Operation C P A K)),
      OneOrder (fun channels => (∃ channel, channels ∈ reader.getJoins channel) ∨
        ∃ operation ∈ operations, channels ∈ operation.channelLists) →
      let store := (Space.run operations (Space.apply (.createFromHr reader))).2.store
      CollisionFree (hashedForChanges store) →
        RadixHistory.hasNoDuplicates (historyActions store.changes) = true := by
  constructor
  · intro store free
    refine ⟨(hasNoDuplicates_iff _).trans (nodup_keys_iff free), fun reordered => ?_⟩
    exact checkpoint_of_duplicates (mt oneOrder_of_nodup_keys reordered)
  · intro reader operations oneOrder store free
    have within : InMemHotStore.Within (fun channels =>
        (∃ channel, channels ∈ reader.getJoins channel) ∨
          ∃ operation ∈ operations, channels ∈ operation.channelLists) store := by
      refine Space.run_keeps InMemHotStore.permits_listed ?_ ?_
      · exact fun operation member channels named => .inr ⟨operation, member, named⟩
      · exact .createFromHr fun channel join stored => .inl ⟨channel, stored⟩
    refine (hasNoDuplicates_iff _).mpr ((nodup_keys_iff free).mpr ?_)
    intro channels others first second perm
    exact oneOrder channels others (within.keys channels first) (within.keys others second) perm

end Keys

section Runs

open ByteSpace

local instance : HashMapOrder := ⟨id, .refl⟩

local instance : DashMapOrder := ⟨id, .refl⟩

def reorderedJoin : List Op :=
  [.consume [1, 2] [0, 0] 7 false .none, .consume [2, 1] [0, 0] 8 false .none]

/-- The checkpoint after two consumes that join the same channels in different
orders panics. -/
theorem checkpoint_panics_on_reordered_join :
    ¬((historyActions (ByteSpace.after reorderedJoin).store.changes).map
      HistoryAction.key).Nodup ∧
    ∀ (repository : HistoryRepository) (stores : Stores), ∃ after,
      repository.checkpoint (ByteSpace.after reorderedJoin).store.changes stores =
        .error duplicateActionsPanic after := by
  have duplicates : ¬((historyActions (ByteSpace.after reorderedJoin).store.changes).map
      HistoryAction.key).Nodup := by
    intro distinct
    have oneOrder := oneOrder_of_nodup_keys distinct
    have both : [1, 2] ∈ (ByteSpace.after reorderedJoin).store.state.continuations ∧
        [2, 1] ∈ (ByteSpace.after reorderedJoin).store.state.continuations := by decide +kernel
    exact absurd (oneOrder [1, 2] [2, 1] both.1 both.2 (.swap ..)) (by decide)
  exact ⟨duplicates, checkpoint_of_duplicates duplicates⟩

theorem checkpoint_keys_distinct_iff_sample :
    RadixHistory.hasNoDuplicates (historyActions (ByteSpace.after
      [.consume [1, 2] [0, 0] 7 false .none]).store.changes) = true := by
  refine (checkpoint_keys_distinct_iff (C := UInt8) (P := UInt8) (A := UInt8) (K := UInt8)).2 .empty
    [.consume [1, 2] [0, 0] 7 false .none] ?_ (by decide +kernel)
  rintro channels others (⟨_, stored⟩ | named) (⟨_, stored⟩ | named') perm
  · cases stored
  · cases stored
  · cases stored
  · simp_all [Operation.channelLists]

end Runs

end History

end F1r3fly.RSpace
