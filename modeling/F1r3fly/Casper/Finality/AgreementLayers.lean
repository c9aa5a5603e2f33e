import F1r3fly.Casper.Finality.Finalizer
import F1r3fly.Casper.Safety.FaultTolerance

/-! The layers of the search. A validator agrees on the blocks of the main chain of its latest
message, down to the height of the last finalized block. -/
namespace F1r3fly.Casper.Finalizer

open HashedMap BlockStorage
open CliqueOracle
open Memo
open Relation (ReflTransGen)
open Results

/-- The caches hold what the DAG returns. -/
structure LayerCache.Sound (dag : KeyValueDagRepresentation) (cache : LayerCache) : Prop where
  messageWeightMap : ∀ hash value, cache.messageWeightMapCache.get? hash = some value →
    getCorrespondingWeightMap hash dag = .ok value
  mainParent : ∀ hash value, cache.mainParentCache.get? hash = some value →
    value = (dag.lookupUnsafe hash).toOption

variable {dag : KeyValueDagRepresentation}

section Caches

theorem sound_newLayerCache : newLayerCache.Sound dag where
  messageWeightMap _ _ found := by cases found
  mainParent _ _ found := by cases found

theorem implements_messageWeightMap (hash : BlockHash) :
    Implements (LayerCache.Sound dag) ((cached dag).messageWeightMap hash).run
      ((direct dag).messageWeightMap hash).run := by
  apply implements_memo
  · intro cache value sound found
    exact returns_liftExcept.mpr (sound.messageWeightMap hash value found)
  · intro cache value sound returned
    refine { sound with messageWeightMap := ?_ }
    intro other found_value found
    rw [get?_insert] at found
    split_ifs at found with same
    · cases found
      rw [eq_of_beq same]
      exact returns_liftExcept.mp returned
    · exact sound.messageWeightMap other found_value found

theorem implements_mainParent (hash : BlockHash) :
    Implements (LayerCache.Sound dag) ((cached dag).mainParent hash).run
      ((direct dag).mainParent hash).run := by
  apply implements_memo
  · intro cache value sound found
    exact returns_pure.mpr (sound.mainParent hash value found).symm
  · intro cache value sound returned
    refine { sound with mainParent := ?_ }
    intro other found_value found
    rw [get?_insert] at found
    split_ifs at found with same
    · cases found
      rw [eq_of_beq same]
      exact (returns_pure.mp returned).symm
    · exact sound.mainParent other found_value found

theorem implements_nextMessage (currLfbHeight : Int64) (message : BlockMetadata) :
    Implements (LayerCache.Sound dag) (nextMessage (cached dag) currLfbHeight message)
      (nextMessage (direct dag) currLfbHeight message) := by
  rw [nextMessage, nextMessage]
  cases message.parents.head? with
  | none => exact implements_pure none
  | some mainParentHash =>
    refine implements_bind (implements_mainParent mainParentHash) fun outcome _ => ?_
    rcases outcome with failed | missing | metadata
    · exact implements_pure none
    · exact implements_pure none
    · exact implements_pure _

theorem implements_visit (currLfbHeight : Int64) (state : Aggregated × Layer)
    (entry : Validator × BlockMetadata) :
    Implements (LayerCache.Sound dag) (visit (cached dag) currLfbHeight state entry)
      (visit (direct dag) currLfbHeight state entry) := by
  refine implements_bind (implements_messageWeightMap entry.2.blockHash) fun outcome _ => ?_
  cases outcome with
  | error failed => exact implements_pure state
  | ok messageWeightMap =>
    refine implements_bind (implements_nextMessage currLfbHeight entry.2) fun next _ => ?_
    cases next with
    | none | some next => exact implements_pure _

theorem implements_layers (currLfbHeight : Int64) (fuel : Nat) (currentLayer : Layer)
    (aggregated : Aggregated) :
    Implements (LayerCache.Sound dag)
      (layers (cached dag) currLfbHeight fuel currentLayer aggregated)
      (layers (direct dag) currLfbHeight fuel currentLayer aggregated) := by
  induction fuel generalizing currentLayer aggregated with
  | zero => exact implements_failure
  | succ fuel ih =>
    refine implements_bind (implements_foldlM
      (fun state entry _ => implements_visit currLfbHeight state entry) (aggregated, []))
      fun state _ => ?_
    dsimp only
    split
    · exact implements_pure state.1
    · exact ih state.2 state.1

end Caches

section

variable (dag : KeyValueDagRepresentation)

def Above (height : Int64) (child parent : BlockHash) : Prop :=
  dag.mainParent child = some parent ∧
    ∃ metadata, dag.lookup parent = some metadata ∧ height < metadata.blockNumber

def Visits (height : Int64) (v : Validator) (hash : BlockHash) : Prop :=
  ∃ latest, dag.latestMessageHash v = some latest ∧ ReflTransGen (Above dag height) latest hash

structure Describes (visited : Validator → BlockHash → Prop)
    (aggregated : Aggregated) : Prop where
  recorded : ∀ hash agreement, aggregated.get? hash = some agreement →
    dag.lookup hash = some agreement.message ∧
      getCorrespondingWeightMap hash dag = .ok agreement.messageWeightMap ∧
        ∀ v stake, agreement.agreeingWeightMap.get? v = some stake ↔
          visited v hash ∧ agreement.messageWeightMap.get? v = some stake ∧ 0 < stake.toInt
  present : ∀ hash, (aggregated.get? hash).isSome ↔ ∃ v, visited v hash

def nextEntry (height : Int64)
    (entry : Validator × BlockMetadata) : Option (Validator × BlockMetadata) :=
  (entry.2.parents.head?.bind dag.lookup).bind fun metadata =>
    if metadata.blockNumber > height then some (entry.1, metadata) else none

end

section Steps

variable {height : Int64} {visited : Validator → BlockHash → Prop} {aggregated : Aggregated}

theorem nextEntry_eq_some (complete : Complete dag)
    (known : dag.lookup entry.2.blockHash = some entry.2) :
    nextEntry dag height entry = some next ↔ next.1 = entry.1 ∧
      dag.lookup next.2.blockHash = some next.2 ∧
        Above dag height entry.2.blockHash next.2.blockHash := by
  have main_parent := (complete.indexed _ _ known).2.2.2
  constructor
  · intro is_next
    obtain ⟨metadata, parent_found, kept⟩ := bind_eq_some_iff.mp is_next
    obtain ⟨parent, is_parent, found⟩ := bind_eq_some_iff.mp parent_found
    split at kept
    case isTrue high =>
      cases kept
      have hash_eq := (complete.indexed _ _ found).1
      rw [hash_eq]
      exact ⟨rfl, found, main_parent.trans is_parent, metadata, found, high⟩
    case isFalse => cases kept
  · rintro ⟨same_validator, found, step, metadata, metadata_found, high⟩
    rw [found] at metadata_found
    cases metadata_found
    apply bind_eq_some_iff.mpr
    refine ⟨next.2, bind_eq_some_iff.mpr ⟨_, main_parent.symm.trans step, found⟩, ?_⟩
    rw [if_pos high, ← same_validator]

theorem nextMessage_direct (entry : Validator × BlockMetadata) :
    nextMessage (direct dag) height entry.2 = some ((nextEntry dag height entry).map (·.2)) := by
  rw [nextMessage, nextEntry]
  cases entry.2.parents.head? with
  | none => rfl
  | some parent =>
    rw [bind_some, direct]
    cases found : dag.lookup parent with
    | none => simp [KeyValueDagRepresentation.lookupUnsafe, found, Except.toOption]
    | some metadata =>
      dsimp only
      rw [lookupUnsafe_of_lookup found, bind_some]
      by_cases high : metadata.blockNumber > height
      · simp [high, Except.toOption]
      · simp [high, Except.toOption]

theorem recordAgreement_eq_some :
    recordAgreement messageWeightMap v = some result ↔
      result.1 = v ∧ messageWeightMap.get? v = some result.2 ∧ 0 < result.2.toInt := by
  rw [recordAgreement]
  cases found : messageWeightMap.get? v with
  | none => simp
  | some stake =>
    obtain ⟨w, other⟩ := result
    simp only [getD_some, gt_iff_lt, Option.ite_none_right_eq_some, Option.some.injEq,
      Prod.mk.injEq, lt_iff_toInt_lt]
    constructor
    · rintro ⟨positive, rfl, rfl⟩
      exact ⟨rfl, rfl, positive⟩
    · rintro ⟨rfl, rfl, positive⟩
      exact ⟨positive, rfl, rfl⟩

theorem get?_record {agreement : Agreement} {agreed : Validator → Prop}
    (before : ∀ w stake, agreement.agreeingWeightMap.get? w = some stake ↔
      agreed w ∧ messageWeightMap.get? w = some stake ∧ 0 < stake.toInt)
    (w : Validator) (stake : Int64) :
    (agreement.record messageWeightMap v).agreeingWeightMap.get? w = some stake ↔
      (agreed w ∨ w = v) ∧ messageWeightMap.get? w = some stake ∧ 0 < stake.toInt := by
  rw [Agreement.record]
  cases recorded : recordAgreement messageWeightMap v with
  | none =>
    rw [before]
    refine and_congr_left fun ⟨found, positive⟩ => ⟨.inl, fun agrees => agrees.resolve_right ?_⟩
    rintro rfl
    have would_record : recordAgreement messageWeightMap w = some (w, stake) :=
      recordAgreement_eq_some.mpr ⟨rfl, found, positive⟩
    cases recorded.symm.trans would_record
  | some result =>
    obtain ⟨same, found, positive⟩ := recordAgreement_eq_some.mp recorded
    dsimp only
    rw [same]
    split_ifs with already
    · obtain ⟨kept, kept_eq⟩ := isSome_iff_exists.mp already
      have agreed_v := ((before v kept).mp kept_eq).1
      rw [before]
      refine and_congr_left fun _ => ⟨.inl, fun agrees => agrees.elim id ?_⟩
      rintro rfl
      exact agreed_v
    · rw [get?_insert]
      split
      case isTrue same_v =>
        obtain rfl := eq_of_beq same_v
        rw [found, Option.some.injEq]
        constructor
        · rintro rfl
          exact ⟨.inr rfl, rfl, positive⟩
        · exact fun both => both.2.1
      case isFalse differs =>
        have not_v : w ≠ v := fun same_v => differs (beq_iff_eq.mpr same_v)
        rw [before, or_iff_left not_v]

theorem record_message (agreement : Agreement) (messageWeightMap : WeightMap) (v : Validator) :
    (agreement.record messageWeightMap v).message = agreement.message ∧
      (agreement.record messageWeightMap v).messageWeightMap = agreement.messageWeightMap := by
  rw [Agreement.record]
  split
  · exact ⟨rfl, rfl⟩
  · split <;> exact ⟨rfl, rfl⟩

theorem Describes.congr (described : Describes dag visited aggregated)
    (same : ∀ v hash, visited v hash ↔ others v hash) : Describes dag others aggregated := by
  have visited_eq : visited = others := funext fun v => funext fun hash => propext (same v hash)
  exact visited_eq ▸ described

theorem Describes.getD (described : Describes dag visited aggregated)
    (known : dag.lookup message.blockHash = some message)
    (weights_eq : getCorrespondingWeightMap message.blockHash dag = .ok weights) :
    let agreement := (aggregated.get? message.blockHash).getD ⟨message, weights, .empty⟩
    agreement.message = message ∧ agreement.messageWeightMap = weights ∧
      ∀ v stake, agreement.agreeingWeightMap.get? v = some stake ↔
        visited v message.blockHash ∧ weights.get? v = some stake ∧ 0 < stake.toInt := by
  cases found : aggregated.get? message.blockHash with
  | none =>
    refine ⟨rfl, rfl, fun v stake => ⟨by rintro ⟨⟩, ?_⟩⟩
    rintro ⟨is_visited, -⟩
    have present := (described.present message.blockHash).mpr ⟨v, is_visited⟩
    rw [found] at present
    cases present
  | some agreement =>
    obtain ⟨message_eq, map_eq, agreeing_iff⟩ := described.recorded _ agreement found
    rw [known] at message_eq
    rw [weights_eq] at map_eq
    cases message_eq
    cases map_eq
    exact ⟨rfl, rfl, agreeing_iff⟩

theorem visit_direct (complete : Complete dag) (height : Int64) (state : Aggregated × Layer)
    (described : Describes dag visited state.1)
    (known : dag.lookup entry.2.blockHash = some entry.2) :
    ∃ aggregated, visit (direct dag) height state entry =
        some (aggregated, state.2 ++ (nextEntry dag height entry).toList) ∧
      Describes dag (fun v hash => visited v hash ∨ v = entry.1 ∧ hash = entry.2.blockHash)
        aggregated := by
  obtain ⟨weights, weights_eq⟩ := complete.getCorrespondingWeightMap_ok ⟨_, known⟩
  have found : Returns ((direct dag).messageWeightMap entry.2.blockHash) weights :=
    returns_liftExcept.mpr weights_eq
  refine ⟨state.1.upsert entry.2.blockHash ⟨entry.2, weights, .empty⟩ (·.record weights entry.1),
    ?_, ?_⟩
  · rw [visit, found]
    dsimp only [Option.bind_eq_bind, bind_some]
    rw [nextMessage_direct]
    cases is_next : nextEntry dag height entry with
    | none => simp
    | some next =>
      have same_validator : next.1 = entry.1 :=
        ((nextEntry_eq_some complete known).mp is_next).1
      simp [← same_validator]
  · constructor
    · intro hash agreement is_recorded
      rw [get?_upsert] at is_recorded
      split at is_recorded
      case isTrue same =>
        obtain rfl := eq_of_beq same
        cases is_recorded
        obtain ⟨message_eq, map_eq, agreeing_iff⟩ := described.getD known weights_eq
        obtain ⟨same_message, same_map⟩ := record_message
          ((state.1.get? entry.2.blockHash).getD ⟨entry.2, weights, .empty⟩) weights entry.1
        rw [same_message, same_map, message_eq, map_eq]
        refine ⟨known, weights_eq, fun v stake => ?_⟩
        rw [get?_record agreeing_iff, and_iff_left rfl]
      case isFalse differs =>
        have not_hash : hash ≠ entry.2.blockHash := fun same => differs (beq_iff_eq.mpr same)
        obtain ⟨message_eq, map_eq, agreeing_iff⟩ := described.recorded hash agreement is_recorded
        refine ⟨message_eq, map_eq, fun v stake => ?_⟩
        rw [agreeing_iff]
        simp [not_hash]
    · intro hash
      rw [get?_upsert]
      split
      case isTrue same => simp [eq_of_beq same]
      case isFalse differs =>
        have not_hash : hash ≠ entry.2.blockHash := fun same => differs (beq_iff_eq.mpr same)
        rw [described.present]
        simp [not_hash]

variable {currentLayer : Layer}

theorem foldlM_visit_direct (complete : Complete dag) (height : Int64)
    (described : Describes dag visited aggregated)
    (known : ∀ entry ∈ currentLayer, dag.lookup entry.2.blockHash = some entry.2)
    (nextLayer : Layer) :
    ∃ final, currentLayer.foldlM (visit (direct dag) height) (aggregated, nextLayer) =
        some (final, nextLayer ++ currentLayer.filterMap (nextEntry dag height)) ∧
      Describes dag (fun v hash => visited v hash ∨
        ∃ entry ∈ currentLayer, v = entry.1 ∧ hash = entry.2.blockHash) final := by
  induction currentLayer generalizing aggregated nextLayer visited with
  | nil =>
    refine ⟨aggregated, by simp, described.congr fun v hash => ?_⟩
    simp
  | cons entry rest ih =>
    obtain ⟨after, visit_eq, after_described⟩ :=
      visit_direct complete height (aggregated, nextLayer) described (known entry (.head _))
    obtain ⟨final, rest_eq, final_described⟩ := ih after_described
      (fun other present => known other (.tail entry present))
      (nextLayer ++ (nextEntry dag height entry).toList)
    refine ⟨final, ?_, final_described.congr fun v hash => ?_⟩
    · rw [foldlM_cons, visit_eq, Option.bind_eq_bind, bind_some, rest_eq,
        append_assoc]
      cases is_next : nextEntry dag height entry with
      | none => rw [filterMap_cons_none is_next, Option.toList_none, nil_append]
      | some next => rw [filterMap_cons_some is_next, Option.toList_some, List.singleton_append]
    · rw [exists_mem_cons_iff, or_assoc]

def blocksBelow (dag : KeyValueDagRepresentation) (number : Int64) : Nat :=
  (dag.blockMetadataIndex.entries.filter fun entry => entry.2.blockNumber < number).length

theorem blocksBelow_lt {child parent : BlockMetadata} {hash : BlockHash}
    (found : dag.lookup hash = some parent) (below : parent.blockNumber < child.blockNumber) :
    blocksBelow dag parent.blockNumber < blocksBelow dag child.blockNumber := by
  apply length_filter_lt _ (mem_entries_of_lookup found)
  · simp
  · simpa using below
  · intro entry
    simpa using fun lower => Int64.lt_trans lower below

section NextLayer

variable {currentLayer : Layer}
  (known : ∀ entry ∈ currentLayer, dag.lookup entry.2.blockHash = some entry.2)

include known

theorem mem_nextLayer (complete : Complete dag) :
    next ∈ currentLayer.filterMap (nextEntry dag height) ↔ ∃ entry ∈ currentLayer,
      next.1 = entry.1 ∧ dag.lookup next.2.blockHash = some next.2 ∧
        Above dag height entry.2.blockHash next.2.blockHash := by
  rw [mem_filterMap]
  exact exists_congr fun entry => and_congr_right fun present =>
    nextEntry_eq_some complete (known entry present)

theorem blocksBelow_nextLayer (complete : Complete dag) (height : Int64)
    (enough : ∀ entry ∈ currentLayer, blocksBelow dag entry.2.blockNumber < fuel + 1) :
    ∀ next ∈ currentLayer.filterMap (nextEntry dag height),
      blocksBelow dag next.2.blockNumber < fuel := by
  intro next present
  obtain ⟨entry, entry_present, -, found, is_parent, -⟩ :=
    (mem_nextLayer known complete).mp present
  have entry_known := known entry entry_present
  rw [(complete.indexed _ _ entry_known).2.2.2] at is_parent
  obtain ⟨parent, parent_found, below⟩ := complete.numbered _ _ _ entry_known is_parent
  rw [found] at parent_found
  cases parent_found
  exact (blocksBelow_lt found below).trans_le (Nat.le_of_lt_succ (enough entry entry_present))

theorem reaches_iff (complete : Complete dag) {hash : BlockHash} :
    (∃ entry ∈ currentLayer, v = entry.1 ∧
        ReflTransGen (Above dag height) entry.2.blockHash hash) ↔
      (∃ entry ∈ currentLayer, v = entry.1 ∧ hash = entry.2.blockHash) ∨
        ∃ next ∈ currentLayer.filterMap (nextEntry dag height), v = next.1 ∧
          ReflTransGen (Above dag height) next.2.blockHash hash := by
  constructor
  · rintro ⟨entry, present, rfl, path⟩
    rcases path.cases_head with same | ⟨parent, step, rest⟩
    · exact .inl ⟨entry, present, rfl, same.symm⟩
    · obtain ⟨is_parent, metadata, found, high⟩ := step
      have hash_eq := (complete.indexed _ _ found).1
      subst hash_eq
      refine .inr ⟨(entry.1, metadata), (mem_nextLayer known complete).mpr ?_, rfl, rest⟩
      exact ⟨entry, present, rfl, found, is_parent, metadata, found, high⟩
  · rintro (⟨entry, present, rfl, rfl⟩ | ⟨next, next_present, rfl, path⟩)
    · exact ⟨entry, present, rfl, .refl⟩
    · obtain ⟨entry, present, same, -, step⟩ := (mem_nextLayer known complete).mp next_present
      exact ⟨entry, present, same, .head step path⟩

end NextLayer

/-- The layers end, since the numbers of the blocks fall from one layer to the next. -/
theorem layers_direct (complete : Complete dag) (height : Int64)
    {fuel : Nat} (described : Describes dag visited aggregated)
    (known : ∀ entry ∈ currentLayer, dag.lookup entry.2.blockHash = some entry.2)
    (enough : ∀ entry ∈ currentLayer, blocksBelow dag entry.2.blockNumber < fuel)
    (fuel_pos : 0 < fuel) :
    ∃ final, layers (direct dag) height fuel currentLayer aggregated = some final ∧
      Describes dag (fun v hash => visited v hash ∨ ∃ entry ∈ currentLayer, v = entry.1 ∧
        ReflTransGen (Above dag height) entry.2.blockHash hash) final := by
  induction fuel generalizing currentLayer aggregated visited with
  | zero => exact absurd fuel_pos (lt_irrefl 0)
  | succ fuel ih =>
    obtain ⟨after, layer_eq, after_described⟩ :=
      foldlM_visit_direct complete height described known []
    rw [nil_append] at layer_eq
    have next_known : ∀ next ∈ currentLayer.filterMap (nextEntry dag height),
        dag.lookup next.2.blockHash = some next.2 := by
      intro next present
      obtain ⟨entry, -, -, found, -⟩ := (mem_nextLayer known complete).mp present
      exact found
    have next_enough := blocksBelow_nextLayer known complete height enough
    simp only [reaches_iff known complete]
    rw [layers, layer_eq, Option.bind_eq_bind, bind_some]
    dsimp only
    split_ifs with no_next
    · rw [List.isEmpty_iff.mp no_next]
      refine ⟨after, rfl, after_described.congr fun v hash => ?_⟩
      simp
    · obtain ⟨next, present⟩ := exists_mem_of_ne_nil _ fun empty =>
        no_next (List.isEmpty_iff.mpr empty)
      obtain ⟨final, final_eq, final_described⟩ := ih after_described next_known next_enough
        (Nat.zero_lt_of_lt (next_enough next present))
      exact ⟨final, final_eq, final_described.congr fun v hash => or_assoc⟩

end Steps

section Aggregate

variable [HashMapOrder]

theorem latestMessages_ok (complete : Complete dag) :
    ∃ lms, dag.latestMessages = .ok lms ∧ ∀ v metadata, lms.get? v = some metadata ↔
      ∃ hash, dag.latestMessageHash v = some hash ∧ dag.lookup hash = some metadata := by
  have listed (v : Validator) (hash : BlockHash) :
      (v, hash) ∈ dag.latestMessagesMap.iter ↔ dag.latestMessageHash v = some hash := by
    rw [mem_iter, mem_entries_iff]
    rfl
  have distinct : (dag.latestMessagesMap.iter.map (·.1)).Nodup :=
    ((HashMapOrder.perm dag.latestMessagesMap.entries).map _).nodup_iff.mpr
      (nodup_keys dag.latestMessagesMap)
  have : Nonempty BlockMetadata := ⟨⟨[], [], [], [], .empty, 0, 0, false, false, false⟩⟩
  choose! metadata found using fun (entry : Validator × BlockHash) present =>
    complete.latest entry.1 entry.2 ((listed entry.1 entry.2).mp present)
  refine ⟨.ofList (dag.latestMessagesMap.iter.map fun entry => (entry.1, metadata entry)), ?_, ?_⟩
  · rw [ofList, foldl_map]
    apply foldlM_eq_pure
    intro result entry present
    rw [lookupUnsafe_of_lookup (found entry present)]
    rfl
  · intro v latest
    rw [get?_ofList (by rwa [map_map]), mem_map]
    constructor
    · rintro ⟨entry, present, ⟨⟩⟩
      exact ⟨entry.2, (listed _ _).mp present, found entry present⟩
    · rintro ⟨hash, is_latest, looked_up⟩
      have present := (listed v hash).mpr is_latest
      cases (found (v, hash) present).symm.trans looked_up
      exact ⟨_, present, rfl⟩

theorem aggregate_returns (complete : Complete dag) (height : Int64) :
    ∃ aggregated, Returns (aggregate dag height) aggregated ∧
      Describes dag (Visits dag height) aggregated := by
  obtain ⟨lms, lms_eq, lms_iff⟩ := latestMessages_ok complete
  have first_iff (entry : Validator × BlockMetadata) :
      entry ∈ sortBy compareLatest lms.iter ↔ ∃ hash,
        dag.latestMessageHash entry.1 = some hash ∧ dag.lookup hash = some entry.2 := by
    rw [mem_sortBy, mem_iter, mem_entries_iff, lms_iff]
  have known : ∀ entry ∈ sortBy compareLatest lms.iter,
      dag.lookup entry.2.blockHash = some entry.2 := by
    intro entry present
    obtain ⟨hash, -, found⟩ := (first_iff entry).mp present
    rwa [(complete.indexed _ _ found).1]
  have enough (number : Int64) : blocksBelow dag number < layerRounds dag :=
    Nat.lt_succ_of_le (List.length_filter_le _ _)
  have nothing_visited : Describes dag (fun _ _ => False) .empty := by
    constructor
    · rintro hash agreement ⟨⟩
    · intro hash
      simp [HashedMap.empty, HashedMap.get?]
  obtain ⟨aggregated, layers_eq, described⟩ := layers_direct complete height nothing_visited known
    (fun entry _ => enough entry.2.blockNumber) (Nat.succ_pos _)
  refine ⟨aggregated, returns_bind.mpr ⟨lms, returns_liftExcept.mpr lms_eq, ?_⟩, ?_⟩
  · rw [(implements_layers height (layerRounds dag) _ _).run'_eq sound_newLayerCache, layers_eq]
    rfl
  · refine described.congr fun v hash => ?_
    rw [false_or, Visits]
    constructor
    · rintro ⟨entry, present, rfl, path⟩
      obtain ⟨latest, is_latest, found⟩ := (first_iff entry).mp present
      rw [(complete.indexed _ _ found).1] at path
      exact ⟨latest, is_latest, path⟩
    · rintro ⟨latest, is_latest, path⟩
      obtain ⟨metadata, found⟩ := complete.latest v latest is_latest
      rw [← (complete.indexed _ _ found).1] at path
      exact ⟨(v, metadata), (first_iff _).mpr ⟨latest, is_latest, found⟩, rfl, path⟩

end Aggregate

end F1r3fly.Casper.Finalizer
