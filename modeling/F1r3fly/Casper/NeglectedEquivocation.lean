import F1r3fly.Casper.EquivocationDetector

/-! Which justifications make a block neglect an equivocation. -/
namespace F1r3fly.Casper.EquivocationDetector

open HashedSet BlockStorage
open Models
open Relation (ReflTransGen)
open Results
open KeyValueBlockStore

section Views

variable (dag : KeyValueDagRepresentation) (blockStore : KeyValueBlockStore)
  (genesis : BlockMessage) (record : EquivocationRecord)

/-- The block of the equivocator that a block with the given hash shows: the block itself, or
the one that it justifies. -/
def Shows (hash : BlockHash) (view : BlockMessage) : Prop :=
  ∃ block, blockStore.get? hash = some block ∧ block.blockHash ≠ genesis.blockHash ∧
    (block.sender = record.equivocator ∧ view = block ∨
      block.sender ≠ record.equivocator ∧ ∃ latest,
        (toLatestMessageHashes block.justifications).get? record.equivocator = some latest ∧
          blockStore.get? latest = some view)

/-- The block shows one that is above the base block of the equivocation. -/
def ShowsAbove (hash : BlockHash) (view : BlockMessage) : Prop :=
  Shows blockStore genesis record hash view ∧
    view.seqNum.toInt > record.equivocationBaseBlockSeqNum.toInt

def IsChild (child : BlockHash) : Prop :=
  ∃ metadata, dag.lookup child = some metadata ∧ metadata.sender = record.equivocator ∧
    metadata.sequenceNumber.toInt = record.equivocationBaseBlockSeqNum.toInt + 1

/-- From the block that it shows, the block leads back to a child of the base block. -/
def LeadsTo (hash child : BlockHash) : Prop :=
  ∃ view, ShowsAbove blockStore genesis record hash view ∧
    ReflTransGen (fun block previous => previous ∈ creatorJustifications dag block)
      view.blockHash child ∧ IsChild dag record child

/-- Behind a block above the base that the block shows, there is one with the number after the
base, by the same sender. -/
def Found (hash : BlockHash) : Prop :=
  ∀ view, ShowsAbove blockStore genesis record hash view → ∃ child block,
    findCreatorJustificationAncestorWithSeqNum dag view
        (record.equivocationBaseBlockSeqNum.toInt + 1) = some child ∧
      blockStore.get? child = some block

/-- The justifications are stored, and those that are not by the equivocator justify a stored
block for it. -/
structure Readable (justified : List BlockHash) : Prop where
  present : ∀ hash ∈ justified, ∃ block, blockStore.get? hash = some block
  carries : ∀ hash ∈ justified, ∀ block, blockStore.get? hash = some block →
    block.blockHash ≠ genesis.blockHash → block.sender ≠ record.equivocator →
      ∃ latest view, (toLatestMessageHashes block.justifications).get? record.equivocator =
        some latest ∧ blockStore.get? latest = some view

end Views

variable {dag : KeyValueDagRepresentation} {blockStore : KeyValueBlockStore}
  {genesis : BlockMessage} {record : EquivocationRecord} {justified : List BlockHash}
  {hash : BlockHash} {children after : List BlockMessage}

theorem Shows.unique (shows : Shows blockStore genesis record justification view)
    (other_shows : Shows blockStore genesis record justification other) : other = view := by
  obtain ⟨block, stored, -, shown⟩ := shows
  obtain ⟨again, again_stored, -, other_shown⟩ := other_shows
  cases stored.symm.trans again_stored
  rcases shown with ⟨own, rfl⟩ | ⟨not_own, latest, latest_eq, view_stored⟩
  · exact (other_shown.resolve_right fun apart => apart.1 own).2
  · obtain ⟨-, latest', latest_eq', other_stored⟩ :=
      other_shown.resolve_left fun same => not_own same.1
    cases latest_eq.symm.trans latest_eq'
    exact Option.some.inj (other_stored.symm.trans view_stored)

theorem Readable.shows (readable : Readable blockStore genesis record justified)
    (listed : hash ∈ justified) (stored : blockStore.get? hash = some block)
    (not_genesis : block.blockHash ≠ genesis.blockHash) :
    ∃ view, Shows blockStore genesis record hash view := by
  by_cases own : block.sender = record.equivocator
  · exact ⟨block, block, stored, not_genesis, .inl ⟨own, rfl⟩⟩
  · obtain ⟨latest, view, latest_eq, view_stored⟩ :=
      readable.carries hash listed block stored not_genesis own
    exact ⟨view, block, stored, not_genesis, .inr ⟨own, latest, latest_eq, view_stored⟩⟩

theorem returns_addEquivocationChild :
    Returns (addEquivocationChild dag blockStore view baseSeqNum children) after ↔
      ∃ child block, findCreatorJustificationAncestorWithSeqNum dag view (baseSeqNum + 1) =
        some child ∧ blockStore.get? child = some block ∧ children ++ [block] = after := by
  rw [addEquivocationChild]
  cases findCreatorJustificationAncestorWithSeqNum dag view (baseSeqNum + 1) with
  | none => simp [Returns]
  | some child => simp [returns_map, returns_getUnsafe]

theorem maybeAddEquivocationChild_of_shows (stored : blockStore.get? hash = some block)
    (shows : Shows blockStore genesis record hash view) :
    Returns (maybeAddEquivocationChild dag blockStore genesis block record.equivocator
        record.equivocationBaseBlockSeqNum.toInt children) after ↔
      Returns (if view.seqNum.toInt > record.equivocationBaseBlockSeqNum.toInt then
          addEquivocationChild dag blockStore view record.equivocationBaseBlockSeqNum.toInt children
        else pure children) after := by
  obtain ⟨shown, shown_stored, not_genesis, shown_by⟩ := shows
  cases stored.symm.trans shown_stored
  rw [maybeAddEquivocationChild, if_neg not_genesis]
  rcases shown_by with ⟨own, rfl⟩ | ⟨not_own, latest, latest_eq, view_stored⟩
  · rw [if_pos own]
  · rw [if_neg not_own, latest_eq]
    exact (returns_getUnsafe.mpr view_stored).bind_iff

theorem maybeAddEquivocationChild_returns (readable : Readable blockStore genesis record justified)
    (listed : hash ∈ justified) (stored : blockStore.get? hash = some block)
    (found : Found dag blockStore genesis record hash) (children : List BlockMessage) :
    ∃ added : Option BlockMessage, Returns (maybeAddEquivocationChild dag blockStore genesis block
        record.equivocator record.equivocationBaseBlockSeqNum.toInt children)
          (children ++ added.toList) ∧
      (added.isSome ↔ ∃ view, ShowsAbove blockStore genesis record hash view) := by
  by_cases at_genesis : block.blockHash = genesis.blockHash
  · rw [maybeAddEquivocationChild, if_pos at_genesis]
    refine ⟨none, returns_pure.mpr (append_nil children).symm, ?_⟩
    simp only [Option.isSome_none, false_eq_true, false_iff]
    rintro ⟨view, ⟨other, other_stored, not_genesis, -⟩, -⟩
    cases stored.symm.trans other_stored
    exact not_genesis at_genesis
  · obtain ⟨view, shows⟩ := readable.shows listed stored at_genesis
    have above_iff : (∃ other, ShowsAbove blockStore genesis record hash other) ↔
        view.seqNum.toInt > record.equivocationBaseBlockSeqNum.toInt := by
      refine ⟨?_, fun above => ⟨view, shows, above⟩⟩
      rintro ⟨other, other_shows, above⟩
      exact shows.unique other_shows ▸ above
    simp only [maybeAddEquivocationChild_of_shows stored shows, above_iff]
    split_ifs with above
    · obtain ⟨child, added, search_eq, child_stored⟩ := found view ⟨shows, above⟩
      exact ⟨some added, returns_addEquivocationChild.mpr
        ⟨child, added, search_eq, child_stored, rfl⟩, by simp [above]⟩
    · exact ⟨none, returns_pure.mpr (append_nil children).symm, by simp [above]⟩

/-- A justification behind which nothing is found is an error. -/
theorem found_of_maybeAddEquivocationChild (stored : blockStore.get? hash = some block)
    (returned : Returns (maybeAddEquivocationChild dag blockStore genesis block record.equivocator
      record.equivocationBaseBlockSeqNum.toInt children) after) :
    Found dag blockStore genesis record hash := by
  rintro view ⟨shows, above⟩
  rw [maybeAddEquivocationChild_of_shows stored shows, if_pos above,
    returns_addEquivocationChild] at returned
  obtain ⟨child, added, search_eq, child_stored, -⟩ := returned
  exact ⟨child, added, search_eq, child_stored⟩

section Status

variable (dag blockStore genesis record)

variable (justifications : HashedMap Validator BlockHash)

def Detected : Prop :=
  ∃ entry ∈ justifications.entries, entry.2 ∈ record.equivocationDetectedBlockHashes

def Above (hash : BlockHash) : Prop := ∃ view, ShowsAbove blockStore genesis record hash view

def TwoAbove : Prop :=
  ∃ first ∈ justifications.entries, ∃ second ∈ justifications.entries, first.1 ≠ second.1 ∧
    Above blockStore genesis record first.2 ∧ Above blockStore genesis record second.2

def TwoChildren : Prop :=
  ∃ first ∈ justifications.entries, ∃ second ∈ justifications.entries, first.1 ≠ second.1 ∧
    ∃ child other, LeadsTo dag blockStore genesis record first.2 child ∧
      LeadsTo dag blockStore genesis record second.2 other ∧ child ≠ other

/-- No justification stops the detector with an error. -/
def AllFound : Prop :=
  ∀ entry ∈ justifications.entries, entry.2 ∈ record.equivocationDetectedBlockHashes ∨
    Found dag blockStore genesis record entry.2

open Classical in
noncomputable def countAbove (entries : List (Validator × BlockHash)) : Nat :=
  entries.countP fun entry => decide (Above blockStore genesis record entry.2)

end Status

open Classical in
theorem countAbove_cons : countAbove blockStore genesis record (entry :: rest) =
    countAbove blockStore genesis record rest +
      if Above blockStore genesis record entry.2 then 1 else 0 := by
  simp [countAbove, List.countP_cons]

theorem two_le_countAbove_iff (distinct : entries.Pairwise fun a b => (a.1 == b.1) = false) :
    2 ≤ countAbove blockStore genesis record entries ↔
      ∃ first ∈ entries, ∃ second ∈ entries, first.1 ≠ second.1 ∧
        Above blockStore genesis record first.2 ∧ Above blockStore genesis record second.2 := by
  have nodup : entries.Nodup := distinct.imp fun apart same => by simp [same] at apart
  rw [countAbove, List.countP_eq_length_filter, ← List.toFinset_card_of_nodup (nodup.filter _),
    ← Nat.lt_iff_add_one_le, Finset.one_lt_card]
  simp only [List.mem_toFinset, mem_filter, decide_eq_true_eq]
  constructor
  · rintro ⟨first, ⟨first_in, above⟩, second, ⟨second_in, other_above⟩, differ⟩
    have : Std.Symm fun a b : Validator × BlockHash => (a.1 == b.1) = false :=
      ⟨fun _ _ => BEq.symm_false⟩
    have apart := distinct.forall first_in second_in differ
    exact ⟨first, first_in, second, second_in, beq_eq_false_iff_ne.mp apart, above, other_above⟩
  · rintro ⟨first, first_in, second, second_in, differ, above, other_above⟩
    exact ⟨first, ⟨first_in, above⟩, second, ⟨second_in, other_above⟩,
      fun same => differ (congrArg Prod.fst same)⟩

/-- The justifications are counted one after the other, in whatever order they come. -/
theorem isEquivocationDetectable_returns [HashMapOrder]
    (readable : Readable blockStore genesis record justified) (fuel : Nat)
    (messages : HashedMap Validator BlockHash) (children : List BlockMessage)
    (listed : ∀ entry ∈ messages.entries, entry.2 ∈ justified)
    (found : AllFound dag blockStore genesis record messages) (few : children.length ≤ 1)
    (enough : messages.entries.length < fuel) :
    ∃ answer, Returns (isEquivocationDetectable dag blockStore genesis record fuel messages
        children) answer ∧
      (answer ↔ Detected record messages ∨
        2 ≤ children.length + countAbove blockStore genesis record messages.entries) := by
  induction fuel generalizing messages children with
  | zero => omega
  | succ fuel ih =>
    rw [isEquivocationDetectable]
    cases iter_eq : messages.iter with
    | nil =>
      refine ⟨false, returns_pure.mpr rfl, ?_⟩
      rw [Detected, HashedMap.iter_nil iter_eq]
      simp only [false_eq_true, not_mem_nil, false_and, exists_false, false_or, false_iff]
      simp only [countAbove, List.countP_nil]
      omega
    | cons first remainder =>
      obtain ⟨validator, hash⟩ := first
      obtain ⟨perm, rest_entries⟩ := HashedMap.iter_cons iter_eq
      have mem_entries (entry : Validator × BlockHash) :
          entry ∈ messages.entries ↔ entry = (validator, hash) ∨ entry ∈ remainder := by
        rw [← perm.mem_iff, mem_cons]
      have first_listed : hash ∈ justified := listed (validator, hash)
        ((mem_entries _).mpr (.inl rfl))
      by_cases detected : record.equivocationDetectedBlockHashes.contains hash
      · refine ⟨true, ?_, ?_⟩
        · dsimp only
          rw [if_pos detected]
          exact returns_pure.mpr rfl
        · exact ⟨fun _ => .inl ⟨(validator, hash), (mem_entries _).mpr (.inl rfl), detected⟩,
            fun _ => rfl⟩
      · obtain ⟨block, stored⟩ := readable.present hash first_listed
        obtain ⟨added, added_returned, added_iff⟩ :=
          maybeAddEquivocationChild_returns readable first_listed stored
            ((found _ ((mem_entries _).mpr (.inl rfl))).resolve_left detected) children
        have counted : (children ++ added.toList).length +
            countAbove blockStore genesis record remainder =
              children.length + countAbove blockStore genesis record messages.entries := by
          have same_count : countAbove blockStore genesis record messages.entries =
              countAbove blockStore genesis record ((validator, hash) :: remainder) :=
            (perm.countP_eq _).symm
          rw [same_count, length_append, countAbove_cons, Above, ← added_iff]
          cases added with
          | none => simp
          | some child =>
            simp
            omega
        have detected_iff : Detected record messages ↔
            ∃ entry ∈ remainder, entry.2 ∈ record.equivocationDetectedBlockHashes := by
          simp only [Detected, mem_entries, or_and_right, exists_or, exists_eq_left]
          exact or_iff_right detected
        dsimp only
        rw [if_neg detected]
        simp only [returns_bind, returns_getUnsafe, stored, Option.some.injEq, exists_eq_left']
        by_cases many : (children ++ added.toList).length > 1
        · refine ⟨true, ⟨_, added_returned, ?_⟩, fun _ => .inr (by omega), fun _ => rfl⟩
          rw [if_pos many]
          exact returns_pure.mpr rfl
        · have fewer : remainder.length < fuel := by
            have same_length := perm.length_eq
            rw [length_cons] at same_length
            omega
          obtain ⟨answer, returned, answer_iff⟩ := ih (.ofList remainder) (children ++ added.toList)
            (by
              rw [rest_entries]
              exact fun entry later => listed entry ((mem_entries entry).mpr (.inr later)))
            (by
              rw [AllFound, rest_entries]
              exact fun entry later => found entry ((mem_entries entry).mpr (.inr later)))
            (by omega) (by rw [rest_entries]; exact fewer)
          refine ⟨answer, ⟨_, added_returned, ?_⟩, ?_⟩
          · rw [if_neg many]
            exact returned
          · rw [answer_iff, rest_entries, counted, detected_iff, Detected, rest_entries]

/-- The first justification is looked at before there is an answer. -/
theorem found_of_first [HashMapOrder] {messages : HashedMap Validator BlockHash}
    (readable : Readable blockStore genesis record justified) (listed : hash ∈ justified)
    (iter_eq : messages.iter = (validator, hash) :: remainder)
    (returned : Returns (isEquivocationDetectable dag blockStore genesis record (fuel + 1) messages
      children) answer) :
    hash ∈ record.equivocationDetectedBlockHashes ∨ Found dag blockStore genesis record hash := by
  by_cases detected : record.equivocationDetectedBlockHashes.contains hash
  · exact .inl detected
  · obtain ⟨block, stored⟩ := readable.present hash listed
    rw [isEquivocationDetectable, iter_eq] at returned
    dsimp only at returned
    rw [if_neg detected, (returns_getUnsafe.mpr stored).bind_iff, returns_bind] at returned
    obtain ⟨updated, added, -⟩ := returned
    exact .inr (found_of_maybeAddEquivocationChild stored added)

theorem exists_order_first {messages : HashedMap Validator BlockHash}
    (present : entry ∈ messages.entries) :
    ∃ (_ : HashMapOrder) (rest : _), messages.iter = entry :: rest := by
  obtain ⟨position, inside, rfl⟩ := List.getElem_of_mem present
  have perm {α : Type} (entries : List α) :
      (entries.drop position ++ entries.take position).Perm entries :=
    List.perm_append_comm.trans (.of_eq (entries.take_append_drop position))
  refine ⟨⟨_, perm⟩, messages.entries.drop (position + 1) ++ messages.entries.take position, ?_⟩
  change messages.entries.drop position ++ messages.entries.take position = _
  rw [List.drop_eq_getElem_cons inside, cons_append]

/-- In whatever order the justifications come, a block that bonds the equivocator neglects the
equivocation exactly when it should, unless no child is found behind one of the justifications,
or two of them show a block above the base and no two lead to distinct children. -/
theorem discoveryStatus_iff {block : BlockMessage} {bond : Bond}
    (bonded : block.body.state.bonds.find?
      (fun bond => bond.validator == record.equivocator) = some bond)
    (staked : bond.stake > 0)
    (readable : Readable blockStore genesis record
      ((toLatestMessageHashes block.justifications).entries.map (·.2))) :
    (∀ _ : HashMapOrder, ∃ status,
        Returns (getEquivocationDiscoveryStatus dag blockStore genesis record block) status ∧
          (status = .equivocationNeglected ↔
            Detected record (toLatestMessageHashes block.justifications) ∨
              TwoChildren dag blockStore genesis record
                (toLatestMessageHashes block.justifications))) ↔
      AllFound dag blockStore genesis record (toLatestMessageHashes block.justifications) ∧
        (Detected record (toLatestMessageHashes block.justifications) ∨
          ¬TwoAbove blockStore genesis record (toLatestMessageHashes block.justifications) ∨
          TwoChildren dag blockStore genesis record
            (toLatestMessageHashes block.justifications)) := by
  generalize messages_eq : toLatestMessageHashes block.justifications = messages at readable ⊢
  have listed : ∀ entry ∈ messages.entries, entry.2 ∈ messages.entries.map (·.2) :=
    fun entry present => mem_map_of_mem present
  have status_iff [HashMapOrder] (status : EquivocationDiscoveryStatus) :
      Returns (getEquivocationDiscoveryStatus dag blockStore genesis record block) status ↔
        ∃ answer, Returns (isEquivocationDetectable dag blockStore genesis record
            (messages.entries.length + 1) messages []) answer ∧
          (if answer then .equivocationNeglected else .equivocationOblivious) = status := by
    rw [getEquivocationDiscoveryStatus, bonded]
    dsimp only
    rw [getEquivocationDiscoveryStatusForBondedValidator, if_pos staked, messages_eq]
    simp only [returns_bind, returns_pure]
  -- what the detector answers if it is not stopped
  have answers (found : AllFound dag blockStore genesis record messages) [HashMapOrder] :
      ∃ status, Returns (getEquivocationDiscoveryStatus dag blockStore genesis record block)
          status ∧ (status = .equivocationNeglected ↔
            Detected record messages ∨ TwoAbove blockStore genesis record messages) := by
    obtain ⟨answer, returned, answer_iff⟩ := isEquivocationDetectable_returns readable
      (messages.entries.length + 1) messages [] listed found (Nat.zero_le 1) (Nat.lt_succ_self _)
    rw [length_nil, Nat.zero_add, two_le_countAbove_iff messages.distinct] at answer_iff
    refine ⟨_, (status_iff _).mpr ⟨answer, returned, rfl⟩, ?_⟩
    rw [TwoAbove, ← answer_iff]
    cases answer <;> simp
  have children_above : TwoChildren dag blockStore genesis record messages →
      TwoAbove blockStore genesis record messages := by
    rintro ⟨first, first_in, second, second_in, differ, child, other, leads, other_leads, -⟩
    obtain ⟨view, shows, -⟩ := leads
    obtain ⟨other_view, other_shows, -⟩ := other_leads
    exact ⟨first, first_in, second, second_in, differ, ⟨view, shows⟩, ⟨other_view, other_shows⟩⟩
  constructor
  · intro right
    have found : AllFound dag blockStore genesis record messages := by
      intro entry present
      obtain ⟨order, rest, iter_eq⟩ := exists_order_first present
      obtain ⟨status, returned, -⟩ := right order
      obtain ⟨answer, detected, -⟩ := (status_iff status).mp returned
      exact found_of_first readable (listed entry present) iter_eq detected
    obtain ⟨status, returned, status_eq⟩ := right storedOrder
    obtain ⟨other, other_returned, other_eq⟩ := @answers found storedOrder
    cases other_returned.unique returned
    refine ⟨found, ?_⟩
    tauto
  · rintro ⟨found, kind⟩ order
    obtain ⟨status, returned, status_eq⟩ := answers found
    exact ⟨status, returned, by tauto⟩

def justifiedSample (blockHash : BlockHash) (sender : Validator) (seqNum : Int32)
    (justifications : List Justification) : BlockMessage where
  blockHash := blockHash
  header := ⟨[], 0, 1, []⟩
  body := ⟨⟨[], [], [⟨[7], 10⟩, ⟨[8], 10⟩], 0⟩, [], [], [], []⟩
  justifications := justifications
  sender := sender
  seqNum := seqNum
  sig := []
  sigAlgorithm := ""
  shardId := "root"
  extraBytes := []

def justifiedMetadata (blockHash : BlockHash) (sender : Validator) (seqNum : Int32)
    (justifications : List Justification) : BlockMetadata where
  blockHash := blockHash
  parents := []
  sender := sender
  justifications := justifications
  weightMap := .empty
  blockNumber := 0
  sequenceNumber := seqNum
  invalid := false
  directlyFinalized := false
  finalized := false

/-- Validator 7 has a base block 1 and one child of it, block 2. Validator 8 has seen the
child. -/
def oneChildStore : KeyValueBlockStore := .ofList [
  ([0], justifiedSample [0] [] 0 []),
  ([1], justifiedSample [1] [7] 1 [⟨[7], [0]⟩, ⟨[8], [0]⟩]),
  ([2], justifiedSample [2] [7] 2 [⟨[7], [1]⟩, ⟨[8], [0]⟩]),
  ([3], justifiedSample [3] [8] 1 [⟨[7], [2]⟩, ⟨[8], [0]⟩])]

def oneChildDag : KeyValueDagRepresentation where
  dagSet := .ofList [[0], [1], [2], [3]]
  latestMessagesMap := .empty
  childMap := .empty
  blockNumberMap := .empty
  mainParentMap := .empty
  finalizedBlocksSet := .empty
  blockMetadataIndex := .ofList [
    ([0], justifiedMetadata [0] [] 0 []),
    ([1], justifiedMetadata [1] [7] 1 [⟨[7], [0]⟩, ⟨[8], [0]⟩]),
    ([2], justifiedMetadata [2] [7] 2 [⟨[7], [1]⟩, ⟨[8], [0]⟩]),
    ([3], justifiedMetadata [3] [8] 1 [⟨[7], [2]⟩, ⟨[8], [0]⟩])]

def oneChildRecord : EquivocationRecord := ⟨[7], 1, .empty⟩

/-- The block justifies the child and the block of validator 8. -/
def oneChildBlock : BlockMessage := justifiedSample [4] [8] 2 [⟨[7], [2]⟩, ⟨[8], [3]⟩]

theorem isChild_oneChild (is_child : IsChild oneChildDag oneChildRecord child) : child = [2] := by
  obtain ⟨metadata, found, sender_eq, seq_eq⟩ := is_child
  have checked : ∀ entry ∈ oneChildDag.blockMetadataIndex.entries, entry.2.sender = [7] →
      entry.2.sequenceNumber.toInt = 1 + 1 → entry.1 = [2] := by decide +kernel
  exact checked _ (mem_entries_of_lookup found) sender_eq seq_eq

attribute [local instance] storedOrder

/-- Two justifications that lead to the same child are counted twice. -/
theorem neglected_of_one_child :
    Returns (getEquivocationDiscoveryStatus oneChildDag oneChildStore
        (justifiedSample [0] [] 0 []) oneChildRecord oneChildBlock) .equivocationNeglected ∧
      ¬(Detected oneChildRecord (toLatestMessageHashes oneChildBlock.justifications) ∨
        TwoChildren oneChildDag oneChildStore (justifiedSample [0] [] 0 []) oneChildRecord
          (toLatestMessageHashes oneChildBlock.justifications)) := by
  refine ⟨Results.returns_iff_returned?.mpr (by decide +kernel), ?_⟩
  rintro (⟨entry, -, detected⟩ | ⟨_, -, _, -, -, child, other, leads, other_leads, differ⟩)
  · exact not_mem_empty _ detected
  · obtain ⟨-, -, -, is_child⟩ := leads
    obtain ⟨-, -, -, other_is_child⟩ := other_leads
    exact differ ((isChild_oneChild is_child).trans (isChild_oneChild other_is_child).symm)

/-- A second child of the base, block 5, which validator 8 has seen in block 6. -/
def twoChildrenStore : KeyValueBlockStore :=
  (oneChildStore.insert [5] (justifiedSample [5] [7] 2 [⟨[7], [1]⟩, ⟨[8], [0]⟩])).insert [6]
    (justifiedSample [6] [8] 1 [⟨[7], [5]⟩, ⟨[8], [0]⟩])

def twoChildrenDag : KeyValueDagRepresentation :=
  { oneChildDag with
    dagSet := oneChildDag.dagSet.insert [5]
    blockMetadataIndex := oneChildDag.blockMetadataIndex.insert [5]
      (justifiedMetadata [5] [7] 2 [⟨[7], [1]⟩, ⟨[8], [0]⟩]) }

def twoChildrenBlock : BlockMessage := justifiedSample [4] [8] 2 [⟨[7], [2]⟩, ⟨[8], [6]⟩]

theorem shows_twoChildren :
    Shows twoChildrenStore (justifiedSample [0] [] 0 []) oneChildRecord [2]
        (justifiedSample [2] [7] 2 [⟨[7], [1]⟩, ⟨[8], [0]⟩]) ∧
      Shows twoChildrenStore (justifiedSample [0] [] 0 []) oneChildRecord [6]
        (justifiedSample [5] [7] 2 [⟨[7], [1]⟩, ⟨[8], [0]⟩]) :=
  ⟨⟨_, by decide +kernel, by decide, .inl ⟨rfl, rfl⟩⟩,
    ⟨_, rfl, by decide, .inr ⟨by decide, [5], by decide +kernel, by decide +kernel⟩⟩⟩

theorem leadsTo_twoChildren
    (shows : Shows twoChildrenStore (justifiedSample [0] [] 0 []) oneChildRecord hash
      (justifiedSample child [7] 2 [⟨[7], [1]⟩, ⟨[8], [0]⟩]))
    (recorded : twoChildrenDag.lookup child =
      some (justifiedMetadata child [7] 2 [⟨[7], [1]⟩, ⟨[8], [0]⟩])) :
    LeadsTo twoChildrenDag twoChildrenStore (justifiedSample [0] [] 0 []) oneChildRecord hash
      child :=
  ⟨_, ⟨shows, (by decide : (2 : Int32).toInt > (1 : Int32).toInt)⟩, .refl, _, recorded, rfl, rfl⟩

theorem found_twoChildren (stored : (twoChildrenStore.get? child).isSome)
    (shows : Shows twoChildrenStore (justifiedSample [0] [] 0 []) oneChildRecord hash
      (justifiedSample child [7] 2 [⟨[7], [1]⟩, ⟨[8], [0]⟩])) :
    Found twoChildrenDag twoChildrenStore (justifiedSample [0] [] 0 []) oneChildRecord hash := by
  rintro view ⟨other_shows, -⟩
  rw [shows.unique other_shows]
  obtain ⟨block, block_eq⟩ := isSome_iff_exists.mp stored
  exact ⟨child, block, rfl, block_eq⟩

theorem neglected_of_two_children :
    Returns (getEquivocationDiscoveryStatus twoChildrenDag twoChildrenStore
      (justifiedSample [0] [] 0 []) oneChildRecord twoChildrenBlock) .equivocationNeglected := by
  have bonded : twoChildrenBlock.body.state.bonds.find?
      (fun bond => bond.validator == oneChildRecord.equivocator) = some ⟨[7], 10⟩ := by
    decide +kernel
  have entries_eq : (toLatestMessageHashes twoChildrenBlock.justifications).entries =
      [([7], [2]), ([8], [6])] := by decide +kernel
  obtain ⟨shows, other_shows⟩ := shows_twoChildren
  have two : TwoChildren twoChildrenDag twoChildrenStore (justifiedSample [0] [] 0 [])
      oneChildRecord (toLatestMessageHashes twoChildrenBlock.justifications) := by
    refine ⟨([7], [2]), by simp [entries_eq], ([8], [6]), by simp [entries_eq], by decide, [2], [5],
      leadsTo_twoChildren shows ?_, leadsTo_twoChildren other_shows ?_, by decide⟩ <;>
      decide +kernel
  have readable : Readable twoChildrenStore (justifiedSample [0] [] 0 []) oneChildRecord
      ((toLatestMessageHashes twoChildrenBlock.justifications).entries.map (·.2)) := by
    rw [entries_eq]
    have checked : ∀ hash ∈ [[2], [6]], ∀ block ∈ twoChildrenStore.get? hash, block.sender ≠ [7] →
        (toLatestMessageHashes block.justifications).get? [7] = some [5] := by decide +kernel
    have shown : (twoChildrenStore.get? [5]).isSome := by decide +kernel
    obtain ⟨view, view_stored⟩ := isSome_iff_exists.mp shown
    constructor
    · have present : ∀ hash ∈ [[2], [6]], (twoChildrenStore.get? hash).isSome := by decide +kernel
      exact fun hash listed => isSome_iff_exists.mp (present hash listed)
    · exact fun hash listed block stored _ not_own =>
        ⟨[5], view, checked hash listed block stored not_own, view_stored⟩
  have found : AllFound twoChildrenDag twoChildrenStore (justifiedSample [0] [] 0 []) oneChildRecord
      (toLatestMessageHashes twoChildrenBlock.justifications) := by
    rw [AllFound, entries_eq]
    have first := found_twoChildren (by decide +kernel) shows
    have second := found_twoChildren (by decide +kernel) other_shows
    simp [first, second]
  obtain ⟨status, returned, status_eq⟩ := (discoveryStatus_iff bonded (by decide) readable).mpr
    ⟨found, .inr (.inr two)⟩ storedOrder
  exact status_eq.mpr (.inr two) ▸ returned

end F1r3fly.Casper.EquivocationDetector
