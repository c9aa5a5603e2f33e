import F1r3fly.BlockStorage.Insertion
import F1r3fly.Data.DependencyOrder

/-! When the latest messages do not depend on the order in which blocks arrive. A validator that is
bonded before it has sent a block has the block of another sender as its latest message. -/
namespace F1r3fly.BlockStorage

open Models (BlockMessage)
open RSpace
open Relation (TransGen)
open Results

def Refers (blocks : List BlockMessage) (block other : BlockMessage) : Prop :=
  other ∈ blocks ∧ (other.blockHash ∈ block.header.parentsHashList ∨
    other.blockHash ∈ block.justifications.map (·.latestBlockHash))

instance (blocks : List BlockMessage) (block other : BlockMessage) :
    Decidable (Refers blocks block other) :=
  inferInstanceAs (Decidable (_ ∧ _))

/-- A set of valid blocks that is closed under parents and justifications, in which no
sender has two blocks with one sequence number. -/
structure ValidBlocks (blocks : List BlockMessage) : Prop where
  distinct : (blocks.map (·.blockHash)).Nodup
  hash_length : ∀ block ∈ blocks, block.blockHash.length = blockHashLength
  sender_length : ∀ block ∈ blocks, block.sender = [] ∨ block.sender.length = validatorLength
  closed : ∀ block ∈ blocks, ∀ hash, hash ∈ block.header.parentsHashList ∨
    hash ∈ block.justifications.map (·.latestBlockHash) → ∃ other ∈ blocks, other.blockHash = hash
  acyclic : ∀ block, ¬TransGen (Refers blocks) block block
  above : ∀ block ∈ blocks, ∀ parent ∈ blocks, parent.blockHash ∈ block.header.parentsHashList →
    parent.body.state.blockNumber < block.body.state.blockNumber
  attained : ∀ block ∈ blocks,
    block.header.parentsHashList = [] ∧ block.body.state.blockNumber = 0 ∨
    ∃ parent ∈ blocks, parent.blockHash ∈ block.header.parentsHashList ∧
      block.body.state.blockNumber.toInt = parent.body.state.blockNumber.toInt + 1
  one_per_sequence : ∀ block ∈ blocks, ∀ other ∈ blocks, block.sender ≠ [] →
    block.sender = other.sender → block.seqNum = other.seqNum → block = other
  growing : ∀ block ∈ blocks, ∀ other ∈ blocks,
    ⟨block.sender, other.blockHash⟩ ∈ block.justifications →
    other.sender = block.sender → other.seqNum < block.seqNum

def FirstToIntroduce (blocks : List BlockMessage) (validator : Validator) (block : BlockMessage) :
    Prop :=
  Introduces validator block ∧ ∀ earlier, TransGen (Refers blocks) block earlier →
    earlier.sender ≠ validator ∧ ¬Introduces validator earlier

/-- Whoever sends blocks overtakes every block that may stand in for them. -/
def Overtaken (blocks : List BlockMessage) : Prop :=
  ∀ sent ∈ blocks, sent.sender ≠ [] → ∀ block ∈ blocks,
    FirstToIntroduce blocks sent.sender block →
      ∃ own ∈ blocks, own.sender = sent.sender ∧ block.seqNum ≤ own.seqNum

section Sequences

variable {validator : Validator}

theorem foldl_latestStep_none {blocks : List BlockMessage}
    (unconcerned : ∀ block ∈ blocks, block.sender ≠ validator ∧ ¬Introduces validator block) :
    blocks.foldl (latestStep validator) none = none := by
  refine foldlRecOn (motive := (· = none)) blocks _ rfl fun latest unset block present => ?_
  obtain ⟨not_own, not_introduced⟩ := unconcerned block present
  rw [latestStep, if_neg fun both => not_own both.1, if_neg fun both => not_introduced both.2,
    unset]

/-- From then on a message is kept until the validator's own blocks reach its sequence
number, and after that the highest of them is. -/
theorem foldl_latestStep_some (current : BlockMessage) (blocks : List BlockMessage) :
    ∃ latest, blocks.foldl (latestStep validator) (some current) = some latest ∧
      current.seqNum ≤ latest.seqNum ∧
      (∀ own ∈ blocks, own.sender = validator → own.seqNum ≤ latest.seqNum) ∧
      (latest = current ∧ (∀ own ∈ blocks, own.sender = validator → own.seqNum < current.seqNum) ∨
        latest ∈ blocks ∧ latest.sender = validator) := by
  induction blocks generalizing current with
  | nil => exact ⟨current, rfl, Int32.le_refl _, by simp, by simp⟩
  | cons block rest ih =>
    simp only [foldl_cons, forall_mem_cons]
    by_cases advances : block.sender = validator ∧ current.seqNum ≤ block.seqNum
    · have step : latestStep validator (some current) block = some block := by
        rw [latestStep, if_pos ⟨advances.1, by simpa using advances.2⟩]
      rw [step]
      obtain ⟨latest, reached, ahead, highest, origin⟩ := ih block
      refine ⟨latest, reached, Int32.le_trans advances.2 ahead, ⟨fun _ => ahead, highest⟩, .inr ?_⟩
      rcases origin with ⟨rfl, -⟩ | ⟨member, own⟩
      · exact ⟨.head _, advances.1⟩
      · exact ⟨.tail _ member, own⟩
    · have step : latestStep validator (some current) block = some current := by
        rw [latestStep, if_neg fun both => advances ⟨both.1, by simpa using both.2⟩,
          if_neg fun both => by cases both.1]
      have behind_block : block.sender = validator → block.seqNum < current.seqNum :=
        fun own => Int32.not_le.mp fun ahead => advances ⟨own, ahead⟩
      rw [step]
      obtain ⟨latest, reached, ahead, highest, origin⟩ := ih current
      refine ⟨latest, reached, ahead,
        ⟨fun own => Int32.le_trans (Int32.le_of_lt (behind_block own)) ahead, highest⟩, ?_⟩
      rcases origin with ⟨kept, behind⟩ | ⟨member, own⟩
      · exact .inl ⟨kept, behind_block, behind⟩
      · exact .inr ⟨.tail _ member, own⟩

/-- The latest message after an order that is split at the first block that concerns the
validator. -/
theorem latestOf_split {before rest : List BlockMessage}
    (unconcerned : ∀ block ∈ before, block.sender ≠ validator ∧ ¬Introduces validator block)
    (concerned : first.sender = validator ∨ Introduces validator first) :
    latestOf validator (before ++ first :: rest) =
      rest.foldl (latestStep validator) (some first) := by
  have step : latestStep validator none first = some first := by
    rw [latestStep]
    rcases concerned with own | introduced
    · rw [if_pos ⟨own, fun message member => by cases member⟩]
    · split
      · rfl
      · rw [if_pos ⟨rfl, introduced⟩]
  rw [latestOf, foldl_append, foldl_latestStep_none unconcerned, foldl_cons, step]

end Sequences

namespace ValidBlocks

variable {blocks order : List BlockMessage}

/-- In every order the validator's highest block is left, if the blocks that may stand in
for it are overtaken. -/
theorem latestOf_eq_highest (valid : ValidBlocks blocks) (overtaken : Overtaken blocks)
    (perm : order.Perm blocks) (ordered : InOrder (Refers blocks) order)
    (present : block ∈ blocks) (signed : block.sender ≠ [])
    (highest : ∀ other ∈ blocks, other.sender = block.sender → other.seqNum ≤ block.seqNum) :
    latestOf block.sender order = some block := by
  have same_of_seqNum {other : BlockMessage} (other_present : other ∈ blocks)
      (own : other.sender = block.sender) (ahead : block.seqNum ≤ other.seqNum) : other = block :=
    valid.one_per_sequence other other_present block present (own ▸ signed) own
      (Int32.le_antisymm (highest other other_present own) ahead)
  obtain ⟨first, found⟩ : ∃ first, order.find? (fun other =>
      decide (other.sender = block.sender ∨ Introduces block.sender other)) = some first := by
    rw [← isSome_iff_exists, List.find?_isSome]
    exact ⟨block, perm.mem_iff.mpr present, by simp⟩
  obtain ⟨concerned, before, rest, rfl, unconcerned⟩ := List.find?_eq_some_iff_append.mp found
  have unconcerned : ∀ other ∈ before, other.sender ≠ block.sender ∧
      ¬Introduces block.sender other := by
    intro other earlier
    simpa using unconcerned other earlier
  have concerned := of_decide_eq_true concerned
  have later_of_own {own : BlockMessage} (own_present : own ∈ blocks)
      (own_sender : own.sender = block.sender) : own = first ∨ own ∈ rest := by
    have member := perm.mem_iff.mpr own_present
    rw [mem_append, mem_cons] at member
    exact member.resolve_left fun earlier => (unconcerned own earlier).1 own_sender
  have first_present : first ∈ blocks :=
    perm.mem_iff.mp (mem_append_right before (.head _))
  rw [latestOf_split unconcerned concerned]
  obtain ⟨latest, reached, ahead, most, ⟨rfl, behind⟩ | ⟨member, own⟩⟩ :=
    foldl_latestStep_some first rest
  · rw [reached]
    by_cases own : latest.sender = block.sender
    · rcases later_of_own present rfl with rfl | later
      · rfl
      · have below := behind block later rfl
        exact absurd (highest latest first_present own) (Int32.not_le.mpr below)
    · have introduced := concerned.resolve_left own
      obtain ⟨next, next_present, next_own, not_below⟩ :=
        overtaken block present signed latest first_present ⟨introduced, fun earlier path =>
          unconcerned earlier (ordered.mem_of_transGen path)⟩
      rcases later_of_own next_present next_own with rfl | later
      · exact absurd next_own own
      · exact absurd not_below (Int32.not_le.mpr (behind next later next_own))
  · have latest_present : latest ∈ blocks :=
      perm.mem_iff.mp (mem_append_right before (.tail first member))
    rw [reached]
    rcases later_of_own present rfl with rfl | later
    · rw [same_of_seqNum latest_present own ahead]
    · rw [same_of_seqNum latest_present own (most block later rfl)]

/-- A block that may stand in for the validator and is not overtaken is left when it comes as
early as possible. -/
theorem exists_order_keeping (valid : ValidBlocks blocks) (present : block ∈ blocks)
    (first : FirstToIntroduce blocks validator block)
    (behind : ∀ own ∈ blocks, own.sender = validator → own.seqNum < block.seqNum) :
    ∃ order : List BlockMessage, order.Perm blocks ∧ InOrder (Refers blocks) order ∧
      latestOf validator order = some block := by
  obtain ⟨before, rest, perm, ordered, past⟩ := exists_order_with_past_first valid.acyclic
    (fun _ _ other refers => refers.1) present
  refine ⟨before ++ block :: rest, perm, ordered, ?_⟩
  rw [latestOf_split (fun other earlier => first.2 other (past other earlier)) (.inr first.1)]
  obtain ⟨latest, reached, ahead, -, ⟨rfl, -⟩ | ⟨member, own⟩⟩ := foldl_latestStep_some block rest
  · exact reached
  · have latest_present : latest ∈ blocks :=
      perm.mem_iff.mp (mem_append_right before (.tail block member))
    exact absurd ahead (Int32.not_le.mpr (behind latest latest_present own))

theorem exists_highest (present : sent ∈ blocks) (own : sent.sender = validator) :
    ∃ block ∈ blocks, block.sender = validator ∧
      ∀ other ∈ blocks, other.sender = validator → other.seqNum ≤ block.seqNum := by
  obtain ⟨block, member, highest⟩ := Finset.exists_max_image
    (blocks.filter (·.sender = validator)).toFinset (·.seqNum.toInt)
    ⟨sent, by simp [present, own]⟩
  rw [List.mem_toFinset, mem_filter, decide_eq_true_eq] at member
  refine ⟨block, member.1, member.2, fun other other_present other_own => ?_⟩
  exact Int32.le_iff_toInt_le.mpr (highest other (by simp [other_present, other_own]))

end ValidBlocks

namespace BlockDagKeyValueStorage

variable [Debug BlockHash] [Debug BlockMessage] [HashMapOrder]
  {storage : BlockDagKeyValueStorage} {blocks : List BlockMessage}

/-- Valid blocks are inserted in every order that puts each after the blocks it refers to. -/
theorem insertBlocks_holds (valid : ValidBlocks blocks) (perm : (done ++ rest).Perm blocks)
    (ordered : InOrder (Refers blocks) (done ++ rest)) (holds : storage.Holds done) :
    ∃ after, Returns (storage.insertBlocks rest) after ∧ after.Holds (done ++ rest) := by
  induction rest generalizing done storage with
  | nil =>
    rw [append_nil]
    exact ⟨storage, rfl, holds⟩
  | cons block rest ih =>
    have present : block ∈ blocks :=
      perm.mem_iff.mp (mem_append_right done (.head _))
    have new : ∀ other ∈ done, other.blockHash ≠ block.blockHash := by
      have distinct := (perm.map (·.blockHash)).nodup_iff.mpr valid.distinct
      rw [map_append, nodup_append] at distinct
      intro other earlier
      exact distinct.2.2 _ (mem_map_of_mem earlier) _ (.head _)
    have attained : block.body.state.blockNumber.toInt = 0 ∨ ∃ below ∈ done,
        block.body.state.blockNumber.toInt = below.body.state.blockNumber.toInt + 1 := by
      rcases valid.attained block present with ⟨-, zero⟩ | ⟨parent, parent_present, is_parent, next⟩
      · rw [zero]
        exact .inl rfl
      · exact .inr ⟨parent, ordered done block rest rfl parent ⟨parent_present, .inl is_parent⟩,
          next⟩
    obtain ⟨after, inserted, after_holds⟩ := holds.insertInternal
      block.header.parentsHashList.isEmpty new (valid.hash_length block present)
      (valid.sender_length block present) attained
    rw [List.append_cons] at perm ordered ⊢
    obtain ⟨final, rest_inserted, final_holds⟩ := ih perm ordered after_holds
    refine ⟨final, ?_, final_holds⟩
    exact returns_bind.mpr ⟨after, inserted, rest_inserted⟩

/-- Every order in which each block comes after the ones it refers to leaves each sender with
its highest block, exactly if the blocks that may stand in for a sender are overtaken. -/
theorem latestMessages_highest_iff (valid : ValidBlocks blocks) :
    (∀ order : List BlockMessage, order.Perm blocks → InOrder (Refers blocks) order →
      ∃ after, Returns (new.insertBlocks order) after ∧
        ∀ block ∈ blocks, block.sender ≠ [] →
          (∀ other ∈ blocks, other.sender = block.sender → other.seqNum ≤ block.seqNum) →
          after.getRepresentation.latestMessagesMap.get? block.sender = some block.blockHash) ↔
      Overtaken blocks := by
  have runs (order : List BlockMessage) (perm : order.Perm blocks)
      (ordered : InOrder (Refers blocks) order) :
      ∃ after, Returns (new.insertBlocks order) after ∧ after.Holds order := by
    have whole : ([] ++ order).Perm blocks := perm
    exact insertBlocks_holds valid whole ordered holds_new
  constructor
  · intro independent sent sent_present signed block present first
    by_contra none_ahead
    have behind : ∀ own ∈ blocks, own.sender = sent.sender → own.seqNum < block.seqNum := by
      intro own own_present own_sender
      exact Int32.not_le.mp fun ahead => none_ahead ⟨own, own_present, own_sender, ahead⟩
    obtain ⟨order, perm, ordered, kept⟩ := valid.exists_order_keeping present first behind
    obtain ⟨highest, highest_present, highest_own, is_highest⟩ :=
      ValidBlocks.exists_highest sent_present rfl
    obtain ⟨after, inserted, latest⟩ := independent order perm ordered
    obtain ⟨after', inserted', holds⟩ := runs order perm ordered
    obtain rfl := inserted'.unique inserted
    have entry := latest highest highest_present (highest_own ▸ signed) (highest_own ▸ is_highest)
    have entry_kept := holds.latest sent.sender signed
    rw [kept] at entry_kept
    rw [highest_own] at entry
    have same_hash := Option.some.inj (entry_kept.symm.trans entry)
    obtain rfl := List.inj_on_of_nodup_map valid.distinct present highest_present same_hash
    exact none_ahead ⟨block, present, highest_own, Int32.le_refl _⟩
  · intro overtaken order perm ordered
    obtain ⟨after, inserted, holds⟩ := runs order perm ordered
    refine ⟨after, inserted, fun block present signed highest => ?_⟩
    refine (holds.latest block.sender signed).trans ?_
    rw [valid.latestOf_eq_highest overtaken perm ordered present signed highest]
    rfl

end BlockDagKeyValueStorage

section Samples

attribute [local instance] storedOrder sampleHashDebug sampleBlockDebug

theorem acyclic_of_numbers
    (lower : ∀ block ∈ blocks, ∀ other ∈ blocks, Refers blocks block other →
      other.body.state.blockNumber.toInt < block.body.state.blockNumber.toInt)
    (block : BlockMessage) : ¬TransGen (Refers blocks) block block := by
  have descends {start reached : BlockMessage} (present : start ∈ blocks)
      (path : TransGen (Refers blocks) start reached) :
      reached.body.state.blockNumber.toInt < start.body.state.blockNumber.toInt := by
    induction path with
    | single step => exact lower start present _ step.1 step
    | tail path step ih =>
      obtain ⟨_, -, last⟩ := TransGen.tail'_iff.mp path
      exact Int.lt_trans (lower _ last.1 _ step.1 step) ih
  intro cycle
  obtain ⟨_, -, last⟩ := TransGen.tail'_iff.mp cycle
  exact Int.lt_irrefl _ (descends last.1 cycle)

/-- Two validators bond a third one in blocks that do not know of each other. The third one
sends a block on top of the one with the lower sequence number. -/
def bondedTwice : List BlockMessage :=
  [sampleBlock 0 [] 0 [] 0 [] [1, 2],
    sampleBlock 1 [0] 1 (sampleValidator 1) 1 [(1, 0), (2, 0)] [1, 2, 3],
    sampleBlock 2 [1] 2 (sampleValidator 3) 2 [(1, 1), (2, 0), (3, 1)] [1, 2, 3],
    sampleBlock 3 [0] 1 (sampleValidator 2) 1 [(1, 0), (2, 0)] [1, 2],
    sampleBlock 4 [3] 2 (sampleValidator 2) 2 [(1, 0), (2, 3)] [1, 2],
    sampleBlock 5 [4] 3 (sampleValidator 2) 3 [(1, 0), (2, 4)] [1, 2, 3]]

theorem valid_bonded (n : Nat) (chosen : n ∈ [3, 6]) : ValidBlocks (bondedTwice.take n) where
  distinct := by decide +kernel +revert
  hash_length := by decide +kernel +revert
  sender_length := by decide +kernel +revert
  closed := by
    have checked : ∀ block ∈ bondedTwice.take n, ∀ hash ∈ block.header.parentsHashList ++
        block.justifications.map (·.latestBlockHash), ∃ other ∈ bondedTwice.take n,
          other.blockHash = hash := by decide +kernel +revert
    intro block present hash refers
    exact checked block present hash (mem_append.mpr refers)
  acyclic := acyclic_of_numbers (by decide +kernel +revert)
  above := by decide +kernel +revert
  attained := by decide +kernel +revert
  one_per_sequence := by decide +kernel +revert
  growing := by decide +kernel +revert

theorem valid_bondedTwice : ValidBlocks bondedTwice := valid_bonded 6 (by decide)

def latestAfter (order : List BlockMessage) (validator : Validator) : Option (Option BlockHash) :=
  (Results.returned? (BlockDagKeyValueStorage.new.insertBlocks order)).map fun after =>
    after.getRepresentation.latestMessagesMap.get? validator

/-- The third validator has its own block as its latest message, or that of another one. -/
theorem latestMessages_depend_on_order :
    ValidBlocks bondedTwice ∧ ∃ order other : List BlockMessage,
      order.Perm bondedTwice ∧ InOrder (Refers bondedTwice) order ∧
      other.Perm bondedTwice ∧ InOrder (Refers bondedTwice) other ∧
      latestAfter order (sampleValidator 3) = some (some (sampleHash 2)) ∧
      latestAfter other (sampleValidator 3) = some (some (sampleHash 5)) := by
  refine ⟨valid_bondedTwice, bondedTwice,
    bondedTwice.take 1 ++ bondedTwice.drop 3 ++ (bondedTwice.take 3).drop 1, .refl _, ?_,
    by decide +kernel, ?_, by decide +kernel, by decide +kernel⟩
  · exact inOrder_of_pairwise (fun _ _ _ refers => refers.1) valid_bondedTwice.acyclic
      (by decide +kernel)
  · have perm : (bondedTwice.take 1 ++ bondedTwice.drop 3 ++
        (bondedTwice.take 3).drop 1).Perm bondedTwice := by decide +kernel
    exact inOrder_of_pairwise (fun _ _ _ refers => perm.mem_iff.mpr refers.1)
      valid_bondedTwice.acyclic (by decide +kernel)

theorem latestMessages_highest_of_bondedOnce :
    ValidBlocks (bondedTwice.take 3) ∧
    ∀ order : List BlockMessage, order.Perm (bondedTwice.take 3) →
      InOrder (Refers (bondedTwice.take 3)) order →
      ∃ after, Returns (BlockDagKeyValueStorage.new.insertBlocks order) after ∧
        ∀ block ∈ bondedTwice.take 3, block.sender ≠ [] →
          (∀ other ∈ bondedTwice.take 3, other.sender = block.sender →
            other.seqNum ≤ block.seqNum) →
          after.getRepresentation.latestMessagesMap.get? block.sender = some block.blockHash := by
  have overtaken : Overtaken (bondedTwice.take 3) := by
    have checked : ∀ sent ∈ bondedTwice.take 3, sent.sender ≠ [] → ∀ block ∈ bondedTwice.take 3,
        Introduces sent.sender block → ∃ own ∈ bondedTwice.take 3,
          own.sender = sent.sender ∧ block.seqNum ≤ own.seqNum := by decide +kernel
    intro sent sent_present signed block present first
    exact checked sent sent_present signed block present first.1
  have valid := valid_bonded 3 (by decide)
  exact ⟨valid, (BlockDagKeyValueStorage.latestMessages_highest_iff valid).mpr overtaken⟩

end Samples

end F1r3fly.BlockStorage
