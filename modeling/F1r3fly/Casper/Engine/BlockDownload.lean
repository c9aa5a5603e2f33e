import F1r3fly.Casper.BlockCommitment
import F1r3fly.Casper.Engine.LfsBlockRequester

/-! What a download of blocks guarantees: whether the stored blocks are those that were asked for,
and what has arrived when it ends. -/
namespace F1r3fly.Casper.LfsBlockRequester

open HashedMap HashedSet Models
open BlockStorage (BlockHash)
open ProtoUtil

variable {approved : BlockMessage} {minimumHeight : Int64} {st : ST} {saved : List BlockMessage}

/-- Nothing that is asked for as a latest message is forgotten. -/
def Followed (st : ST) (k : BlockHash) : Prop :=
  k ∈ st.latest ∨ k ∈ st.finished ∨ st.d.get? k = some .received

def Known (st : ST) (k : BlockHash) : Prop := st.d.get? k ≠ none ∨ k ∈ st.finished

/-- A latest message of the approved block, or the creator's own justification of one. -/
def Awaited (approved : BlockMessage) (saved : List BlockMessage) (k : BlockHash) : Prop :=
  k ∈ latestMessages approved ∨
    ∃ block ∈ saved, lmReplacement (latestMessages approved) block = some k

/-- The dependencies of the block are asked for, or the block is below the final lower bound. -/
def Settled (approved : BlockMessage) (st : ST) (saved : List BlockMessage)
    (block : BlockMessage) : Prop :=
  (∀ k ∈ dependenciesHashesOf block, Known st k) ∨
    (∀ k, k ∉ st.latest) ∧ blockNumber block < st.lowerBound ∧
      ¬ Awaited approved saved block.blockHash

structure Tracks (approved : BlockMessage) (minimumHeight : Int64) (st : ST)
    (saved : List BlockMessage) : Prop where
  bound : st.lowerBound ≤ minimumHeight
  idle : ∀ k ∈ st.finished, st.d.get? k = none ∨ k ∈ st.latest ∨ st.d.get? k = some .received
  latest_first : ∀ l ∈ st.latest, ∀ k, st.d.get? k = some .requested → k ∈ st.latest
  followed : ∀ k, Awaited approved saved k → Followed st k
  finished_iff : ∀ k, k ∈ st.finished ↔ ∃ block ∈ saved, block.blockHash = k
  settled : ∀ block ∈ saved, Settled approved st saved block
  known : Known st approved.blockHash

theorem latest_of_lmReplacement
    (replaced : lmReplacement latest block = some k) : block.blockHash ∈ latest := by
  simp only [lmReplacement] at replaced
  split at replaced
  case isTrue named => exact named
  case isFalse => cases replaced

namespace Tracks

section

variable (tracks : Tracks approved minimumHeight st saved)
include tracks

theorem not_awaited (none_left : ∀ k, k ∉ st.latest)
    (requested : st.d.get? k = some .requested) : ¬ Awaited approved saved k := by
  intro awaited
  rcases tracks.followed k awaited with late | finished | received
  · exact none_left k late
  · rcases tracks.idle k finished with absent | late | received
    · simp [requested] at absent
    · exact none_left k late
    · simp [requested] at received
  · simp [requested] at received

theorem getNext (resend : Bool) : Tracks approved minimumHeight (st.getNext resend).1 saved := by
  have kept {k : BlockHash} (known : st.d.get? k ≠ none) :
      (st.getNext resend).1.d.get? k ≠ none := by
    rw [ST.get?_getNext]
    split <;> simp_all
  have received {k : BlockHash} (received : st.d.get? k = some .received) :
      (st.getNext resend).1.d.get? k = some .received := by
    rw [ST.get?_getNext, if_neg fun asked => (ST.mem_getNext asked).2.1 received, received]
  have known {k : BlockHash} (known : Known st k) : Known (st.getNext resend).1 k :=
    known.imp_left kept
  refine ⟨tracks.bound, ?_, ?_, ?_, tracks.finished_iff, ?_, known tracks.known⟩
  · intro k finished
    rw [ST.get?_getNext]
    split_ifs with asked
    · rcases (ST.mem_getNext asked).2.2.1 with late | present
      · exact .inr (.inl late)
      · exact .inr (.inl (((tracks.idle k finished).resolve_left present).resolve_right
          (ST.mem_getNext asked).2.1))
    · exact tracks.idle k finished
  · intro l late k requested
    rw [ST.get?_getNext] at requested
    split_ifs at requested with asked
    · refine (ST.mem_getNext asked).1 (eq_false_iff.mpr fun none_left => ?_)
      exact isEmpty_iff.mp none_left l late
    · exact tracks.latest_first l late k requested
  · exact fun k awaited => (tracks.followed k awaited).imp_right (Or.imp_right received)
  · exact fun block member => (tracks.settled block member).imp_left fun all k dep =>
      known (all k dep)

theorem add (keys : HashedSet BlockHash) :
    Tracks approved minimumHeight (st.add keys) saved ∧ ∀ k ∈ keys, Known (st.add keys) k := by
  have unchanged {k : BlockHash} (present : st.d.get? k ≠ none) :
      (st.add keys).d.get? k = st.d.get? k := by
    rw [ST.get?_add, if_neg fun added => present added.2.2]
  have known {k : BlockHash} (known : Known st k) : Known (st.add keys) k :=
    known.imp_left fun present => by rwa [unchanged present]
  refine ⟨⟨tracks.bound, ?_, ?_, ?_, tracks.finished_iff, ?_, known tracks.known⟩, ?_⟩
  · intro k finished
    rw [ST.get?_add, if_neg fun added => added.2.1 finished]
    exact tracks.idle k finished
  · intro l late k requested
    rw [ST.get?_add] at requested
    split at requested
    · cases requested
    · exact tracks.latest_first l late k requested
  · refine fun k awaited => (tracks.followed k awaited).imp_right (Or.imp_right fun received => ?_)
    rw [unchanged (by simp [received]), received]
  · exact fun block member => (tracks.settled block member).imp_left fun all k dep =>
      known (all k dep)
  · intro k wanted
    by_cases finished : k ∈ st.finished
    · exact .inr finished
    · refine .inl ?_
      rw [ST.get?_add]
      split <;> simp_all

theorem markReceived (requested : st.d.get? block.blockHash = some .requested) :
    Tracks approved minimumHeight (markReceived (latestMessages approved) st block).1 saved := by
  have kept {k : BlockHash} (late : k ∈ st.latest) (other : k ≠ block.blockHash) :=
    (mem_latest_markReceived (latestMessages approved) requested).mpr (.inl ⟨late, other⟩)
  have known {k : BlockHash} (known : Known st k) :
      Known (LfsBlockRequester.markReceived (latestMessages approved) st block).1 k := by
    rw [Known, get?_markReceived _ requested, finished_markReceived _ requested]
    exact known.imp_left fun present => by split <;> simp_all
  -- A latest message that arrives was among those that are missing.
  have replaces {k : BlockHash}
    (replaced : lmReplacement (latestMessages approved) block = some k) :
      ∃ l, l ∈ st.latest := by
    by_contra none_left
    exact tracks.not_awaited (not_exists.mp none_left) requested
      (.inl (latest_of_lmReplacement replaced))
  refine ⟨?_, ?_, ?_, ?_, ?_, ?_, known tracks.known⟩
  · rw [lowerBound_markReceived _ requested]
    split
    · exact Int64.le_trans Std.min_le_right tracks.bound
    · exact tracks.bound
  · intro k finished
    rw [finished_markReceived _ requested] at finished
    rw [get?_markReceived _ requested]
    split_ifs with same
    · exact .inr (.inr rfl)
    · exact (tracks.idle k finished).imp_right (Or.imp_left fun late => kept late same)
  · intro l late k k_requested
    rw [get?_markReceived _ requested] at k_requested
    split_ifs at k_requested with other
    · cases k_requested
    · rcases (mem_latest_markReceived _ requested).mp late with ⟨late, -⟩ | replaced
      · exact kept (tracks.latest_first l late k k_requested) other
      · obtain ⟨l', late'⟩ := replaces replaced
        exact kept (tracks.latest_first l' late' k k_requested) other
  · intro k awaited
    rw [Followed, get?_markReceived _ requested, finished_markReceived _ requested]
    by_cases same : k = block.blockHash
    · exact .inr (.inr (if_pos same))
    · rw [if_neg same]
      exact (tracks.followed k awaited).imp_left fun late => kept late same
  · rw [finished_markReceived _ requested]
    exact tracks.finished_iff
  · intro other member
    refine (tracks.settled other member).imp (fun all k dep => known (all k dep)) ?_
    rintro ⟨none_left, below, not_awaited⟩
    refine ⟨fun k late => ?_, ?_, not_awaited⟩
    · rcases (mem_latest_markReceived _ requested).mp late with ⟨late, -⟩ | replaced
      · exact none_left k late
      · obtain ⟨l, late⟩ := replaces replaced
        exact none_left l late
    · rwa [lowerBound_markReceived _ requested, if_neg (none_left _)]

theorem done (received : st.d.get? block.blockHash = some .received)
    (replaced : ∀ k, lmReplacement (latestMessages approved) block = some k → k ∈ st.latest)
    (block_settled : Settled approved st saved block) :
    Tracks approved minimumHeight (st.done block.blockHash) (block :: saved) := by
  have lookup (k : BlockHash) : (st.done block.blockHash).d.get? k =
      if k = block.blockHash then none else st.d.get? k := by
    simp only [ST.done, received, if_true, get?_erase, beq_iff_eq]
  have finished {k : BlockHash} :
      k ∈ (st.done block.blockHash).finished ↔ k = block.blockHash ∨ k ∈ st.finished := by
    simp only [ST.done, received, if_true, mem_insert, beq_iff_eq]
  have latest : (st.done block.blockHash).latest = st.latest := by
    simp only [ST.done, received, if_true]
  have lowerBound : (st.done block.blockHash).lowerBound = st.lowerBound := by
    simp only [ST.done, received, if_true]
  have known {k : BlockHash} (known : Known st k) : Known (st.done block.blockHash) k := by
    by_cases same : k = block.blockHash <;> simp_all [Known]
  have awaited_iff {k : BlockHash} (awaited : Awaited approved (block :: saved) k) :
      Awaited approved saved k ∨ k ∈ st.latest := by
    rcases awaited with named | ⟨other, member, replaces⟩
    · exact .inl (.inl named)
    · rcases mem_cons.mp member with rfl | old
      · exact .inr (replaced k replaces)
      · exact .inl (.inr ⟨other, old, replaces⟩)
  have settled (other : BlockMessage) (old : Settled approved st saved other) :
      Settled approved (st.done block.blockHash) (block :: saved) other := by
    rw [Settled, latest, lowerBound]
    refine old.imp (fun all k dep => known (all k dep)) ?_
    rintro ⟨none_left, below, not_awaited⟩
    exact ⟨none_left, below, fun awaited => (awaited_iff awaited).elim not_awaited (none_left _)⟩
  refine ⟨lowerBound ▸ tracks.bound, ?_, ?_, ?_, ?_, ?_, known tracks.known⟩
  · intro k k_finished
    rw [lookup, latest]
    split_ifs with other
    · exact .inl rfl
    · exact tracks.idle k ((finished.mp k_finished).resolve_left other)
  · intro l late k requested
    rw [latest] at late ⊢
    rw [lookup] at requested
    split at requested
    · cases requested
    · exact tracks.latest_first l late k requested
  · intro k awaited
    rw [Followed, latest, finished, lookup]
    rcases awaited_iff awaited with old | late
    · rcases tracks.followed k old with late | old_finished | k_received
      · exact .inl late
      · exact .inr (.inl (.inr old_finished))
      · by_cases same : k = block.blockHash <;> simp_all
    · exact .inl late
  · intro k
    rw [finished, tracks.finished_iff, exists_mem_cons_iff, eq_comm]
  · intro other member
    rcases mem_cons.mp member with rfl | old
    · exact settled _ block_settled
    · exact settled other (tracks.settled other old)

end

theorem processBlock (self : Requester) (validateBlock : BlockMessage → Bool)
    (tracks : Tracks approved minimumHeight self.st self.saved) (block : BlockMessage) :
    Tracks approved minimumHeight
      (processBlock validateBlock (latestMessages approved) self block).st
      (processBlock validateBlock (latestMessages approved) self block).saved := by
  rw [LfsBlockRequester.processBlock]
  dsimp only [requestNext]
  refine getNext ?_ false
  by_cases requested : self.st.d.get? block.blockHash = some .requested
  case neg =>
    rw [validateReceivedBlock_of_unrequested validateBlock _ requested]
    exact tracks
  have tracks' := tracks.markReceived requested
  have is_received := get?_markReceived (latestMessages approved) requested block.blockHash
  rw [if_pos rfl] at is_received
  have replaced (k : BlockHash)
    (replaces : lmReplacement (latestMessages approved) block = some k) :=
    (mem_latest_markReceived (latestMessages approved) requested).mpr (.inr replaces)
  rcases validateReceivedBlock_cases validateBlock (latestMessages approved) requested with
    refused | ⟨-, ⟨not_latest, below, saves⟩ | accepted⟩
  · rw [refused]
    exact tracks'
  · rw [saves]
    -- The block is not a latest message, so no latest message is missing any more.
    have none_left (k : BlockHash) : k ∉ self.st.latest :=
      fun late => not_latest (tracks.latest_first k late _ requested)
    have none_awaited := tracks.not_awaited none_left requested
    refine tracks'.done is_received replaced (.inr ⟨fun k late => ?_, below, none_awaited⟩)
    rcases (mem_latest_markReceived _ requested).mp late with ⟨late, -⟩ | replaces
    · exact none_left k late
    · exact none_awaited (.inl (latest_of_lmReplacement replaces))
  · rw [accepted]
    obtain ⟨tracks_added, known⟩ := tracks'.add (dependenciesHashesOf block)
    refine tracks_added.done ?_ replaced (.inl known)
    rw [ST.get?_add, if_neg (by simp [is_received]), is_received]

theorem step (validateBlock : BlockMessage → Bool)
    (tracks : Tracks approved minimumHeight self.st self.saved) (input : Input) :
    Tracks approved minimumHeight (step validateBlock (latestMessages approved) self input).st
      (step validateBlock (latestMessages approved) self input).saved := by
  cases input with
  | request resend => exact tracks.getNext resend
  | response block => exact processBlock self validateBlock tracks block
  | existing =>
    rw [LfsBlockRequester.step]
    split
    · exact processBlock { self with responseHashes := self.responseHashes.tail }
        validateBlock tracks _
    · exact tracks

theorem start (store : HashedMap BlockHash BlockMessage) :
    Tracks approved minimumHeight (start approved minimumHeight store).st [] := by
  have lookup (k : BlockHash) : (LfsBlockRequester.start approved minimumHeight store).st.d.get? k =
      if k = approved.blockHash then some .init else none := by
    rw [LfsBlockRequester.start, ST.get?_new]
    simp [mem_ofList]
  refine ⟨Int64.le_refl _, ?_, ?_, ?_, ?_, ?_, .inl (by simp [lookup])⟩
  · exact fun k finished => absurd finished (not_mem_empty k)
  · intro l late k requested
    rw [lookup] at requested
    split at requested <;> cases requested
  · rintro k (named | ⟨block, absurd_mem, -⟩)
    · exact .inl named
    · cases absurd_mem
  · simp [LfsBlockRequester.start, ST.new]
  · exact fun block absurd_mem => absurd absurd_mem not_mem_nil

end Tracks

def download (validateBlock : BlockMessage → Bool) (approved : BlockMessage) (minimumHeight : Int64)
    (store : HashedMap BlockHash BlockMessage) (inputs : List Input) : Requester :=
  inputs.foldl (step validateBlock (latestMessages approved)) (start approved minimumHeight store)

/-- **A finished download is complete.** Whatever the responses are and in whatever order they
come, nothing is missing below the blocks that are high enough and below the latest messages with
their creators' own justifications. -/
theorem download_complete (validateBlock : BlockMessage → Bool) (approved : BlockMessage)
    (minimumHeight : Int64) (store : HashedMap BlockHash BlockMessage) (inputs : List Input)
    (finished : (download validateBlock approved minimumHeight store inputs).st.isFinished = true) :
    let r := download validateBlock approved minimumHeight store inputs
    r.st.lowerBound ≤ minimumHeight ∧ approved.blockHash ∈ r.st.finished ∧
    (∀ k, k ∈ r.st.finished ↔ ∃ block ∈ r.saved, block.blockHash = k) ∧
    (∀ k, Awaited approved r.saved k → k ∈ r.st.finished) ∧
    ∀ block ∈ r.saved,
      Awaited approved r.saved block.blockHash ∨ r.st.lowerBound ≤ blockNumber block →
        ∀ k ∈ dependenciesHashesOf block, k ∈ r.st.finished := by
  intro r
  have tracks : Tracks approved minimumHeight r.st r.saved :=
    foldlRecOn (motive := fun r : Requester => Tracks approved minimumHeight r.st r.saved) inputs _
      (Tracks.start store) fun self tracks input _ => tracks.step validateBlock input
  rw [ST.isFinished, and_eq_true, List.isEmpty_iff] at finished
  have none_left := isEmpty_iff.mp finished.1
  have nothing_open (k : BlockHash) : r.st.d.get? k = none := by
    rw [HashedMap.get?, finished.2]
    rfl
  have known_finished {k : BlockHash} (known : Known r.st k) : k ∈ r.st.finished :=
    known.resolve_left fun present => present (nothing_open k)
  refine ⟨tracks.bound, known_finished tracks.known, tracks.finished_iff, ?_, ?_⟩
  · intro k awaited
    rcases tracks.followed k awaited with late | k_finished | received
    · exact absurd late (none_left k)
    · exact k_finished
    · simp [nothing_open] at received
  · intro block member wanted k dep
    rcases tracks.settled block member with all | ⟨-, below, not_awaited⟩
    · exact known_finished (all k dep)
    · exact absurd below (Int64.not_lt.mpr (wanted.resolve_left not_awaited))

theorem mem_dependenciesHashesOf_of_lmReplacement
    (replaced : lmReplacement latest block = some k) : k ∈ dependenciesHashesOf block := by
  simp only [lmReplacement] at replaced
  split at replaced
  case isTrue =>
    obtain ⟨justification, found, rfl⟩ := Option.map_eq_some_iff.mp replaced
    refine mem_union.mpr (.inr (mem_ofList.mpr ?_))
    exact ⟨_, mem_map_of_mem (mem_of_find?_eq_some found), beq_self_eq_true _⟩
  case isFalse => cases replaced

section Authenticity

variable [RSpace.Blake2b] [ProstMessage Header] [ProstMessage BodyProto]
  {initial : HashedMap BlockHash BlockMessage}

/-- The check of the initializing node. The hash of a block that says to be a genesis block is not
looked at. -/
def validateBlock (block : BlockMessage) : Bool :=
  if blockNumber block = 0 then true
  else
    match Validate.blockHash block with
    | .ok .valid => true
    | .error _ => false

theorem hashBlock_of_validateBlock (valid : validateBlock block)
    (numbered : blockNumber block ≠ 0) : hashBlock block = block.blockHash := by
  rw [validateBlock, if_neg numbered, Validate.blockHash] at valid
  split at valid
  case h_1 computed =>
    split at computed
    case isTrue same => exact same.symm
    case isFalse => cases computed
  case h_2 => cases valid

/-- The hashes that the approved block leads to, through blocks with the contents of their
hashes. -/
inductive Led (approved : BlockMessage) : BlockHash → Prop where
  | approved : Led approved approved.blockHash
  | latest : k ∈ latestMessages approved → Led approved k
  | dependency (block : BlockMessage) : Led approved block.blockHash →
      hashBlock block = block.blockHash → k ∈ dependenciesHashesOf block → Led approved k

def OnlyLed (approved : BlockMessage) (st : ST) : Prop :=
  ∀ k, k ∈ st.latest ∨ Known st k → Led approved k

/-- What the requester has stored hashes to its key, and what it asks for is led to. -/
structure Authentic (approved : BlockMessage) (initial : HashedMap BlockHash BlockMessage)
    (requester : Requester) : Prop where
  stored : ∀ k block, requester.store.get? k = some block →
    initial.get? k = some block ∨ hashBlock block = k
  led : OnlyLed approved requester.st

/-- A response is the block that was asked for, or it is neither presented as a genesis block nor
as a latest message with a justification of its creator. -/
def Trusted (approved : BlockMessage) (st : ST) (block : BlockMessage) : Prop :=
  st.d.get? block.blockHash = some .requested →
    hashBlock block = block.blockHash ∨
      blockNumber block ≠ 0 ∧ lmReplacement (latestMessages approved) block = none

namespace Authentic

theorem requestNext (authentic : Authentic approved initial self)
    (resend : Bool) : Authentic approved initial (requestNext self resend) := by
  refine ⟨authentic.stored, fun k tracked => authentic.led k ?_⟩
  rcases tracked with late | open_request | finished
  · exact .inl late
  · dsimp only [LfsBlockRequester.requestNext] at open_request
    rw [ST.get?_getNext] at open_request
    split_ifs at open_request with asked
    · exact (ST.mem_getNext asked).2.2.1.imp_right .inl
    · exact .inr (.inl open_request)
  · exact .inr (.inr finished)

theorem processBlock (authentic : Authentic approved initial self)
    (trusted : Trusted approved self.st block) :
    Authentic approved initial
      (processBlock validateBlock (latestMessages approved) self block) := by
  refine requestNext ?_ false
  by_cases requested : self.st.d.get? block.blockHash = some .requested
  case neg =>
    rw [validateReceivedBlock_of_unrequested validateBlock _ requested]
    exact authentic
  have block_led : Led approved block.blockHash :=
    authentic.led _ (.inr (.inl (by simp [requested])))
  have marked : OnlyLed approved (markReceived (latestMessages approved) self.st block).1 := by
    intro k tracked
    rw [Known, get?_markReceived _ requested, finished_markReceived _ requested] at tracked
    by_cases same : k = block.blockHash
    · exact same ▸ block_led
    rw [if_neg same, mem_latest_markReceived _ requested] at tracked
    rcases tracked with (late | replaced) | known
    · exact authentic.led k (.inl late.1)
    · refine .dependency block block_led ?_ (mem_dependenciesHashesOf_of_lmReplacement replaced)
      exact (trusted requested).resolve_right fun unreplaced => by simp [unreplaced] at replaced
    · exact authentic.led k (.inr known)
  have saves (st : ST) (led : OnlyLed approved st) (valid : validateBlock block) :
      Authentic approved initial (saveBlock { self with st := st } block) := by
    have hashed : hashBlock block = block.blockHash :=
      (trusted requested).elim id fun numbered => hashBlock_of_validateBlock valid numbered.1
    refine ⟨fun k other found => ?_, fun k tracked => ?_⟩
    · dsimp only [saveBlock] at found
      split at found
      · exact authentic.stored k other found
      · rw [get?_insert] at found
        split_ifs at found with same
        · cases found
          exact .inr (hashed.trans (eq_of_beq same).symm)
        · exact authentic.stored k other found
    · dsimp only [saveBlock, ST.done] at tracked
      by_cases same : k = block.blockHash
      · exact same ▸ block_led
      · refine led k ?_
        split at tracked
        · simpa [Known, same, get?_erase, mem_insert] using tracked
        · exact tracked
  rcases validateReceivedBlock_cases validateBlock (latestMessages approved) requested with
    refused | ⟨valid, ⟨-, -, saved⟩ | accepted⟩
  · rw [refused]
    exact ⟨authentic.stored, marked⟩
  · rw [saved]
    exact saves _ marked valid
  · rw [accepted]
    have hashed : hashBlock block = block.blockHash :=
      (trusted requested).elim id fun numbered => hashBlock_of_validateBlock valid numbered.1
    refine saves _ (fun k tracked => ?_) valid
    rw [Known, ST.get?_add] at tracked
    by_cases dep : k ∈ dependenciesHashesOf block
    · exact .dependency block block_led hashed dep
    · rw [if_neg fun added => dep added.1] at tracked
      exact marked k tracked

theorem step (authentic : Authentic approved initial self) (input : Input)
    (trusted : ∀ block, input.block? self = some block → Trusted approved self.st block) :
    Authentic approved initial (step validateBlock (latestMessages approved) self input) := by
  cases input with
  | request resend => exact authentic.requestNext resend
  | response block => exact authentic.processBlock (trusted block rfl)
  | existing =>
    rw [LfsBlockRequester.step]
    split
    case h_1 block found =>
      exact processBlock ⟨authentic.stored, authentic.led⟩ (trusted block found)
    case h_2 => exact ⟨authentic.stored, authentic.led⟩

end Authentic

def TrustedRun (approved : BlockMessage) : Requester → List Input → Prop
  | _, [] => True
  | self, input :: rest =>
    (∀ block, input.block? self = some block → Trusted approved self.st block) ∧
      TrustedRun approved (step validateBlock (latestMessages approved) self input) rest

/-- **The stored blocks are those that were asked for**, as long as nobody presents another block
as a genesis block or as a latest message. -/
theorem download_authentic (approved : BlockMessage) (minimumHeight : Int64)
    (initial : HashedMap BlockHash BlockMessage) (inputs : List Input)
    (trusted : TrustedRun approved (start approved minimumHeight initial) inputs) :
    Authentic approved initial (download validateBlock approved minimumHeight initial inputs) := by
  have begins : Authentic approved initial (start approved minimumHeight initial) := by
    refine ⟨fun k block found => .inl found, fun k tracked => ?_⟩
    rcases tracked with late | known
    · exact .latest late
    · have same : k = approved.blockHash := by
        by_contra other
        simp [Known, start, ST.get?_new, mem_ofList, other] at known
        simp [ST.new] at known
      exact same ▸ .approved
  rw [download]
  generalize start approved minimumHeight initial = self at trusted begins
  induction inputs generalizing self with
  | nil => exact begins
  | cons input rest ih => exact ih _ trusted.2 (begins.step input trusted.1)

end Authenticity

/-- A block that fails its check leaves the download as it was exactly if it was not asked for
and nothing is left to ask for. -/
theorem processBlock_unchanged_iff (validateBlock : BlockMessage → Bool)
    (latestMessages : HashedSet BlockHash) (self : Requester) (block : BlockMessage)
    (invalid : validateBlock block = false) :
    let after := (processBlock validateBlock latestMessages self block).st
    ((∀ k, after.d.get? k = self.st.d.get? k) ∧ after.latest = self.st.latest ∧
        after.lowerBound = self.st.lowerBound ∧ after.heightMap = self.st.heightMap) ↔
      self.st.d.get? block.blockHash ≠ some .requested ∧ (self.st.getNext false).2 = [] := by
  intro after
  have after_eq {st : ST} (refused :
      validateReceivedBlock validateBlock latestMessages self.st block = (st, false)) :
      after = (st.getNext false).1 := by
    dsimp only [after, processBlock]
    rw [refused]
    rfl
  by_cases requested : self.st.d.get? block.blockHash = some .requested
  · have refused : validateReceivedBlock validateBlock latestMessages self.st block =
        ((markReceived latestMessages self.st block).1, false) :=
      (validateReceivedBlock_cases validateBlock latestMessages requested).resolve_right
        fun ⟨valid, _⟩ => by simp [invalid] at valid
    have received := get?_markReceived latestMessages requested block.blockHash
    rw [if_pos rfl] at received
    have stays : after.d.get? block.blockHash = some .received := by
      rw [after_eq refused, ST.get?_getNext,
        if_neg fun asked => (ST.mem_getNext asked).2.1 received, received]
    refine iff_of_false (fun same => ?_) fun other => other.1 requested
    have kept := same.1 block.blockHash
    rw [stays, requested] at kept
    cases kept
  · rw [after_eq (validateReceivedBlock_of_unrequested validateBlock latestMessages requested),
      and_iff_left ⟨rfl, rfl, rfl⟩, and_iff_right requested]
    simp only [ST.get?_getNext]
    constructor
    · intro same
      refine List.eq_nil_iff_forall_not_mem.mpr fun k asked => ?_
      have kept := same k
      rw [if_pos asked] at kept
      exact (ST.mem_getNext asked).2.2.2 rfl kept.symm
    · intro idle k
      simp [idle]

/-! Downloads of small chains. -/

def chainBlock (blockHash : BlockHash) (number : Int64) (parents : List BlockHash)
    (justifications : List Justification) : BlockMessage where
  blockHash := blockHash
  header := ⟨parents, 0, 1, []⟩
  body := ⟨⟨[], [], [], number⟩, [], [], [], []⟩
  justifications := justifications
  sender := [7]
  seqNum := 1
  sig := []
  sigAlgorithm := "secp256k1"
  shardId := "root"
  extraBytes := []

theorem download_complete_of_three :
    let approved := chainBlock [1] 2 [[2]] [⟨[7], [2]⟩]
    let inputs := [.request false, .response (chainBlock [2] 1 [[3]] [⟨[7], [3]⟩]),
      .response (chainBlock [3] 0 [] []), .response approved]
    (download (fun _ => true) approved 2 .empty inputs).st.isFinished = true ∧
      [3] ∈ (download (fun _ => true) approved 2 .empty inputs).st.finished := by
  intro approved inputs
  have finished : (download (fun _ => true) approved 2 .empty inputs).st.isFinished = true := by
    decide +kernel
  have complete := download_complete (fun _ => true) approved 2 .empty inputs finished
  refine ⟨finished, complete.2.2.2.1 [3] (.inr ⟨chainBlock [2] 1 [[3]] [⟨[7], [3]⟩], ?_, ?_⟩)⟩
  · have saved : (download (fun _ => true) approved 2 .empty inputs).saved =
        [approved, chainBlock [3] 0 [] [], chainBlock [2] 1 [[3]] [⟨[7], [3]⟩]] := by
      decide +kernel
    rw [saved]
    simp
  · decide +kernel

theorem processBlock_unchanged_of_unasked :
    let self := start (chainBlock [1] 5 [] [⟨[7], [2]⟩]) 0 .empty
    let asked := requestNext self false
    (processBlock (fun _ => false) .empty asked (chainBlock [3] 5 [] [])).st.latest =
      asked.st.latest := by
  intro self asked
  exact ((processBlock_unchanged_iff (fun _ => false) .empty asked (chainBlock [3] 5 [] [])
    rfl).mpr (by decide +kernel)).2.1

/-- The hash of the approved block was asked for. After a block that fails its check it is not
asked for again. -/
theorem invalid_block_not_resent :
    let asked := requestNext (start (chainBlock [1] 5 [] []) 0 .empty) false
    (asked.st.getNext true).2 = [[1]] ∧
      ((processBlock (fun _ => false) .empty asked (chainBlock [1] 5 [] [])).st.getNext true).2 =
        [] := by
  decide +kernel

/-- Above the approved block, the initial bound keeps the parents of the block itself away. -/
theorem download_misses_parent :
    (download (fun _ => true) (chainBlock [1] 3 [[4]] []) 5 .empty
      [.request false, .response (chainBlock [1] 3 [[4]] [])]).st.isFinished = true ∧
    [4] ∉ (download (fun _ => true) (chainBlock [1] 3 [[4]] []) 5 .empty
      [.request false, .response (chainBlock [1] 3 [[4]] [])]).st.finished := by
  decide +kernel

attribute [local instance] RSpace.blake2b

theorem download_authentic_of_one :
    let approved := sealed (chainBlock [] 5 [] [])
    let inputs := [.request false, .response approved]
    TrustedRun approved (start approved 0 .empty) inputs ∧
      (download validateBlock approved 0 .empty inputs).store.get? approved.blockHash =
        some approved ∧
      Authentic approved .empty (download validateBlock approved 0 .empty inputs) := by
  intro approved inputs
  have trusted : TrustedRun approved (start approved 0 .empty) inputs := by
    refine ⟨nofun, ?_, trivial⟩
    rintro _ ⟨⟩ _
    exact .inl rfl
  exact ⟨trusted, by decide +kernel, download_authentic _ _ _ _ trusted⟩

/-- The answer to a request for a hash is a block that says to have it, and to be a genesis
block. -/
def forgedDownload (h : BlockHash) : Requester :=
  download validateBlock (chainBlock [1] 5 [] [⟨[7], h⟩]) 0 .empty
    [.request false, .response (chainBlock h 0 [] [])]

theorem download_stores_forged :
    ∃ h, h.length = 32 ∧ (forgedDownload h).store.get? h = some (chainBlock h 0 [] []) ∧
      hashBlock (chainBlock h 0 [] []) ≠ h := by
  have stored : ∀ h ∈ [List.replicate 32 0, List.replicate 32 1],
      (forgedDownload h).store.get? h = some (chainBlock h 0 [] []) := by decide +kernel
  -- the claimed hash is not hashed, so one of the two is not the hash
  by_cases zero : hashBlock (chainBlock (List.replicate 32 0) 0 [] []) = List.replicate 32 0
  · refine ⟨List.replicate 32 1, rfl, stored _ (by simp), fun one => ?_⟩
    exact absurd (zero.symm.trans one) (by decide)
  · exact ⟨List.replicate 32 0, rfl, stored _ (by simp), zero⟩

end F1r3fly.Casper.LfsBlockRequester
