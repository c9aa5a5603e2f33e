import F1r3fly.Casper.Validate

/-! The requester that downloads the blocks of the last finalized state: the table of its requests
and what it does with a block that arrives. -/
namespace F1r3fly.Casper.LfsBlockRequester

open Option HashedMap HashedSet Models
open BlockStorage (BlockHash)
open ProtoUtil (blockNumber parentHashes)

inductive ReqStatus where
  | init
  | requested
  | received
deriving DecidableEq

structure ReceiveInfo where
  requested : Bool
  latest : Bool
  lastlatest : Bool

structure ST where
  d : HashedMap BlockHash ReqStatus
  latest : HashedSet BlockHash
  lowerBound : Int64
  heightMap : HashedMap Int64 (HashedSet BlockHash)
  finished : HashedSet BlockHash

namespace ST

def new (initial latest : HashedSet BlockHash) (lowerBound : Int64) : ST where
  d := .ofList (initial.elements.map (·, .init))
  latest := latest
  lowerBound := lowerBound
  heightMap := .empty
  finished := .empty

variable (self : ST)

def add (keys : HashedSet BlockHash) : ST :=
  let newKeys := (keys.difference self.finished).filter fun k => (self.d.get? k).isNone
  { self with d := self.d.insertAll (newKeys.elements.map (·, .init)) }

/-- While latest messages are missing, only they are asked for. -/
def getNext (resend : Bool) : ST × List BlockHash :=
  let missing := self.latest.elements.filter fun key => (self.d.get? key).isNone
  let requests := self.d.insertAll (missing.map (·, .init))
  let requestKeys := requests.entries.filterMap fun entry =>
    let checkForRequest := entry.2 = .init || (resend && entry.2 = .requested)
    if checkForRequest && (self.latest.isEmpty || self.latest.contains entry.1) then some entry.1
    else none
  ({ self with d := self.d.insertAll (requestKeys.map (·, .requested)) }, requestKeys)

def received (k : BlockHash) (height : Int64) (latestReplacement : Option BlockHash) :
    ST × ReceiveInfo :=
  if self.d.get? k = some .requested then
    let isLatest := self.latest.contains k
    let adjLatest := self.latest.erase k
    let newLatest := (latestReplacement.map adjLatest.insert).getD adjLatest
    ({ self with
        d := self.d.insert k .received
        latest := newLatest
        lowerBound := if isLatest then min (height - 1) self.lowerBound else self.lowerBound
        heightMap := self.heightMap.upsert height .empty fun keys => keys.insert k },
      ⟨true, isLatest, isLatest && newLatest.isEmpty⟩)
  else (self, ⟨false, false, false⟩)

def done (k : BlockHash) : ST :=
  if self.d.get? k = some .received then
    { self with d := self.d.erase k, finished := self.finished.insert k }
  else self

def isFinished : Bool := self.latest.isEmpty && self.d.entries.isEmpty

theorem get?_new (initial latest : HashedSet BlockHash) (lowerBound : Int64) (k : BlockHash) :
    (new initial latest lowerBound).d.get? k = if k ∈ initial then some .init else none := by
  refine (get?_insertAll_map ReqStatus.init).trans ?_
  rfl

theorem get?_add (keys : HashedSet BlockHash) (k : BlockHash) :
    (self.add keys).d.get? k =
      if k ∈ keys ∧ k ∉ self.finished ∧ self.d.get? k = none then some .init
      else self.d.get? k := by
  have filtered : k ∈ (keys.difference self.finished).filter (fun k => (self.d.get? k).isNone) ↔
      k ∈ keys.difference self.finished ∧ (self.d.get? k).isNone :=
    HashedSet.mem_filter fun b same => by rw [eq_of_beq same]
  simp only [add, get?_insertAll_map, List.any_beq, List.contains_iff_mem,
    mem_elements_iff, filtered, mem_difference, isNone_iff_eq_none,
    and_assoc]

theorem get?_getNext (resend : Bool) (k : BlockHash) :
    (self.getNext resend).1.d.get? k =
      if k ∈ (self.getNext resend).2 then some .requested else self.d.get? k := by
  simp only [getNext, get?_insertAll_map, List.any_beq, List.contains_iff_mem]

theorem mem_getNext {self : ST} (asked : k ∈ (self.getNext resend).2) :
    (self.latest.isEmpty = false → k ∈ self.latest) ∧ self.d.get? k ≠ some .received ∧
      (k ∈ self.latest ∨ self.d.get? k ≠ none) ∧
      (resend = false → self.d.get? k ≠ some .requested) := by
  simp only [getNext, mem_filterMap] at asked
  obtain ⟨⟨key, status⟩, present, selected⟩ := asked
  split at selected
  case isFalse => cases selected
  case isTrue checked =>
    obtain rfl : key = k := Option.some.inj selected
    rw [mem_entries_iff, get?_insertAll_map] at present
    simp only [List.any_beq, List.contains_iff_mem, mem_filter, mem_elements_iff,
      isNone_iff_eq_none] at present
    simp only [and_eq_true, or_eq_true, decide_eq_true_eq, contains_iff] at checked
    refine ⟨fun nonempty => checked.2.resolve_left (by simp [nonempty]), ?_, ?_, ?_⟩
    · intro is_received
      rw [if_neg (by simp [is_received]), is_received] at present
      cases present
      simp at checked
    · by_cases absent : key ∈ self.latest ∧ self.d.get? key = none
      · exact .inl absent.1
      · rw [if_neg absent] at present
        exact .inr (by simp [present])
    · intro first is_requested
      rw [if_neg (by simp [is_requested]), is_requested] at present
      cases present
      simp [first] at checked

end ST

def creatorJustificationBlockMessage (block : BlockMessage) : Option Justification :=
  block.justifications.find? fun justification => justification.validator = block.sender

def dependenciesHashesOf (block : BlockMessage) : HashedSet BlockHash :=
  (HashedSet.ofList (parentHashes block)).union
    (.ofList (block.justifications.map (·.latestBlockHash)))

/-- The requester with the store that it fills, the queue of hashes that it found there and, for
the statements only, the blocks that it has finished. -/
structure Requester where
  st : ST
  store : HashedMap BlockHash BlockMessage
  responseHashes : List BlockHash
  saved : List BlockMessage

section Processor

variable (validateBlock : BlockMessage → Bool) (latestMessages : HashedSet BlockHash)

/-- The replacement of a latest message is read off the block before the block is checked. -/
def lmReplacement (block : BlockMessage) : Option BlockHash :=
  if latestMessages.contains block.blockHash then
    (creatorJustificationBlockMessage block).map (·.latestBlockHash)
  else none

def markReceived (st : ST) (block : BlockMessage) : ST × ReceiveInfo :=
  st.received block.blockHash (blockNumber block) (lmReplacement latestMessages block)

def validateReceivedBlock (st : ST) (block : BlockMessage) : ST × Bool :=
  let (st, info) := markReceived latestMessages st block
  let blockHashIsValid := info.requested && validateBlock block
  let blockIsAccepted :=
    info.latest || (info.requested && decide (blockNumber block ≥ st.lowerBound))
  if blockHashIsValid && blockIsAccepted then (st.add (dependenciesHashesOf block), true)
  else (st, blockHashIsValid)

section Requested

variable {st : ST} {block : BlockMessage}
  (requested : st.d.get? block.blockHash = some .requested)

include requested

theorem get?_markReceived (k : BlockHash) : (markReceived latestMessages st block).1.d.get? k =
    if k = block.blockHash then some .received else st.d.get? k := by
  simp only [markReceived, ST.received, requested, if_true, get?_insert, beq_iff_eq]

theorem mem_latest_markReceived :
    k ∈ (markReceived latestMessages st block).1.latest ↔
      k ∈ st.latest ∧ k ≠ block.blockHash ∨ lmReplacement latestMessages block = some k := by
  simp only [markReceived, ST.received, requested, if_true]
  cases lmReplacement latestMessages block with
  | none => simp [mem_erase]
  | some replacement =>
    simp only [map_some, getD_some, mem_insert, mem_erase,
      beq_iff_eq, beq_eq_false_iff_ne, Option.some.injEq]
    rw [or_comm, eq_comm]

theorem finished_markReceived :
    (markReceived latestMessages st block).1.finished = st.finished := by
  simp only [markReceived, ST.received, requested, if_true]

theorem lowerBound_markReceived : (markReceived latestMessages st block).1.lowerBound =
    if block.blockHash ∈ st.latest then min (blockNumber block - 1) st.lowerBound
    else st.lowerBound := by
  simp only [markReceived, ST.received, requested, if_true, contains_iff]

/-- A block that was asked for is refused, saved, or saved with its dependencies asked for. -/
theorem validateReceivedBlock_cases :
    validateReceivedBlock validateBlock latestMessages st block =
        ((markReceived latestMessages st block).1, false) ∨
      validateBlock block ∧
        ((block.blockHash ∉ st.latest ∧
            blockNumber block < (markReceived latestMessages st block).1.lowerBound ∧
            validateReceivedBlock validateBlock latestMessages st block =
              ((markReceived latestMessages st block).1, true)) ∨
          validateReceivedBlock validateBlock latestMessages st block =
            ((markReceived latestMessages st block).1.add (dependenciesHashesOf block), true)) := by
  have info : (markReceived latestMessages st block).2.requested := by
    simp only [markReceived, ST.received, requested, if_true]
  have latest : (markReceived latestMessages st block).2.latest =
      st.latest.contains block.blockHash := by
    simp only [markReceived, ST.received, requested, if_true]
  simp only [validateReceivedBlock, info, latest, Bool.true_and]
  by_cases valid : validateBlock block
  · refine .inr ⟨valid, ?_⟩
    split_ifs with refused
    · exact .inr rfl
    · simp only [valid, Bool.true_and, or_eq_true, decide_eq_true_eq, not_or,
        contains_iff] at refused
      exact .inl ⟨refused.1, Int64.not_le.mp refused.2, by rw [valid]⟩
  · simp [valid]

end Requested

theorem validateReceivedBlock_of_unrequested
    (unrequested : st.d.get? block.blockHash ≠ some .requested) :
    validateReceivedBlock validateBlock latestMessages st block = (st, false) := by
  simp only [validateReceivedBlock, markReceived, ST.received, unrequested, if_false,
    Bool.false_and, false_eq_true]

variable (self : Requester)

def saveBlock (block : BlockMessage) : Requester :=
  { self with
    store := if (self.store.get? block.blockHash).isSome then self.store
      else self.store.insert block.blockHash block
    st := self.st.done block.blockHash
    saved := block :: self.saved }

def requestNext (resend : Bool) : Requester :=
  let (st, hashes) := self.st.getNext resend
  { self with
    st := st
    responseHashes := self.responseHashes ++
      hashes.filter fun hash => (self.store.get? hash).isSome }

def processBlock (block : BlockMessage) : Requester :=
  let validated := validateReceivedBlock validateBlock latestMessages self.st block
  let self := { self with st := validated.1 }
  requestNext (if validated.2 then saveBlock self block else self) false

inductive Input where
  | request (resend : Bool)
  | response (block : BlockMessage)
  | existing

def Input.block? : Input → Option BlockMessage
  | request _ => none
  | response block => some block
  | existing => self.responseHashes.head?.bind self.store.get?

def step (input : Input) : Requester :=
  match input with
  | .request resend => requestNext self resend
  | .response block => processBlock validateBlock latestMessages self block
  | .existing =>
    let dequeued := { self with responseHashes := self.responseHashes.tail }
    match self.responseHashes.head?.bind self.store.get? with
    | some block => processBlock validateBlock latestMessages dequeued block
    | none => dequeued

end Processor

def latestMessages (approved : BlockMessage) : HashedSet BlockHash :=
  .ofList (approved.justifications.map (·.latestBlockHash))

def start (approved : BlockMessage) (initialMinimumHeight : Int64)
    (store : HashedMap BlockHash BlockMessage) : Requester where
  st := .new (.ofList [approved.blockHash]) (latestMessages approved) initialMinimumHeight
  store := store
  responseHashes := []
  saved := []

end F1r3fly.Casper.LfsBlockRequester
