import F1r3fly.Casper.Api.DeployFinalizationStatus

/-! The scan meets every block of the finalized window, and keeps the highest event of each
kind. -/
namespace F1r3fly.Casper.DeployFinalizationStatus

open Option HashedMap HashedSet BlockStorage Worklist
open Models
open RSpace
open Results

def hasClean (sig : ByteVector) (block : BlockMessage) : Bool :=
  block.body.deploys.any fun pd => pd.deploy.sig == sig && !pd.isFailed

def hasFailed (sig : ByteVector) (block : BlockMessage) : Bool :=
  block.body.deploys.any fun pd => pd.deploy.sig == sig && pd.isFailed

def hasRejected (sig : ByteVector) (block : BlockMessage) : Bool :=
  block.body.rejectedDeploys.any fun rejected => rejected == sig

/-- The finalized blocks that are scanned: they are reached from the last finalized block
through parents that are scanned. -/
inductive InWindow (dag : KeyValueDagRepresentation) (blockStore : KeyValueBlockStore)
    (floor : Int64) : BlockHash → Prop
  | last (block : Int64 × BlockMessage)
      (here : scanned dag blockStore floor dag.lastFinalizedBlockHash = some block) :
      InWindow dag blockStore floor dag.lastFinalizedBlockHash
  | parent (child parent : BlockHash) (block parentBlock : Int64 × BlockMessage)
      (inside : InWindow dag blockStore floor child)
      (here : scanned dag blockStore floor child = some block)
      (listed : parent ∈ block.2.header.parentsHashList)
      (there : scanned dag blockStore floor parent = some parentBlock) :
      InWindow dag blockStore floor parent

section Scan

variable (dag : KeyValueDagRepresentation) (blockStore : KeyValueBlockStore) (floor : Int64)

def scannedParents (hash : BlockHash) : List BlockHash :=
  ((scanned dag blockStore floor hash).map fun block => block.2.header.parentsHashList).getD []

def scanOrder : List BlockHash :=
  order push (scannedParents dag blockStore floor)
    ((storedParents blockStore).length + 1) [dag.lastFinalizedBlockHash] .empty

def eventAt (holds : BlockMessage → Bool) (hash : BlockHash) : Option (Int64 × BlockHash) :=
  (scanned dag blockStore floor hash).bind fun block =>
    if holds block.2 then some (block.1, hash) else none

/-- The highest event of a kind. Of events of one height the scan keeps the one it meets
first. -/
def highestEvent (holds : BlockMessage → Bool) : Option (Int64 × BlockHash) :=
  ((scanOrder dag blockStore floor).filterMap (eventAt dag blockStore floor holds)).foldl highest
    none

end Scan

/-- A block of the window with its number that the predicate holds for. -/
def EventIn (dag : KeyValueDagRepresentation) (blockStore : KeyValueBlockStore) (floor : Int64)
    (holds : BlockMessage → Bool) (event : Int64 × BlockHash) : Prop :=
  InWindow dag blockStore floor event.2 ∧ ∃ block,
    scanned dag blockStore floor event.2 = some (event.1, block) ∧ holds block = true

variable {dag : KeyValueDagRepresentation} {blockStore : KeyValueBlockStore} {floor : Int64}
  {sig : ByteVector}

theorem scanned_eq_some {hash : BlockHash} (here : scanned dag blockStore floor hash = some block) :
    dag.blockNumberMap.get? hash = some block.1 ∧ blockStore.get? hash = some block.2 := by
  rw [scanned, bind_eq_some_iff] at here
  obtain ⟨height, number, here⟩ := here
  split at here
  case isTrue => cases here
  case isFalse =>
    obtain ⟨stored, found, rfl⟩ := map_eq_some_iff.mp here
    exact ⟨number, found⟩

theorem mem_scannedParents :
    parent ∈ scannedParents dag blockStore floor child ↔
      ∃ block, scanned dag blockStore floor child = some block ∧
        parent ∈ block.2.header.parentsHashList := by
  rw [scannedParents]
  cases scanned dag blockStore floor child with
  | none => simp
  | some block => simp

theorem rounds_le :
    rounds (scannedParents dag blockStore floor) blockStore.keys
      [dag.lastFinalizedBlockHash] .empty ≤ (storedParents blockStore).length + 1 := by
  have each (entry : BlockHash × BlockMessage) (present : entry ∈ blockStore.entries) :
      (if (HashedSet.empty : HashedSet BlockHash).contains entry.1 then 0
        else (scannedParents dag blockStore floor entry.1).length) ≤
      entry.2.header.parentsHashList.length := by
    have not_visited : ¬(HashedSet.empty : HashedSet BlockHash).contains entry.1 :=
      not_mem_empty entry.1
    rw [if_neg not_visited, scannedParents]
    cases here : scanned dag blockStore floor entry.1 with
    | none => exact Nat.zero_le _
    | some block =>
      have found := (scanned_eq_some here).2
      rw [get?_of_mem present] at found
      rw [map_some, getD_some, Option.some.inj found]
  rw [rounds, storedParents, List.length_flatMap, keys, map_map,
    List.length_singleton, Nat.add_comm]
  exact Nat.add_le_add_right (List.sum_le_sum each) 1

theorem scannedParents_covered (hash : BlockHash)
    (leads : scannedParents dag blockStore floor hash ≠ []) : hash ∈ blockStore.keys := by
  obtain ⟨parent, listed⟩ := exists_mem_of_ne_nil _ leads
  obtain ⟨block, here, -⟩ := mem_scannedParents.mp listed
  apply mem_keys_iff.mpr
  rw [(scanned_eq_some here).2]
  rfl

theorem inWindow_iff {hash : BlockHash} :
    InWindow dag blockStore floor hash ↔
      hash ∈ scanOrder dag blockStore floor ∧ (scanned dag blockStore floor hash).isSome := by
  rw [scanOrder, mem_order_empty scannedParents_covered push_perm rounds_le]
  constructor
  · intro inside
    induction inside with
    | last block here => exact ⟨⟨_, mem_singleton_self _, .refl⟩, by rw [here]; rfl⟩
    | parent child parent block parentBlock _ here listed there ih =>
      obtain ⟨⟨start, first, path⟩, -⟩ := ih
      refine ⟨⟨start, first, path.tail ?_⟩, by rw [there]; rfl⟩
      exact mem_scannedParents.mpr ⟨block, here, listed⟩
  · rintro ⟨⟨start, first, path⟩, readable⟩
    rw [mem_singleton] at first
    subst first
    obtain ⟨last_block, there⟩ := isSome_iff_exists.mp readable
    clear readable
    induction path generalizing last_block with
    | refl => exact .last last_block there
    | tail _ step ih =>
      obtain ⟨block, here, listed⟩ := mem_scannedParents.mp step
      exact .parent _ _ block last_block (ih block here) here listed there

variable {holds : BlockMessage → Bool}

theorem mem_events :
    event ∈ (scanOrder dag blockStore floor).filterMap (eventAt dag blockStore floor holds) ↔
      EventIn dag blockStore floor holds event := by
  rw [mem_filterMap, EventIn]
  simp only [inWindow_iff]
  constructor
  · rintro ⟨hash, met, at_hash⟩
    rw [eventAt, bind_eq_some_iff] at at_hash
    obtain ⟨block, here, at_hash⟩ := at_hash
    split at at_hash
    case isTrue holds_here =>
      cases at_hash
      exact ⟨⟨met, by rw [here]; rfl⟩, block.2, here, holds_here⟩
    case isFalse => cases at_hash
  · rintro ⟨⟨met, -⟩, block, here, holds_here⟩
    refine ⟨event.2, met, ?_⟩
    rw [eventAt, here, bind_some, if_pos holds_here]

theorem highest_highest (known : Option (Int64 × BlockHash)) (event : Int64 × BlockHash) :
    highest (highest known event) event = highest known event := by
  unfold highest
  split
  case isTrue => simp
  case isFalse => rfl

theorem mem_of_foldl_highest {events : List (Int64 × BlockHash)}
    (kept : events.foldl highest known = some event) : known = some event ∨ event ∈ events := by
  induction events generalizing known with
  | nil => exact .inl kept
  | cons first rest ih =>
    rcases ih kept with at_first | later
    · rw [highest] at at_first
      split at at_first
      · cases at_first
        exact .inr (.head _)
      · exact .inl at_first
    · exact .inr (.tail first later)

theorem le_of_foldl_highest {events : List (Int64 × BlockHash)} (known : Option (Int64 × BlockHash))
    (present : known = some event ∨ event ∈ events) :
    ∃ kept, events.foldl highest known = some kept ∧ event.1 ≤ kept.1 := by
  induction events generalizing known event with
  | nil => exact ⟨event, present.resolve_right not_mem_nil, Int64.le_refl _⟩
  | cons first rest ih =>
    -- One of the events that the first one is compared with is kept, and it is not below.
    obtain ⟨next, kept, le⟩ : ∃ next, (highest known first = some next ∨ next ∈ rest) ∧
        event.1 ≤ next.1 := by
      rcases present with rfl | later
      · by_cases above : first.1 > event.1
        · exact ⟨first, .inl (by simp [highest, above]), Int64.le_of_lt above⟩
        · exact ⟨event, .inl (by simp [highest, above]), Int64.le_refl _⟩
      · rcases mem_cons.mp later with rfl | later
        · rcases known with _ | kept
          · exact ⟨event, .inl rfl, Int64.le_refl _⟩
          · by_cases above : event.1 > kept.1
            · exact ⟨event, .inl (by simp [highest, above]), Int64.le_refl _⟩
            · exact ⟨kept, .inl (by simp [highest, above]), Int64.not_lt.mp above⟩
        · exact ⟨event, .inr later, Int64.le_refl _⟩
    obtain ⟨last, last_kept, last_le⟩ := ih _ kept
    exact ⟨last, last_kept, Int64.le_trans le last_le⟩

theorem highestEvent_mem (kept : highestEvent dag blockStore floor holds = some event) :
    EventIn dag blockStore floor holds event :=
  mem_events.mp ((mem_of_foldl_highest kept).resolve_left (by simp))

theorem exists_highestEvent (present : EventIn dag blockStore floor holds event) :
    ∃ kept, highestEvent dag blockStore floor holds = some kept ∧ event.1 ≤ kept.1 :=
  le_of_foldl_highest none (.inr (mem_events.mpr present))

inductive EventKind where
  | clean
  | failed
  | rejected

def EventKind.has (sig : ByteVector) (block : BlockMessage) : EventKind → Bool
  | .clean => hasClean sig block
  | .failed => hasFailed sig block
  | .rejected => hasRejected sig block

def ResolverState.eventOf (state : ResolverState) : EventKind → Option (Int64 × BlockHash)
  | .clean => state.cleanFinalizedEvent
  | .failed => state.failedFinalizedEvent
  | .rejected => state.latestRejectedEvent

def Recorded (event : Int64 × BlockHash) (has : EventKind → Bool) (before after : ResolverState) :
    Prop :=
  ∀ kind, after.eventOf kind =
    if has kind then highest (before.eventOf kind) event else before.eventOf kind

theorem Recorded.trans (start : Recorded event has first second)
    (rest : Recorded event has' second third) :
    Recorded event (fun kind => has kind || has' kind) first third := by
  intro kind
  rw [rest kind, start kind]
  by_cases before : has kind = true <;> by_cases now : has' kind = true <;>
    simp [before, now, highest_highest]

/-- A scan changes the state of a signature at the items of the signature. -/
theorem recorded_foldl {α β : Type} (view : β → Option ResolverState) {scanItem : β → α → β}
    {sigOf : α → ByteVector} {record : α → ResolverState → ResolverState}
    {has : α → EventKind → Bool}
    (scans : ∀ scan item, view (scanItem scan item) =
      if sigOf item == sig then (view scan).map (record item) else view scan)
    (records : ∀ item state, Recorded event (has item) state (record item state))
    (items : List α) (scan : β) (found : view scan = some state) :
    ∃ after, view (items.foldl scanItem scan) = some after ∧
      Recorded event (fun kind => items.any fun item => sigOf item == sig && has item kind) state
        after := by
  induction items generalizing scan state with
  | nil => exact ⟨state, found, fun _ => rfl⟩
  | cons item rest ih =>
    obtain ⟨next, next_found, next_recorded⟩ : ∃ next, view (scanItem scan item) = some next ∧
        Recorded event (fun kind => sigOf item == sig && has item kind) state next := by
      rw [scans, found]
      cases sigOf item == sig with
      | true => exact ⟨_, rfl, records item state⟩
      | false => exact ⟨state, rfl, fun _ => rfl⟩
    obtain ⟨after, after_found, after_recorded⟩ := ih _ next_found
    exact ⟨after, after_found, next_recorded.trans after_recorded⟩

variable [HashMapOrder]

theorem recorded_block (active : sig ∈ activeSigs) (event : Int64 × BlockHash)
    (block : BlockMessage) (perSig : PerSig) (state : ResolverState)
    (found : perSig.get? sig = some state) :
    ∃ after, (scanBlock activeSigs event block perSig).get? sig = some after ∧
      Recorded event (EventKind.has sig block) state after := by
  have updated (perSig : PerSig) (key : ByteVector) (change : ResolverState → ResolverState) :
      (perSig.update key change).get? sig =
        if key == sig then (perSig.get? sig).map change else perSig.get? sig := by
    rw [get?_update, BEq.comm]
  have updated_active (perSig : PerSig) (key : ByteVector)
      (change : ResolverState → ResolverState) :
      (if activeSigs.contains key then perSig.update key change else perSig).get? sig =
        if key == sig then (perSig.get? sig).map change else perSig.get? sig := by
    by_cases same : key = sig
    · rw [same, if_pos (contains_iff.mpr active), updated]
    · split
      · exact updated perSig key change
      · simp [same]
  have deploys_scanned (scan : BlockScan) (pd : ProcessedDeploy) :
      (scanDeploy activeSigs event scan pd).2.get? sig = if pd.deploy.sig == sig then
        (scan.2.get? sig).map (·.recordDeploy event pd.isFailed) else scan.2.get? sig := by
    rw [scanDeploy, apply_ite Prod.snd]
    exact updated_active scan.2 pd.deploy.sig _
  have rejected_scanned (scan : BlockScan) (rejected : ByteVector) :
      (scanRejected activeSigs event scan rejected).2.get? sig = if rejected == sig then
        (scan.2.get? sig).map (·.recordRejected event) else scan.2.get? sig := by
    rw [scanRejected, apply_ite Prod.snd]
    exact updated_active scan.2 rejected _
  have deploy_records (pd : ProcessedDeploy) (state : ResolverState) :
      Recorded event (fun | .clean => !pd.isFailed | .failed => pd.isFailed | .rejected => false)
        state (state.recordDeploy event pd.isFailed) := by
    intro kind
    cases kind <;> cases pd.isFailed <;> rfl
  have rejected_records (_ : ByteVector) (state : ResolverState) :
      Recorded event (fun | .rejected => true | _ => false) state (state.recordRejected event) := by
    intro kind
    cases kind <;> rfl
  have latest_records (_ : ByteVector) (state : ResolverState) :
      Recorded event (fun _ => false) state (state.recordLatest event) := by
    intro kind
    cases kind <;> rfl
  let view (scan : BlockScan) : Option ResolverState := scan.2.get? sig
  obtain ⟨deployed, deployed_found, deploys_recorded⟩ := recorded_foldl view
    deploys_scanned deploy_records block.body.deploys (.empty, perSig) found
  obtain ⟨rejected, rejected_found, rejected_recorded⟩ := recorded_foldl view
    rejected_scanned rejected_records block.body.rejectedDeploys _ deployed_found
  obtain ⟨after, after_found, latest_recorded⟩ := recorded_foldl (get? · sig)
    (fun perSig key => updated perSig key _) latest_records _ _ rejected_found
  refine ⟨after, after_found, fun kind => ?_⟩
  have recorded := (deploys_recorded.trans rejected_recorded).trans latest_recorded kind
  cases kind <;> simpa [EventKind.has, hasClean, hasFailed, hasRejected] using recorded

def scanAt (dag : KeyValueDagRepresentation) (blockStore : KeyValueBlockStore) (floor : Int64)
    (activeSigs : HashedSet ByteVector) (perSig : PerSig) (hash : BlockHash) : PerSig :=
  ((scanned dag blockStore floor hash).map fun block =>
    scanBlock activeSigs (block.1, hash) block.2 perSig).getD perSig

theorem scanFrontier_eq (fuel : Nat) (frontier : List BlockHash) (visited : HashedSet BlockHash)
    (perSig : PerSig)
    (enough : rounds (scannedParents dag blockStore floor) blockStore.keys frontier
      visited ≤ fuel) :
    scanFrontier dag blockStore floor activeSigs fuel frontier visited perSig =
      some ((order push (scannedParents dag blockStore floor) fuel frontier
        visited).foldl (scanAt dag blockStore floor activeSigs) perSig) := by
  induction fuel generalizing frontier visited perSig with
  | zero =>
    have done : frontier = [] :=
      length_eq_zero_iff.mp (by rw [rounds] at enough; omega)
    subst done
    rfl
  | succ fuel ih =>
    cases frontier with
    | nil => rfl
    | cons hash rest =>
      rw [scanFrontier, order]
      split_ifs with known
      · apply ih
        rw [rounds, length_cons] at enough
        rw [rounds]
        omega
      · have covered : scannedParents dag blockStore floor hash ≠ [] → hash ∈ blockStore.keys :=
          scannedParents_covered hash
        have fewer := rounds_insert rest covered known push_perm
        rw [foldl_cons, scanAt]
        cases here : scanned dag blockStore floor hash with
        | none =>
          have no_parents : scannedParents dag blockStore floor hash = [] := by
            rw [scannedParents, here]
            rfl
          rw [no_parents, List.filter_nil] at fewer ⊢
          exact ih rest _ perSig (Nat.le_of_lt_succ (fewer.trans_le enough))
        | some block =>
          have parents : scannedParents dag blockStore floor hash =
              block.2.header.parentsHashList := by
            rw [scannedParents, here]
            rfl
          rw [parents] at fewer ⊢
          exact ih _ _ _ (Nat.le_of_lt_succ (fewer.trans_le enough))

variable (dag blockStore floor) in
theorem foldl_scanAt (active : sig ∈ activeSigs) (blocks : List BlockHash) (perSig : PerSig)
    (state : ResolverState) (found : perSig.get? sig = some state) :
    ∃ after, (blocks.foldl (scanAt dag blockStore floor activeSigs) perSig).get? sig =
        some after ∧
      ∀ kind : EventKind, after.eventOf kind = (blocks.filterMap (eventAt dag blockStore floor
        fun block => kind.has sig block)).foldl highest (state.eventOf kind) := by
  induction blocks generalizing perSig state with
  | nil => exact ⟨state, found, fun _ => rfl⟩
  | cons hash rest ih =>
    rw [foldl_cons]
    cases here : scanned dag blockStore floor hash with
    | none =>
      obtain ⟨after, after_found, after_events⟩ := ih perSig state found
      refine ⟨after, by rwa [scanAt, here], fun kind => ?_⟩
      rw [after_events, filterMap_cons_none (by rw [eventAt, here]; rfl)]
    | some block =>
      obtain ⟨next, next_found, recorded⟩ :=
        recorded_block active (block.1, hash) block.2 perSig state found
      obtain ⟨after, after_found, after_events⟩ := ih _ next next_found
      refine ⟨after, by rwa [scanAt, here], fun kind => ?_⟩
      rw [after_events, recorded kind, filterMap_cons, eventAt, here, bind_some]
      cases kind.has sig block.2 <;> rfl

theorem bfsFinalizedWindow_returns (blockStore : KeyValueBlockStore) (deployLifespan : Int64)
    (lfb_number : dag.blockNumberMap.get? dag.lastFinalizedBlockHash = some lfbHeight)
    (state : ResolverState) (fresh : ∀ kind, state.eventOf kind = none) :
    ∃ perSig after, Returns (bfsFinalizedWindow dag blockStore deployLifespan
        ((empty : PerSig).insert sig state)) perSig ∧ perSig.get? sig = some after ∧
      ∀ kind : EventKind, after.eventOf kind = highestEvent dag blockStore
        (scanFloor lfbHeight deployLifespan) fun block => kind.has sig block := by
  have found : ((empty : PerSig).insert sig state).get? sig = some state := by
    rw [get?_insert, if_pos (beq_self_eq_true sig)]
  have active : sig ∈ HashedSet.ofList ((empty : PerSig).insert sig state).keys := by
    refine mem_ofList.mpr ⟨sig, ?_, beq_self_eq_true sig⟩
    apply mem_keys_iff.mpr
    rw [found]
    rfl
  have not_empty : ¬((empty : PerSig).insert sig state).entries.isEmpty :=
    fun empty => absurd empty Bool.false_ne_true
  obtain ⟨after, after_found, after_events⟩ :=
    foldl_scanAt dag blockStore (scanFloor lfbHeight deployLifespan) active
      (scanOrder dag blockStore (scanFloor lfbHeight deployLifespan)) _ state found
  refine ⟨_, after, ?_, after_found, fun kind => ?_⟩
  · rw [bfsFinalizedWindow, if_neg not_empty]
    dsimp only
    rw [lfb_number]
    dsimp only
    rw [scanFrontier_eq _ _ _ _ rounds_le]
    rfl
  · rw [after_events, fresh, highestEvent]

end F1r3fly.Casper.DeployFinalizationStatus
