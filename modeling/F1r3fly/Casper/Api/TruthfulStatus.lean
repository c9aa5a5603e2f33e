import F1r3fly.Casper.Api.FinalizedWindow

/-! When the status of a deploy is what the events of the finalized window say. The scan
decides by three events only, the highest ones of their kinds. -/
namespace F1r3fly.Casper.DeployFinalizationStatus

open BlockStorage
open Models
open RSpace
open Results

section Events

variable (dag : KeyValueDagRepresentation)

/-- The block is on the main chain of the last finalized block. -/
def Canonical (block : BlockHash) : Prop :=
  dag.MainAncestorOrSelf block dag.lastFinalizedBlockHash

def Below (block rejection : BlockHash) : Prop :=
  block ≠ rejection ∧ dag.MainAncestorOrSelf block rejection

def Invalidates (rejection clean : BlockHash) : Prop :=
  Canonical dag rejection ∧ (¬Canonical dag clean ∨ Below dag clean rejection)

variable (events : EventKind → Option (Int64 × BlockHash))

/-- The clean inclusion stands against the rejection. -/
def CleanStands (clean : Int64 × BlockHash) : Prop :=
  events .clean = some clean ∧ ∀ rejection, events .rejected = some rejection →
    ¬Invalidates dag rejection.2 clean.2

/-- The failed inclusion is on the main chain, and the rejection is not above it there. -/
def FailedStands (failed : Int64 × BlockHash) : Prop :=
  events .failed = some failed ∧ Canonical dag failed.2 ∧ ∀ rejection,
    events .rejected = some rejection →
      ¬(Canonical dag rejection.2 ∧ Below dag failed.2 rejection.2)

def CleanWins : Prop :=
  ∃ clean, CleanStands dag events clean ∧ ∀ failed, FailedStands dag events failed →
    failed.1 < clean.1

def FailedWins : Prop :=
  ∃ failed, FailedStands dag events failed ∧ ∀ clean, CleanStands dag events clean →
    clean.1 < failed.1

def Numbered : Prop :=
  ∀ kind event, events kind = some event → (dag.blockNumberMap.get? event.2).isSome = true

end Events

section Finalize

variable {dag : KeyValueDagRepresentation} {state : ResolverState}

theorem kept_iff {P : BlockHash → BlockHash → Prop} {event other : Int64 × BlockHash}
    (rejection : Int64 × BlockHash) (dropped_iff : dropped = true ↔ P rejection.2 event.2) :
    (if dropped then none else some event) = some other ↔
      some event = some other ∧ ∀ rejected, some rejection = some rejected →
        ¬P rejected.2 other.2 := by
  cases dropped with
  | false =>
    constructor
    · rintro ⟨⟩
      exact ⟨rfl, fun _ same holds => Bool.false_ne_true
        (dropped_iff.mpr (Option.some.inj same ▸ holds))⟩
    · exact And.left
  | true =>
    constructor
    · exact nofun
    · rintro ⟨⟨⟩, stands⟩
      exact absurd (dropped_iff.mp rfl) (stands _ rfl)

theorem isInMainChain_answers (numbered : dag.MainNumbered)
    (ancestor_known : (dag.blockNumberMap.get? ancestor).isSome)
    (descendant_known : (dag.blockNumberMap.get? descendant).isSome) :
    ∃ answer, Returns (isInMainChain dag ancestor descendant) answer ∧
      (answer ↔ dag.MainAncestorOrSelf ancestor descendant) := by
  obtain ⟨answer, returned, answer_iff⟩ :=
    KeyValueDagRepresentation.isInMainChain_returns numbered ancestor_known descendant_known
  exact ⟨answer, returns_mapError.mpr returned, answer_iff⟩

theorem unlessBelow_answers (numbered : dag.MainNumbered)
    (known : (dag.blockNumberMap.get? block).isSome)
    (reject_known : (dag.blockNumberMap.get? rejectBlock).isSome) (asked : Bool)
    (event : Int64 × BlockHash) :
    ∃ below, Returns (if asked then do
        let below ← isInMainChain dag block rejectBlock
        pure (if below then none else some event)
      else pure (some event)) (if asked && below then none else some event) ∧
      (below ↔ dag.MainAncestorOrSelf block rejectBlock) := by
  obtain ⟨below, returned, below_iff⟩ := isInMainChain_answers numbered known reject_known
  refine ⟨below, ?_, below_iff⟩
  cases asked with
  | false => exact returns_pure.mpr rfl
  | true => exact returns_bind.mpr ⟨below, returned, returns_pure.mpr rfl⟩

variable (numbered : dag.MainNumbered)
  (lfb_known : (dag.blockNumberMap.get? dag.lastFinalizedBlockHash).isSome = true)

include numbered lfb_known

theorem canonicalBlock_answers (known : (dag.blockNumberMap.get? block).isSome) :
    ∃ answer, Returns (canonicalBlock dag block) answer ∧ (answer ↔ Canonical dag block) := by
  rw [canonicalBlock]
  split_ifs with same
  · refine ⟨true, returns_pure.mpr rfl, ?_⟩
    rw [Canonical, eq_of_beq same]
    exact ⟨fun _ => .refl, fun _ => rfl⟩
  · exact isInMainChain_answers numbered known lfb_known

theorem cleanCanonical_answers (known : Numbered dag state.eventOf) :
    ∃ result, Returns (cleanCanonical dag state) result ∧
      ∀ clean, result = some clean ↔ CleanStands dag state.eventOf clean := by
  rw [cleanCanonical]
  simp only [CleanStands, ResolverState.eventOf]
  rcases clean_eq : state.cleanFinalizedEvent with _ | ⟨height, cleanBlock⟩
  · exact ⟨none, returns_pure.mpr rfl, fun clean => by simp⟩
  rcases rejected_eq : state.latestRejectedEvent with _ | ⟨rejectHeight, rejectBlock⟩
  · exact ⟨some (height, cleanBlock), returns_pure.mpr rfl, fun clean => by simp⟩
  have clean_known := known .clean _ clean_eq
  have reject_known := known .rejected _ rejected_eq
  obtain ⟨rejectIsCanonical, reject_returned, reject_iff⟩ :=
    canonicalBlock_answers numbered lfb_known reject_known
  obtain ⟨cleanIsCanonical, clean_returned, clean_iff⟩ :=
    canonicalBlock_answers numbered lfb_known clean_known
  obtain ⟨below, below_returned, below_iff⟩ := unlessBelow_answers numbered clean_known
    reject_known (rejectIsCanonical && cleanBlock != rejectBlock) (height, cleanBlock)
  -- the answers decide whether the rejection takes the inclusion back
  have taken_back : (rejectIsCanonical && (!cleanIsCanonical ||
      (cleanBlock != rejectBlock && below))) = true ↔ Invalidates dag rejectBlock cleanBlock := by
    rw [Invalidates, Below, ← reject_iff, ← clean_iff, ← below_iff]
    simp
  refine ⟨_, returns_bind.mpr ⟨rejectIsCanonical, reject_returned,
    returns_bind.mpr ⟨cleanIsCanonical, clean_returned, ?_⟩⟩, fun clean =>
      kept_iff (rejectHeight, rejectBlock) taken_back⟩
  cases rejectIsCanonical <;> cases cleanIsCanonical
  · exact returns_pure.mpr rfl
  · exact returns_pure.mpr rfl
  · exact returns_pure.mpr rfl
  · exact below_returned

theorem failedCanonical_answers (known : Numbered dag state.eventOf) :
    ∃ result, Returns (failedCanonical dag state) result ∧
      ∀ failed, result = some failed ↔ FailedStands dag state.eventOf failed := by
  rw [failedCanonical]
  simp only [FailedStands, ResolverState.eventOf]
  rcases failed_eq : state.failedFinalizedEvent with _ | ⟨height, failedBlock⟩
  · exact ⟨none, returns_pure.mpr rfl, fun failed => by simp⟩
  have failed_known := known .failed _ failed_eq
  obtain ⟨failedIsCanonical, failed_returned, failed_iff⟩ :=
    canonicalBlock_answers numbered lfb_known failed_known
  cases failedIsCanonical with
  | false =>
    refine ⟨none, returns_bind.mpr ⟨false, failed_returned, returns_pure.mpr rfl⟩, ?_⟩
    refine fun failed => ⟨nofun, ?_⟩
    rintro ⟨⟨⟩, canonical, -⟩
    exact absurd (failed_iff.mpr canonical) Bool.false_ne_true
  | true =>
    have canonical := failed_iff.mp rfl
    rcases rejected_eq : state.latestRejectedEvent with _ | ⟨rejectHeight, rejectBlock⟩
    · refine ⟨some (height, failedBlock),
        returns_bind.mpr ⟨true, failed_returned, returns_pure.mpr rfl⟩, ?_⟩
      refine fun failed => ⟨?_, And.left⟩
      rintro ⟨⟩
      exact ⟨rfl, canonical, nofun⟩
    · have reject_known := known .rejected _ rejected_eq
      obtain ⟨rejectIsCanonical, reject_returned, reject_iff⟩ :=
        canonicalBlock_answers numbered lfb_known reject_known
      obtain ⟨below, below_returned, below_iff⟩ := unlessBelow_answers numbered failed_known
        reject_known (failedBlock != rejectBlock && rejectIsCanonical) (height, failedBlock)
      have above : (failedBlock != rejectBlock && rejectIsCanonical && below) = true ↔
          Canonical dag rejectBlock ∧ Below dag failedBlock rejectBlock := by
        rw [Below, ← reject_iff, ← below_iff]
        simp [and_left_comm, and_assoc]
      refine ⟨_, returns_bind.mpr ⟨true, failed_returned,
        returns_bind.mpr ⟨rejectIsCanonical, reject_returned, below_returned⟩⟩, ?_⟩
      intro failed
      rw [kept_iff (P := fun rejection block => Canonical dag rejection ∧
        Below dag block rejection) (rejectHeight, rejectBlock) above]
      constructor
      · rintro ⟨⟨⟩, stands⟩
        exact ⟨rfl, canonical, stands⟩
      · rintro ⟨same, -, stands⟩
        exact ⟨same, stands⟩

end Finalize

theorem failedFinalized_iff :
    failedFinalized clean failed ↔
      ∃ kept, failed = some kept ∧ ∀ other, clean = some other → other.1 < kept.1 := by
  rcases clean with _ | ⟨cleanHeight, cleanBlock⟩ <;>
    rcases failed with _ | ⟨failedHeight, failedBlock⟩ <;> simp [failedFinalized]

theorem cleanFinalizedHeight_iff :
    (cleanFinalizedHeight clean failed).isSome ↔
      ∃ kept, clean = some kept ∧ ∀ other, failed = some other → other.1 < kept.1 := by
  rcases clean with _ | ⟨cleanHeight, cleanBlock⟩ <;>
    rcases failed with _ | ⟨failedHeight, failedBlock⟩ <;> simp [cleanFinalizedHeight]

theorem finalState_iff :
    (finalState clean failed pastLifespan = .failed ↔ failedFinalized clean failed) ∧
      (finalState clean failed pastLifespan = .finalized ↔
        ¬failedFinalized clean failed ∧ (cleanFinalizedHeight clean failed).isSome) := by
  unfold finalState
  cases failedFinalized clean failed <;>
    cases (cleanFinalizedHeight clean failed).isSome <;> cases pastLifespan <;> simp
  all_goals split <;> simp

theorem finalizeSigState_answers (numbered : dag.MainNumbered)
    (lfb_known : (dag.blockNumberMap.get? dag.lastFinalizedBlockHash).isSome)
    (known : Numbered dag state.eventOf) (deployLifespan : Int64) :
    ∃ status, Returns (finalizeSigState dag deployLifespan state) status ∧
      (status.state = .failed ↔ FailedWins dag state.eventOf) ∧
      (status.state = .finalized ↔
        ¬FailedWins dag state.eventOf ∧ CleanWins dag state.eventOf) := by
  obtain ⟨clean, clean_returned, clean_iff⟩ := cleanCanonical_answers numbered lfb_known known
  obtain ⟨failed, failed_returned, failed_iff⟩ := failedCanonical_answers numbered lfb_known known
  obtain ⟨lfbHeight, lfb_number⟩ := isSome_iff_exists.mp lfb_known
  have failed_wins : failedFinalized clean failed ↔ FailedWins dag state.eventOf := by
    rw [failedFinalized_iff, FailedWins]
    simp only [clean_iff, failed_iff]
  have clean_wins : (cleanFinalizedHeight clean failed).isSome ↔ CleanWins dag state.eventOf := by
    rw [cleanFinalizedHeight_iff, CleanWins]
    simp only [clean_iff, failed_iff]
  have returned : ∃ status, Returns (finalizeSigState dag deployLifespan state) status ∧
      status.state = finalState clean failed
        (decide (lfbHeight > state.validAfterBlockNumber + deployLifespan)) := by
    refine ⟨⟨_, state.rejectionCount, (state.latestEvent.or
      ((dag.blockNumberMap.get? state.firstSeenBlockHash).map fun height =>
        (height, state.firstSeenBlockHash))).map (·.2)⟩, ?_, rfl⟩
    refine returns_bind.mpr ⟨clean, clean_returned, ?_⟩
    refine returns_bind.mpr ⟨failed, failed_returned, ?_⟩
    rw [lfb_number]
    exact returns_pure.mpr rfl
  obtain ⟨status, returned, state_eq⟩ := returned
  refine ⟨status, returned, ?_⟩
  rw [state_eq, ← failed_wins, ← clean_wins]
  exact finalState_iff

structure Window where
  dag : KeyValueDagRepresentation
  blockStore : KeyValueBlockStore
  floor : Int64
  sig : ByteVector

namespace Window

section Clauses

variable (window : Window)

def Has (kind : EventKind) (event : Int64 × BlockHash) : Prop :=
  EventIn window.dag window.blockStore window.floor (fun block => kind.has window.sig block) event

def highest (kind : EventKind) : Option (Int64 × BlockHash) :=
  highestEvent window.dag window.blockStore window.floor fun block => kind.has window.sig block

def OnChain (event : Int64 × BlockHash) : Prop := Canonical window.dag event.2

/-- A clean inclusion of the window that no rejection of the window takes back. -/
def SomeStands : Prop :=
  ∃ clean, window.Has .clean clean ∧ ∀ rejection, window.Has .rejected rejection →
    ¬Invalidates window.dag rejection.2 clean.2

/-- A deploy is reported as finalized only if a clean inclusion stands, and as pending or
expired only if every one is taken back. -/
@[mk_iff truthful_def]
structure Truthful (state : DeployFinalizationState) : Prop where
  finalized : state = .finalized → window.SomeStands
  undecided : state = .pending ∨ state = .expired → ∀ clean, window.Has .clean clean →
    ∃ rejection, window.Has .rejected rejection ∧ Invalidates window.dag rejection.2 clean.2

/-- An inclusion on the main chain that the highest rejection is not above is hidden by a higher
inclusion beside the chain. -/
structure HidesInclusion (clean rejection : Int64 × BlockHash) : Prop where
  clean_highest : window.highest .clean = some clean
  rejection_highest : window.highest .rejected = some rejection
  clean_beside : ¬window.OnChain clean
  rejection_onChain : window.OnChain rejection
  hidden : ∃ other, window.Has .clean other ∧ window.OnChain other ∧ rejection.1 ≤ other.1
  failed_below : ∀ failed, window.highest .failed = some failed → window.OnChain failed →
    failed.1 < rejection.1

/-- A rejection on the main chain that is above all the inclusions there is hidden by a rejection
beside the chain that is not below it. -/
structure HidesRejection (clean rejection : Int64 × BlockHash) : Prop where
  clean_highest : window.highest .clean = some clean
  rejection_highest : window.highest .rejected = some rejection
  rejection_beside : ¬window.OnChain rejection
  hidden : ∃ other, window.Has .rejected other ∧ window.OnChain other ∧
    ∀ inclusion, window.Has .clean inclusion → window.OnChain inclusion → inclusion.1 < other.1
  failed_below : ∀ failed, window.highest .failed = some failed → window.OnChain failed →
    failed.1 < clean.1

/-- The highest inclusions of both kinds have one number, so that neither of them is above the
other. -/
structure Ties (clean failed : Int64 × BlockHash) : Prop where
  clean_highest : window.highest .clean = some clean
  failed_highest : window.highest .failed = some failed
  same : clean.1 = failed.1
  failed_onChain : window.OnChain failed
  clean_onChain : ∀ rejection, window.highest .rejected = some rejection →
    window.OnChain rejection → window.OnChain clean
  kept : ∃ inclusion, window.Has .clean inclusion ∧ ∀ rejection, window.Has .rejected rejection →
    window.OnChain rejection → window.OnChain inclusion ∧ rejection.1 ≤ inclusion.1

end Clauses

variable {window : Window} {event clean failed rejection : Int64 × BlockHash} {kind : EventKind}

theorem Has.number (has : window.Has kind event) :
    window.dag.blockNumberMap.get? event.2 = some event.1 := by
  obtain ⟨-, block, here, -⟩ := has
  exact (scanned_eq_some here).1

theorem has_of_highest (kept : window.highest kind = some event) : window.Has kind event :=
  highestEvent_mem kept

theorem numbered_highest (window : Window) : Numbered window.dag window.highest := by
  intro kind event kept
  rw [(has_of_highest kept).number]
  rfl

/-- A verdict is truthful if it is that the deploy failed, or if a clean inclusion stands
exactly when the highest one does. -/
theorem truthful_iff (failed : state = .failed ↔ FailedWins window.dag events)
    (finalized : state = .finalized ↔
      ¬FailedWins window.dag events ∧ CleanWins window.dag events) :
    window.Truthful state ↔
      FailedWins window.dag events ∨ (window.SomeStands ↔ CleanWins window.dag events) := by
  have undecided_iff : (∀ clean, window.Has .clean clean → ∃ rejection,
      window.Has .rejected rejection ∧ Invalidates window.dag rejection.2 clean.2) ↔
        ¬window.SomeStands := by
    rw [SomeStands]
    push Not
    rfl
  rw [truthful_def, undecided_iff]
  by_cases failed_wins : FailedWins window.dag events <;>
    by_cases clean_wins : CleanWins window.dag events <;> cases state <;> simp_all

theorem exists_highest_onChain (has : window.Has kind event) (on_chain : window.OnChain event) :
    ∃ kept, window.Has kind kept ∧ window.OnChain kept ∧
      ∀ other, window.Has kind other → window.OnChain other → other.1 ≤ kept.1 := by
  classical
  let events := ((scanOrder window.dag window.blockStore window.floor).filterMap
    (eventAt window.dag window.blockStore window.floor fun block =>
      kind.has window.sig block)).filter fun other => window.OnChain other
  have mem_iff (other : Int64 × BlockHash) :
      other ∈ events ↔ window.Has kind other ∧ window.OnChain other := by
    rw [List.mem_filter, mem_events, decide_eq_true_iff, Has]
  obtain ⟨kept, is_kept, -⟩ :=
    le_of_foldl_highest none (.inr ((mem_iff event).mpr ⟨has, on_chain⟩))
  obtain ⟨kept_has, kept_on_chain⟩ :=
    (mem_iff kept).mp ((mem_of_foldl_highest is_kept).resolve_left nofun)
  refine ⟨kept, kept_has, kept_on_chain, fun other other_has other_on_chain => ?_⟩
  obtain ⟨highest, is_highest, le⟩ :=
    le_of_foldl_highest none (.inr ((mem_iff other).mpr ⟨other_has, other_on_chain⟩))
  cases is_kept.symm.trans is_highest
  exact le

section Numbers

variable (numbered : window.dag.MainNumbered)

include numbered

/-- On the main chain the numbers tell which of two blocks is above the other. -/
theorem below_iff_lt {block other : Int64 × BlockHash} (has : window.Has kind block)
    (other_has : window.Has otherKind other) (on_chain : window.OnChain block)
    (other_on_chain : window.OnChain other) :
    Below window.dag block.2 other.2 ↔ block.1 < other.1 := by
  constructor
  · rintro ⟨differ, path⟩
    obtain same | strict := Relation.reflTransGen_iff_eq_or_transGen.mp path
    · exact absurd same differ
    · exact numbered.number_lt strict other_has.number has.number
  · intro lt
    have differ : block.2 ≠ other.2 := by
      intro same
      have heights_eq := (same ▸ has.number).symm.trans other_has.number
      exact Int64.lt_irrefl (Option.some.inj heights_eq ▸ lt)
    refine ⟨differ, ?_⟩
    have right_unique :
        Relator.RightUnique fun child parent => window.dag.mainParent child = some parent :=
      fun _ _ _ first second => Option.some.inj (first.symm.trans second)
    obtain above | below :=
      Relation.ReflTransGen.total_of_right_unique right_unique on_chain other_on_chain
    · obtain same | strict := Relation.reflTransGen_iff_eq_or_transGen.mp above
      · exact absurd same.symm differ
      · exact absurd lt (Int64.lt_asymm (numbered.number_lt strict has.number other_has.number))
    · exact below

theorem not_invalidates_iff (has : window.Has .clean clean)
    (rejection_has : window.Has .rejected rejection) :
    ¬Invalidates window.dag rejection.2 clean.2 ↔
      (window.OnChain rejection → window.OnChain clean ∧ rejection.1 ≤ clean.1) := by
  rw [Invalidates, not_and]
  refine forall_congr' fun rejection_on_chain => ?_
  by_cases on_chain : window.OnChain clean
  · rw [below_iff_lt numbered has rejection_has on_chain rejection_on_chain, not_or, Int64.not_lt,
      not_not]
    exact Iff.rfl
  · exact iff_of_false (fun stands => stands (.inl on_chain)) fun stands => on_chain stands.1

theorem cleanStands_iff :
    CleanStands window.dag window.highest clean ↔ window.highest .clean = some clean ∧
      ∀ rejection, window.highest .rejected = some rejection → window.OnChain rejection →
        window.OnChain clean ∧ rejection.1 ≤ clean.1 :=
  and_congr_right fun is_clean => forall₂_congr fun _ is_rejection =>
    not_invalidates_iff numbered (has_of_highest is_clean) (has_of_highest is_rejection)

theorem failedStands_iff :
    FailedStands window.dag window.highest failed ↔ window.highest .failed = some failed ∧
      window.OnChain failed ∧ ∀ rejection, window.highest .rejected = some rejection →
        window.OnChain rejection → rejection.1 ≤ failed.1 := by
  refine and_congr_right fun is_failed => and_congr_right fun on_chain =>
    forall₂_congr fun rejection is_rejection => ?_
  rw [not_and]
  refine forall_congr' fun rejection_on_chain => ?_
  rw [below_iff_lt numbered (has_of_highest is_failed) (has_of_highest is_rejection) on_chain
    rejection_on_chain, Int64.not_lt]

theorem someStands_iff :
    window.SomeStands ↔ ∃ inclusion, window.Has .clean inclusion ∧
      ∀ rejection, window.Has .rejected rejection → window.OnChain rejection →
        window.OnChain inclusion ∧ rejection.1 ≤ inclusion.1 :=
  exists_congr fun _ => and_congr_right fun has => forall₂_congr fun _ rejection_has =>
    not_invalidates_iff numbered has rejection_has

/-- The deploy is reported as finalized although every clean inclusion is taken back. -/
theorem hidesRejection_iff :
    (∃ clean rejection, window.HidesRejection clean rejection) ↔
      CleanWins window.dag window.highest ∧ ¬window.SomeStands := by
  simp only [CleanWins, cleanStands_iff numbered, failedStands_iff numbered,
    someStands_iff numbered]
  constructor
  · rintro ⟨clean, rejection, hides⟩
    obtain ⟨other, other_has, other_on_chain, above⟩ := hides.hidden
    refine ⟨⟨clean, ⟨hides.clean_highest, fun kept is_kept on_chain => ?_⟩, ?_⟩, ?_⟩
    · cases hides.rejection_highest.symm.trans is_kept
      exact absurd on_chain hides.rejection_beside
    · exact fun failed stands => hides.failed_below failed stands.1 stands.2.1
    · rintro ⟨inclusion, has, stands⟩
      obtain ⟨on_chain, le⟩ := stands other other_has other_on_chain
      exact Int64.not_lt.mpr le (above inclusion has on_chain)
  · rintro ⟨⟨clean, ⟨clean_highest, clean_stands⟩, above_failed⟩, none_stands⟩
    push Not at none_stands
    obtain ⟨taking, taking_has, taking_on_chain, takes⟩ :=
      none_stands clean (has_of_highest clean_highest)
    obtain ⟨rejection, rejection_highest, taking_le⟩ := exists_highestEvent taking_has
    have rejection_beside : ¬window.OnChain rejection := by
      intro on_chain
      obtain ⟨clean_on_chain, le⟩ := clean_stands rejection rejection_highest on_chain
      exact takes clean_on_chain (Int64.le_trans taking_le le)
    obtain ⟨other, other_has, other_on_chain, other_highest⟩ :=
      exists_highest_onChain taking_has taking_on_chain
    refine ⟨clean, rejection, clean_highest, rejection_highest, rejection_beside,
      ⟨other, other_has, other_on_chain, fun inclusion has on_chain => ?_⟩, ?_⟩
    · obtain ⟨next, next_has, next_on_chain, next_takes⟩ := none_stands inclusion has
      exact Int64.lt_of_lt_of_le (Int64.not_le.mp (next_takes on_chain))
        (other_highest next next_has next_on_chain)
    · intro failed failed_highest on_chain
      refine above_failed failed ⟨failed_highest, on_chain, fun kept is_kept kept_on_chain => ?_⟩
      cases rejection_highest.symm.trans is_kept
      exact absurd kept_on_chain rejection_beside

theorem HidesInclusion.undecided (hides : window.HidesInclusion clean rejection) :
    window.SomeStands ∧ ¬CleanWins window.dag window.highest ∧
      ¬FailedWins window.dag window.highest := by
  simp only [CleanWins, FailedWins, cleanStands_iff numbered, failedStands_iff numbered,
    someStands_iff numbered]
  obtain ⟨other, other_has, other_on_chain, le⟩ := hides.hidden
  refine ⟨⟨other, other_has, fun kept kept_has _ => ⟨other_on_chain, ?_⟩⟩, ?_, ?_⟩
  · obtain ⟨highest, is_highest, kept_le⟩ := exists_highestEvent kept_has
    cases hides.rejection_highest.symm.trans is_highest
    exact Int64.le_trans kept_le le
  · rintro ⟨kept, ⟨is_kept, stands⟩, -⟩
    cases hides.clean_highest.symm.trans is_kept
    exact hides.clean_beside (stands rejection hides.rejection_highest hides.rejection_onChain).1
  · rintro ⟨failed, ⟨failed_highest, on_chain, stands⟩, -⟩
    exact Int64.not_lt.mpr (stands rejection hides.rejection_highest hides.rejection_onChain)
      (hides.failed_below failed failed_highest on_chain)

theorem Ties.undecided (ties : window.Ties clean failed) :
    window.SomeStands ∧ ¬CleanWins window.dag window.highest ∧
      ¬FailedWins window.dag window.highest := by
  simp only [CleanWins, FailedWins, cleanStands_iff numbered, failedStands_iff numbered,
    someStands_iff numbered]
  obtain ⟨inclusion, has, kept⟩ := ties.kept
  obtain ⟨highest, is_highest, inclusion_le⟩ := exists_highestEvent has
  cases ties.clean_highest.symm.trans is_highest
  have rejection_le (rejection : Int64 × BlockHash)
      (is_rejection : window.highest .rejected = some rejection)
      (on_chain : window.OnChain rejection) : rejection.1 ≤ clean.1 :=
    Int64.le_trans (kept rejection (has_of_highest is_rejection) on_chain).2 inclusion_le
  refine ⟨⟨inclusion, has, kept⟩, ?_, ?_⟩
  · rintro ⟨other, ⟨is_other, -⟩, above_failed⟩
    cases ties.clean_highest.symm.trans is_other
    have lt := above_failed failed ⟨ties.failed_highest, ties.failed_onChain,
      fun rejection is_rejection on_chain =>
        ties.same ▸ rejection_le rejection is_rejection on_chain⟩
    exact Int64.lt_irrefl (ties.same ▸ lt)
  · rintro ⟨other, ⟨is_other, -⟩, above_clean⟩
    cases ties.failed_highest.symm.trans is_other
    have lt := above_clean clean ⟨ties.clean_highest, fun rejection is_rejection on_chain =>
      ⟨ties.clean_onChain rejection is_rejection on_chain,
        rejection_le rejection is_rejection on_chain⟩⟩
    exact Int64.lt_irrefl (ties.same ▸ lt)

/-- The deploy is reported as pending or expired although a clean inclusion stands. -/
theorem undecided_iff :
    (∃ clean rejection, window.HidesInclusion clean rejection) ∨
        (∃ clean failed, window.Ties clean failed) ↔
      window.SomeStands ∧ ¬CleanWins window.dag window.highest ∧
        ¬FailedWins window.dag window.highest := by
  constructor
  · rintro (⟨clean, rejection, hides⟩ | ⟨clean, failed, ties⟩)
    · exact hides.undecided numbered
    · exact ties.undecided numbered
  · simp only [CleanWins, FailedWins, cleanStands_iff numbered, failedStands_iff numbered,
      someStands_iff numbered]
    rintro ⟨⟨inclusion, has, kept⟩, clean_loses, failed_loses⟩
    push Not at clean_loses failed_loses
    obtain ⟨clean, clean_highest, inclusion_le⟩ := exists_highestEvent has
    by_cases stands : ∀ rejection, window.highest .rejected = some rejection →
        window.OnChain rejection → window.OnChain clean ∧ rejection.1 ≤ clean.1
    · right
      obtain ⟨failed, failed_stands, not_above⟩ := clean_loses clean ⟨clean_highest, stands⟩
      obtain ⟨other, ⟨is_other, -⟩, not_below⟩ := failed_loses failed failed_stands
      cases clean_highest.symm.trans is_other
      exact ⟨clean, failed, clean_highest, failed_stands.1,
        Int64.le_antisymm (Int64.not_lt.mp not_above) (Int64.not_lt.mp not_below),
        failed_stands.2.1, fun rejection is_rejection on_chain =>
          (stands rejection is_rejection on_chain).1, ⟨inclusion, has, kept⟩⟩
    · left
      push Not at stands
      obtain ⟨rejection, rejection_highest, on_chain, beside⟩ := stands
      obtain ⟨inclusion_on_chain, le⟩ :=
        kept rejection (has_of_highest rejection_highest) on_chain
      refine ⟨clean, rejection, clean_highest, rejection_highest, fun clean_on_chain => ?_,
        on_chain, ⟨inclusion, has, inclusion_on_chain, le⟩, ?_⟩
      · exact beside clean_on_chain (Int64.le_trans le inclusion_le)
      · intro failed failed_highest failed_on_chain
        by_contra not_below
        obtain ⟨other, ⟨is_other, other_stands⟩, -⟩ := failed_loses failed ⟨failed_highest,
          failed_on_chain, fun kept is_kept _ => by
            cases rejection_highest.symm.trans is_kept
            exact Int64.not_lt.mp not_below⟩
        cases clean_highest.symm.trans is_other
        obtain ⟨clean_on_chain, clean_le⟩ := other_stands rejection rejection_highest on_chain
        exact beside clean_on_chain clean_le

end Numbers

end Window

theorem CleanWins.not_failedWins (clean_wins : CleanWins dag events) : ¬FailedWins dag events := by
  obtain ⟨clean, clean_stands, above_failed⟩ := clean_wins
  rintro ⟨failed, failed_stands, above_clean⟩
  exact Int64.lt_asymm (above_failed failed failed_stands) (above_clean clean clean_stands)

open Window in
/-- The resolver answers for a deploy whose first block can be read. The answer is truthful
exactly if no higher event beside the main chain hides one on it that counts, and no clean
inclusion is as high as a failed one. -/
theorem resolve_truthful_iff [HashMapOrder] {dag : KeyValueDagRepresentation}
    {blockStore : KeyValueBlockStore} {sig : ByteVector} (numbered : dag.MainNumbered)
    {lfbHeight : Int64}
    (lfb_number : dag.blockNumberMap.get? dag.lastFinalizedBlockHash = some lfbHeight)
    {start : ResolverState} (readable : runPrelude dag blockStore sig = .ok (.active start))
    (deployLifespan : Int64) :
    let window : Window := ⟨dag, blockStore, scanFloor lfbHeight deployLifespan, sig⟩
    ∃ status, Returns (resolve dag blockStore deployLifespan sig) status ∧
      (window.Truthful status.state ↔
        (¬∃ clean rejection, window.HidesRejection clean rejection) ∧
          (¬∃ clean rejection, window.HidesInclusion clean rejection) ∧
          ¬∃ clean failed, window.Ties clean failed) := by
  intro window
  have fresh (kind : EventKind) : start.eventOf kind = none := by
    unfold runPrelude at readable
    repeat' split at readable
    all_goals cases readable
    cases kind <;> rfl
  obtain ⟨perSig, after, scan_returned, found, events⟩ :=
    bfsFinalizedWindow_returns blockStore deployLifespan lfb_number start fresh
  have events_eq : after.eventOf = window.highest := funext events
  have lfb_known : (dag.blockNumberMap.get? dag.lastFinalizedBlockHash).isSome = true := by
    rw [lfb_number]
    rfl
  obtain ⟨status, returned, is_failed, is_finalized⟩ := finalizeSigState_answers numbered lfb_known
    (events_eq ▸ window.numbered_highest) deployLifespan
  rw [events_eq] at is_failed is_finalized
  refine ⟨status, ?_, ?_⟩
  · refine returns_bind.mpr ⟨.active start, returns_liftExcept.mpr readable, ?_⟩
    refine returns_bind.mpr ⟨perSig, scan_returned, ?_⟩
    refine returns_bind.mpr ⟨after, ?_, returned⟩
    rw [found]
    rfl
  · have excluded : CleanWins dag window.highest → ¬FailedWins dag window.highest :=
      CleanWins.not_failedWins
    rw [window.truthful_iff is_failed is_finalized, hidesRejection_iff numbered, ← not_or,
      undecided_iff numbered]
    tauto

def scanSample (blockHash : BlockHash) (parents : List BlockHash) (included rejected : Bool) :
    BlockMessage where
  blockHash := blockHash
  header := ⟨parents, 0, 1, []⟩
  body := {
    state := ⟨[], [], [], 0⟩
    deploys := if included then
        [⟨⟨⟨"Nil", 0, 1, 1000, 0, "root", none⟩, [], [9], "secp256k1"⟩, 1, [], false, none⟩]
      else []
    rejectedDeploys := if rejected then [[9]] else []
    systemDeploys := []
    extraBytes := [] }
  justifications := []
  sender := []
  seqNum := 0
  sig := []
  sigAlgorithm := ""
  shardId := "root"
  extraBytes := []

/-- The deploy is included in block 1 and rejected in block 2, its child. Block 4 is beside
the main chain and rejects the deploy once more. -/
def twiceRejectedStore : KeyValueBlockStore := .ofList [
  ([0], scanSample [0] [] false false), ([1], scanSample [1] [[0]] true false),
  ([2], scanSample [2] [[1]] false true), ([3], scanSample [3] [[2]] false false),
  ([4], scanSample [4] [[2]] false true), ([5], scanSample [5] [[3], [4]] false false)]

def twiceRejectedDag : KeyValueDagRepresentation where
  dagSet := .ofList [[0], [1], [2], [3], [4], [5]]
  latestMessagesMap := .empty
  childMap := .empty
  blockNumberMap := .ofList [([0], 0), ([1], 1), ([2], 2), ([3], 3), ([4], 3), ([5], 4)]
  mainParentMap := .ofList [([1], [0]), ([2], [1]), ([3], [2]), ([4], [2]), ([5], [3])]
  finalizedBlocksSet := .empty
  blockMetadataIndex := .empty
  lastFinalizedBlockHash := [5]
  deployIndex := .ofList [([9], [1])]

attribute [local instance] storedOrder

/-- The deploy is reported as finalized although its only inclusion was taken back on the
main chain: the higher rejection hides the one that counts. -/
theorem finalized_after_rejection :
    Returns (resolve twiceRejectedDag twiceRejectedStore 10 [9]) ⟨.finalized, 2, some [4]⟩ ∧
      ¬Window.Truthful ⟨twiceRejectedDag, twiceRejectedStore, scanFloor 4 10, [9]⟩ .finalized := by
  refine ⟨Results.returns_iff_returned?.mpr (by decide +kernel), ?_⟩
  intro truthful
  obtain ⟨⟨height, clean⟩, ⟨-, block, here, includes⟩, stands⟩ := truthful.finalized rfl
  have only : clean = [1] := by
    have checked : ∀ entry ∈ twiceRejectedStore.entries, hasClean [9] entry.2 = true →
        entry.1 = [1] := by decide +kernel
    exact checked (clean, block) (HashedMap.mem_entries_iff.mpr (scanned_eq_some here).2) includes
  subst only
  have last : InWindow twiceRejectedDag twiceRejectedStore (scanFloor 4 10) [5] :=
    .last (4, scanSample [5] [[3], [4]] false false) (by decide +kernel)
  have third : InWindow twiceRejectedDag twiceRejectedStore (scanFloor 4 10) [3] :=
    .parent [5] [3] _ (3, scanSample [3] [[2]] false false) last
      (show _ = some (4, scanSample [5] [[3], [4]] false false) by decide +kernel)
      (by decide) (by decide +kernel)
  have second : InWindow twiceRejectedDag twiceRejectedStore (scanFloor 4 10) [2] :=
    .parent [3] [2] _ (2, scanSample [2] [[1]] false true) third
      (show _ = some (3, scanSample [3] [[2]] false false) by decide +kernel)
      (by decide) (by decide +kernel)
  have first_step : twiceRejectedDag.mainParent [5] = some [3] := by decide +kernel
  have second_step : twiceRejectedDag.mainParent [3] = some [2] := by decide +kernel
  have on_chain : Canonical twiceRejectedDag [2] := .head first_step (.single second_step)
  have below : Below twiceRejectedDag [1] [2] := by
    refine ⟨by decide, .single ?_⟩
    decide +kernel
  exact stands (2, [2]) ⟨second, scanSample [2] [[1]] false true, by decide +kernel, by decide⟩
    ⟨on_chain, .inr below⟩

/-- The rejection beside the main chain is in block 4, a child of block 0, and so it is below the
one that counts. -/
def orderlyStore : KeyValueBlockStore := .ofList [
  ([0], scanSample [0] [] false false), ([1], scanSample [1] [[0]] true false),
  ([2], scanSample [2] [[1]] false true), ([4], scanSample [4] [[0]] false true),
  ([5], scanSample [5] [[2], [4]] false false)]

def orderlyDag : KeyValueDagRepresentation where
  dagSet := .ofList [[0], [1], [2], [4], [5]]
  latestMessagesMap := .empty
  childMap := .empty
  blockNumberMap := .ofList [([0], 0), ([1], 1), ([2], 2), ([4], 1), ([5], 3)]
  mainParentMap := .ofList [([1], [0]), ([2], [1]), ([4], [0]), ([5], [2])]
  finalizedBlocksSet := .empty
  blockMetadataIndex := .empty
  lastFinalizedBlockHash := [5]
  deployIndex := .ofList [([9], [1])]

theorem truthful_of_orderly :
    ∃ status, Returns (resolve orderlyDag orderlyStore 10 [9]) status ∧
      Window.Truthful ⟨orderlyDag, orderlyStore, scanFloor 3 10, [9]⟩ status.state := by
  have numbered : orderlyDag.MainNumbered :=
    KeyValueDagRepresentation.mainNumbered_of_entries (by decide +kernel)
  have lfb_number : orderlyDag.blockNumberMap.get? orderlyDag.lastFinalizedBlockHash = some 3 := by
    decide +kernel
  have readable : runPrelude orderlyDag orderlyStore [9] = .ok (.active
      { validAfterBlockNumber := 0, firstSeenBlockHash := [1] }) := rfl
  obtain ⟨status, returned, iff⟩ := resolve_truthful_iff numbered lfb_number readable 10
  have first_step : orderlyDag.mainParent [5] = some [2] := by decide +kernel
  have second_step : orderlyDag.mainParent [2] = some [1] := by decide +kernel
  have clean_highest : highestEvent orderlyDag orderlyStore (scanFloor 3 10) (hasClean [9]) =
      some (1, [1]) := by decide +kernel
  have rejection_highest : highestEvent orderlyDag orderlyStore (scanFloor 3 10)
      (hasRejected [9]) = some (2, [2]) := by decide +kernel
  have none_failed : highestEvent orderlyDag orderlyStore (scanFloor 3 10) (hasFailed [9]) =
      none := by decide +kernel
  refine ⟨status, returned, iff.mpr ⟨?_, ?_, ?_⟩⟩
  · rintro ⟨clean, rejection, hides⟩
    cases rejection_highest.symm.trans hides.rejection_highest
    exact hides.rejection_beside (.single first_step)
  · rintro ⟨clean, rejection, hides⟩
    cases clean_highest.symm.trans hides.clean_highest
    exact hides.clean_beside (.head first_step (.single second_step))
  · rintro ⟨clean, failed, ties⟩
    cases none_failed.symm.trans ties.failed_highest

end F1r3fly.Casper.DeployFinalizationStatus
