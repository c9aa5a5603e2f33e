import F1r3fly.BlockStorage.BlockDag

/-! A validator that has not seen enough new blocks may still propose after a long stall.
What limits these bypasses over a sequence of checks. -/
namespace F1r3fly.Casper.SynchronyConstraintChecker

open BlockStorage

/-- The recovery settings. Instants and durations are numbers of one unit of time. -/
structure CasperShardConf where
  stallWindow : Nat
  cooldown : Nat
  maxBypasses : Nat

structure SynchronyRecoveryState where
  lastKnownHash : BlockHash
  firstFailureAt : Option Nat
  consecutiveFailures : Nat
  bypassCount : Nat
  lastBypassAt : Option Nat

def saturatingSucc (n : Nat) : Nat := min (n + 1) (2 ^ 32 - 1)

namespace SynchronyRecoveryState

/-- Every field is set, also if there was no state before. -/
def resetForHash (lastHash : BlockHash) (now : Nat) : SynchronyRecoveryState :=
  ⟨lastHash, some now, 1, 0, none⟩

def markSuccess (self : SynchronyRecoveryState) : SynchronyRecoveryState :=
  ⟨self.lastKnownHash, none, 0, 0, none⟩

def shouldBypass (conf : CasperShardConf) (now : Nat) (self : SynchronyRecoveryState) :
    Bool × SynchronyRecoveryState :=
  let firstFailureAt := self.firstFailureAt.getD now
  let failed := { self with
    firstFailureAt := some firstFailureAt
    consecutiveFailures := saturatingSucc self.consecutiveFailures }
  let bypassed (bypassCount : Nat) : SynchronyRecoveryState :=
    ⟨self.lastKnownHash, none, 0, saturatingSucc bypassCount, some now⟩
  let stalledLongEnough := decide (now - firstFailureAt ≥ conf.stallWindow)
  let inCooldown := self.lastBypassAt.any fun last => now - last < conf.cooldown
  if !stalledLongEnough || inCooldown then (false, failed)
  else if conf.maxBypasses = 0 then (false, failed)
  else if self.bypassCount ≥ conf.maxBypasses then
    let canRecycleBudget := self.lastBypassAt.any fun last => now - last ≥ conf.stallWindow
    if canRecycleBudget then (true, bypassed 0) else (false, failed)
  else (true, bypassed self.bypassCount)

end SynchronyRecoveryState

open SynchronyRecoveryState

/-- The entry of the validator among the recovery states, which no other validator touches. -/
abbrev Entry := Option SynchronyRecoveryState

def updateRecoveryStateOnSuccess (entry : Entry) : Entry := entry.map markSuccess

section Check

variable (conf : CasperShardConf) (lastProposedBlockHash : BlockHash)

def shouldBypassSynchronyConstraint (now : Nat) : Entry → Bool × Entry
  | some state =>
    if state.lastKnownHash = lastProposedBlockHash then (state.shouldBypass conf now).map id some
    else (false, some (resetForHash lastProposedBlockHash now))
  | none => (false, some (resetForHash lastProposedBlockHash now))

/-- What a check does, and whether it grants a bypass, when the synchrony value is below the
threshold. It succeeds without a bypass if the value against the finalized baseline is not. The
hook for a success is called after a bypass too. -/
def check (baseline : Bool) (now : Nat) (entry : Entry) : Bool × Entry :=
  if baseline then (false, updateRecoveryStateOnSuccess entry)
  else
    let (bypass, entry) := shouldBypassSynchronyConstraint conf lastProposedBlockHash now entry
    if bypass then (true, updateRecoveryStateOnSuccess entry) else (false, entry)

def bypasses : List (Nat × Bool) → Entry → List Nat
  | [], _ => []
  | (now, baseline) :: rest, entry =>
    let (granted, entry) := check conf lastProposedBlockHash baseline now entry
    if granted then now :: bypasses rest entry else bypasses rest entry

/-- Bypasses are a cooldown apart, and of those that follow one another within a stall window
there are no more than the maximum. -/
structure RateLimited (times : List Nat) : Prop where
  apart : times.Pairwise fun earlier later => earlier + conf.cooldown ≤ later
  budget : ∀ run, run <:+: times →
    run.IsChain (fun earlier later => later < earlier + conf.stallWindow) →
      run.length ≤ conf.maxBypasses

def failingSince (entry : Entry) : Option Nat :=
  entry.bind fun state =>
    if state.lastKnownHash = lastProposedBlockHash then state.firstFailureAt else none

variable {conf} {hash : BlockHash}

/-- A success clears the record, and a bypass needs a stall window; a failure keeps the record
or begins it. -/
theorem check_spec (baseline : Bool) (now : Nat) (entry : Entry) :
    if (check conf hash baseline now entry).1 then
      0 < conf.maxBypasses ∧ conf.stallWindow ≤ now - (failingSince hash entry).getD now ∧
        failingSince hash (check conf hash baseline now entry).2 = none
    else ∀ first ∈ failingSince hash (check conf hash baseline now entry).2,
      first = (failingSince hash entry).getD now := by
  cases entry with
  | none =>
    cases baseline <;> simp [check, shouldBypassSynchronyConstraint, failingSince, resetForHash,
      updateRecoveryStateOnSuccess]
  | some state =>
    by_cases same : state.lastKnownHash = hash
    · simp only [check, shouldBypassSynchronyConstraint, if_pos same, shouldBypass]
      split_ifs <;> simp_all [failingSince, updateRecoveryStateOnSuccess, markSuccess] <;> omega
    · cases baseline <;> simp [check, shouldBypassSynchronyConstraint, failingSince, resetForHash,
        updateRecoveryStateOnSuccess, markSuccess, same]

/-- A stall window lies between two bypasses, and before the first one if the record began at
a known instant. -/
theorem bypasses_stalled {checks : List (Nat × Bool)} (entry : Entry)
    (ascending : checks.Pairwise (·.1 ≤ ·.1)) :
    (bypasses conf hash checks entry).Pairwise
        (fun earlier later => earlier + conf.stallWindow ≤ later) ∧
      ∀ start, (∀ check ∈ checks, start ≤ check.1) →
        (∀ first ∈ failingSince hash entry, start ≤ first) →
          ∀ time ∈ bypasses conf hash checks entry,
            0 < conf.maxBypasses ∧ start + conf.stallWindow ≤ time := by
  induction checks generalizing entry with
  | nil => simp [bypasses]
  | cons first rest ih =>
    obtain ⟨now, baseline⟩ := first
    rw [pairwise_cons] at ascending
    obtain ⟨apart, window⟩ := ih (check conf hash baseline now entry).2 ascending.2
    have began (start : Nat) (before : start ≤ now)
        (since : ∀ first ∈ failingSince hash entry, start ≤ first) :
        start ≤ (failingSince hash entry).getD now := by
      cases recorded : failingSince hash entry with
      | none => exact before
      | some first => exact since first recorded
    have spec : if (check conf hash baseline now entry).1 then _ else _ :=
      check_spec baseline now entry
    simp only [forall_mem_cons, bypasses]
    split_ifs at spec ⊢ with granted
    · obtain ⟨allowed, stalled, cleared⟩ := spec
      have next := window now ascending.1 (by simp [cleared])
      refine ⟨pairwise_cons.mpr ⟨fun time listed => (next time listed).2, apart⟩, ?_⟩
      rintro start ⟨before, -⟩ since
      have early := began start before since
      rw [forall_mem_cons]
      refine ⟨⟨allowed, by omega⟩, fun time listed => ⟨allowed, ?_⟩⟩
      have later := (next time listed).2
      omega
    · refine ⟨apart, fun start before since => window start before.2 fun first begun => ?_⟩
      rw [spec first begun]
      exact began start before.1 since

end Check

/-- The hook for a success erases the record of a bypass, so that the cooldown and the budget
have no effect; what keeps bypasses apart is the stall window. -/
theorem rateLimited_iff (conf : CasperShardConf) (hash : BlockHash) :
    (∀ (checks : List (Nat × Bool)) (entry : Entry), checks.Pairwise (·.1 ≤ ·.1) →
        RateLimited conf (bypasses conf hash checks entry)) ↔
      conf.maxBypasses = 0 ∨ conf.cooldown ≤ conf.stallWindow := by
  constructor
  · intro limited
    by_contra exceeded
    simp only [not_or, not_le] at exceeded
    obtain ⟨bypassing, long⟩ := exceeded
    generalize window_eq : conf.stallWindow = window at long
    -- The first failure, a bypass after the window, and the same again.
    let checks := [0, window, window, window + window].map (·, false)
    have granted : [window, window + window].Sublist (bypasses conf hash checks none) := by
      by_cases instant : window = 0
      all_goals
        simp [checks, bypasses, check, shouldBypassSynchronyConstraint,
          updateRecoveryStateOnSuccess,
          shouldBypass, resetForHash, markSuccess, bypassing, window_eq, instant]
    have limits := limited checks none (by simp [checks])
    have apart := (pairwise_cons.mp (limits.apart.sublist granted)).1 _ (.head _)
    omega
  · intro condition checks entry ascending
    obtain ⟨stalled, window⟩ := @bypasses_stalled conf hash _ entry ascending
    have allowed (time : Nat) (listed : time ∈ bypasses conf hash checks entry) :=
      (window 0 (by simp) (by simp) time listed).1
    constructor
    · apply stalled.imp_of_mem
      intro earlier later listed _ window
      have := allowed earlier listed
      omega
    · intro run inside chain
      match run with
      | [] => exact Nat.zero_le _
      | [time] => exact allowed time (inside.subset (.head _))
      | earlier :: later :: rest =>
        have window := (pairwise_cons.mp (stalled.sublist inside.sublist)).1 later (.head _)
        have close := (List.isChain_cons_cons.mp chain).1
        omega

/-- Bypasses one minute apart, although the cooldown is longer. -/
theorem bypasses_within_cooldown :
    let conf : CasperShardConf := ⟨60, 100, 1⟩
    bypasses conf [1] [(0, false), (60, false), (60, false), (120, false)] none = [60, 120] ∧
      ¬RateLimited conf [60, 120] := by
  refine ⟨by decide, fun limited => ?_⟩
  have apart := limited.apart
  simp at apart

end F1r3fly.Casper.SynchronyConstraintChecker
