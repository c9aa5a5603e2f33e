import F1r3fly.RSpace.Communication
import F1r3fly.RSpace.Settled

/-! What the reducer issues after a communication, so that peeking leaves the data as they were. -/
namespace F1r3fly.Rholang

open List RSpace InMemHotStore Space ConsumeCandidate

variable {C P A K : Type} {operation : Operation C P A K}

def producePeeks (dataList : List (RSpaceResult C A)) : List (Operation C P A K) :=
  (dataList.filter (!·.persistent)).map fun result =>
    .produce result.channel result.removedDatum false

/-- The operations issued beside the continuation. -/
def continueProduceProcess (res : MaybeConsumeResult C P A K) (chan : C) (data : A)
    (persistent : Bool) : List (Operation C P A K) :=
  match res with
  | some (continuation, dataList) =>
    if persistent then
      .produce chan data persistent :: if continuation.peek then producePeeks dataList else []
    else if continuation.peek then producePeeks dataList
    else []
  | none => []

def continueConsumeProcess (res : MaybeConsumeResult C P A K) (channels : List C)
    (patterns : List P) (body : K) (persistent : Bool) (peeks : Peeks) :
    List (Operation C P A K) :=
  match res with
  | some (continuation, dataList) =>
    if persistent then [.consume channels patterns body persistent peeks]
    else if continuation.peek then producePeeks dataList
    else []
  | none => []

/-- What the reducer issues when the space has answered an operation. -/
def issued (outcome : Outcome C P A K) : Operation C P A K → List (Operation C P A K)
  | .produce chan data persist => continueProduceProcess outcome.fired chan data persist
  | .consume channels patterns body persist peeks =>
    continueConsumeProcess outcome.fired channels patterns body persist peeks
  | .install .. => []

/-- What the produces bring, and whether it persists. -/
def brought (operations : List (Operation C P A K)) : List (C × A × Bool) :=
  operations.filterMap fun
    | .produce chan data persist => some (chan, data, persist)
    | _ => none

def message (candidate : ConsumeCandidate C A) : C × A × Bool :=
  (candidate.channel, candidate.removedDatum, candidate.datum.persist)

def content (datum : Datum A) : A × Bool := (datum.a, datum.persist)

/-- A persistent produce is issued again. -/
def again : Operation C P A K → List (Operation C P A K)
  | .produce chan data true => [.produce chan data true]
  | _ => []

/-- The datum of a linear produce is handed over, once. -/
def Absorbed (operation : Operation C P A K) (candidates : List (ConsumeCandidate C A)) : Prop :=
  ∀ chan data, operation = .produce chan data false →
    (candidates.filter (·.datumIndex < 0)).length = 1

section Restores

variable {candidates : List (ConsumeCandidate C A)}

theorem brought_producePeeks :
    brought (producePeeks (candidates.map result) : List (Operation C P A K)) =
      (candidates.filter (!·.datum.persist)).map message := by
  induction candidates with
  | nil => rfl
  | cons candidate candidates ih =>
    simp only [brought, producePeeks] at ih ⊢
    cases persist : candidate.datum.persist <;> simpa [result, message, persist] using ih

theorem filter_linear_perm (candidates : List (ConsumeCandidate C A)) :
    (candidates.filter (!·.datum.persist)).Perm (candidates.filter (·.taken) ++
      (candidates.filter (·.datumIndex < 0)).filter (!·.datum.persist)) := by
  refine (filter_append_perm (·.datumIndex ≥ 0) _).symm.trans (.of_eq ?_)
  simp only [filter_filter]
  congr 2
  funext candidate
  grind

/-- The data without a position are those that the operation brings. -/
theorem again_append (absorbed : Absorbed operation candidates)
    (each : ∀ candidate ∈ candidates.filter (·.datumIndex < 0), operation =
      .produce candidate.channel candidate.removedDatum candidate.datum.persist) :
    brought (again operation) ++ ((candidates.filter (·.datumIndex < 0)).filter
      (!·.datum.persist)).map message = brought [operation] := by
  unfold Absorbed at absorbed
  generalize candidates.filter (·.datumIndex < 0) = new at each absorbed ⊢
  cases operation with
  | produce chan data persist =>
    cases persist with
    | false =>
      obtain ⟨candidate, rfl⟩ := length_eq_one_iff.mp (absorbed chan data rfl)
      obtain ⟨rfl, rfl, linear⟩ := Operation.produce.inj (each candidate (by simp))
      simp [again, brought, message, ← linear]
    | true =>
      have none : new.filter (!·.datum.persist) = [] := by
        rw [filter_eq_nil_iff]
        intro candidate member
        obtain ⟨-, -, persist⟩ := Operation.produce.inj (each candidate member)
        simp [← persist]
      simp [none, again]
  | consume | install =>
    cases new with
    | nil => rfl
    | cons candidate => cases each candidate (by simp)

variable [DecidableEq C]

def on (channel : C) (messages : List (C × A × Bool)) : List (A × Bool) :=
  (messages.filter (·.1 = channel)).map (·.2)

theorem content_takenFrom (channel : C) : (takenFrom channel candidates).map content =
    on channel ((candidates.filter (·.taken)).map message) := by
  simp only [takenFrom, on, map_map, filter_map, filter_filter, Bool.and_comm (taken _)]
  rfl

variable [Blake2b] [Serialize C] [Serialize A]

theorem eq_produce_of_offered [HotStore S C P A K] {self : Space S C P K} {channel : C}
    {datum : Datum A} (entry : (datum, index) ∈ self.offered operation channel)
    (new : index < 0) : operation = .produce channel datum.a datum.persist := by
  have absent : (datum, index) ∉ withIndex (self.getData channel) := by
    intro member
    have nonneg := (mem_withIndex.mp member).1
    omega
  cases operation with
  | produce chan data persist =>
    simp only [offered] at entry
    split_ifs at entry with here
    · rcases mem_cons.mp entry with same | member
      · cases same
        rw [here]
        rfl
      · exact absurd member absent
    · exact absurd entry absent
  | consume | install => exact absurd entry absent

variable [Match P A]

/-- A produce completes what has lacked a datum, and on distinct channels only once. -/
theorem absorbed_of_lacks [HotStore S C P A K] {self : Space S C P K} {pairs : List (C × P)}
    (handed : Handed (self.offered operation) pairs candidates)
    (distinct : (candidates.map (·.channel)).Nodup) (lacks : Lacks self.getData pairs) :
    Absorbed operation candidates := by
  rintro chan data rfl
  have on_chan (candidate : ConsumeCandidate C A)
      (member : candidate ∈ candidates.filter (·.datumIndex < 0)) : candidate.channel = chan := by
    obtain ⟨member, new⟩ := mem_filter.mp member
    obtain ⟨pair, -, fits⟩ := handed.mem candidate member
    have same := eq_produce_of_offered fits.entry (by simpa using new)
    exact fits.channel_eq.trans (Operation.produce.inj same).1.symm
  obtain ⟨pair, member, rejected⟩ := lacks
  obtain ⟨candidate, is_candidate, fits⟩ := handed.of_pair member
  have new : candidate.datumIndex < 0 := by
    by_contra stored
    have entry : (candidate.original, candidate.datumIndex) ∈
        withIndex (self.getData pair.1) := by
      have entry := fits.entry
      simp only [offered] at entry
      split_ifs at entry
      · rcases mem_cons.mp entry with same | old
        · have index : candidate.datumIndex = -1 := congrArg Prod.snd same
          omega
        · exact old
      · exact entry
    have old := mem_of_getElem? (mem_withIndex.mp entry).2
    cases (rejected _ old).symm.trans fits.accepted
  have one : candidate ∈ candidates.filter (·.datumIndex < 0) :=
    mem_filter.mpr ⟨is_candidate, decide_eq_true new⟩
  refine le_antisymm ?_ (length_pos_of_mem one)
  have nodup : ((candidates.filter (·.datumIndex < 0)).map (·.channel)).Nodup :=
    distinct.sublist (filter_sublist.map _)
  rw [eq_replicate_of_mem (forall_mem_map.mpr on_chan), nodup_replicate, length_map] at nodup
  exact nodup

variable [Serialize P] [Serialize K] [Debug P] [Debug K] [ThreadRng]

/-- A continuation that a produce fires has lacked a datum before. -/
theorem lacks_of_fired {self : Space (EagerStore C P A K) C P K} (settled : Settled self.store)
    (effect : Effect self (.produce chan data persist) (outcome, afterwards))
    (fired : outcome.fired = some (continuation, results))
    (distinct : continuation.channels.Nodup) :
    Lacks self.getData (continuation.channels.zip continuation.patterns) := by
  cases effect with
  | failed => cases fired
  | produced _ _ _ outcome effect =>
    cases effect with
    | stored => cases fired
    | fired pc draws matched =>
      obtain ⟨rfl, -⟩ := Prod.mk.inj (Option.some.inj fired)
      have waits := (mem_withIndex.mp matched.continuation).2
      exact settled pc.channels distinct pc.continuation (mem_of_getElem? waits)

theorem issued_eq {self : Space (EagerStore C P A K) C P K}
    (effect : Effect self operation (outcome, afterwards))
    (fired : outcome.fired = some (continuation, results)) (linear : ¬continuation.persistent)
    (peek : continuation.peek) :
    issued outcome operation = again operation ++ producePeeks results := by
  cases effect with
  | failed | installed => cases fired
  | produced channel data persist =>
    cases persist <;> simp [issued, continueProduceProcess, again, fired, peek]
  | consumed channels patterns body persist peeks outcome sameLength effect =>
    have same : continuation.persistent = persist := by
      cases effect with
      | stored => cases fired
      | fired =>
        obtain ⟨rfl, -⟩ := Prod.mk.inj (Option.some.inj fired)
        rfl
    rw [same] at linear
    simp [issued, continueConsumeProcess, again, fired, peek, linear]

variable (self : Space (InMemHotStore C P A K) C P K) (operation : Operation C P A K)

/-- What the space has lost, none of it persistent, and what the operation brings is issued again,
each once; so the data are as if the operation had only stored its own. -/
def Restores : Prop :=
  let next := perform operation self
  let reissued := brought (issued next.1 operation)
  ∃ lost : C → List (Datum A), ∀ channel,
    (next.2.getData channel ++ lost channel).Perm (self.getData channel) ∧
      (∀ datum ∈ lost channel, datum.persist = false) ∧
      (on channel reissued).Perm ((lost channel).map content ++ on channel (brought [operation]))

variable {self operation}

theorem restores_of_handed {pairs : List (C × P)}
    (handed : Handed (self.offered operation) pairs candidates)
    (absorbed : Absorbed operation candidates)
    (all : issued (perform operation self).1 operation =
      again operation ++ producePeeks (candidates.map result))
    (removes : ∀ channel, ((perform operation self).2.getData channel ++
      takenFrom channel candidates).Perm (self.getData channel)) : Restores self operation := by
  have each : ∀ candidate ∈ candidates.filter (·.datumIndex < 0), operation =
      .produce candidate.channel candidate.removedDatum candidate.datum.persist := by
    intro candidate member
    obtain ⟨member, new⟩ := mem_filter.mp member
    obtain ⟨pair, _, fits⟩ := handed.mem candidate member
    rw [fits.channel_eq]
    exact eq_produce_of_offered fits.entry (by simpa using new)
  have reissued : (brought (issued (perform operation self).1 operation)).Perm
      ((candidates.filter (·.taken)).map message ++ brought [operation]) := by
    have peeks := (filter_linear_perm candidates).map message
    rw [← brought_producePeeks, map_append] at peeks
    rw [all, ← again_append absorbed each, brought, filterMap_append]
    refine (peeks.append_left _).trans ?_
    simp only [← append_assoc]
    exact perm_append_comm.append_right _
  refine ⟨(takenFrom · candidates), fun channel => ⟨removes channel, ?_, ?_⟩⟩
  · intro datum member
    obtain ⟨candidate, is_taken, rfl⟩ := mem_map.mp member
    have taken := (mem_filter.mp is_taken).2
    rw [Bool.and_eq_true, ConsumeCandidate.taken, Bool.and_eq_true, Bool.not_eq_true'] at taken
    exact taken.1.2
  · have here := (reissued.filter (·.1 = channel)).map (·.2)
    rw [filter_append, map_append] at here
    rw [content_takenFrom]
    exact here

end Restores

end F1r3fly.Rholang
