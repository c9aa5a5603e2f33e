import F1r3fly.RSpace.ReplayAgreement

/-! The runs that can be replayed, and where the references in their logs come from. -/
namespace F1r3fly.RSpace

open Space StateInvariant

variable {C P A K : Type} [Blake2b] [Serialize C] [Serialize P] [Serialize A] [Serialize K]

namespace Operation

def datum? : Operation C P A K → Option (C × Datum A)
  | .produce channel data persist => some (channel, datumAs channel data persist)
  | _ => none

def consume? : Operation C P A K → Option (List C × Consume)
  | .consume channels patterns continuation persist _ =>
    some (channels, .create channels patterns continuation persist)
  | _ => none

/-- A produce, or a consume on pairwise distinct channels. -/
def Plain : Operation C P A K → Prop
  | .produce .. => True
  | .consume channels .. => channels.Nodup
  | .install .. => False

instance [DecidableEq C] : DecidablePred (Plain : Operation C P A K → Prop)
  | .produce .. => inferInstanceAs (Decidable True)
  | .consume channels .. => inferInstanceAs (Decidable channels.Nodup)
  | .install .. => inferInstanceAs (Decidable False)

end Operation

/-- The data that are stored or still to be brought. -/
def Available (store : EagerStore C P A K) (operations : List (Operation C P A K)) (channel : C)
    (datum : Datum A) : Prop :=
  datum ∈ store.data channel ∨ (channel, datum) ∈ operations.filterMap Operation.datum?

def IsSource (store : EagerStore C P A K) (operations : List (Operation C P A K)) (p : Produce) :
    Prop :=
  ∃ channel datum, Available store operations channel datum ∧ datum.source = p

def consumeRefs (operations : List (Operation C P A K)) : List Consume :=
  (operations.filterMap Operation.consume?).map Prod.snd

omit [Serialize P] [Serialize K] in
theorem Determined.exact {store : EagerStore C P A K}
    (determined : Determined (Available store operations)) : Exact (IsSource store operations) := by
  rintro _ _ ⟨c, d, here, rfl⟩ ⟨c', d', there, rfl⟩ same
  rw [(determined c d c' d' here there same).2]

/-- Where the references of a communication come from. -/
structure Traced (store : EagerStore C P A K) (operations : List (Operation C P A K))
    (comm : COMM) : Prop where
  mentions : comm.Over (IsSource store operations)
  consume : (∃ channels, ∃ wk ∈ store.allContinuations channels, wk.source = comm.consume) ∨
    comm.consume ∈ consumeRefs operations

/-- What one operation can add to the store and to the log. -/
structure Adds (before : Space (EagerStore C P A K) C P K) (operation : Operation C P A K)
    (after : Space (EagerStore C P A K) C P K) : Prop where
  log : ∃ events, after.eventLog = events ++ before.eventLog ∧
    ∀ comm ∈ events.filterMap Event.comm?, Traced before.store [operation] comm
  data : ∀ channel, ∀ datum ∈ after.store.data channel,
    Available before.store [operation] channel datum
  continuations : ∀ channels,
    (after.store.allContinuations channels).Sublist (before.store.allContinuations channels) ∨
    ∃ wk, operation.consume? = some (channels, wk.source) ∧
      (after.store.allContinuations channels).Perm (wk :: before.store.allContinuations channels)

section Adds

variable {self after : Space (EagerStore C P A K) C P K} {operation : Operation C P A K}
  {operations : List (Operation C P A K)}

theorem Adds.mem_continuations (adds : Adds self operation after)
    (member : wk ∈ after.store.allContinuations channels) :
    wk ∈ self.store.allContinuations channels ∨
      operation.consume? = some (channels, wk.source) := by
  rcases adds.continuations channels with sublist | ⟨new, here, perm⟩
  · exact .inl (sublist.subset member)
  · rcases mem_cons.mp (perm.mem_iff.mp member) with rfl | before
    · exact .inr here
    · exact .inl before

variable {store : EagerStore C P A K} {comm : COMM}

omit [Serialize P] [Serialize K] in
theorem Available.cons (available : Available store [operation] channel datum) :
    Available store (operation :: operations) channel datum := by
  refine available.imp_right fun brought => ?_
  obtain ⟨op, member, here⟩ := mem_filterMap.mp brought
  obtain rfl := mem_singleton.mp member
  exact mem_filterMap.mpr ⟨op, by simp, here⟩

theorem Adds.available (adds : Adds self operation after)
    (available : Available after.store operations channel datum) :
    Available self.store (operation :: operations) channel datum := by
  rcases available with stored | brought
  · exact (adds.data channel datum stored).cons
  · obtain ⟨op, member, here⟩ := mem_filterMap.mp brought
    exact .inr (mem_filterMap.mpr ⟨op, by simp [member], here⟩)

omit [Serialize A] in
theorem mem_consumeRefs_cons :
    ref ∈ consumeRefs (operation :: operations) ↔
      (∃ channels, operation.consume? = some (channels, ref)) ∨ ref ∈ consumeRefs operations := by
  unfold consumeRefs
  cases here : operation.consume? with
  | none => simp [filterMap_cons_none here]
  | some entry =>
    rw [filterMap_cons_some here, map_cons, mem_cons]
    refine or_congr_left ⟨?_, ?_⟩
    · rintro rfl
      exact ⟨entry.1, rfl⟩
    · rintro ⟨channels, same⟩
      exact congrArg Prod.snd (Option.some.inj same).symm

omit [Blake2b] in
theorem COMM.Over.imp (mentions : comm.Over refs) (weaker : ∀ p, refs p → more p) :
    comm.Over more :=
  ⟨fun p member => weaker p (mentions.produces p member),
    fun entry member => weaker _ (mentions.repeated entry member)⟩

theorem Traced.cons
    (traced : Traced store [operation] comm) : Traced store (operation :: operations) comm where
  mentions := traced.mentions.imp fun _ ⟨channel, datum, available, same⟩ =>
    ⟨channel, datum, available.cons, same⟩
  consume := traced.consume.imp_right fun here => by
    rcases mem_consumeRefs_cons.mp here with brought | none
    · exact mem_consumeRefs_cons.mpr (.inl brought)
    · cases none

theorem Adds.traced (adds : Adds self operation after)
    (traced : Traced after.store operations comm) :
    Traced self.store (operation :: operations) comm where
  mentions := traced.mentions.imp fun _ ⟨channel, datum, available, same⟩ =>
    ⟨channel, datum, adds.available available, same⟩
  consume := by
    rcases traced.consume with ⟨channels, wk, member, same⟩ | later
    · rcases adds.mem_continuations member with before | brought
      · exact .inl ⟨channels, wk, before, same⟩
      · exact .inr (mem_consumeRefs_cons.mpr (.inl ⟨channels, same ▸ brought⟩))
    · exact .inr (mem_consumeRefs_cons.mpr (.inr later))

variable [Match P A]

/-- Produces and consumes on pairwise distinct channels, whose references differ
from each other and, for consumes, from those of the stored continuations; in the
store no continuation has all its data. -/
structure Replayable (store : EagerStore C P A K) (operations : List (Operation C P A K)) :
    Prop where
  consistent : Consistent store
  settled : Settled store
  joins : ∀ channels, store.allContinuations channels ≠ [] → channels.Nodup
  sources : ∀ channels, ((store.allContinuations channels).map (·.source)).Nodup
  apart : ∀ channels others, ∀ wk ∈ store.allContinuations channels,
    ∀ other ∈ store.allContinuations others, wk.source = other.source → channels = others
  plain : ∀ operation ∈ operations, operation.Plain
  fresh : ∀ channels, ∀ wk ∈ store.allContinuations channels, wk.source ∉ consumeRefs operations
  consumes : (consumeRefs operations).Nodup
  produces : (operations.filterMap Operation.datum?).Pairwise fun one other =>
    one.2.source.hash ≠ other.2.source.hash
  determined : Determined (Available store operations)

theorem Replayable.consume_fresh
    (replayable : Replayable store (operation :: operations))
    (here : operation.consume? = some (channels, ref)) :
    (∀ join, ∀ wk ∈ store.allContinuations join, wk.source ≠ ref) ∧
      ref ∉ consumeRefs operations := by
  constructor
  · rintro join wk member rfl
    exact replayable.fresh join wk member (mem_consumeRefs_cons.mpr (.inl ⟨channels, here⟩))
  · have distinct := replayable.consumes
    rw [consumeRefs, filterMap_cons_some here, map_cons] at distinct
    exact (nodup_cons.mp distinct).1

theorem Replayable.produce_fresh
    (replayable : Replayable store (operation :: operations))
    (here : operation.datum? = some (channel, datum)) :
    ∀ entry ∈ operations.filterMap Operation.datum?, entry.2.source.hash ≠ datum.source.hash := by
  have distinct := replayable.produces
  rw [filterMap_cons_some here] at distinct
  exact fun entry member => ((pairwise_cons.mp distinct).1 entry member).symm

theorem Replayable.of_empty (plain : ∀ operation ∈ operations, operation.Plain)
    (consumes : (consumeRefs operations).Nodup)
    (produces : (operations.filterMap Operation.datum?).Pairwise fun one other =>
      one.2.source.hash ≠ other.2.source.hash) :
    Replayable (.ofHistory .empty) operations where
  consistent := .empty
  settled _ _ _ member := by cases member
  joins _ stored := absurd rfl stored
  sources _ := List.nodup_nil
  apart _ _ _ member := by cases member
  plain := plain
  fresh _ _ member := by cases member
  consumes := consumes
  produces := produces
  determined c d c' d' here there same := by
    rcases here with stored | here
    · cases stored
    rcases there with stored | there
    · cases stored
    -- The hashes of the data that are brought are distinct, so both are one of them.
    have distinct : ((operations.filterMap Operation.datum?).map (·.2.source.hash)).Nodup :=
      pairwise_map.mpr produces
    exact Prod.mk.inj (List.inj_on_of_nodup_map distinct here there same)

/-- A continuation with the source of a stored one is that one. -/
theorem Replayable.continuation_eq
    (replayable : Replayable store operations)
    (here : (wk, index) ∈ store.indexedContinuations channels)
    (there : (other, position) ∈ store.indexedContinuations others)
    (source : other.source = wk.source) : others = channels ∧ other = wk ∧ position = index := by
  obtain ⟨nonneg, atIndex⟩ := mem_withIndex.mp here
  obtain ⟨nonneg', atPosition⟩ := mem_withIndex.mp there
  obtain rfl := replayable.apart others channels other (mem_of_getElem? atPosition) wk
    (mem_of_getElem? atIndex) source
  have bound : position.toNat < ((store.allContinuations others).map (·.source)).length := by
    rw [List.length_map]
    exact (getElem?_eq_some_iff.mp atPosition).1
  have same : position.toNat = index.toNat :=
    (List.getElem?_inj bound (replayable.sources others)).mp (by simp [atIndex, atPosition, source])
  rw [same] at atPosition
  exact ⟨rfl, Option.some.inj (atPosition.symm.trans atIndex), by omega⟩

/-- What is left of a run that can be replayed can be replayed. -/
theorem Replayable.rest (replayable : Replayable self.store (operation :: operations))
    (adds : Adds self operation after) (consistent : Consistent after.store)
    (settled : Settled after.store) : Replayable after.store operations where
  consistent := consistent
  settled := settled
  joins channels stored := by
    obtain ⟨wk, member⟩ := exists_mem_of_ne_nil _ stored
    rcases adds.mem_continuations member with before | brought
    · exact replayable.joins channels (ne_nil_of_mem before)
    · have plain := replayable.plain operation (by simp)
      cases operation with
      | consume =>
        obtain ⟨rfl, _⟩ := Prod.mk.inj (Option.some.inj brought)
        exact plain
      | produce | install => cases brought
  sources channels := by
    have before := replayable.sources channels
    rcases adds.continuations channels with sublist | ⟨wk, brought, perm⟩
    · exact before.sublist (sublist.map _)
    · refine (perm.map (·.source)).nodup_iff.mpr (nodup_cons.mpr ⟨fun clash => ?_, before⟩)
      obtain ⟨other, member, same⟩ := mem_map.mp clash
      exact replayable.fresh channels other member
        (mem_consumeRefs_cons.mpr (.inl ⟨channels, same ▸ brought⟩))
  apart channels others wk member other there same := by
    rcases adds.mem_continuations member with before | brought
    · rcases adds.mem_continuations there with beforeOther | broughtOther
      · exact replayable.apart channels others wk before other beforeOther same
      · exact absurd (mem_consumeRefs_cons.mpr (.inl ⟨others, same ▸ broughtOther⟩))
          (replayable.fresh channels wk before)
    · rcases adds.mem_continuations there with beforeOther | broughtOther
      · exact absurd (mem_consumeRefs_cons.mpr (.inl ⟨channels, same ▸ brought⟩))
          (replayable.fresh others other beforeOther)
      · exact congrArg Prod.fst (Option.some.inj (brought.symm.trans broughtOther))
  plain op member := replayable.plain op (by simp [member])
  fresh channels wk member later := by
    rcases adds.mem_continuations member with before | brought
    · exact replayable.fresh channels wk before (mem_consumeRefs_cons.mpr (.inr later))
    · exact (replayable.consume_fresh brought).2 later
  consumes := by
    have distinct := replayable.consumes
    exact distinct.sublist (((List.sublist_cons_self _ _).filterMap _).map _)
  produces := replayable.produces.sublist ((List.sublist_cons_self _ _).filterMap _)
  determined c d c' d' here there :=
    replayable.determined c d c' d' (adds.available here) (adds.available there)

end Adds

section Effect

variable [DecidableEq C] [Match P A] [Debug P] [Debug K]
    {self after : Space (EagerStore C P A K) C P K}

omit [Serialize P] [Serialize K] [DecidableEq C] [Debug P] [Debug K] in
theorem Handed.sources_available {pairs : List (C × P)} {store : EagerStore C P A K}
    (handed : Handed entries pairs candidates)
    (available : ∀ channel, ∀ entry ∈ entries channel, Available store operations channel entry.1) :
    ∀ candidate ∈ candidates, IsSource store operations candidate.datum.source := by
  intro candidate member
  obtain ⟨pair, _, fits⟩ := handed.mem candidate member
  exact ⟨pair.1, candidate.original, available _ _ fits.entry, rfl⟩

theorem Space.ConsumeEffect.adds [ThreadRng] {patterns : List P}
    (effect : ConsumeEffect self channels (waitingAs channels patterns continuation persist peeks)
      (outcome, after)) :
    Adds self (.consume channels patterns continuation persist peeks) after := by
  have ref : Operation.consume? (A := A) (.consume channels patterns continuation persist peeks) =
    some (channels, (waitingAs channels patterns continuation persist peeks).source) := rfl
  cases effect with
  | fired candidates draws handed =>
    constructor
    · refine ⟨[.comm _, .ioEvent _], rfl, ?_⟩
      simp only [filterMap_cons, Event.comm?, List.filterMap_nil, mem_singleton]
      rintro _ rfl
      refine ⟨COMM.over_new (handed.sources_available fun channel entry member =>
        .inl (EagerStore.mem_entries member)), .inr ?_⟩
      exact mem_consumeRefs_cons.mpr (.inl ⟨channels, ref⟩)
    · intro channel datum member
      exact .inl (((shrinks_consumed handed.nonneg).data channel).subset member)
    · exact fun join => .inl ((shrinks_consumed handed.nonneg).continuations join)
  | stored draws stuck =>
    constructor
    · exact ⟨[.ioEvent _], rfl, by simp [Event.comm?]⟩
    · intro channel datum member
      rw [storeWaitingContinuation_eq] at member
      exact .inl member
    · intro join
      rcases allContinuations_storeWaitingContinuation self.store channels join
        (waitingAs channels patterns continuation persist peeks) with same | ⟨rfl, perm⟩
      · exact .inl (same ▸ .refl _)
      · exact .inr ⟨_, ref, perm⟩

theorem Space.ProduceEffect.adds [ThreadRng] {data : A}
    (effect : ProduceEffect self channel (datumAs channel data persist) (outcome, after)) :
    Adds self (.produce channel data persist) after := by
  have brought : Available self.store [Operation.produce channel data persist] channel
      (datumAs channel data persist) := .inr (by simp [Operation.datum?])
  cases effect with
  | fired pc draws matched =>
    have stored : pc.continuation ∈ self.store.allContinuations pc.channels :=
      mem_of_getElem? (mem_withIndex.mp matched.continuation).2
    constructor
    · refine ⟨[.comm _, .ioEvent _], rfl, ?_⟩
      simp only [filterMap_cons, Event.comm?, List.filterMap_nil, mem_singleton]
      rintro _ rfl
      refine ⟨COMM.over_new (matched.handed.sources_available fun other entry member => ?_),
        .inl ⟨pc.channels, pc.continuation, stored, rfl⟩⟩
      unfold EagerStore.entriesWith at member
      split_ifs at member with same
      · rcases mem_cons.mp member with rfl | before
        · exact same ▸ brought
        · exact .inl (EagerStore.mem_entries before)
      · exact .inl (EagerStore.mem_entries member)
    · intro other datum member
      exact .inl (((shrinks_produced self.store pc).data other).subset member)
    · exact fun join => .inl ((shrinks_produced self.store pc).continuations join)
  | stored draws stuck =>
    constructor
    · exact ⟨[.ioEvent _], rfl, by simp [Event.comm?]⟩
    · intro other datum member
      rcases mem_update member with ⟨rfl, added⟩ | before
      · rcases mem_cons.mp added with rfl | before
        · exact brought
        · exact .inl before
      · exact .inl before
    · exact fun join => .inl (.refl _)

theorem Space.Effect.adds [ThreadRng] (plain : operation.Plain)
    (effect : Effect self operation (outcome, after)) : Adds self operation after := by
  cases effect with
  | failed failure draws =>
    exact ⟨⟨[], rfl, by simp⟩, fun channel datum member => .inl member, fun join => .inl (.refl _)⟩
  | produced channel data persist outcome effect => exact effect.adds
  | consumed channels patterns continuation persist peeks outcome sameLength effect =>
    exact effect.adds
  | installed => exact plain.elim

theorem run_traced [ThreadRng]
    (plain : ∀ operation ∈ operations, operation.Plain) (self : Space (EagerStore C P A K) C P K) :
    ∃ events, (run operations self).2.eventLog = events ++ self.eventLog ∧
      ∀ comm ∈ events.filterMap Event.comm?, Traced self.store operations comm := by
  induction operations generalizing self with
  | nil => exact ⟨[], rfl, by simp⟩
  | cons operation operations ih =>
    have adds := (perform_effect self operation).adds (plain operation (by simp))
    obtain ⟨first, logged, traced⟩ := adds.log
    obtain ⟨later, loggedLater, tracedLater⟩ :=
      ih (fun op member => plain op (by simp [member])) (perform operation self).2
    refine ⟨later ++ first, ?_, fun comm member => ?_⟩
    · rw [run, run_mapM_cons, append_assoc, ← logged]
      exact loggedLater
    · rw [List.filterMap_append] at member
      rcases mem_append.mp member with member | member
      · exact adds.traced (tracedLater comm member)
      · exact (traced comm member).cons

end Effect

end F1r3fly.RSpace
