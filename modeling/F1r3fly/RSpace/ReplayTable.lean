import F1r3fly.RSpace.ReplayEffects

/-! The table of a log as a multiset of bindings: one for each communication and each event of it
that the log also has. -/
namespace F1r3fly.RSpace

section Equality

theorem IOEvent.beq_iff {e f : IOEvent} :
    e == f ↔ (∃ p q, e = .produce p ∧ f = .produce q ∧ p.hash = q.hash) ∨
      ∃ c, e = .consume c ∧ f = .consume c := by
  constructor
  · intro same
    cases e with
    | produce p =>
      cases f with
      | produce q => exact .inl ⟨p, q, rfl, rfl, Produce.beq_iff.mp same⟩
      | consume c => cases same
    | consume c =>
      cases f with
      | produce q => cases same
      | consume d => exact .inr ⟨c, rfl, congrArg _ (LawfulBEq.eq_of_beq (a := c) same).symm⟩
  · rintro (⟨p, q, rfl, rfl, equal⟩ | ⟨c, rfl, rfl⟩)
    · exact Produce.beq_iff.mpr equal
    · exact beq_self_eq_true c

instance : EquivBEq IOEvent where
  rfl {e} := by cases e <;> simp [IOEvent.beq_iff]
  symm same := by
    rcases IOEvent.beq_iff.mp same with ⟨p, q, rfl, rfl, equal⟩ | ⟨c, rfl, rfl⟩
    · exact IOEvent.beq_iff.mpr (.inl ⟨q, p, rfl, rfl, equal.symm⟩)
    · exact IOEvent.beq_iff.mpr (.inr ⟨c, rfl, rfl⟩)
  trans first second := by
    rcases IOEvent.beq_iff.mp first with ⟨p, q, rfl, rfl, equal⟩ | ⟨c, rfl, rfl⟩
    · obtain ⟨_, r, ⟨⟩, rfl, again⟩ | ⟨_, ⟨⟩, _⟩ := IOEvent.beq_iff.mp second
      exact IOEvent.beq_iff.mpr (.inl ⟨p, r, rfl, rfl, equal.trans again⟩)
    · exact second

instance : ReflBEq COMM where
  rfl {comm} := by
    change (comm.consume == comm.consume && comm.produces == comm.produces &&
      comm.peeks == comm.peeks && comm.timesRepeated == comm.timesRepeated) = true
    simp

/-- Any two of the references with equal hashes are equal. -/
def Exact (refs : Produce → Prop) : Prop := ∀ p q, refs p → refs q → p.hash = q.hash → p = q

structure COMM.Over (refs : Produce → Prop) (comm : COMM) : Prop where
  produces : ∀ p ∈ comm.produces, refs p
  repeated : ∀ entry ∈ comm.timesRepeated, refs entry.1

theorem eq_of_list_beq [BEq α] {items others : List α} (same : items == others)
    (each : ∀ a ∈ items, ∀ b ∈ others, a == b → a = b) : items = others := by
  induction items generalizing others with
  | nil => cases others <;> first | rfl | cases same
  | cons item items ih =>
    cases others with
    | nil => cases same
    | cons other others =>
      obtain ⟨head, tail⟩ := and_eq_true_iff.mp same
      rw [each item (by simp) other (by simp) head,
        ih tail fun a here b there => each a (by simp [here]) b (by simp [there])]

theorem COMM.eq_of_beq {refs : Produce → Prop} {comm other : COMM} (exact : Exact refs)
    (mentions : comm.Over refs) (mentionsOther : other.Over refs) (same : comm == other) :
    comm = other := by
  change (comm.consume == other.consume && comm.produces == other.produces &&
    comm.peeks == other.peeks && comm.timesRepeated == other.timesRepeated) = true at same
  simp only [and_eq_true, beq_iff_eq] at same
  obtain ⟨⟨⟨consume, produces⟩, peeks⟩, repeated⟩ := same
  have produces : comm.produces = other.produces := eq_of_list_beq produces
    fun p here q there same =>
    exact p q (mentions.produces p here) (mentionsOther.produces q there) (Produce.beq_iff.mp same)
  have repeated : comm.timesRepeated = other.timesRepeated := by
    refine eq_of_list_beq repeated fun e here f there same => ?_
    obtain ⟨keys, counts⟩ := and_eq_true_iff.mp same
    exact Prod.ext (exact _ _ (mentions.repeated e here) (mentionsOther.repeated f there)
      (Produce.beq_iff.mp keys)) (LawfulBEq.eq_of_beq counts)
  cases comm
  cases other
  simp_all

theorem COMM.Over.event_eq {refs : Produce → Prop} {comm : COMM} (mentions : comm.Over refs)
    (exact : Exact refs) (here : e ∈ comm.ioEvents) (there : f ∈ comm.ioEvents) (same : e == f) :
    e = f := by
  rcases IOEvent.beq_iff.mp same with ⟨p, q, rfl, rfl, equal⟩ | ⟨c, rfl, rfl⟩
  · have mentioned : ∀ p, IOEvent.produce p ∈ comm.ioEvents → p ∈ comm.produces := by
      simp [COMM.ioEvents]
    rw [exact p q (mentions.produces p (mentioned p here))
      (mentions.produces q (mentioned q there)) equal]
  · rfl

end Equality

namespace MultisetMultiMap

variable {κ ν : Type} [BEq κ] [BEq ν] {self : MultisetMultiMap κ ν} {k : κ} {v : ν}

theorem values_eq (self : MultisetMultiMap κ ν) (k : κ) :
    self.values k = (self.bindings.filter fun binding => binding.1 == k).foldr
      (fun binding values => if values.contains binding.2 then values else binding.2 :: values)
      [] := by
  unfold values get
  dsimp only
  split_ifs with empty
  · exact (List.isEmpty_iff.mp empty).symm
  · rfl

theorem mem_values (member : v ∈ self.values k) : ∃ key, (key, v) ∈ self.bindings ∧ key == k := by
  suffices found : ∃ binding ∈ self.bindings.filter fun binding => binding.1 == k, binding.2 = v by
    obtain ⟨⟨key, _⟩, bound, rfl⟩ := found
    exact ⟨key, mem_filter.mp bound⟩
  rw [values_eq] at member
  generalize self.bindings.filter (fun binding => binding.1 == k) = bindings at member
  induction bindings with
  | nil => cases member
  | cons binding bindings ih =>
    rw [List.foldr_cons] at member
    split_ifs at member
    · simpa using Or.inr (ih member)
    · rcases mem_cons.mp member with rfl | later
      · simp
      · simpa using Or.inr (ih later)

theorem values_contains [ReflBEq ν] (member : (key, v) ∈ self.bindings) (same : key == k) :
    (self.values k).contains v := by
  have bound : (key, v) ∈ self.bindings.filter fun binding => binding.1 == k :=
    mem_filter.mpr ⟨member, same⟩
  rw [values_eq]
  generalize self.bindings.filter (fun binding => binding.1 == k) = bindings at bound
  induction bindings with
  | nil => cases bound
  | cons binding bindings ih =>
    rw [List.foldr_cons]
    rcases mem_cons.mp bound with rfl | later
    · split_ifs with before
      · exact before
      · simp
    · split_ifs with before
      · exact ih later
      · rw [List.contains_cons, ih later, Bool.or_true]

end MultisetMultiMap

theorem eraseP_perm {items rest : List α} (passes : test item)
    (only : ∀ other ∈ items, test other → other = item) (perm : items.Perm (item :: rest)) :
    (items.eraseP test).Perm rest := by
  obtain ⟨found, before, after, _, holds, split, erased⟩ :=
    List.exists_of_eraseP (perm.mem_iff.mpr (by simp)) passes
  obtain rfl := only found (by simp [split]) holds
  rw [erased]
  refine (List.perm_cons found).mp ?_
  calc found :: (before ++ after)
    List.Perm _ (before ++ found :: after) := List.perm_middle.symm
    List.Perm _ (found :: rest) := split ▸ perm

namespace ReplaySpace

/-- One binding for each communication and each event of it that is new. -/
def bindingsOf (newStuff : List IOEvent) (comms : List COMM) : List (IOEvent × COMM) :=
  comms.flatMap fun comm => (comm.ioEvents.filter (newStuff.contains ·)).map (·, comm)

theorem mem_bindingsOf {comm : COMM} : (event, comm) ∈ bindingsOf newStuff comms ↔
      comm ∈ comms ∧ event ∈ comm.ioEvents ∧ newStuff.contains event := by
  simp only [bindingsOf, mem_flatMap, mem_map, mem_filter, Prod.mk.injEq]
  constructor
  · rintro ⟨comm, member, event, ⟨mentioned, new⟩, rfl, rfl⟩
    exact ⟨member, mentioned, new⟩
  · rintro ⟨member, mentioned, new⟩
    exact ⟨comm, member, event, ⟨mentioned, new⟩, rfl, rfl⟩

theorem rig_perm (log : Log) :
    (rig log).bindings.Perm
      (bindingsOf (log.filterMap Event.ioEvent?) (log.filterMap Event.comm?)) := by
  unfold rig
  generalize log.filterMap Event.ioEvent? = newStuff
  have events (comm : COMM) (events : List IOEvent) (table : MultisetMultiMap IOEvent COMM) :
      (events.foldl (fun table event => if newStuff.contains event then table.addBinding event comm
        else table) table).bindings.Perm
        ((events.filter (newStuff.contains ·)).map (·, comm) ++ table.bindings) := by
    induction events generalizing table with
    | nil => exact .refl _
    | cons event events ih =>
      refine (ih _).trans ?_
      dsimp only
      by_cases new : newStuff.contains event
      · rw [if_pos new, List.filter_cons_of_pos new]
        exact List.perm_middle
      · rw [if_neg new, List.filter_cons_of_neg new]
  suffices all : ∀ (comms : List COMM) (table : MultisetMultiMap IOEvent COMM),
      (comms.foldl (fun table comm => comm.ioEvents.foldl (fun table event =>
        if newStuff.contains event then table.addBinding event comm else table) table)
        table).bindings.Perm (bindingsOf newStuff comms ++ table.bindings) by
    simpa [MultisetMultiMap.empty] using all (log.filterMap Event.comm?) .empty
  intro comms
  induction comms with
  | nil => exact fun table => .refl _
  | cons comm comms ih =>
    intro table
    calc (comms.foldl _ (comm.ioEvents.foldl _ table)).bindings
      List.Perm _ (bindingsOf newStuff comms ++ (comm.ioEvents.foldl _ table).bindings) := ih _
      List.Perm _ (bindingsOf newStuff comms ++
          ((comm.ioEvents.filter (newStuff.contains ·)).map (·, comm) ++ table.bindings)) :=
        (events comm comm.ioEvents table).append_left _
      List.Perm _ ((comm.ioEvents.filter (newStuff.contains ·)).map (·, comm) ++
          (bindingsOf newStuff comms ++ table.bindings)) := by
        rw [← append_assoc, ← append_assoc]
        exact List.perm_append_comm.append_right _
      List.Perm _ (bindingsOf newStuff (comm :: comms) ++ table.bindings) := by
        rw [bindingsOf, bindingsOf, flatMap_cons, append_assoc]

/-- Releasing the communication that fires leaves the bindings of the others. -/
theorem released_perm {refs : Produce → Prop} (exact : Exact refs) {newStuff : List IOEvent}
    {comm : COMM} (mentions : ∀ other ∈ comm :: comms, other.Over refs)
    (perm : table.bindings.Perm (bindingsOf newStuff (comm :: comms))) :
    (released table comm).bindings.Perm (bindingsOf newStuff comms) := by
  -- Event by event; `events` are those still to be released.
  suffices each : ∀ events ⊆ comm.ioEvents, ∀ table : MultisetMultiMap IOEvent COMM,
      table.bindings.Perm ((events.filter (newStuff.contains ·)).map (·, comm) ++
        bindingsOf newStuff comms) →
      (events.foldl (fun table event => table.removeBindingInPlace event comm)
        table).bindings.Perm (bindingsOf newStuff comms) from
    each _ (List.Subset.refl _) table perm
  intro events
  induction events with
  | nil => exact fun _ table perm => perm
  | cons event events ih =>
    intro subset table perm
    refine ih (fun e member => subset (by simp [member])) _ ?_
    have held : ∀ binding ∈ table.bindings, binding ∈ bindingsOf newStuff (comm :: comms) := by
      intro binding member
      refine mem_append.mpr ((mem_append.mp (perm.mem_iff.mp member)).imp_left fun own => ?_)
      obtain ⟨e, kept, rfl⟩ := mem_map.mp own
      obtain ⟨mentioned, new⟩ := mem_filter.mp kept
      exact mem_map.mpr ⟨e, mem_filter.mpr ⟨subset mentioned, new⟩, rfl⟩
    by_cases new : newStuff.contains event
    · rw [List.filter_cons_of_pos new] at perm
      refine eraseP_perm (by simp) (fun binding member same => ?_) perm
      obtain ⟨e, other⟩ := binding
      obtain ⟨sameEvent, sameComm⟩ := and_eq_true_iff.mp same
      obtain ⟨listed, mentioned, -⟩ := mem_bindingsOf.mp (held _ member)
      obtain rfl := COMM.eq_of_beq exact (mentions other listed) (mentions comm (by simp)) sameComm
      rw [(mentions other (by simp)).event_eq exact mentioned (subset (by simp)) sameEvent]
    · rw [List.filter_cons_of_neg new] at perm
      refine (List.Perm.of_eq
        (List.eraseP_of_forall_not fun binding member same => new ?_)).trans perm
      obtain ⟨-, -, isNew⟩ := mem_bindingsOf.mp (held _ member)
      obtain ⟨sameEvent, -⟩ := and_eq_true_iff.mp same
      rwa [← List.contains_congr sameEvent]

end ReplaySpace

end F1r3fly.RSpace
