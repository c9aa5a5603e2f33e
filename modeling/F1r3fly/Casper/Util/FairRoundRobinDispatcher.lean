import F1r3fly.Casper.Errors

/-! A dispatcher that lets the sources of messages take turns. Every source has a queue of
its own, and a source that has nothing to handle for too many turns is dropped. -/
namespace F1r3fly.Casper.FairRoundRobinDispatcher

open Option HashedMap Results

inductive Dispatch where
  | handle
  | pass
  | drop
deriving DecidableEq

/-- The constructor asserts that a queue has room for a message. -/
structure DispatcherConfig where
  maxSourceQueueSize : UInt64
  giveUpAfterSkipped : UInt64
  dropSourceAfterRetries : UInt64
  positive : 0 < maxSourceQueueSize

structure DispatcherState (S M : Type) [BEq S] where
  queue : List S
  messages : HashedMap S (List M)
  retries : HashedMap S UInt64
  skipped : UInt64

/-- The state with a record of the messages that were enqueued and of the calls of the
handler for messages of the queue, from the first one on. -/
structure Dispatcher (S M : Type) [BEq S] extends DispatcherState S M where
  enqueued : List (S × M)
  handled : List (S × M)

variable {S M : Type} [DecidableEq S]

namespace Dispatcher

def new : Dispatcher S M := ⟨⟨[], .empty, .empty, 0⟩, [], []⟩

def ensureSourceExists (dispatcher : Dispatcher S M) (source : S) : Dispatcher S M :=
  if (dispatcher.messages.get? source).isSome then dispatcher
  else { dispatcher with
    queue := source :: dispatcher.queue
    messages := dispatcher.messages.insert source []
    retries := dispatcher.retries.insert source 0 }

def isDuplicate [BEq M] (dispatcher : Dispatcher S M) (source : S) (message : M) : Bool :=
  ((dispatcher.messages.get? source).map fun queue => queue.any fun m => m == message).getD false

section

variable (dispatcher : Dispatcher S M)

/-- The source with the message at the front is next. -/
def rotate : Dispatcher S M :=
  match dispatcher.queue with
  | [] => dispatcher
  | source :: rest => { dispatcher with queue := rest ++ [source] }

def dropSource (source : S) : Dispatcher S M :=
  { dispatcher with
    queue := dispatcher.queue.filter fun s => s != source
    messages := dispatcher.messages.erase source
    retries := dispatcher.retries.erase source }

def handleMessage (source : S) : Bool × Dispatcher S M :=
  match (dispatcher.messages.get? source).bind List.head? with
  | some message => (true, { dispatcher with handled := dispatcher.handled ++ [(source, message)] })
  | none => (false, dispatcher)

def waiting (source : S) : List M :=
  (dispatcher.messages.get? source).getD []

end

section Config

variable (config : DispatcherConfig)

def giveUp (dispatcher : Dispatcher S M) (source : S) : Dispatcher S M :=
  let retryCount := (dispatcher.retries.get? source).getD 0 + 1
  let counted := { dispatcher with
    skipped := 0, retries := dispatcher.retries.insert source retryCount }
  if retryCount > config.dropSourceAfterRetries then counted.dropSource source
  else counted.rotate

def failure (dispatcher : Dispatcher S M) (source : S) : Bool × Dispatcher S M :=
  let counted := { dispatcher with skipped := dispatcher.skipped + 1 }
  if counted.skipped ≥ config.giveUpAfterSkipped then (true, counted.giveUp config source)
  else (false, counted)

variable [ToString S]

def sourceNotFound (source : S) : CasperError :=
  .runtimeError ("Source " ++ toString source ++ " not found")

def noMessage (source : S) : CasperError :=
  .runtimeError ("No message in queue for " ++ toString source)

def enqueueMessage (dispatcher : Dispatcher S M) (source : S) (message : M) :
    Except CasperError (Dispatcher S M) :=
  match dispatcher.messages.get? source with
  | none => .error (sourceNotFound source)
  | some queue =>
    if queue.length < config.maxSourceQueueSize.toNat then
      .ok { dispatcher with
        messages := dispatcher.messages.insert source (queue ++ [message])
        retries := dispatcher.retries.insert source 0
        enqueued := dispatcher.enqueued ++ [(source, message)] }
    else .ok dispatcher

def success (dispatcher : Dispatcher S M) (source : S) : Except CasperError (Dispatcher S M) :=
  match dispatcher.messages.get? source with
  | none => .error (sourceNotFound source)
  | some [] => .error (noMessage source)
  | some (_ :: rest) =>
    .ok { dispatcher with
      skipped := 0, messages := dispatcher.messages.insert source rest }.rotate

def pending (dispatcher : Dispatcher S M) : Nat :=
  (dispatcher.queue.map fun source => (dispatcher.waiting source).length).sum

/-- A loop that is not over after as many rounds as are left does not return. -/
def handleMessagesWithoutGiveup : Nat → Dispatcher S M → Fallible CasperError (Dispatcher S M)
  | 0, _ => ExceptT.lift none
  | rounds + 1, dispatcher =>
    match dispatcher.queue with
    | [] => pure dispatcher
    | source :: _ =>
      let (hadMessage, handled) := dispatcher.handleMessage source
      if hadMessage then do
        let next ← liftM (handled.success source)
        handleMessagesWithoutGiveup rounds next
      else pure handled

/-- Whether the loop goes on. -/
def handleNextMessageWithGiveup (dispatcher : Dispatcher S M) :
    Fallible CasperError (Bool × Dispatcher S M) :=
  match dispatcher.queue with
  | [] => pure (false, dispatcher)
  | source :: _ =>
    let (hadMessage, handled) := dispatcher.handleMessage source
    if hadMessage then do
      let next ← liftM (handled.success source)
      let final ← handleMessagesWithoutGiveup (next.pending + 1) next
      pure (false, final)
    else pure (handled.failure config source)

def handleMessages : Nat → Dispatcher S M → Fallible CasperError (Dispatcher S M)
  | 0, _ => ExceptT.lift none
  | rounds + 1, dispatcher => do
    let (shouldContinue, next) ← handleNextMessageWithGiveup config dispatcher
    if shouldContinue then handleMessages rounds next else pure next

/-- The loop has as many rounds as there are sources. -/
def dispatch [BEq M] (dispatcher : Dispatcher S M) (action : Dispatch) (source : S) (message : M) :
    Fallible CasperError (Dispatcher S M) :=
  match action with
  | .handle =>
    let known := dispatcher.ensureSourceExists source
    if known.isDuplicate source message then pure known
    else do
      let enqueued ← liftM (known.enqueueMessage config source message)
      handleMessages config (enqueued.queue.length + 1) enqueued
  | .pass => pure dispatcher
  | .drop => pure dispatcher

/-- Whether the call has a new message for which there is room. -/
def accepts [BEq M] (dispatcher : Dispatcher S M) (action : Dispatch) (source : S) (message : M) :
    Bool :=
  action = .handle && !dispatcher.isDuplicate source message &&
    (dispatcher.waiting source).length < config.maxSourceQueueSize.toNat

/-- Calls that follow one another, each with the answer of the filter. -/
def run [BEq M] (dispatcher : Dispatcher S M) (calls : List (Dispatch × S × M)) :
    Fallible CasperError (Dispatcher S M) :=
  calls.foldlM (fun dispatcher call => dispatcher.dispatch config call.1 call.2.1 call.2.2)
    dispatcher

end Config

def ofSource (record : List (S × M)) (source : S) : List M :=
  (record.filter fun entry => entry.1 = source).map (·.2)

/-- Every source is listed once, with a queue and a count. Of each source those messages that
were handled and those that wait are the ones that were enqueued, in this order. -/
structure Sound (config : DispatcherConfig) (dispatcher : Dispatcher S M) : Prop where
  listed_once : dispatcher.queue.Nodup
  has_queue : ∀ source, source ∈ dispatcher.messages.keys ↔ source ∈ dispatcher.queue
  has_count : ∀ source, source ∈ dispatcher.retries.keys ↔ source ∈ dispatcher.queue
  bounded : ∀ source, (dispatcher.waiting source).length ≤ config.maxSourceQueueSize.toNat
  delivered : ∀ source, ofSource dispatcher.enqueued source =
    ofSource dispatcher.handled source ++ dispatcher.waiting source

variable {config : DispatcherConfig} {dispatcher : Dispatcher S M} {source : S}

theorem isDuplicate_eq [BEq M] (dispatcher : Dispatcher S M) (source : S) (message : M) :
    dispatcher.isDuplicate source message =
      (dispatcher.waiting source).any fun m => m == message := by
  rw [isDuplicate, waiting]
  cases dispatcher.messages.get? source <;> rfl

theorem ofSource_append_singleton (record : List (S × M)) (entry : S × M) (source : S) :
    ofSource (record ++ [entry]) source =
      ofSource record source ++ if entry.1 = source then [entry.2] else [] := by
  rw [ofSource, List.filter_append, map_append, ofSource]
  split_ifs with same
  · simp [same]
  · simp [same]

theorem Sound.get_of_listed (sound : dispatcher.Sound config) (listed : source ∈ dispatcher.queue) :
    dispatcher.messages.get? source = some (dispatcher.waiting source) := by
  have present := mem_keys_iff.mp ((sound.has_queue source).mpr listed)
  obtain ⟨queue, found⟩ := isSome_iff_exists.mp present
  rw [waiting, found, getD_some]

theorem waiting_insert (dispatcher : Dispatcher S M) (source other : S) (queue : List M) :
    ((dispatcher.messages.insert source queue).get? other).getD [] =
      if other = source then queue else dispatcher.waiting other := by
  rw [get?_insert]
  simp only [beq_iff_eq]
  split <;> rfl

def served (dispatcher : Dispatcher S M) (source : S) (rest : List S) (message : M)
    (messages : List M) : Dispatcher S M where
  queue := rest ++ [source]
  messages := dispatcher.messages.insert source messages
  retries := dispatcher.retries
  skipped := 0
  enqueued := dispatcher.enqueued
  handled := dispatcher.handled ++ [(source, message)]

theorem waiting_served (dispatcher : Dispatcher S M) (source : S) (rest : List S) (message : M)
    (messages : List M) (other : S) :
    (dispatcher.served source rest message messages).waiting other =
      if other = source then messages else dispatcher.waiting other :=
  waiting_insert dispatcher source other messages

theorem sound_rotate (sound : dispatcher.Sound config) : dispatcher.rotate.Sound config := by
  rw [rotate]
  cases front : dispatcher.queue with
  | nil => exact sound
  | cons source rest =>
    have perm : (rest ++ [source]).Perm dispatcher.queue := by
      rw [front]
      exact List.perm_append_singleton source rest
    refine ⟨perm.nodup_iff.mpr sound.listed_once, ?_, ?_, sound.bounded, sound.delivered⟩
    · exact fun other => (sound.has_queue other).trans perm.mem_iff.symm
    · exact fun other => (sound.has_count other).trans perm.mem_iff.symm

section Served

variable {rest : List S} {message : M} {messages : List M}
  (front : dispatcher.queue = source :: rest)
  (first : dispatcher.waiting source = message :: messages)

include front first

section

variable (sound : dispatcher.Sound config)

include sound

theorem handle_front :
    dispatcher.handleMessage source =
      (true, { dispatcher with handled := dispatcher.handled ++ [(source, message)] }) := by
  have listed : source ∈ dispatcher.queue := front ▸ .head _
  rw [handleMessage, sound.get_of_listed listed, first]
  rfl

theorem success_front [ToString S] :
    success { dispatcher with handled := dispatcher.handled ++ [(source, message)] } source =
      .ok (dispatcher.served source rest message messages) := by
  have listed : source ∈ dispatcher.queue := front ▸ .head _
  rw [success]
  rw [sound.get_of_listed listed, first]
  dsimp only
  rw [rotate]
  rw [front]
  rfl

theorem sound_served : (dispatcher.served source rest message messages).Sound config := by
  have popped : Sound config { dispatcher with
      skipped := 0
      messages := dispatcher.messages.insert source messages
      handled := dispatcher.handled ++ [(source, message)] } := by
    refine ⟨sound.listed_once, ?_, sound.has_count, ?_, ?_⟩
    · intro other
      rw [mem_keys_insert, sound.has_queue]
      exact or_iff_right_of_imp (· ▸ front ▸ .head _)
    · intro other
      have bound := sound.bounded other
      rw [waiting, waiting_insert]
      split_ifs with same
      · rw [same, first, length_cons] at bound
        exact Nat.le_of_succ_le bound
      · exact bound
    · intro other
      rw [waiting, waiting_insert, ofSource_append_singleton, sound.delivered other]
      split
      case isTrue same =>
        subst same
        rw [first, if_pos rfl, append_assoc, List.singleton_append]
      case isFalse differs => rw [if_neg fun same => differs same.symm, append_nil]
  have rotated := sound_rotate popped
  rw [rotate] at rotated
  rwa [front] at rotated

theorem pending_served :
    (dispatcher.served source rest message messages).pending + 1 = dispatcher.pending := by
  have distinct := sound.listed_once
  rw [front, nodup_cons] at distinct
  have others : rest.map (fun other =>
      ((dispatcher.served source rest message messages).waiting other).length) =
        rest.map fun other => (dispatcher.waiting other).length := by
    apply map_congr_left
    intro other present
    have differs : other ≠ source := fun same => distinct.1 (same ▸ present)
    rw [waiting_served, if_neg differs]
  have queue_served : (dispatcher.served source rest message messages).queue = rest ++ [source] :=
    rfl
  rw [pending, pending, queue_served, front, map_append, sum_append, others,
    List.map_singleton, List.sum_singleton, waiting_served, if_pos rfl, map_cons,
    sum_cons, first, length_cons]
  omega

end

end Served

theorem handle_front_of_empty (nothing : dispatcher.waiting source = []) :
    dispatcher.handleMessage source = (false, dispatcher) := by
  rw [waiting] at nothing
  rw [handleMessage]
  cases found : dispatcher.messages.get? source with
  | none => rfl
  | some queue =>
    rw [found, getD_some] at nothing
    rw [nothing]
    rfl

/-- As long as the source at the front has a message, one message less waits after each
round. -/
theorem handleMessagesWithoutGiveup_sound [ToString S]
    (sound : dispatcher.Sound config) (enough : dispatcher.pending < rounds) :
    ∃ final, Returns (handleMessagesWithoutGiveup rounds dispatcher) final ∧
      final.Sound config ∧ final.enqueued = dispatcher.enqueued := by
  induction rounds generalizing dispatcher with
  | zero => exact absurd enough (Nat.not_lt_zero _)
  | succ rounds ih =>
    rw [handleMessagesWithoutGiveup]
    cases front : dispatcher.queue with
    | nil => exact ⟨dispatcher, returns_pure.mpr rfl, sound, rfl⟩
    | cons source rest =>
      dsimp only
      cases first : dispatcher.waiting source with
      | nil =>
        rw [handle_front_of_empty first]
        exact ⟨dispatcher, returns_pure.mpr rfl, sound, rfl⟩
      | cons message messages =>
        have fewer := pending_served front first sound
        obtain ⟨final, returned, final_sound, same⟩ :=
          ih (sound_served front first sound) (by omega)
        rw [handle_front front first sound]
        refine ⟨final, ?_, final_sound, same⟩
        apply returns_bind.mpr
        exact ⟨_, returns_liftExcept.mpr (success_front front first sound), returned⟩

/-- What a source at the front without messages leaves behind when it is given up. -/
structure GivenUp (config : DispatcherConfig) (dispatcher : Dispatcher S M) (source : S)
    (rest : List S) (next : Dispatcher S M) : Prop where
  sound : next.Sound config
  queue : next.queue = rest ∨ next.queue = rest ++ [source]
  others : ∀ other, next.waiting other = dispatcher.waiting other
  enqueued : next.enqueued = dispatcher.enqueued

section

variable (sound : dispatcher.Sound config)

include sound

omit sound in
theorem waiting_dropSource (nothing : dispatcher.waiting source = []) (other : S) :
    (dispatcher.dropSource source).waiting other = dispatcher.waiting other := by
  rw [waiting, dropSource, get?_erase]
  split_ifs with same
  · rw [eq_of_beq same, nothing]
    rfl
  · rfl

theorem sound_dropSource
    (nothing : dispatcher.waiting source = []) : (dispatcher.dropSource source).Sound config := by
  have still_listed (other : S) : other ∈ (dispatcher.dropSource source).queue ↔
      other ∈ dispatcher.queue ∧ other ≠ source := by
    rw [dropSource, mem_filter, bne_iff_ne]
  have erased {V : Type} (map : HashedMap S V) (other : S) :
      other ∈ (map.erase source).keys ↔ other ∈ map.keys ∧ other ≠ source := by
    rw [mem_keys_iff, get?_erase, mem_keys_iff]
    by_cases same : other = source
    · simp [same]
    · simp [same]
  refine ⟨sound.listed_once.filter _, ?_, ?_, ?_, ?_⟩
  · intro other
    rw [still_listed, ← sound.has_queue other]
    exact erased dispatcher.messages other
  · intro other
    rw [still_listed, ← sound.has_count other]
    exact erased dispatcher.retries other
  · intro other
    rw [waiting_dropSource nothing]
    exact sound.bounded other
  · intro other
    rw [waiting_dropSource nothing]
    exact sound.delivered other

/-- Counters do not matter, as long as listed sources have one. -/
theorem Sound.count (listed : source ∈ dispatcher.queue) (skipped retryCount : UInt64) :
    Sound config { dispatcher with
      skipped, retries := dispatcher.retries.insert source retryCount } := by
  refine ⟨sound.listed_once, sound.has_queue, ?_, sound.bounded, sound.delivered⟩
  intro other
  rw [mem_keys_insert, sound.has_count]
  exact or_iff_right_of_imp (· ▸ listed)

theorem Sound.skip (skipped : UInt64) : Sound config { dispatcher with skipped } :=
  ⟨sound.listed_once, sound.has_queue, sound.has_count, sound.bounded, sound.delivered⟩

end

theorem givenUp_front (sound : dispatcher.Sound config)
    (front : dispatcher.queue = source :: rest) (nothing : dispatcher.waiting source = []) :
    GivenUp config dispatcher source rest (dispatcher.giveUp config source) := by
  have listed : source ∈ dispatcher.queue := front ▸ .head _
  have counted := sound.count listed 0 ((dispatcher.retries.get? source).getD 0 + 1)
  rw [giveUp]
  split_ifs
  · refine ⟨sound_dropSource counted nothing, .inl ?_, ?_, rfl⟩
    · have distinct := sound.listed_once
      rw [front, nodup_cons] at distinct
      rw [dropSource]
      rw [front, List.filter_cons_of_neg (by simp), List.filter_eq_self]
      intro other present
      rw [bne_iff_ne]
      exact fun same => distinct.1 (same ▸ present)
    · exact waiting_dropSource nothing
  · refine ⟨sound_rotate counted, .inr ?_, ?_, ?_⟩
    · simp [rotate, front]
    · intro other
      simp [rotate, front, waiting]
    · simp [rotate, front]

/-- With each source that is given up, the source that has a message comes closer to the
front. -/
theorem handleMessages_sound [ToString S]
    (sound : dispatcher.Sound config) (queue_eq : dispatcher.queue = before ++ source :: rest)
    (idle : ∀ other ∈ before, dispatcher.waiting other = [])
    (busy : dispatcher.waiting source ≠ []) (enough : before.length < rounds) :
    ∃ final, Returns (handleMessages config rounds dispatcher) final ∧ final.Sound config ∧
      final.enqueued = dispatcher.enqueued := by
  induction rounds generalizing dispatcher before rest with
  | zero => exact absurd enough (Nat.not_lt_zero _)
  | succ rounds ih =>
    rw [handleMessages, handleNextMessageWithGiveup]
    cases before with
    | nil =>
      rw [nil_append] at queue_eq
      obtain ⟨message, messages, first⟩ := exists_cons_of_ne_nil busy
      obtain ⟨final, returned, final_sound, same⟩ := handleMessagesWithoutGiveup_sound
        (sound_served queue_eq first sound) (Nat.lt_succ_self _)
      refine ⟨final, ?_, final_sound, same⟩
      rw [queue_eq]
      dsimp only
      rw [handle_front queue_eq first sound]
      apply returns_bind.mpr
      refine ⟨(false, final), ?_, returns_pure.mpr rfl⟩
      apply returns_bind.mpr
      refine ⟨_, returns_liftExcept.mpr (success_front queue_eq first sound), ?_⟩
      apply returns_bind.mpr
      exact ⟨final, returned, returns_pure.mpr rfl⟩
    | cons leader others =>
      rw [cons_append] at queue_eq
      have nothing := idle leader (.head _)
      rw [queue_eq]
      dsimp only
      rw [handle_front_of_empty nothing]
      rw [failure]
      have skipped_sound := sound.skip (dispatcher.skipped + 1)
      by_cases gives_up : dispatcher.skipped + 1 ≥ config.giveUpAfterSkipped
      · rw [if_pos gives_up]
        have given := givenUp_front skipped_sound queue_eq nothing
        generalize giveUp config { dispatcher with skipped := dispatcher.skipped + 1 } leader =
          next at given ⊢
        obtain ⟨later, next_queue⟩ : ∃ later, next.queue = others ++ source :: later := by
          rcases given.queue with dropped | rotated
          · exact ⟨rest, dropped⟩
          · refine ⟨rest ++ [leader], ?_⟩
            rw [rotated, append_assoc, cons_append]
        have still_idle : ∀ other ∈ others, next.waiting other = [] :=
          fun other present => (given.others other).trans (idle other (.tail leader present))
        have still_busy : next.waiting source ≠ [] := by
          rw [given.others source]
          exact busy
        obtain ⟨final, returned, final_sound, same⟩ := ih given.sound next_queue still_idle
          still_busy (Nat.lt_of_succ_lt_succ enough)
        refine ⟨final, ?_, final_sound, same.trans given.enqueued⟩
        apply returns_bind.mpr
        exact ⟨(true, _), returns_pure.mpr rfl, returned⟩
      · rw [if_neg gives_up]
        exact ⟨_, returns_bind.mpr ⟨(false, _), returns_pure.mpr rfl, returns_pure.mpr rfl⟩,
          skipped_sound, rfl⟩

theorem sound_new : (new : Dispatcher S M).Sound config := by
  refine ⟨List.nodup_nil, ?_, ?_, ?_, ?_⟩
  · exact fun source => Iff.rfl
  · exact fun source => Iff.rfl
  · exact fun source => Nat.zero_le _
  · exact fun source => rfl

theorem sound_ensureSourceExists (sound : dispatcher.Sound config) (source : S) :
    (dispatcher.ensureSourceExists source).Sound config ∧
      source ∈ (dispatcher.ensureSourceExists source).queue ∧
      (dispatcher.ensureSourceExists source).enqueued = dispatcher.enqueued ∧
      ∀ other, (dispatcher.ensureSourceExists source).waiting other =
        dispatcher.waiting other := by
  rw [ensureSourceExists]
  split_ifs with known
  · exact ⟨sound, (sound.has_queue source).mp (mem_keys_iff.mpr known), rfl, fun _ => rfl⟩
  · have not_listed : source ∉ dispatcher.queue := fun listed =>
      known (mem_keys_iff.mp ((sound.has_queue source).mpr listed))
    have nothing : dispatcher.waiting source = [] := by
      rw [waiting, not_isSome_iff_eq_none.mp known, getD_none]
    have waiting_kept (other : S) : ((dispatcher.messages.insert source []).get? other).getD [] =
        dispatcher.waiting other := by
      rw [waiting_insert]
      split
      case isTrue same => rw [same, nothing]
      case isFalse => rfl
    refine ⟨⟨nodup_cons.mpr ⟨not_listed, sound.listed_once⟩, ?_, ?_, ?_, ?_⟩, (.head _), rfl,
      waiting_kept⟩
    · intro other
      rw [mem_keys_insert, mem_cons, sound.has_queue other]
    · intro other
      rw [mem_keys_insert, mem_cons, sound.has_count other]
    · intro other
      rw [waiting, waiting_kept]
      exact sound.bounded other
    · intro other
      rw [waiting, waiting_kept]
      exact sound.delivered other

variable [ToString S]

/-- A message that finds its queue full is not enqueued. The queue is not empty either way. -/
theorem enqueueMessage_sound (sound : dispatcher.Sound config) (listed : source ∈ dispatcher.queue)
    (message : M) :
    ∃ next, dispatcher.enqueueMessage config source message = .ok next ∧ next.Sound config ∧
      next.queue = dispatcher.queue ∧ next.waiting source ≠ [] ∧
      next.enqueued = dispatcher.enqueued ++
        if (dispatcher.waiting source).length < config.maxSourceQueueSize.toNat then
          [(source, message)] else [] := by
  rw [enqueueMessage, sound.get_of_listed listed]
  generalize waits : dispatcher.waiting source = queue
  dsimp only
  split_ifs with fits
  · have counted := sound.count listed dispatcher.skipped 0
    refine ⟨_, rfl, ⟨sound.listed_once, ?_, counted.has_count, ?_, ?_⟩, rfl, ?_, rfl⟩
    · intro other
      rw [mem_keys_insert, sound.has_queue]
      exact or_iff_right_of_imp (· ▸ listed)
    · intro other
      rw [waiting, waiting_insert]
      split
      case isTrue =>
        rw [length_append, List.length_singleton]
        exact fits
      case isFalse => exact sound.bounded other
    · intro other
      rw [waiting, waiting_insert, ofSource_append_singleton, sound.delivered other]
      split
      case isTrue same =>
        subst same
        rw [if_pos rfl, waits, append_assoc]
      case isFalse differs => rw [if_neg fun same => differs same.symm, append_nil]
    · rw [waiting, waiting_insert, if_pos rfl]
      exact List.append_ne_nil_of_right_ne_nil _ (cons_ne_nil _ _)
  · refine ⟨dispatcher, rfl, sound, rfl, ?_, (append_nil _).symm⟩
    intro nothing
    rw [← waits, nothing, length_nil] at fits
    exact fits (UInt64.lt_iff_toNat_lt.mp config.positive)

theorem dispatch_sound [BEq M] (sound : dispatcher.Sound config) (action : Dispatch) (source : S)
    (message : M) :
    ∃ next, Returns (dispatcher.dispatch config action source message) next ∧
      next.Sound config ∧ next.enqueued = dispatcher.enqueued ++
        if dispatcher.accepts config action source message then [(source, message)] else [] := by
  cases action with
  | pass | drop => exact ⟨dispatcher, returns_pure.mpr rfl, sound, (append_nil _).symm⟩
  | handle =>
    obtain ⟨known_sound, listed, same_record, same_waiting⟩ :=
      sound_ensureSourceExists sound source
    have same_messages : (dispatcher.ensureSourceExists source).isDuplicate source message =
        dispatcher.isDuplicate source message := by
      rw [isDuplicate_eq, isDuplicate_eq, same_waiting]
    rw [dispatch, accepts, ← same_messages]
    by_cases duplicate : (dispatcher.ensureSourceExists source).isDuplicate source message
    · rw [if_pos duplicate]
      refine ⟨_, returns_pure.mpr rfl, known_sound, ?_⟩
      simp [same_record, duplicate]
    · rw [if_neg duplicate]
      obtain ⟨enqueued, enqueues, enqueued_sound, same_queue, busy, appended⟩ :=
        enqueueMessage_sound known_sound listed message
      -- the sources before the first one that has a message
      obtain ⟨first, found⟩ : ∃ first, enqueued.queue.find?
          (fun other => decide (enqueued.waiting other ≠ [])) = some first := by
        rw [← isSome_iff_exists, List.find?_isSome]
        exact ⟨source, same_queue ▸ listed, decide_eq_true busy⟩
      obtain ⟨first_busy, before, rest, queue_eq, idle⟩ := List.find?_eq_some_iff_append.mp found
      have few : before.length < enqueued.queue.length + 1 := by
        rw [queue_eq, length_append]
        omega
      obtain ⟨final, returned, final_sound, unchanged⟩ := handleMessages_sound enqueued_sound
        queue_eq (fun other present => by simpa using idle other present)
        (of_decide_eq_true first_busy) few
      refine ⟨final, ?_, final_sound, ?_⟩
      · apply returns_bind.mpr
        exact ⟨enqueued, returns_liftExcept.mpr enqueues, returned⟩
      · rw [unchanged, appended, same_record, same_waiting]
        simp [duplicate]

/-- Every call returns, and leaves the dispatcher sound. The next call enqueues its message if it
is accepted, and nothing else. -/
theorem run_sound [BEq M] (config : DispatcherConfig) (calls : List (Dispatch × S × M)) :
    ∃ dispatcher, Returns ((new : Dispatcher S M).run config calls) dispatcher ∧
      dispatcher.Sound config ∧ ∀ action source message, ∃ next,
        Returns (dispatcher.dispatch config action source message) next ∧
          next.enqueued = dispatcher.enqueued ++
            if dispatcher.accepts config action source message then [(source, message)]
              else [] := by
  have from_sound (calls : List (Dispatch × S × M)) (start : Dispatcher S M)
      (sound : start.Sound config) :
      ∃ dispatcher, Returns (start.run config calls) dispatcher ∧ dispatcher.Sound config := by
    induction calls generalizing start with
    | nil => exact ⟨start, returns_pure.mpr rfl, sound⟩
    | cons call rest ih =>
      obtain ⟨next, returned, next_sound, -⟩ := dispatch_sound sound call.1 call.2.1 call.2.2
      obtain ⟨final, rest_returned, final_sound⟩ := ih next next_sound
      refine ⟨final, ?_, final_sound⟩
      apply returns_bind.mpr
      exact ⟨next, returned, rest_returned⟩
  obtain ⟨dispatcher, returned, sound⟩ := from_sound calls new sound_new
  refine ⟨dispatcher, returned, sound, fun action source message => ?_⟩
  obtain ⟨next, next_returned, -, appended⟩ := dispatch_sound sound action source message
  exact ⟨next, next_returned, appended⟩

end Dispatcher

end F1r3fly.Casper.FairRoundRobinDispatcher
