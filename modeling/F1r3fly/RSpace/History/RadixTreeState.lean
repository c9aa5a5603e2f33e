import F1r3fly.Data.Assuming
import F1r3fly.RSpace.History.RadixTreeCodec

/-! What holds of the caches and the store of a radix tree, and what loading and saving a node do
to them. -/
namespace F1r3fly.RSpace.History

open Assuming

def Logs (property : List ByteVector → Prop) (s : TreeState) : Prop := property s.hashed

section Inherits

variable {property : List ByteVector → Prop}

theorem inherits_lift (result : Except Failure α) : Inherits (Logs property) (lift result) := by
  cases result with
  | ok a => exact .pure a
  | error failure => exact .throw failure

theorem inherits_loadNodeFromStore (nodePtr : ByteVector) :
    Inherits (Logs property) (loadNodeFromStore nodePtr) := by
  refine .bind .get fun s => ?_
  split
  · exact .map _ (inherits_lift _)
  · exact .pure _

/-- A program that keeps every property of the log keeps the log. -/
theorem hashed_of_inherits (inherits : ∀ property, Inherits (Logs property) program)
    (s : TreeState) : (finalState (program s)).hashed = s.hashed := by
  by_contra changed
  exact inherits (· ≠ s.hashed) s changed rfl

section Reading

variable [DashMapOrder]

theorem inherits_enforceReadCacheBounds : Inherits (Logs property) enforceReadCacheBounds :=
  .modify fun _ holds => holds

theorem inherits_insertCacheR (key : ByteVector) (node : Node) :
    Inherits (Logs property) (insertCacheR key node) :=
  .bind (.modify fun _ holds => holds) fun _ => inherits_enforceReadCacheBounds

theorem inherits_loadNode (nodePtr : ByteVector) (noAssert : Bool) :
    Inherits (Logs property) (loadNode nodePtr noAssert) := by
  refine .bind .get fun s => ?_
  split
  · exact .pure _
  · refine .bind (inherits_loadNodeFromStore nodePtr) fun found => ?_
    split
    · exact .bind (inherits_insertCacheR _ _) fun _ => .pure _
    · exact .bind (inherits_lift _) fun _ => .pure _

theorem inherits_readAtCached (fuel : Nat) (node : Node) (word : ByteVector) :
    Inherits (Logs property) (readAtCached fuel node word) := by
  induction fuel generalizing node word with
  | zero =>
    cases word with
    | nil => exact .pure _
    | cons => exact .throw _
  | succ fuel ih =>
    cases word with
    | nil => exact .pure _
    | cons head tail =>
      simp only [readAtCached]
      split
      · exact .pure _
      · exact .pure _
      · split
        · exact .pure _
        · split
          · exact .pure _
          · exact .bind (inherits_loadNode _ _) fun _ => ih _ _

end Reading

variable [Blake2b]

abbrev NoCollision : TreeState → Prop := Logs CollisionFree

theorem inherits_hashNode (node : Node) : Inherits NoCollision (hashNode node) := by
  refine .bind (inherits_lift _) fun bytes => .bind (.modify ?_) fun _ => .pure _
  intro s holds
  exact CollisionFree.of_subset holds (List.subset_cons_self _ _)

theorem inherits_insertCacheW (hashed : ByteVector × ByteVector) :
    Inherits NoCollision (do
      modify fun s : TreeState => { s with cacheW := s.cacheW.insert hashed.1 hashed.2 }
      pure hashed.1 : RadixM ByteVector) :=
  .bind (.modify fun _ holds => holds) fun _ => .pure _

variable [DashMapOrder]

theorem inherits_cacheSavedNode (key : ByteVector) (node : Node) :
    Inherits NoCollision (cacheSavedNode key node) := by
  refine .bind .get fun s => ?_
  split
  · exact inherits_lift _
  · exact inherits_insertCacheR _ _

theorem inherits_saveNode (node : Node) : Inherits NoCollision (saveNode node) :=
  .bind (inherits_hashNode node) fun hashed =>
    .bind (inherits_cacheSavedNode _ node) fun _ => inherits_insertCacheW hashed

theorem inherits_constructNodeFromItem (item : Item) :
    Inherits NoCollision (constructNodeFromItem item) := by
  unfold constructNodeFromItem
  split
  · exact inherits_loadNode _ _
  · exact inherits_lift _

theorem inherits_saveNodeAndCreateItem (node : Node) (segment : ByteVector) (compaction : Bool) :
    Inherits NoCollision (saveNodeAndCreateItem node segment compaction) := by
  have saved : Inherits NoCollision (do
      let ptr ← saveNode node
      pure (.nodePtr segment ptr) : RadixM Item) :=
    .bind (inherits_saveNode node) fun _ => .pure _
  unfold saveNodeAndCreateItem
  split
  · split
    · exact .pure _
    · exact .pure _
    · exact saved
  · exact saved

theorem inherits_update (fuel : Nat) (item : Item) (insPrefix insValue : ByteVector) :
    Inherits NoCollision (update fuel item insPrefix insValue) := by
  induction fuel generalizing item insPrefix with
  | zero => exact .throw _
  | succ fuel ih =>
    cases item with
    | emptyItem => exact .pure _
    | leaf leafPrefix value =>
      refine .bind (inherits_lift _) fun _ => ?_
      split
      · split <;> exact .pure _
      · exact .bind (inherits_lift _) fun _ => .bind (inherits_lift _) fun _ =>
          .map _ (inherits_saveNodeAndCreateItem _ _ _)
    | nodePtr ptrPrefix ptr =>
      refine .bind (inherits_lift _) fun _ => ?_
      dsimp only
      split
      · refine .bind (inherits_loadNode _ _) fun child => .bind (inherits_lift _) fun rest =>
          .bind (ih _ _) fun result => ?_
        split
        · exact .map _ (inherits_saveNodeAndCreateItem _ _ _)
        · exact .pure _
      · exact .bind (inherits_lift _) fun _ => .bind (inherits_lift _) fun _ =>
          .map _ (inherits_saveNodeAndCreateItem _ _ _)

theorem inherits_delete (fuel : Nat) (item : Item) (delPrefix : ByteVector) :
    Inherits NoCollision (delete fuel item delPrefix) := by
  induction fuel generalizing item delPrefix with
  | zero => exact .throw _
  | succ fuel ih =>
    cases item with
    | emptyItem | leaf leafPrefix value => exact .pure _
    | nodePtr ptrPrefix ptr =>
      simp only [delete]
      split
      · exact .pure _
      · refine .bind (inherits_loadNode _ _) fun child => .bind (inherits_lift _) fun rest =>
          .bind (ih _ _) fun result => ?_
        split
        · exact .map _ (inherits_saveNodeAndCreateItem _ _ _)
        · exact .pure _

theorem inherits_processGroup
    (inner : ∀ node actions, Inherits NoCollision (recurse node actions))
    (actions : List HistoryAction) (item : Item) :
    Inherits NoCollision (processGroup recurse actions item) := by
  unfold processGroup
  split
  · unfold processOneAction
    split
    · exact .bind (inherits_lift _) fun _ => inherits_update _ _ _ _
    · exact .bind (inherits_lift _) fun _ => inherits_delete _ _ _
  · unfold processSeveralActions
    dsimp only
    split
    · exact .pure _
    · refine .bind (inherits_constructNodeFromItem _) fun _ => .bind (inherits_lift _) fun _ =>
        .bind (inner _ _) fun result => ?_
      split
      · exact .map _ (inherits_saveNodeAndCreateItem _ _ _)
      · exact .pure _

theorem inherits_makeActions (fuel : Nat) (node : Node) (actions : List HistoryAction) :
    Inherits NoCollision (makeActions fuel node actions) := by
  induction fuel generalizing node actions with
  | zero => exact .throw _
  | succ fuel ih =>
    exact .bind (inherits_lift _) fun _ =>
      .bind (.mapM (fun _ => .bind (inherits_processGroup ih _ _) fun _ => .pure _) _)
        fun _ => .pure _

end Inherits

theorem lift_ok (a : α) : (lift (.ok a) : RadixM α) = pure a := rfl

section State

variable [Blake2b]

/-- Keys are the hashes of what they stand for, in the store and in both caches. -/
structure Coherent (s : TreeState) : Prop where
  store : ∀ key bytes, s.store.lookup key = some bytes → bytes ∈ s.hashed ∧ Blake2b.hash bytes = key
  cacheW : ∀ key bytes, s.cacheW.lookup key = some bytes →
    bytes ∈ s.hashed ∧ Blake2b.hash bytes = key
  cacheR : ∀ key node, s.cacheR.lookup key = some node →
    ∃ bytes ∈ s.hashed, Blake2b.hash bytes = key ∧ decode bytes = .ok node

def OnDisk (s : TreeState) (bytes : ByteVector) : Prop :=
  s.store.lookup (Blake2b.hash bytes) = some bytes

def Written (s : TreeState) (bytes : ByteVector) : Prop :=
  OnDisk s bytes ∨ s.cacheW.lookup (Blake2b.hash bytes) = some bytes

/-- What the methods below `commit` may do: the store stays, and nothing written
is lost. -/
structure Extends (s t : TreeState) : Prop where
  store : t.store = s.store
  written : ∀ bytes, Written s bytes → Written t bytes
  hashed : s.hashed ⊆ t.hashed

namespace Extends

theorem refl (s : TreeState) : Extends s s := ⟨rfl, fun _ held => held, List.Subset.refl _⟩

theorem trans (first : Extends s t) (second : Extends t u) : Extends s u :=
  ⟨second.store.trans first.store, fun bytes held =>
    second.written bytes (first.written bytes held),
    List.Subset.trans first.hashed second.hashed⟩

theorem onDisk (step : Extends s t) (held : OnDisk s bytes) : OnDisk t bytes := by
  rw [OnDisk, step.store]
  exact held

end Extends

/-- A state reached from `s` by the methods below `commit`. -/
structure Reached (s t : TreeState) : Prop where
  coherent : Coherent t
  extended : Extends s t

theorem Reached.trans (first : Reached s t) (second : Reached t u) : Reached s u :=
  ⟨second.coherent, first.extended.trans second.extended⟩

theorem Coherent.written_hashed (coherent : Coherent s) (written : Written s bytes) :
    bytes ∈ s.hashed := by
  rcases written with held | held
  · exact (coherent.store _ _ held).1
  · exact (coherent.cacheW _ _ held).1

theorem hashNode_spec (encodable : node.Encodable) (s : TreeState) :
    Yields NoCollision (hashNode node) s fun result t =>
      result = (Blake2b.hash (encodeBytes node), encodeBytes node) ∧
      t = { s with hashed := encodeBytes node :: s.hashed } := by
  intro _
  refine ⟨_, _, ?_, rfl, rfl⟩
  simp only [hashNode, encode_ok encodable, lift_ok]
  rfl

theorem Coherent.hash_more (coherent : Coherent s) (bytes : ByteVector) :
    Coherent { s with hashed := bytes :: s.hashed } where
  store key held found :=
    let ⟨member, same⟩ := coherent.store key held found
    ⟨mem_cons_of_mem _ member, same⟩
  cacheW key held found :=
    let ⟨member, same⟩ := coherent.cacheW key held found
    ⟨mem_cons_of_mem _ member, same⟩
  cacheR key node found :=
    let ⟨held, member, same, decoded⟩ := coherent.cacheR key node found
    ⟨held, mem_cons_of_mem _ member, same, decoded⟩

/-- The last step of `save_node`: without a collision it never replaces other bytes. -/
theorem insertCacheW_reached (coherent : Coherent s) (free : NoCollision s)
    (member : bytes ∈ s.hashed) :
    Reached s { s with cacheW := s.cacheW.insert (Blake2b.hash bytes) bytes } ∧
      Written { s with cacheW := s.cacheW.insert (Blake2b.hash bytes) bytes } bytes := by
  refine ⟨⟨⟨coherent.store, ?_, coherent.cacheR⟩, rfl, ?_, List.Subset.refl _⟩,
    .inr (AList.lookup_insert _)⟩
  · intro key held found
    by_cases same : key = Blake2b.hash bytes
    · rw [same, AList.lookup_insert] at found
      cases Option.some.inj found
      exact ⟨member, same.symm⟩
    · rw [AList.lookup_insert_ne same] at found
      exact coherent.cacheW key held found
  · intro held written
    rcases written with disk | cached
    · exact .inl disk
    · right
      by_cases same : Blake2b.hash held = Blake2b.hash bytes
      · cases free held (coherent.cacheW _ _ cached).1 bytes member same
        exact AList.lookup_insert _
      · exact (AList.lookup_insert_ne same).trans cached

end State

variable {cache : AList fun _ : ByteVector => Node}

theorem lookup_foldl_erase {keys : List ByteVector}
    (found : (keys.foldl (fun cache key => cache.erase key) cache).lookup key = some node) :
    cache.lookup key = some node := by
  induction keys generalizing cache with
  | nil => exact found
  | cons erased keys ih =>
    have inner := ih found
    by_cases same : key = erased
    · rw [same, AList.lookup_erase] at inner
      contradiction
    · rwa [AList.lookup_erase_ne same] at inner

theorem lookup_put (values : ByteVector → Option ByteVector)
    (consistent : ∀ kv ∈ pairs, values kv.1 = some kv.2) (store : KeyValueStore)
    (key : ByteVector) :
    (KeyValueStore.put store pairs).lookup key =
      if key ∈ pairs.map Prod.fst then values key else store.lookup key := by
  induction pairs generalizing store with
  | nil => simp [KeyValueStore.put]
  | cons kv pairs ih =>
    have rest := ih (fun other member => consistent other (by simp [member]))
      (AList.insert kv.1 kv.2 store)
    have unfolded : KeyValueStore.put store (kv :: pairs) =
        KeyValueStore.put (AList.insert kv.1 kv.2 store) pairs := rfl
    rw [unfolded, rest]
    by_cases later : key ∈ pairs.map Prod.fst
    · simp [later]
    · by_cases same : key = kv.1
      · rw [if_neg later, same, AList.lookup_insert]
        simp [consistent kv (by simp)]
      · simp only [map_cons, mem_cons, same, later, or_self, if_false]
        exact AList.lookup_insert_ne same

section Order

variable [DashMapOrder]

/-- Trimming the read cache only forgets. -/
theorem lookup_trimReadCache
    (found : (trimReadCache cache).lookup key = some node) : cache.lookup key = some node := by
  unfold trimReadCache at found
  split at found
  · exact found
  · exact lookup_foldl_erase found

theorem loadNode_missing (uncached : s.cacheR.lookup nodePtr = none)
    (missing : s.store.lookup nodePtr = none) : loadNode nodePtr true s = .ok emptyNode s := by
  have looked : loadNodeFromStore nodePtr s = .ok none s := by
    simp only [loadNodeFromStore, bind, EStateM.bind, get_ok, missing]
    rfl
  simp only [loadNode, bind, EStateM.bind, get_ok, uncached, looked, ensure, if_true, lift_ok]
  rfl

theorem mem_kvPairs : kv ∈ kvPairs s ↔ s.cacheW.lookup kv.1 = some kv.2 := by
  simp only [kvPairs, mem_filterMap, Option.map_eq_some_iff]
  constructor
  · rintro ⟨key, _, bytes, found, rfl⟩
    exact found
  · intro found
    have key : kv.1 ∈ s.cacheW := AList.lookup_isSome.mp (by simp [found])
    exact ⟨kv.1, (DashMapOrder.perm _).mem_iff.mpr key, kv.2, found, rfl⟩

end Order

variable [Blake2b] [DashMapOrder]

theorem insertCacheR_spec (coherent : Coherent s) (hashed : bytes ∈ s.hashed)
    (key : Blake2b.hash bytes = nodePtr) (decoded : decode bytes = .ok node) :
    Yields NoCollision (insertCacheR nodePtr node) s fun _ t =>
      Reached s t ∧ t.hashed = s.hashed ∧ t.cacheW = s.cacheW := by
  intro _
  refine ⟨(), _, rfl, ⟨⟨coherent.store, coherent.cacheW, ?_⟩,
    ⟨rfl, fun _ held => held, List.Subset.refl _⟩⟩, rfl, rfl⟩
  intro other cached found
  have held := lookup_trimReadCache found
  by_cases same : other = nodePtr
  · rw [same, AList.lookup_insert] at held
    cases Option.some.inj held
    exact ⟨bytes, hashed, key.trans same.symm, decoded⟩
  · rw [AList.lookup_insert_ne same] at held
    exact coherent.cacheR other cached held

theorem loadNode_spec (coherent : Coherent s) (free : NoCollision s) (disk : OnDisk s bytes)
    (decoded : decode bytes = .ok node) (noAssert : Bool) :
    Yields NoCollision (loadNode (Blake2b.hash bytes) noAssert) s fun loaded t =>
      loaded = node ∧ Reached s t ∧ t.hashed = s.hashed := by
  have hashed := (coherent.store _ _ disk).1
  cases cached : s.cacheR.lookup (Blake2b.hash bytes) with
  | some held =>
    obtain ⟨other, member, same, decodedOther⟩ := coherent.cacheR _ _ cached
    have bytesEq := free other member bytes hashed same
    rw [bytesEq, decoded] at decodedOther
    intro _
    refine ⟨held, s, ?_, (Except.ok.inj decodedOther).symm, ⟨coherent, .refl s⟩, rfl⟩
    simp only [loadNode, bind, EStateM.bind, get_ok, cached]
    rfl
  | none =>
    have program : loadNode (Blake2b.hash bytes) noAssert s =
        (do insertCacheR (Blake2b.hash bytes) node; pure node : RadixM Node) s := by
      simp only [loadNode, loadNodeFromStore, bind, EStateM.bind, get_ok, cached,
        show s.store.lookup (Blake2b.hash bytes) = some bytes from disk,
        decoded, lift_ok]
      rfl
    rw [Yields, program]
    exact Yields.bind (insertCacheR_spec coherent hashed rfl decoded) (fun _ => .pure _)
      fun _ t _ established => .pure ⟨rfl, established.1, established.2.1⟩

theorem cacheSavedNode_spec (encodable : node.Encodable) (coherent : Coherent s)
    (free : NoCollision s) (member : encodeBytes node ∈ s.hashed) :
    Yields NoCollision (cacheSavedNode (Blake2b.hash (encodeBytes node)) node) s fun _ t =>
      Reached s t ∧ t.hashed = s.hashed := by
  have decoded := decode_encodeBytes encodable
  cases cached : s.cacheR.lookup (Blake2b.hash (encodeBytes node)) with
  | some held =>
    obtain ⟨bytes, hashed, same, decodedHeld⟩ := coherent.cacheR _ _ cached
    rw [free bytes hashed _ member same, decoded] at decodedHeld
    have heldEq : held = node := (Except.ok.inj decodedHeld).symm
    intro _
    refine ⟨(), s, ?_, ⟨coherent, .refl s⟩, rfl⟩
    simp only [cacheSavedNode, bind, EStateM.bind, get_ok,
      cached, heldEq, ensure, decide_true, if_true, lift_ok]
    rfl
  | none =>
    have program : cacheSavedNode (Blake2b.hash (encodeBytes node)) node s =
        insertCacheR (Blake2b.hash (encodeBytes node)) node s := by
      simp only [cacheSavedNode, bind, EStateM.bind, get_ok, cached]
    rw [Yields, program]
    exact (insertCacheR_spec coherent member rfl decoded).weaken
      fun _ t established => ⟨established.1, established.2.1⟩

theorem saveNode_spec (encodable : node.Encodable) (coherent : Coherent s) :
    Yields NoCollision (saveNode node) s fun key t =>
      key = Blake2b.hash (encodeBytes node) ∧ Written t (encodeBytes node) ∧ Reached s t := by
  refine .bind (hashNode_spec encodable s)
    (fun hashed => .bind (inherits_cacheSavedNode _ node) fun _ => inherits_insertCacheW hashed) ?_
  rintro _ t free ⟨rfl, rfl⟩
  have logged := coherent.hash_more (encodeBytes node)
  refine .bind (cacheSavedNode_spec encodable logged free (by simp))
    (fun _ => inherits_insertCacheW (Blake2b.hash (encodeBytes node), encodeBytes node)) ?_
  rintro _ u free ⟨reached, hashed⟩
  have member : encodeBytes node ∈ u.hashed := by rw [hashed]; simp
  obtain ⟨last, written⟩ := insertCacheW_reached reached.coherent free member
  have logging : Extends s { s with hashed := encodeBytes node :: s.hashed } :=
    ⟨rfl, fun _ held => held, List.subset_cons_self _ _⟩
  intro _
  exact ⟨_, _, rfl, rfl, written, last.coherent,
    logging.trans (reached.extended.trans last.extended)⟩

theorem commit_spec (coherent : Coherent s) (free : NoCollision s) :
    ∃ store, commit s = .ok () { s with store := store } ∧
      ∀ key, store.lookup key = (s.store.lookup key).or (s.cacheW.lookup key) := by
  -- A key that is already in the store has the same bytes there.
  have agree : ∀ kv ∈ kvPairs s, ∀ bytes, s.store.lookup kv.1 = some bytes → kv.2 = bytes := by
    intro kv member bytes found
    obtain ⟨hashed, key⟩ := coherent.cacheW _ _ (mem_kvPairs.mp member)
    obtain ⟨hashed', key'⟩ := coherent.store _ _ found
    exact free _ hashed _ hashed' (key.trans key'.symm)
  have clean : ((kvPairs s).filter fun kv => (s.store.lookup kv.1).isSome).filter
      (fun kv => kv.2 ≠ (s.store.lookup kv.1).getD []) = [] := by
    rw [List.filter_eq_nil_iff]
    intro kv member
    obtain ⟨inside, present⟩ := mem_filter.mp member
    obtain ⟨bytes, found⟩ := isSome_iff_exists.mp present
    simp [found, agree kv inside bytes found]
  refine ⟨KeyValueStore.put s.store ((kvPairs s).filter fun kv => (s.store.lookup kv.1).isNone),
    ?_, ?_⟩
  · simp only [commit, bind, EStateM.bind, get_ok, clean]
    rfl
  · intro key
    have consistent : ∀ kv ∈ (kvPairs s).filter fun kv => (s.store.lookup kv.1).isNone,
        s.cacheW.lookup kv.1 = some kv.2 :=
      fun kv member => mem_kvPairs.mp (List.mem_of_mem_filter member)
    rw [lookup_put (fun key => s.cacheW.lookup key) consistent]
    cases found : s.store.lookup key with
    | some bytes =>
      have old : key ∉
        ((kvPairs s).filter fun kv => (s.store.lookup kv.1).isNone).map Prod.fst := by
        intro member
        obtain ⟨kv, inside, rfl⟩ := mem_map.mp member
        simp [found] at inside
      rw [if_neg old]
      rfl
    | none =>
      cases cached : s.cacheW.lookup key with
      | none => simp
      | some bytes =>
        have new : key ∈ ((kvPairs s).filter fun kv => (s.store.lookup kv.1).isNone).map Prod.fst :=
          mem_map.mpr ⟨(key, bytes), mem_filter.mpr ⟨mem_kvPairs.mpr cached, by simp [found]⟩, rfl⟩
        rw [if_pos new]
        rfl

end F1r3fly.RSpace.History
