import Mathlib.Data.List.Dedup
import F1r3fly.RSpace.History.RadixTreeBatch

/-! The radix history: a root, the tree object that reads and writes below it, and a store shared
by all histories. -/
namespace F1r3fly.RSpace.History

open Assuming PrefixTree

/-- The caches of a tree object; the store it is built on is in the `World`. -/
structure RadixTreeImpl where
  cacheR : AList fun _ : ByteVector => Node
  cacheW : AList fun _ : ByteVector => ByteVector

def RadixTreeImpl.new : RadixTreeImpl := ⟨∅, ∅⟩

/-- The shared store, and the strings hashed so far by anyone who uses it. -/
structure World where
  store : KeyValueStore
  hashed : List ByteVector

abbrev HistoryM := EStateM Failure World

structure RadixHistory where
  rootHash : Blake2b256Hash
  rootNode : Node
  imple : RadixTreeImpl

def RadixTreeImpl.on (imple : RadixTreeImpl) (world : World) : TreeState :=
  ⟨world.store, imple.cacheR, imple.cacheW, world.hashed⟩

def TreeState.imple (s : TreeState) : RadixTreeImpl := ⟨s.cacheR, s.cacheW⟩

def TreeState.world (s : TreeState) : World := ⟨s.store, s.hashed⟩

/-- A method call on a tree object. -/
def RadixTreeImpl.call (imple : RadixTreeImpl) (method : RadixM α) : HistoryM (α × RadixTreeImpl) :=
  fun world =>
    match method (imple.on world) with
    | .ok a s => .ok (a, s.imple) s.world
    | .error failure s => .error failure s.world

namespace RadixHistory

variable [Blake2b] [DashMapOrder]

def create (root : Blake2b256Hash) : HistoryM RadixHistory := do
  let (node, imple) ← RadixTreeImpl.new.call (loadNode root true)
  pure ⟨root, node, imple⟩

def emptyRootNodeHash : HistoryM Blake2b256Hash := do
  let ((nodeHash, _), _) ← RadixTreeImpl.new.call (hashNode emptyNode)
  pure nodeHash

def hasNoDuplicates (actions : List HistoryAction) : Bool :=
  (actions.map HistoryAction.key).dedup.length = actions.length

def read (self : RadixHistory) (key : ByteVector) :
    HistoryM (Option ByteVector × RadixHistory) := do
  let (value, imple) ← self.imple.call (readAt self.rootNode key)
  pure (value, { self with imple := imple })

/-- Fuel for `makeActions`, which takes a byte off the keys in every round: the
longest key of the batch, or of any batch a tree can hold. -/
def depth (actions : List HistoryAction) : Nat :=
  (actions.map fun action => action.key.length).foldr max 127

/-- The last part of `process`: save the root, commit, and clear the caches. -/
def saveRoot (newRootNode : Node) : RadixM ByteVector := do
  let nodeHashBytes ← saveNode newRootNode
  commit
  clearWriteCache
  clearReadCache
  pure nodeHashBytes

/-- Returns the new history and what has become of the old one. -/
def process (self : RadixHistory) (actions : List HistoryAction) :
    HistoryM (RadixHistory × RadixHistory) := do
  if !hasNoDuplicates actions then
    throw (.error (.actionError "Cannot process duplicate actions on one key."))
  let (newRootNodeOpt, imple) ← self.imple.call
    (makeActions (depth actions + 1) self.rootNode actions)
  match newRootNodeOpt with
  | some newRootNode =>
    let (rootHash, imple) ← imple.call (saveRoot newRootNode)
    pure (⟨rootHash, newRootNode, .new⟩, { self with imple := imple })
  | none => pure ({ self with imple := .new }, { self with imple := imple })

def reset (_self : RadixHistory) (root : Blake2b256Hash) : HistoryM RadixHistory := create root

def emptyHistory : HistoryM RadixHistory := do
  let root ← emptyRootNodeHash
  create root

def processAll (self : RadixHistory) : List (List HistoryAction) → HistoryM RadixHistory
  | [] => pure self
  | actions :: batches => do
    let (next, _) ← self.process actions
    next.processAll batches

end RadixHistory

section Specs

theorem le_depth (actions : List HistoryAction) : 127 ≤ RadixHistory.depth actions := by
  rw [RadixHistory.depth]
  induction actions.map fun action => action.key.length with
  | nil => exact le_rfl
  | cons length lengths ih => exact le_trans ih (le_max_right _ _)

theorem Batch.noDuplicates (batch : Batch n actions) : RadixHistory.hasNoDuplicates actions := by
  simp [RadixHistory.hasNoDuplicates, List.dedup_eq_self.mpr batch.distinct]

variable [Blake2b]

def World.NoCollision (world : World) : Prop := CollisionFree world.hashed

/-- Every entry of the store is filed under its own hash. -/
def World.Coherent (world : World) : Prop :=
  ∀ key bytes, world.store.lookup key = some bytes → bytes ∈ world.hashed ∧ Blake2b.hash bytes = key

/-- Entries are added to the store and never lost. -/
structure World.Grows (w w' : World) : Prop where
  holds : ∀ key bytes, w.store.lookup key = some bytes → w'.store.lookup key = some bytes
  hashed : w.hashed ⊆ w'.hashed
  coherent : w'.Coherent

theorem World.Grows.trans {w w' w'' : World} (first : w.Grows w') (second : w'.Grows w'') :
    w.Grows w'' :=
  ⟨fun key bytes found => second.holds key bytes (first.holds key bytes found),
    List.Subset.trans first.hashed second.hashed, second.coherent⟩

theorem call_fair (imple : RadixTreeImpl) (method : RadixM α) (w : World) :
    World.NoCollision (finalState (imple.call method w)) ↔
      NoCollision (finalState (method (imple.on w))) := by
  cases outcome : method (imple.on w) with
  | ok a s | error failure s => simp only [RadixTreeImpl.call, outcome, finalState]; rfl

theorem inherits_call (inherits : Inherits NoCollision method) (imple : RadixTreeImpl) :
    Inherits World.NoCollision (imple.call method) :=
  fun w holds => inherits (imple.on w) ((call_fair imple method w).mp holds)

theorem call_spec {imple : RadixTreeImpl} (spec : Yields NoCollision method (imple.on w) post) :
    Yields World.NoCollision (imple.call method) w fun result w' =>
      post result.1 (result.2.on w') := by
  intro holds
  obtain ⟨a, s, returned, established⟩ := spec ((call_fair imple method w).mp holds)
  exact ⟨(a, s.imple), s.world, by simp only [RadixTreeImpl.call, returned], established⟩

/-- A map from keys of length `n + 1`, in the only shape a tree can have for it. -/
structure Trie (n : Nat) where
  children : UInt8 → KeyTree
  fits : ∀ i, Fits n (children i)

namespace Trie

def lookup (trie : Trie n) : KeyMap := lookupFamily trie.children

def empty (n : Nat) : Trie n :=
  ⟨fun _ => .empty, fun _ => ⟨trivial, by simp [PrefixTree.lookup]⟩⟩

def rootNode (trie : Trie n) : Node := nodeOf trie.children

omit [Blake2b] in
theorem lookup_empty (key : KeyPath) : (empty n).lookup key = none := by
  cases key <;> rfl

omit [Blake2b] in
theorem ext {left right : Trie n} (same : left.lookup = right.lookup) : left = right := by
  have children : left.children = right.children := by
    funext i
    refine canonical_unique (left.fits i).canonical (right.fits i).canonical ?_
    intro word
    exact congrFun same (i :: word)
  cases left
  cases right
  cases children
  rfl

theorem rootNode_encodable (trie : Trie n) (small : n ≤ 127) : trie.rootNode.Encodable :=
  encodable_nodeOf small trie.fits

end Trie

/-- The history stands for the trie: its root is the trie's, every node below
the root is in the store, and the root is too unless it is empty. -/
structure Represents (w : World) (history : RadixHistory) (trie : Trie n) : Prop where
  node : history.rootNode = trie.rootNode
  hash : history.rootHash = Blake2b.hash (encodeBytes trie.rootNode)
  hashed : encodeBytes trie.rootNode ∈ w.hashed
  root : w.store.lookup history.rootHash = some (encodeBytes trie.rootNode) ∨ trie = .empty n
  stored : ∀ i, Stored (OnDisk (history.imple.on w)) (trie.children i)
  coherent : Coherent (history.imple.on w)

/-- What others do to the store does not concern a history. -/
theorem Represents.grows (represents : Represents w history trie) (grows : w.Grows w') :
    Represents w' history trie where
  node := represents.node
  hash := represents.hash
  hashed := grows.hashed represents.hashed
  root := represents.root.imp_left (grows.holds _ _)
  stored i := (represents.stored i).mono fun _ held => grows.holds _ _ held
  coherent :=
    { store := grows.coherent
      cacheW := fun key bytes found =>
        let ⟨member, same⟩ := represents.coherent.cacheW key bytes found
        ⟨grows.hashed member, same⟩
      cacheR := fun key node found =>
        let ⟨bytes, member, same, decoded⟩ := represents.coherent.cacheR key node found
        ⟨bytes, grows.hashed member, same, decoded⟩ }

theorem Reached.grows {imple imple' : RadixTreeImpl}
    (reached : Reached (imple.on w) (imple'.on w')) :
    w.Grows w' where
  holds key bytes found := by
    have same : w'.store = w.store := reached.extended.store
    rw [same]
    exact found
  hashed := reached.extended.hashed
  coherent := reached.coherent.store

/-- The caches of a history may be replaced by any others that fit the store. -/
theorem Represents.recache (represents : Represents w history trie)
    (coherent : Coherent (imple.on w)) : Represents w { history with imple := imple } trie where
  node := represents.node
  hash := represents.hash
  hashed := represents.hashed
  root := represents.root
  stored := represents.stored
  coherent := coherent

theorem coherent_new (coherent : World.Coherent w) : Coherent (RadixTreeImpl.new.on w) where
  store := coherent
  cacheW key bytes found := by simp [RadixTreeImpl.on, RadixTreeImpl.new] at found
  cacheR key node found := by simp [RadixTreeImpl.on, RadixTreeImpl.new] at found

theorem emptyRootNodeHash_eq (w : World) :
    RadixHistory.emptyRootNodeHash w = .ok (Blake2b.hash (encodeBytes emptyNode))
      { w with hashed := encodeBytes emptyNode :: w.hashed } := by
  have encodable : emptyNode.Encodable := fun index => by rw [item_emptyNode]; trivial
  simp only [RadixHistory.emptyRootNodeHash, bind, EStateM.bind, RadixTreeImpl.call, hashNode,
    encode_ok encodable, lift_ok]
  rfl

variable [DashMapOrder]

variable {trie : Trie n}

theorem read_spec (small : n ≤ 127) (represents : Represents w history trie)
    (free : w.NoCollision) (key : ByteVector) :
    Yields World.NoCollision (history.read key) w fun result w' =>
      result.1 = trie.lookup key ∧ w.Grows w' ∧ Represents w' result.2 trie ∧
      w'.hashed = w.hashed := by
  have tree : Yields NoCollision (readAt history.rootNode key) (history.imple.on w)
      fun result t => result = trie.lookup key ∧ Reached (history.imple.on w) t ∧
        t.hashed = w.hashed := by
    rw [represents.node]
    exact readAtCached_spec trie.fits small represents.stored represents.coherent free le_rfl
  refine .bind (call_spec tree) (fun _ => .pure _) ?_
  rintro ⟨value, imple⟩ w' _ ⟨rfl, reached, hashed⟩
  exact .pure ⟨rfl, reached.grows, (represents.grows reached.grows).recache reached.coherent,
    hashed⟩

theorem inherits_commit : Inherits NoCollision commit := by
  refine .bind .get fun s => ?_
  dsimp only
  split
  · exact .modify fun _ holds => holds
  · exact .throw _

theorem inherits_saveRoot (node : Node) : Inherits NoCollision (RadixHistory.saveRoot node) :=
  .bind (inherits_saveNode node) fun _ => .bind inherits_commit fun _ =>
    .bind (.modify fun _ holds => holds) fun _ =>
      .bind (.modify fun _ holds => holds) fun _ => .pure _

/-- The state after a commit and with both caches cleared. -/
structure Committed (s t : TreeState) : Prop where
  coherent : Coherent t
  hashed : s.hashed ⊆ t.hashed
  written : ∀ bytes, Written s bytes → OnDisk t bytes
  holds : ∀ key bytes, s.store.lookup key = some bytes → t.store.lookup key = some bytes

theorem saveRoot_spec (encodable : node.Encodable) (coherent : Coherent s) :
    Yields NoCollision (RadixHistory.saveRoot node) s fun key t =>
      key = Blake2b.hash (encodeBytes node) ∧ OnDisk t (encodeBytes node) ∧ Committed s t := by
  refine .bind (saveNode_spec encodable coherent) (fun _ => .bind inherits_commit fun _ =>
    .bind (.modify fun _ holds => holds) fun _ => .bind (.modify fun _ holds => holds) fun _ =>
      .pure _) ?_
  rintro _ t free ⟨rfl, written, reached⟩
  obtain ⟨store, committed, entries⟩ := commit_spec reached.coherent free
  have kept : ∀ key bytes, t.store.lookup key = some bytes → store.lookup key = some bytes := by
    intro key bytes found
    rw [entries, found]
    rfl
  have moved : ∀ bytes, Written t bytes → store.lookup (Blake2b.hash bytes) = some bytes := by
    intro bytes written
    cases found : t.store.lookup (Blake2b.hash bytes) with
    | some held =>
      obtain ⟨hashed, same⟩ := reached.coherent.store _ _ found
      rw [← free _ hashed _ (reached.coherent.written_hashed written) same] at found ⊢
      exact kept _ _ found
    | none =>
      rcases written with disk | cached
      · rw [OnDisk, found] at disk
        contradiction
      · rw [entries, found]
        exact cached
  have coherent : Coherent ⟨store, ∅, ∅, t.hashed⟩ := by
    refine coherent_new (w := ⟨store, t.hashed⟩) ?_
    intro key bytes found
    rw [entries] at found
    rcases Option.or_eq_some_iff.mp found with old | ⟨_, new⟩
    · exact reached.coherent.store key bytes old
    · exact reached.coherent.cacheW key bytes new
  intro _
  refine ⟨Blake2b.hash (encodeBytes node), ⟨store, ∅, ∅, t.hashed⟩, ?_, rfl, moved _ written,
    coherent, reached.extended.hashed, ?_, ?_⟩
  · rw [bind_ok committed]
    rfl
  · intro bytes held
    exact moved bytes (reached.extended.written bytes held)
  · intro key bytes found
    apply kept
    rw [reached.extended.store]
    exact found

theorem process_spec (small : n ≤ 127) (represents : Represents w history trie)
    (free : w.NoCollision) (batch : Batch (n + 1) actions) :
    Yields World.NoCollision (history.process actions) w fun result w' =>
      w.Grows w' ∧ Represents w' result.2 trie ∧
      ∃ after : Trie n, Represents w' result.1 after ∧
        after.lookup = applyActions actions trie.lookup := by
  have enough : n < RadixHistory.depth actions + 1 := by
    have bound := le_depth actions
    omega
  have tree : Yields NoCollision (makeActions (RadixHistory.depth actions + 1) history.rootNode
      actions) (history.imple.on w) fun result t => Reached (history.imple.on w) t ∧
        ∃ after, NodeAfter n trie.children actions result t after := by
    rw [represents.node]
    exact makeActions_spec small enough _ _ _ trie.fits represents.stored represents.coherent free
      batch
  have plain : (!RadixHistory.hasNoDuplicates actions) = false := by rw [batch.noDuplicates]; rfl
  simp only [RadixHistory.process, plain, false_eq_true, if_false]
  refine .bind (call_spec tree) ?_ ?_
  · rintro ⟨result, imple⟩
    split
    · exact .bind (inherits_call (inherits_saveRoot _) _) fun _ => .pure _
    · exact .pure _
  rintro ⟨result, imple⟩ w' freeW' ⟨reached, children, done⟩
  have old := (represents.grows reached.grows).recache reached.coherent
  let after : Trie n := ⟨children, done.fits⟩
  have effect : after.lookup = applyActions actions trie.lookup := funext done.effect
  rcases done.reports with changed | ⟨unchanged, same⟩
  · dsimp only at changed ⊢
    subst changed
    refine .bind (call_spec (saveRoot_spec (after.rootNode_encodable small) reached.coherent))
      (fun _ => .pure _) ?_
    rintro ⟨rootHash, imple'⟩ w'' _ ⟨rfl, disk, committed⟩
    have grows : w'.Grows w'' := ⟨committed.holds, committed.hashed, committed.coherent.store⟩
    have new : Represents w'' ⟨_, nodeOf children, .new⟩ after :=
      { node := rfl
        hash := rfl
        hashed := (committed.coherent.store _ _ disk).1
        root := .inl disk
        stored := fun i => (done.stored i).mono committed.written
        coherent := coherent_new committed.coherent.store }
    exact .pure ⟨reached.grows.trans grows, (old.grows grows).recache committed.coherent,
      after, new,
      effect⟩
  · dsimp only at unchanged ⊢
    subst unchanged
    have afterEq : after = trie := by
      cases trie
      cases same
      rfl
    rw [afterEq] at effect
    exact .pure ⟨reached.grows, old, trie,
      old.recache (coherent_new reached.coherent.store), effect⟩

/-- Opening a root whose nodes are in the store. The empty root need not be. -/
theorem create_spec (trie : Trie n) (small : n ≤ 127) (coherent : w.Coherent)
    (free : w.NoCollision) (hashed : encodeBytes trie.rootNode ∈ w.hashed)
    (root : w.store.lookup (Blake2b.hash (encodeBytes trie.rootNode)) =
      some (encodeBytes trie.rootNode) ∨ trie = .empty n)
    (stored : ∀ i, Stored (OnDisk (RadixTreeImpl.new.on w)) (trie.children i)) :
    Yields World.NoCollision
      (RadixHistory.create (Blake2b.hash (encodeBytes trie.rootNode))) w fun history w' =>
        w.Grows w' ∧ Represents w' history trie ∧
        history.rootHash = Blake2b.hash (encodeBytes trie.rootNode) := by
  have fresh := coherent_new coherent
  have tree : Yields NoCollision (loadNode (Blake2b.hash (encodeBytes trie.rootNode)) true)
      (RadixTreeImpl.new.on w) fun node t =>
        node = trie.rootNode ∧ Reached (RadixTreeImpl.new.on w) t := by
    cases found : w.store.lookup (Blake2b.hash (encodeBytes trie.rootNode)) with
    | some bytes =>
      obtain ⟨member, same⟩ := coherent _ _ found
      rw [free bytes member _ hashed same] at found
      refine (loadNode_spec fresh free found
        (decode_encodeBytes (trie.rootNode_encodable small)) true).weaken ?_
      rintro node t ⟨rfl, reached, _⟩
      exact ⟨rfl, reached⟩
    | none =>
      have vacant : trie = .empty n := root.resolve_left (by rw [found]; simp)
      intro _
      refine ⟨emptyNode, RadixTreeImpl.new.on w, loadNode_missing rfl found, ?_, fresh, .refl _⟩
      rw [vacant]
      exact nodeOf_empty.symm
  refine .bind (call_spec tree) (fun _ => .pure _) ?_
  rintro ⟨node, imple⟩ w' _ ⟨rfl, reached⟩
  have grows := reached.grows
  refine .pure ⟨grows, ⟨rfl, rfl, grows.hashed hashed, root.imp_left (grows.holds _ _), ?_,
    reached.coherent⟩, rfl⟩
  exact fun i => (stored i).mono fun _ held => grows.holds _ _ held

theorem reset_spec (small : n ≤ 127) (represents : Represents w history trie)
    (free : w.NoCollision) (self : RadixHistory) :
    Yields World.NoCollision (self.reset history.rootHash) w fun reopened w' =>
      w.Grows w' ∧ Represents w' reopened trie := by
  have root := represents.root
  rw [represents.hash] at root
  rw [RadixHistory.reset, represents.hash]
  exact (create_spec trie small represents.coherent.store free represents.hashed root
    represents.stored).weaken fun _ _ created => ⟨created.1, created.2.1⟩

theorem inherits_create (root : Blake2b256Hash) :
    Inherits World.NoCollision (RadixHistory.create root) :=
  .bind (inherits_call (inherits_loadNode _ _) _) fun _ => .pure _

theorem emptyHistory_spec (n : Nat) (small : n ≤ 127) (coherent : w.Coherent) :
    Yields World.NoCollision RadixHistory.emptyHistory w fun history w' =>
      w.Grows w' ∧ Represents w' history (Trie.empty n) := by
  have hashing : Yields World.NoCollision RadixHistory.emptyRootNodeHash w fun root w' =>
      root = Blake2b.hash (encodeBytes emptyNode) ∧
      w' = { w with hashed := encodeBytes emptyNode :: w.hashed } :=
    fun _ => ⟨_, _, emptyRootNodeHash_eq w, rfl, rfl⟩
  refine .bind hashing inherits_create ?_
  rintro root w' free ⟨rfl, rfl⟩
  have logged : World.Grows w { w with hashed := encodeBytes emptyNode :: w.hashed } := by
    refine ⟨fun _ _ found => found, List.subset_cons_self _ _, ?_⟩
    intro key bytes found
    obtain ⟨member, same⟩ := coherent key bytes found
    exact ⟨mem_cons_of_mem _ member, same⟩
  have rootNode : (Trie.empty n).rootNode = emptyNode := nodeOf_empty
  rw [← rootNode] at logged free ⊢
  refine (create_spec (Trie.empty n) small logged.coherent free (by simp) (.inr rfl)
    fun _ => trivial).weaken ?_
  rintro history w'' ⟨grows, represents, _⟩
  exact ⟨logged.trans grows, represents⟩

end Specs

end F1r3fly.RSpace.History
