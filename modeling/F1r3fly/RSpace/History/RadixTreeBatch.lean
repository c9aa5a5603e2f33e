import F1r3fly.Data.Results
import F1r3fly.RSpace.History.RadixTreeRefinement

/-! Batches: `make_actions` splits a batch by the first byte of its keys, works
on the items below one by one and applies exactly the batch to the map that the
node stands for. -/
namespace F1r3fly.RSpace.History

open Function Assuming PrefixTree

/-- What `process` is called with: keys of one length, one action for a key,
values of the size a leaf can carry. -/
structure Batch (n : Nat) (actions : List HistoryAction) : Prop where
  keys : ∀ action ∈ actions, action.key.length = n
  distinct : (actions.map HistoryAction.key).Nodup
  sized : ∀ action ∈ actions, ∀ value, action.result = some value → value.length = defSize

section Effect

def HistoryAction.dropHead : HistoryAction → HistoryAction
  | .insert key hash => .insert key.tail hash
  | .delete key => .delete key.tail

@[simp] theorem HistoryAction.key_dropHead (action : HistoryAction) :
    action.dropHead.key = action.key.tail := by
  cases action <;> rfl

@[simp] theorem HistoryAction.result_dropHead (action : HistoryAction) :
    action.dropHead.result = action.result := by
  cases action <;> rfl

/-- The actions whose key starts with `index`, without that byte. -/
def below (index : UInt8) (actions : List HistoryAction) : List HistoryAction :=
  (actions.filter fun action => action.key.head? = some index).map HistoryAction.dropHead

theorem applyActions_cons (action : HistoryAction) (actions : List HistoryAction) (map : KeyMap) :
    applyActions (action :: actions) map = applyActions actions (applyAction map action) := rfl

/-- A batch acts on the keys below a byte as the actions below that byte. -/
theorem applyActions_below (nonEmpty : ∀ action ∈ actions, action.key ≠ []) (map : KeyMap)
    (index : UInt8) (word : ByteVector) :
    applyActions actions map (index :: word) =
      applyActions (below index actions) (fun word => map (index :: word)) word := by
  induction actions generalizing map with
  | nil => rfl
  | cons action actions ih =>
    have rest := ih (fun other member => nonEmpty other (by simp [member])) (applyAction map action)
    rw [applyActions_cons, rest]
    obtain ⟨head, tail, key⟩ := exists_cons_of_ne_nil (nonEmpty action (by simp))
    by_cases same : head = index
    · have step : below index (action :: actions) = action.dropHead :: below index actions := by
        simp [below, key, same]
      rw [step, applyActions_cons]
      congr 1
      funext other
      simp only [applyAction, update_apply, key, same, HistoryAction.key_dropHead,
        HistoryAction.result_dropHead, List.tail_cons, List.cons.injEq, true_and]
    · have step : below index (action :: actions) = below index actions := by
        simp [below, key, same]
      rw [step]
      congr 1
      funext other
      simp only [applyAction, update_apply, key, List.cons.injEq, Ne.symm same, false_and, if_false]

theorem applyActions_some (found : applyActions actions map word = some value) :
    map word = some value ∨ ∃ action ∈ actions, action.result = some value := by
  induction actions generalizing map with
  | nil => exact .inl found
  | cons action actions ih =>
    rcases ih found with before | ⟨other, member, result⟩
    · simp only [applyAction, update_apply] at before
      split at before
      · exact .inr ⟨action, by simp, before⟩
      · exact .inl before
    · exact .inr ⟨other, by simp [member], result⟩

theorem applyActions_of_absent (absent : ∀ action ∈ actions, action.key ≠ word) (map : KeyMap) :
    applyActions actions map word = map word := by
  induction actions generalizing map with
  | nil => rfl
  | cons action actions ih =>
    rw [applyActions_cons, ih fun other member => absent other (by simp [member])]
    exact update_of_ne (Ne.symm (absent action (by simp))) _ _

/-- With one action for a key, the batch leaves that action's result there. -/
theorem applyActions_of_mem (distinct : (actions.map HistoryAction.key).Nodup)
    (member : action ∈ actions) (map : KeyMap) :
    applyActions actions map action.key = action.result := by
  induction actions generalizing map with
  | nil => simp at member
  | cons first actions ih =>
    rw [map_cons, nodup_cons] at distinct
    rw [applyActions_cons]
    rcases mem_cons.mp member with rfl | later
    · have absent : ∀ other ∈ actions, other.key ≠ action.key :=
        fun other inside same => distinct.1 (same ▸ mem_map_of_mem inside)
      rw [applyActions_of_absent absent]
      exact update_self _ _ _
    · exact ih distinct.2 later _

theorem applyActions_deletes (deletes : ∀ action ∈ actions, action.result = none)
    (vacant : ∀ word, map word = none) (word : ByteVector) :
    applyActions actions map word = none := by
  apply Option.eq_none_iff_forall_ne_some.mpr
  intro value found
  rcases applyActions_some found with before | ⟨action, member, result⟩
  · rw [vacant] at before
    contradiction
  · rw [deletes action member] at result
    contradiction

theorem Batch.below (batch : Batch (n + 1) actions) (index : UInt8) :
    Batch n (below index actions) := by
  refine ⟨?_, ?_, ?_⟩
  · intro action member
    obtain ⟨original, kept, rfl⟩ := mem_map.mp member
    have length := batch.keys original (List.mem_of_mem_filter kept)
    rw [HistoryAction.key_dropHead, List.length_tail]
    omega
  · rw [History.below, map_map]
    have kept : (actions.filter fun action => action.key.head? = some index).Nodup :=
      batch.distinct.of_map.filter _
    refine kept.map_on ?_
    intro first hf second hs same
    simp only [mem_filter, decide_eq_true_eq] at hf hs
    simp only [comp_apply, HistoryAction.key_dropHead] at same
    have keys : first.key = second.key := by
      rw [← List.cons_head?_tail hf.2, ← List.cons_head?_tail hs.2, same]
    exact List.inj_on_of_nodup_map batch.distinct hf.1 hs.1 keys
  · intro action member value result
    obtain ⟨original, kept, rfl⟩ := mem_map.mp member
    rw [HistoryAction.result_dropHead] at result
    exact batch.sized original (List.mem_of_mem_filter kept) value result

theorem Batch.nonEmpty (batch : Batch (n + 1) actions) : ∀ action ∈ actions, action.key ≠ [] := by
  intro action member vacant
  have length := batch.keys action member
  rw [vacant] at length
  simp at length

theorem trimKeys_ok (nonEmpty : ∀ action ∈ actions, action.key ≠ []) :
    trimKeys actions = .ok (actions.map HistoryAction.dropHead) := by
  refine Results.mapM_eq_ok.mpr ((map_congr_left fun action present => ?_).trans (map_map ..).symm)
  have here := nonEmpty action present
  cases action with
  | insert key hash | delete key =>
    obtain ⟨head, tail, rfl⟩ := exists_cons_of_ne_nil here
    rfl

end Effect

section Expand

theorem Fits.expand (fits : Fits (n + 1) tree) (index : UInt8) : Fits n (expand tree index) := by
  refine ⟨canonical_expand fits.canonical index, ?_⟩
  intro word value found
  apply fits.sized (index :: word)
  rw [← lookupFamily_expand fits.canonical]
  exact found

variable [Blake2b] [DashMapOrder]

omit [DashMapOrder] in
theorem Stored.expand (stored : Stored held tree) (index : UInt8) :
    Stored held (expand tree index) := by
  have vacant : ∀ i : UInt8, Stored held ((fun _ => .empty : UInt8 → KeyTree) i) := fun _ => trivial
  unfold PrefixTree.expand
  split
  · refine stored_update vacant ?_ _ index
    trivial
  · refine stored_update vacant ?_ _ index
    exact stored
  · exact stored.2 index
  · trivial

theorem constructNodeFromItem_spec (fits : Fits (n + 1) tree) (small : n + 1 ≤ 127)
    (stored : Stored (OnDisk s) tree) (coherent : Coherent s) (free : NoCollision s) :
    Yields NoCollision (constructNodeFromItem (itemOf tree)) s fun node t =>
      node = nodeOf (expand tree) ∧ Reached s t := by
  have here : Reached s s := ⟨coherent, .refl s⟩
  cases tree with
  | empty => exact .pure ⟨nodeOf_empty.symm, here⟩
  | leaf segment value =>
    cases segment with
    | nil => simpa [Canonical] using fits.canonical
    | cons head segment =>
      refine .pure ⟨?_, here⟩
      rw [expand, nodeOf_update, nodeOf_empty]
      rfl
  | branch segment children =>
    cases segment with
    | nil =>
      have inner : ∀ i, Fits n (children i) := fun i => by simpa using fits.child i
      refine (loadChild_spec (by omega) inner stored.1 coherent free).weaken ?_
      rintro node t ⟨rfl, reached, _⟩
      exact ⟨rfl, reached⟩
    | cons head segment =>
      refine .pure ⟨?_, here⟩
      rw [expand, nodeOf_update, nodeOf_empty]
      rfl

end Expand

section Actions

/-- Two actions below one byte need keys that go on after it. -/
theorem Batch.long (batch : Batch n (first :: second :: rest)) : n ≠ 0 := by
  rintro rfl
  have keys := batch.distinct
  have one : first.key = [] := length_eq_zero_iff.mp (batch.keys first (by simp))
  have two : second.key = [] := length_eq_zero_iff.mp (batch.keys second (by simp))
  simp [one, two] at keys

theorem result_of_no_insert {actions : List HistoryAction}
    (plain : ¬ actions.any HistoryAction.isInsert) :
    ∀ action ∈ actions, action.result = none := by
  intro action member
  cases action with
  | insert key hash => exact absurd (any_eq_true.mpr ⟨_, member, rfl⟩) plain
  | delete key => rfl

theorem Batch.filter (batch : Batch n actions) (p : HistoryAction → Bool) :
    Batch n (actions.filter p) where
  keys action member := batch.keys action (List.mem_of_mem_filter member)
  distinct := batch.distinct.sublist (List.filter_sublist.map _)
  sized action member := batch.sized action (List.mem_of_mem_filter member)

theorem grouping_spec (batch : Batch (n + 1) actions) :
    ∃ groups, grouping actions = .ok groups ∧ (groups.map Prod.fst).Nodup ∧
      (∀ group ∈ groups, group.2 ≠ [] ∧
        group.2 = actions.filter fun action => action.key.head? = some group.1) ∧
      ∀ index, index ∉ groups.map Prod.fst → below index actions = [] := by
  have plain : ¬ actions.any (·.key.isEmpty) := by
    intro empty
    obtain ⟨action, member, vacant⟩ := any_eq_true.mp empty
    exact batch.nonEmpty action member (List.isEmpty_iff.mp vacant)
  refine ⟨_, if_neg plain, ?_, ?_, ?_⟩
  · refine List.Nodup.sublist (List.filter_sublist.map _) ?_
    simpa [map_map, comp_def] using indices_nodup
  · intro group member
    rw [mem_filter, mem_map] at member
    obtain ⟨⟨index, _, rfl⟩, inhabited⟩ := member
    exact ⟨by simpa using inhabited, rfl⟩
  · intro index absent
    by_contra inhabited
    apply absent
    rw [mem_map]
    refine ⟨(index, actions.filter fun action => action.key.head? = some index), ?_, rfl⟩
    rw [mem_filter, mem_map]
    refine ⟨⟨index, mem_indices index, rfl⟩, ?_⟩
    simpa [below] using inhabited

theorem entries_of_groups {related : UInt8 × α → UInt8 × β → Prop}
    (matched : List.Forall₂ related groups entries)
    (first : ∀ group entry, related group entry → entry.1 = group.1) :
    entries.map Prod.fst = groups.map Prod.fst ∧
      ∀ entry ∈ entries, ∃ group ∈ groups, related group entry := by
  induction matched with
  | nil => exact ⟨rfl, by simp⟩
  | cons here _ ih =>
    refine ⟨by rw [map_cons, map_cons, first _ _ here, ih.1], ?_⟩
    intro entry member
    rcases mem_cons.mp member with rfl | rest
    · exact ⟨_, by simp, here⟩
    · obtain ⟨group, inside, done⟩ := ih.2 entry rest
      exact ⟨group, by simp [inside], done⟩

variable [Blake2b] [DashMapOrder]

/-- The subtree after `actions`, and what was reported about it. -/
structure TreeAfter (n : Nat) (tree : KeyTree) (actions : List HistoryAction)
    (result : Option Item) (t : TreeState) (after : KeyTree) : Prop where
  fits : Fits n after
  effect : ∀ word, lookup after word = applyActions actions (lookup tree) word
  stored : Stored (Written t) after
  reports : Reports result tree after

/-- The children of a node after `actions`, and what was reported about it. -/
structure NodeAfter (n : Nat) (children : UInt8 → KeyTree) (actions : List HistoryAction)
    (result : Option Node) (t : TreeState) (after : UInt8 → KeyTree) : Prop where
  fits : ∀ i, Fits n (after i)
  effect : ∀ word, lookupFamily after word = applyActions actions (lookupFamily children) word
  stored : ∀ i, Stored (Written t) (after i)
  reports : result = some (nodeOf after) ∨ (result = none ∧ after = children)

omit [DashMapOrder] in
theorem TreeAfter.extends (done : TreeAfter n tree actions result t after) (step : Extends t u) :
    TreeAfter n tree actions result u after :=
  ⟨done.fits, done.effect, done.stored.mono step.written, done.reports⟩

theorem processOneAction_spec (fits : Fits n tree) (small : n ≤ 127)
    (stored : Stored (OnDisk s) tree) (coherent : Coherent s) (free : NoCollision s)
    (length : action.key.length = n + 1)
    (sized : ∀ value, action.result = some value → value.length = defSize) :
    Yields NoCollision (processOneAction action (itemOf tree)) s fun result t =>
      Reached s t ∧ ∃ after, TreeAfter n tree [action.dropHead] result t after := by
  have nonEmpty : action.key ≠ [] := by
    intro vacant
    simp [vacant] at length
  cases action with
  | insert key hash =>
    obtain ⟨head, tail, rfl⟩ := exists_cons_of_ne_nil nonEmpty
    have width : tail.length = n := by simpa [HistoryAction.key] using length
    refine (update_spec fits small stored coherent free width (sized hash rfl) (by omega)).weaken ?_
    rintro result t ⟨reached, held, report⟩
    refine ⟨reached, _, fits.insert width (sized hash rfl), ?_, held, report⟩
    intro word
    rw [(insert_spec fits.canonical width _).2]
    exact (update_apply _ _ _ _).symm
  | delete key =>
    obtain ⟨head, tail, rfl⟩ := exists_cons_of_ne_nil nonEmpty
    have width : tail.length = n := by simpa [HistoryAction.key] using length
    refine (delete_spec fits small stored coherent free width (by omega)).weaken ?_
    rintro result t ⟨reached, held, report⟩
    refine ⟨reached, _, fits.erase tail, ?_, held, report⟩
    intro word
    rw [(erase_spec fits.canonical _).2]
    exact (update_apply _ _ _ _).symm

/-- What the recursive call of `make_actions` is used for. -/
def Recurses (n : Nat) (recurse : Node → List HistoryAction → RadixM (Option Node)) : Prop :=
  ∀ s children actions, (∀ i, Fits n (children i)) → (∀ i, Stored (OnDisk s) (children i)) →
    Coherent s → NoCollision s → Batch (n + 1) actions →
    Yields NoCollision (recurse (nodeOf children) actions) s fun result t =>
      Reached s t ∧ ∃ after, NodeAfter n children actions result t after

section Several

variable {tree : KeyTree} {actions : List HistoryAction} (fits : Fits (n + 1) tree)
  (small : n + 1 ≤ 127) (stored : Stored (OnDisk s) tree) (coherent : Coherent s)
  (free : NoCollision s) (nonEmpty : ∀ action ∈ actions, action.key ≠ [])
  (batch : Batch (n + 1) (actions.map HistoryAction.dropHead))
  (inherits : ∀ node actions, Inherits NoCollision (recurse node actions))
  (inner : Recurses n recurse)

include fits small stored coherent free nonEmpty batch inherits inner

theorem processNonEmptyActions_spec :
    Yields NoCollision (processNonEmptyActions recurse actions (itemOf tree)) s fun result t =>
      Reached s t ∧
      ∃ after, TreeAfter (n + 1) tree (actions.map HistoryAction.dropHead) result t after := by
  refine .bind (constructNodeFromItem_spec fits small stored coherent free)
    (fun _ => .bind (inherits_lift _) fun _ => .bind (inherits _ _) fun result => ?_) ?_
  · cases result with
    | some newNode => exact .map _ (inherits_saveNodeAndCreateItem _ _ _)
    | none => exact .pure _
  rintro _ t freeT ⟨rfl, created⟩
  rw [trimKeys_ok nonEmpty, lift_ok, pure_bind]
  refine .bind (inner t (expand tree) _ fits.expand (fun i => (created.onDisk stored).expand i)
    created.coherent freeT batch) (fun result => ?_) ?_
  · cases result with
    | some newNode => exact .map _ (inherits_saveNodeAndCreateItem _ _ _)
    | none => exact .pure _
  rintro result u _ ⟨processed, after, done⟩
  have reached := created.trans processed
  have effect : ∀ word, lookup (compact [] after) word =
      applyActions (actions.map HistoryAction.dropHead) (lookup tree) word := by
    intro word
    have family : lookupFamily (expand tree) = lookup tree :=
      funext (lookupFamily_expand fits.canonical)
    rw [lookup_compact, ← family, ← done.effect]
    exact lookup_branch_append [] word after
  have newFits : Fits (n + 1) (compact [] after) := by
    refine ⟨canonical_compact (by simp) fun i => by simpa using (done.fits i).canonical, ?_⟩
    intro word value found
    rw [lookup_compact] at found
    obtain ⟨_, rfl, family⟩ := lookup_branch_iff.mp found
    cases word with
    | nil => simp [lookupFamily] at family
    | cons letter rest => exact (done.fits letter).sized rest value family
  rcases done.reports with rfl | ⟨rfl, rfl⟩
  · refine .map ((saveNodeAndCreateItem_spec (by omega) done.fits done.stored
      reached.coherent [] true).weaken ?_)
    rintro item v ⟨rfl, held, saved⟩
    exact ⟨reached.trans saved, _, newFits, effect, held, .inl rfl⟩
  · have unchanged := compact_expand fits.canonical
    rw [unchanged] at effect newFits
    exact .pure ⟨reached, tree, newFits, effect, (reached.onDisk stored).written, .inr ⟨rfl, rfl⟩⟩

theorem processSeveralActions_spec (inhabited : actions ≠ []) :
    Yields NoCollision (processSeveralActions recurse actions (itemOf tree)) s fun result t =>
      Reached s t ∧
      ∃ after, TreeAfter (n + 1) tree (actions.map HistoryAction.dropHead) result t after := by
  by_cases cleared : itemOf tree = .emptyItem ∧ ¬ actions.any HistoryAction.isInsert
  · have emptied : clearingDeleteActions actions (itemOf tree) = [] := if_pos cleared
    have vacant : tree = .empty := itemOf_eq_emptyItem.mp cleared.1
    have deletes : ∀ action ∈ actions.map HistoryAction.dropHead, action.result = none := by
      intro action member
      obtain ⟨original, kept, rfl⟩ := mem_map.mp member
      rw [HistoryAction.result_dropHead]
      exact result_of_no_insert cleared.2 original kept
    simp only [processSeveralActions, emptied, List.isEmpty_nil, if_true]
    refine .pure ⟨⟨coherent, .refl s⟩, tree, fits, ?_, stored.written, .inr ⟨rfl, rfl⟩⟩
    intro word
    rw [vacant]
    exact (applyActions_deletes deletes (fun _ => rfl) word).symm
  · have kept : clearingDeleteActions actions (itemOf tree) = actions := if_neg cleared
    have several : actions.isEmpty = false := by simpa using inhabited
    simp only [processSeveralActions, kept, several, false_eq_true, if_false]
    exact processNonEmptyActions_spec fits small stored coherent free nonEmpty batch inherits inner

end Several

theorem processGroup_spec (fits : Fits n tree) (small : n ≤ 127) (stored : Stored (OnDisk s) tree)
    (coherent : Coherent s) (free : NoCollision s) (inhabited : actions ≠ [])
    (whole : Batch (n + 1) actions) (batch : Batch n (actions.map HistoryAction.dropHead))
    (inherits : ∀ node actions, Inherits NoCollision (recurse node actions))
    (inner : ∀ m, n = m + 1 → Recurses m recurse) :
    Yields NoCollision (processGroup recurse actions (itemOf tree)) s fun result t =>
      Reached s t ∧ ∃ after,
        TreeAfter n tree (actions.map HistoryAction.dropHead) result t after := by
  match actions with
  | [] => exact absurd rfl inhabited
  | [action] =>
    exact processOneAction_spec fits small stored coherent free (whole.keys action (by simp))
      (whole.sized action (by simp))
  | first :: second :: rest =>
    obtain ⟨m, rfl⟩ := exists_eq_succ_of_ne_zero batch.long
    exact processSeveralActions_spec fits small stored coherent free whole.nonEmpty batch inherits
      (inner m rfl) inhabited

omit [DashMapOrder] in
/-- Writing the reported items into the node leaves the node of the new children. -/
theorem setNewItems_spec (good : UInt8 → KeyTree → Prop) (distinct : (entries.map Prod.fst).Nodup)
    (each : ∀ entry ∈ entries, ∃ after, good entry.1 after ∧
      Reports entry.2 (children entry.1) after) :
    ∃ after, setNewItems (nodeOf children) entries = nodeOf after ∧
      (∀ i ∈ entries.map Prod.fst, good i (after i)) ∧
      ∀ i, i ∉ entries.map Prod.fst → after i = children i := by
  induction entries generalizing children with
  | nil => exact ⟨children, rfl, by simp, fun _ _ => rfl⟩
  | cons entry entries ih =>
    rw [map_cons, nodup_cons] at distinct
    obtain ⟨fresh, goodFresh, report⟩ := each entry (by simp)
    have others : ∀ other ∈ entries, ∃ after, good other.1 after ∧
        Reports other.2 (Function.update children entry.1 fresh other.1) after := by
      intro other member
      have apart : other.1 ≠ entry.1 :=
        fun same => distinct.1 (same ▸ mem_map_of_mem member)
      rw [update_of_ne apart]
      exact each other (by simp [member])
    obtain ⟨after, filled, goods, kept⟩ := ih distinct.2 others
    have first : setNewItems (nodeOf children) (entry :: entries) =
        setNewItems (nodeOf (Function.update children entry.1 fresh)) entries := by
      rcases report with some | ⟨none, same⟩
      · rw [nodeOf_update]
        simp only [setNewItems, foldl_cons, some]
      · rw [same, update_eq_self]
        simp only [setNewItems, foldl_cons, none]
    refine ⟨after, first.trans filled, ?_, ?_⟩
    · intro i member
      rcases mem_cons.mp member with rfl | rest
      · rw [kept _ distinct.1, update_self]
        exact goodFresh
      · exact goods i rest
    · intro i outside
      rw [map_cons, mem_cons, not_or] at outside
      rw [kept i outside.2, update_of_ne outside.1]

omit [DashMapOrder] in
/-- The node reported by `make_actions`, once every child is known. -/
theorem nodeAfter_of_children (small : n ≤ 127) (fits : ∀ i, Fits n (children i))
    (stored : ∀ i, Stored (Written t) (children i)) (coherent : Coherent t) (free : NoCollision t)
    (batch : Batch (n + 1) actions) (newFits : ∀ i, Fits n (after i))
    (newStored : ∀ i, Stored (Written t) (after i))
    (effect : ∀ i word, lookup (after i) word =
      applyActions (below i actions) (lookup (children i)) word) :
    NodeAfter n children actions
      (if nodeOf after ≠ nodeOf children then some (nodeOf after) else none) t after := by
  refine ⟨newFits, ?_, newStored, ?_⟩
  · intro word
    cases word with
    | nil =>
      rw [applyActions_of_absent batch.nonEmpty]
      rfl
    | cons index word =>
      rw [applyActions_below batch.nonEmpty]
      exact effect index word
  · by_cases same : nodeOf after = nodeOf children
    · refine .inr ⟨if_neg (not_not.mpr same), ?_⟩
      funext i
      refine itemOf_inj coherent free small (newFits i) (fits i) (newStored i) (stored i) ?_
      rw [← item_nodeOf, same, item_nodeOf]
    · exact .inl (if_pos same)

/-- One call of `make_actions` applies the batch, for every node, every state of
the caches and every order of eviction. -/
theorem makeActions_spec (small : n ≤ 127) (enough : n < fuel) : Recurses n (makeActions fuel) := by
  induction fuel generalizing n with
  | zero => omega
  | succ fuel ih =>
    intro s children actions fits stored coherent free batch
    obtain ⟨groups, grouped, distinct, members, absent⟩ := grouping_spec batch
    simp only [makeActions, grouped, lift_ok, pure_bind]
    have body (group : UInt8 × List HistoryAction) : Inherits NoCollision (do
        let newItem ← processGroup (makeActions fuel) group.2 ((nodeOf children).item group.1)
        pure (group.1, newItem) : RadixM (UInt8 × Option Item)) :=
      .bind (inherits_processGroup (inherits_makeActions fuel) _ _) fun _ => .pure _
    have round : ∀ group ∈ groups, ∀ t, NoCollision t → Reached s t →
        Yields NoCollision (do
          let newItem ← processGroup (makeActions fuel) group.2 ((nodeOf children).item group.1)
          pure (group.1, newItem) : RadixM (UInt8 × Option Item)) t fun entry u =>
            Reached s u ∧ Extends t u ∧ entry.1 = group.1 ∧
            ∃ after, TreeAfter n (children group.1) (below group.1 actions) entry.2 u after := by
      intro group member t freeT reached
      obtain ⟨inhabited, selected⟩ := members group member
      rw [item_nodeOf]
      have smaller : Batch n (group.2.map HistoryAction.dropHead) := by
        rw [selected]
        exact batch.below group.1
      have whole : Batch (n + 1) group.2 := by
        rw [selected]
        exact batch.filter _
      refine .bind (processGroup_spec (fits group.1) small (reached.onDisk (stored group.1))
        reached.coherent freeT inhabited whole smaller (inherits_makeActions fuel) ?_)
        (fun _ => .pure _) ?_
      · rintro m rfl
        exact ih (by omega) (by omega)
      · rintro newItem u _ ⟨processed, after, done⟩
        refine .pure ⟨reached.trans processed, processed.extended, rfl, after, ?_⟩
        rw [below, ← selected]
        exact done
    refine .bind (.mapM body Extends.refl Extends.trans ?_ groups round ⟨coherent, .refl s⟩ free)
      (fun _ => .pure _) ?_
    · rintro group entry t u step ⟨index, after, done⟩
      exact ⟨index, after, done.extends step⟩
    · rintro entries t freeT ⟨reached, _, matched⟩
      obtain ⟨indexes, found⟩ := entries_of_groups matched fun _ _ done => done.1
      have each : ∀ entry ∈ entries, ∃ after,
          TreeAfter n (children entry.1) (below entry.1 actions) entry.2 t after := by
        intro entry member
        obtain ⟨group, _, index, after, done⟩ := found entry member
        rw [index]
        exact ⟨after, done⟩
      let Good (i : UInt8) (after : KeyTree) : Prop :=
        Fits n after ∧ Stored (Written t) after ∧
        ∀ word, lookup after word = applyActions (below i actions) (lookup (children i)) word
      obtain ⟨after, filled, goods, kept⟩ := setNewItems_spec Good
        (indexes ▸ distinct) fun entry member => by
          obtain ⟨after, done⟩ := each entry member
          exact ⟨after, ⟨done.fits, done.stored, done.effect⟩, done.reports⟩
      have held : ∀ i, Stored (Written t) (children i) :=
        fun i => (reached.onDisk (stored i)).written
      have all : ∀ i, Good i (after i) := by
        intro i
        by_cases member : i ∈ entries.map Prod.fst
        · exact goods i member
        · have untouched : below i actions = [] := absent i (indexes ▸ member)
          rw [kept i member]
          refine ⟨fits i, held i, ?_⟩
          intro word
          rw [untouched]
          rfl
      rw [filled]
      exact .pure ⟨reached, after, nodeAfter_of_children small fits held reached.coherent freeT
        batch (fun i => (all i).1) (fun i => (all i).2.1) fun i => (all i).2.2⟩

end Actions

end F1r3fly.RSpace.History
