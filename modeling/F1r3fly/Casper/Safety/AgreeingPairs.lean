import F1r3fly.Casper.Safety.CachedOracle

/-! Which validators make a pair that will not disagree, in a complete DAG. -/
namespace F1r3fly.Casper.CliqueOracle

open Option BlockStorage SortedMap KeyValueDagRepresentation
open Clique (graph)
open Results

/-- The DAG has every block that it mentions, with the maps that are kept beside the blocks. -/
structure Complete (dag : KeyValueDagRepresentation) : Prop where
  indexed : ∀ hash metadata, dag.lookup hash = some metadata →
    metadata.blockHash = hash ∧ hash.length = blockHashLength ∧
      dag.blockNumberMap.get? hash = some metadata.blockNumber ∧
        dag.mainParent hash = metadata.parents.head?
  recorded : ∀ child parent, dag.mainParent child = some parent → dag.Known child
  numbered : ∀ hash metadata parent, dag.lookup hash = some metadata →
    metadata.parents.head? = some parent →
      ∃ before, dag.lookup parent = some before ∧ before.blockNumber < metadata.blockNumber
  latest : ∀ validator hash, dag.latestMessageHash validator = some hash → dag.Known hash
  justified : ∀ hash metadata, dag.lookup hash = some metadata →
    ∀ justification ∈ metadata.justifications, dag.Known justification.latestBlockHash
  selfJustified : ∀ hash previous, dag.selfJustificationMap.get? hash = some previous →
    dag.Known previous
  acyclic : ∃ rank : BlockHash → Nat, ∀ hash previous,
    dag.selfJustificationMap.get? hash = some previous → rank previous < rank hash

variable {dag : KeyValueDagRepresentation}

section

variable (complete : Complete dag)

include complete

theorem Complete.mainNumbered : dag.MainNumbered := by
  intro child parent step
  obtain ⟨metadata, found⟩ := complete.recorded child parent step
  obtain ⟨-, -, number_eq, parent_eq⟩ := complete.indexed child metadata found
  rw [parent_eq] at step
  obtain ⟨before, before_found, below⟩ := complete.numbered child metadata parent found step
  exact ⟨_, _, number_eq, (complete.indexed parent before before_found).2.2.1, below⟩

theorem Complete.isInMainChain_returns
    (ancestor_known : dag.Known ancestor) (descendant_known : dag.Known descendant) :
    ∃ answer, Returns (dag.isInMainChain ancestor descendant) answer ∧
      (answer ↔ dag.MainAncestorOrSelf ancestor descendant) := by
  obtain ⟨metadata, found⟩ := ancestor_known
  obtain ⟨other, other_found⟩ := descendant_known
  apply KeyValueDagRepresentation.isInMainChain_returns complete.mainNumbered
  · rw [(complete.indexed ancestor metadata found).2.2.1]
    rfl
  · rw [(complete.indexed descendant other other_found).2.2.1]
    rfl

theorem Complete.contains_of_known {hash : BlockHash}
    (known : dag.Known hash) : dag.contains hash := by
  obtain ⟨metadata, found⟩ := known
  have length_eq := (complete.indexed hash metadata found).2.1
  rw [lookup] at found
  split at found
  case isTrue present =>
    rw [contains, and_eq_true]
    exact ⟨beq_iff_eq.mpr length_eq, present⟩
  case isFalse => cases found

theorem Complete.selfJustification_eq {hash : BlockHash} (known : dag.Known hash) :
    dag.selfJustification hash = .ok (dag.selfJustificationMap.get? hash) := by
  rw [selfJustification]
  cases dag.selfJustificationMap.get? hash with
  | some previous => rfl
  | none =>
    rw [if_pos (complete.contains_of_known known)]

/-- The ranks fall from one message to the next, so the walk ends before its rounds run out. -/
theorem Complete.walk_returns {rank : BlockHash → Nat}
    (acyclic : ∀ hash previous,
      dag.selfJustificationMap.get? hash = some previous → rank previous < rank hash)
    (target_known : dag.Known targetMsg) (stopper : BlockHash) (fuel : Nat) (hash : BlockHash)
    (known : dag.Known hash)
    (enough : countBelow (fun entry => rank entry.1) dag.selfJustificationMap.entries
      (rank hash + 1) + 1 < fuel) :
    ∃ answer, Returns (walkSelfJustifications (direct dag) targetMsg stopper fuel (some hash))
      answer := by
  induction fuel generalizing hash with
  | zero => omega
  | succ fuel ih =>
    rw [walkSelfJustifications]
    split_ifs
    · exact ⟨false, returns_pure.mpr rfl⟩
    · obtain ⟨inChain, returned, -⟩ := complete.isInMainChain_returns target_known known
      cases inChain with
      | false => exact ⟨true, returns_bind.mpr ⟨false, returned, returns_pure.mpr rfl⟩⟩
      | true =>
        have next_returned : Returns ((direct dag).selfJustification hash)
            (dag.selfJustificationMap.get? hash) :=
          returns_liftExcept.mpr (complete.selfJustification_eq known)
        have walk_on : ∃ answer, Returns (walkSelfJustifications (direct dag) targetMsg stopper
            fuel (dag.selfJustificationMap.get? hash)) answer := by
          cases next : dag.selfJustificationMap.get? hash with
          | none =>
            obtain ⟨fuel, rfl⟩ := exists_eq_succ_of_ne_zero (show fuel ≠ 0 by omega)
            exact ⟨false, returns_pure.mpr rfl⟩
          | some previous =>
            have present : (hash, previous) ∈ dag.selfJustificationMap.entries :=
              HashedMap.mem_entries_iff.mpr next
            refine ih previous (complete.selfJustified hash previous next) ?_
            refine (Nat.succ_lt_succ (countBelow_lt _ present (Int.lt_succ _) ?_)).trans_le
              (Nat.le_of_lt_succ enough)
            exact_mod_cast acyclic hash previous next
        obtain ⟨answer, walked⟩ := walk_on
        exact ⟨answer, returns_bind.mpr ⟨true, returned,
          returns_bind.mpr ⟨_, next_returned, walked⟩⟩⟩

end

/-- Whether the validator of the first message will not disagree on the target. -/
def noDisagreement (dag : KeyValueDagRepresentation) (targetMsg lmB lmAJB : BlockHash) : Bool :=
  (returned? (neverEventuallySeeDisagreement (direct dag) (walkRounds dag) lmB lmAJB
    targetMsg)).getD false

variable {targetMsg : BlockHash}

theorem Complete.never_returns (complete : Complete dag) {lmB lmAJB : BlockHash}
    (target_known : dag.Known targetMsg) (lmB_known : dag.Known lmB)
    (lmAJB_known : dag.Known lmAJB) :
    Returns (neverEventuallySeeDisagreement (direct dag) (walkRounds dag) lmB lmAJB targetMsg)
      (noDisagreement dag targetMsg lmB lmAJB) := by
  apply Results.returns_getD
  obtain ⟨rank, acyclic⟩ := complete.acyclic
  have stopper_returned : Returns ((direct dag).selfJustification lmAJB)
      (dag.selfJustificationMap.get? lmAJB) :=
    returns_liftExcept.mpr (complete.selfJustification_eq lmAJB_known)
  have start_returned : Returns ((direct dag).selfJustification lmB)
      (dag.selfJustificationMap.get? lmB) :=
    returns_liftExcept.mpr (complete.selfJustification_eq lmB_known)
  have walked : ∃ answer, Returns (walkSelfJustifications (direct dag) targetMsg
      ((dag.selfJustificationMap.get? lmAJB).getD lmAJB) (walkRounds dag)
      (dag.selfJustificationMap.get? lmB)) answer := by
    cases start : dag.selfJustificationMap.get? lmB with
    | none => exact ⟨false, returns_pure.mpr rfl⟩
    | some hash =>
      exact complete.walk_returns acyclic target_known _ (walkRounds dag) hash
        (complete.selfJustified lmB hash start)
        (Nat.succ_lt_succ (Nat.lt_succ_of_le List.countP_le_length))
  obtain ⟨answer, walked⟩ := walked
  have returned : Returns (neverEventuallySeeDisagreement (direct dag) (walkRounds dag) lmB lmAJB
      targetMsg) (!answer) :=
    returns_bind.mpr ⟨answer, returns_bind.mpr ⟨_, stopper_returned,
      returns_bind.mpr ⟨_, start_returned, walked⟩⟩, returns_pure.mpr rfl⟩
  rw [Results.returns_iff_returned?.mp returned]
  rfl

def pairwiseOf (dag : KeyValueDagRepresentation) (agreeingValidators : SortedMap Validator Unit)
    (validator : Validator) : Option PairwiseValidator := do
  let latest ← dag.latestMessageHash validator
  let all ← (latestJustifications dag latest).toOption
  let relevant := all.filter fun entry => (agreeingValidators.get? entry.1).isSome
  if relevant.entries.isEmpty then none else some ⟨validator, latest, relevant⟩

def pairAgrees (dag : KeyValueDagRepresentation) (targetMsg : BlockHash)
    (a b : PairwiseValidator) : Bool :=
  match a.justifications.get? b.validator, b.justifications.get? a.validator with
  | some lmAJB, some lmBJA =>
    noDisagreement dag targetMsg b.latest lmAJB && noDisagreement dag targetMsg a.latest lmBJA
  | _, _ => false

theorem pairAgrees_comm (a b : PairwiseValidator) :
    pairAgrees dag targetMsg a b = pairAgrees dag targetMsg b a := by
  rw [pairAgrees, pairAgrees]
  cases a.justifications.get? b.validator <;> cases b.justifications.get? a.validator
  case some.some => exact Bool.and_comm _ _
  all_goals rfl

def agreeingPairs (dag : KeyValueDagRepresentation) (targetMsg : BlockHash) :
    List PairwiseValidator → List (Validator × Validator)
  | [] => []
  | a :: rest => (rest.filter (pairAgrees dag targetMsg a)).map
    (fun b => (a.validator, b.validator)) ++
      agreeingPairs dag targetMsg rest

def PairwiseValidator.Readable (dag : KeyValueDagRepresentation) (a : PairwiseValidator) : Prop :=
  dag.Known a.latest ∧ ∀ validator hash, a.justifications.get? validator = some hash →
    dag.Known hash

section

variable (complete : Complete dag)

include complete

theorem Complete.known_of_justification {latest hash : BlockHash}
    (computed : latestJustifications dag latest = .ok all)
    (found : all.get? validator = some hash) : dag.Known hash := by
  obtain ⟨metadata, looked_up, returned⟩ := bind_eq_ok.mp computed
  cases returned
  have lookup_eq := lookup_of_lookupUnsafe looked_up
  refine foldlRecOn (motive := fun all : SortedMap Validator BlockHash =>
    all.get? validator = some hash → dag.Known hash) _ _ (fun none => by cases none) ?_ found
  intro all known j present found
  rw [get?_insert] at found
  split at found
  · cases found
    exact complete.justified latest metadata lookup_eq j present
  · exact known found

theorem Complete.latestJustifications_ok {latest : BlockHash}
    (is_latest : dag.latestMessageHash validator = some latest) :
    ∃ all, latestJustifications dag latest = .ok all := by
  obtain ⟨metadata, found⟩ := complete.latest validator latest is_latest
  refine ⟨justificationsOf metadata, ?_⟩
  rw [latestJustifications, lookupUnsafe_of_lookup found]
  rfl

theorem Complete.addPairwiseValidator_returns
    (agreeingValidators : SortedMap Validator Unit) (pairwiseValidators : List PairwiseValidator)
    (validator : Validator) :
    Returns (addPairwiseValidator (direct dag) agreeingValidators pairwiseValidators validator)
      (pairwiseValidators ++ (pairwiseOf dag agreeingValidators validator).toList) := by
  refine returns_bind.mpr ⟨dag.latestMessageHash validator, returns_pure.mpr rfl, ?_⟩
  cases is_latest : dag.latestMessageHash validator with
  | none =>
    rw [pairwiseOf, is_latest]
    exact returns_pure.mpr (append_nil _).symm
  | some latest =>
    obtain ⟨all, computed⟩ := complete.latestJustifications_ok is_latest
    refine returns_bind.mpr ⟨all, returns_liftExcept.mpr computed, ?_⟩
    rw [pairwiseOf, is_latest, bind_eq_bind, bind_some, computed]
    dsimp only [Except.toOption, bind_eq_bind, bind_some]
    split
    · exact returns_pure.mpr (append_nil _).symm
    · exact returns_pure.mpr rfl

theorem Complete.pairwiseValidators_returns
    (agreeingValidators : SortedMap Validator Unit) (validators : List Validator)
    (found : List PairwiseValidator) :
    Returns (validators.foldlM (addPairwiseValidator (direct dag) agreeingValidators) found)
      (found ++ validators.filterMap (pairwiseOf dag agreeingValidators)) := by
  have appended : found ++ validators.filterMap (pairwiseOf dag agreeingValidators) =
      validators.foldl (fun found validator =>
        found ++ (pairwiseOf dag agreeingValidators validator).toList) found := by
    rw [List.filterMap_eq_flatMap_toList, List.foldl_append_eq_append, List.flatMap_def]
  rw [appended]
  exact foldlM_eq_pure
    (fun found validator _ => complete.addPairwiseValidator_returns _ found validator) _

theorem Complete.addPair_returns (target_known : dag.Known targetMsg)
    (a_readable : a.Readable dag) (b_readable : b.Readable dag)
    (result : List (Validator × Validator)) :
    Returns (addPair (direct dag) (walkRounds dag) targetMsg a result b)
      (result ++ if pairAgrees dag targetMsg a b then [(a.validator, b.validator)] else []) := by
  rw [addPair, pairAgrees]
  cases lmAJB_eq : a.justifications.get? b.validator with
  | none => exact returns_pure.mpr (append_nil result).symm
  | some lmAJB =>
    cases lmBJA_eq : b.justifications.get? a.validator with
    | none => exact returns_pure.mpr (append_nil result).symm
    | some lmBJA =>
      refine returns_bind.mpr ⟨_, complete.never_returns target_known b_readable.1
        (a_readable.2 _ _ lmAJB_eq), ?_⟩
      refine returns_bind.mpr ⟨_, complete.never_returns target_known a_readable.1
        (b_readable.2 _ _ lmBJA_eq), ?_⟩
      split
      · exact returns_pure.mpr rfl
      · exact returns_pure.mpr (append_nil result).symm

theorem Complete.addPairs_returns (target_known : dag.Known targetMsg)
    (pairwiseValidators : List PairwiseValidator)
    (readable : ∀ a ∈ pairwiseValidators, a.Readable dag) (result : List (Validator × Validator)) :
    Returns (addPairs (direct dag) (walkRounds dag) targetMsg result pairwiseValidators)
      (result ++ agreeingPairs dag targetMsg pairwiseValidators) := by
  induction pairwiseValidators generalizing result with
  | nil => exact returns_pure.mpr (append_nil result).symm
  | cons a rest ih =>
    have a_readable := readable a (.head _)
    have rest_readable : ∀ b ∈ rest, b.Readable dag :=
      fun b present => readable b (.tail a present)
    have folded := foldlM_eq_pure (fun result b present =>
      complete.addPair_returns target_known a_readable (rest_readable b present) result) result
    rw [foldl_append_ite] at folded
    rw [addPairs, agreeingPairs, ← append_assoc]
    exact returns_bind.mpr ⟨_, folded, ih rest_readable _⟩

end

/-- One of two different validators comes first. -/
theorem mem_agreeingPairs (differ : v ≠ w) :
    (v, w) ∈ agreeingPairs dag targetMsg pairwiseValidators ∨
        (w, v) ∈ agreeingPairs dag targetMsg pairwiseValidators ↔
      ∃ a ∈ pairwiseValidators, ∃ b ∈ pairwiseValidators, a.validator = v ∧ b.validator = w ∧
        pairAgrees dag targetMsg a b := by
  induction pairwiseValidators with
  | nil => simp [agreeingPairs]
  | cons first rest ih =>
    have mem_first (v w : Validator) :
        (v, w) ∈ (rest.filter (pairAgrees dag targetMsg first)).map
            (fun b => (first.validator, b.validator)) ↔
          first.validator = v ∧ ∃ b ∈ rest, b.validator = w ∧
            pairAgrees dag targetMsg first b := by
      grind
    rw [agreeingPairs, mem_append, mem_append, mem_first, mem_first, or_or_or_comm, ih]
    constructor
    · rintro ((⟨rfl, b, present, rfl, agrees⟩ | ⟨rfl, b, present, rfl, agrees⟩) |
        ⟨a, a_present, b, b_present, agree⟩)
      · exact ⟨first, .head _, b, .tail _ present, rfl, rfl, agrees⟩
      · exact ⟨b, .tail _ present, first, .head _, rfl, rfl, pairAgrees_comm b first ▸ agrees⟩
      · exact ⟨a, .tail _ a_present, b, .tail _ b_present, agree⟩
    · rintro ⟨a, a_present, b, b_present, rfl, rfl, agrees⟩
      rcases mem_cons.mp a_present with rfl | a_later
      · rcases mem_cons.mp b_present with rfl | b_later
        · exact absurd rfl differ
        · exact .inl (.inl ⟨rfl, b, b_later, rfl, agrees⟩)
      · rcases mem_cons.mp b_present with rfl | b_later
        · exact .inl (.inr ⟨rfl, a, a_later, rfl, pairAgrees_comm a b ▸ agrees⟩)
        · exact .inr ⟨a, a_later, b, b_later, rfl, rfl, agrees⟩

/-- The latest messages of two validators justify each other, and neither of the validators
will disagree on the target. -/
def Agrees (dag : KeyValueDagRepresentation) (targetMsg : BlockHash) (v w : Validator) : Prop :=
  ∃ lm lm' all all' lmJ lmJ', dag.latestMessageHash v = some lm ∧
    dag.latestMessageHash w = some lm' ∧ latestJustifications dag lm = .ok all ∧
    latestJustifications dag lm' = .ok all' ∧ all.get? w = some lmJ ∧ all'.get? v = some lmJ' ∧
    noDisagreement dag targetMsg lm' lmJ = true ∧ noDisagreement dag targetMsg lm lmJ' = true

theorem pairwiseOf_eq_some :
    pairwiseOf dag agreeingValidators validator = some a ↔
      a.validator = validator ∧ dag.latestMessageHash validator = some a.latest ∧
        ∃ all, latestJustifications dag a.latest = .ok all ∧
          a.justifications = all.filter (fun entry => (agreeingValidators.get? entry.1).isSome) ∧
            a.justifications.entries ≠ [] := by
  obtain ⟨v, lm, justifications⟩ := a
  simp only [pairwiseOf, bind_eq_bind, bind_eq_some_iff, ite_none_left_eq_some, Option.some.injEq,
    PairwiseValidator.mk.injEq, List.isEmpty_iff]
  constructor
  · rintro ⟨latest, is_latest, all, computed, not_empty, rfl, rfl, rfl⟩
    exact ⟨rfl, is_latest, all, toOption_eq_some.mp computed, rfl, not_empty⟩
  · rintro ⟨rfl, is_latest, all, computed, rfl, not_empty⟩
    exact ⟨lm, is_latest, all, toOption_eq_some.mpr computed, not_empty, rfl, rfl, rfl⟩

/-- Among the agreeing validators the pairs do not depend on who else agrees. -/
theorem pairAgrees_iff (v_agrees : (agreeingValidators.get? v).isSome)
    (w_agrees : (agreeingValidators.get? w).isSome) :
    (∃ a b, pairwiseOf dag agreeingValidators v = some a ∧
        pairwiseOf dag agreeingValidators w = some b ∧ pairAgrees dag targetMsg a b) ↔
      Agrees dag targetMsg v w := by
  constructor
  · rintro ⟨a, b, a_found, b_found, agrees⟩
    obtain ⟨rfl, a_latest, all, computed, a_eq, -⟩ := pairwiseOf_eq_some.mp a_found
    obtain ⟨rfl, b_latest, all', computed', b_eq, -⟩ := pairwiseOf_eq_some.mp b_found
    rw [pairAgrees] at agrees
    split at agrees
    case h_2 => cases agrees
    case h_1 lmAJB lmBJA lmAJB_eq lmBJA_eq =>
      rw [a_eq, get?_filter] at lmAJB_eq
      rw [b_eq, get?_filter] at lmBJA_eq
      obtain ⟨b_safe, a_safe⟩ := and_eq_true_iff.mp agrees
      exact ⟨a.latest, b.latest, all, all', lmAJB, lmBJA, a_latest, b_latest, computed, computed',
        lmAJB_eq.1, lmBJA_eq.1, b_safe, a_safe⟩
  · rintro ⟨lm, lm', all, all', lmJ, lmJ', latest, latest', computed, computed', found, found',
      safe, safe'⟩
    have kept : (all.filter fun entry => (agreeingValidators.get? entry.1).isSome).get? w =
        some lmJ := get?_filter.mpr ⟨found, w_agrees⟩
    have kept' : (all'.filter fun entry => (agreeingValidators.get? entry.1).isSome).get? v =
        some lmJ' := get?_filter.mpr ⟨found', v_agrees⟩
    generalize relevant_eq : (all.filter fun entry => (agreeingValidators.get? entry.1).isSome) =
      relevant at kept
    generalize relevant_eq' : (all'.filter fun entry =>
      (agreeingValidators.get? entry.1).isSome) = relevant' at kept'
    have not_empty := ne_nil_of_mem (get?_eq_some_iff.mp kept)
    have not_empty' := ne_nil_of_mem (get?_eq_some_iff.mp kept')
    refine ⟨⟨v, lm, relevant⟩, ⟨w, lm', relevant'⟩,
      pairwiseOf_eq_some.mpr ⟨rfl, latest, all, computed, relevant_eq.symm, not_empty⟩,
      pairwiseOf_eq_some.mpr ⟨rfl, latest', all', computed', relevant_eq'.symm, not_empty'⟩, ?_⟩
    rw [pairAgrees]
    rw [kept, kept']
    exact and_eq_true_iff.mpr ⟨safe, safe'⟩

theorem get?_sortedKeys (keys : List Validator) (start : SortedMap Validator Unit)
    (validator : Validator) :
    ((keys.foldl (fun validators validator => validators.insert validator ()) start).get?
        validator).isSome ↔ validator ∈ keys ∨ (start.get? validator).isSome := by
  induction keys generalizing start with
  | nil => simp
  | cons first rest ih =>
    rw [foldl_cons, ih, get?_insert, mem_cons]
    by_cases same : validator = first
    · simp [same]
    · simp [same]

theorem Complete.computeAgreeingValidatorPairs_returns (complete : Complete dag)
    (target_known : dag.Known targetMsg) (weights : WeightMap) :
    ∃ edges, Returns (computeAgreeingValidatorPairs (direct dag) (walkRounds dag) targetMsg
        weights) edges ∧
      ∀ v w, (graph edges).Adj v w ↔
        v ≠ w ∧ v ∈ weights.keys ∧ w ∈ weights.keys ∧ Agrees dag targetMsg v w := by
  let agreeingValidators : SortedMap Validator Unit :=
    weights.keys.foldl (fun validators validator => validators.insert validator ()) .empty
  have agreeing_iff (validator : Validator) :
      (agreeingValidators.get? validator).isSome ↔ validator ∈ weights.keys := by
    have not_empty : ¬((empty : SortedMap Validator Unit).get? validator).isSome :=
      fun absurd_some => by cases absurd_some
    exact (get?_sortedKeys weights.keys .empty validator).trans (or_iff_left not_empty)
  have mem_pairwise (a : PairwiseValidator) :
      a ∈ agreeingValidators.keys.filterMap (pairwiseOf dag agreeingValidators) ↔
        (agreeingValidators.get? a.validator).isSome ∧
          pairwiseOf dag agreeingValidators a.validator = some a := by
    rw [mem_filterMap]
    constructor
    · rintro ⟨validator, present, found⟩
      obtain ⟨same, -⟩ := pairwiseOf_eq_some.mp found
      rw [same]
      exact ⟨mem_keys_iff.mp present, found⟩
    · rintro ⟨present, found⟩
      exact ⟨a.validator, mem_keys_iff.mpr present, found⟩
  have readable : ∀ a ∈ agreeingValidators.keys.filterMap (pairwiseOf dag agreeingValidators),
      a.Readable dag := by
    intro a present
    obtain ⟨-, is_latest, all, computed, justifications_eq, -⟩ :=
      pairwiseOf_eq_some.mp ((mem_pairwise a).mp present).2
    refine ⟨complete.latest _ _ is_latest, fun validator hash found => ?_⟩
    rw [justifications_eq, get?_filter] at found
    exact complete.known_of_justification computed found.1
  refine ⟨agreeingPairs dag targetMsg
    (agreeingValidators.keys.filterMap (pairwiseOf dag agreeingValidators)), ?_, ?_⟩
  · refine returns_bind.mpr ⟨_, complete.pairwiseValidators_returns agreeingValidators
      agreeingValidators.keys [], ?_⟩
    exact complete.addPairs_returns target_known _ readable []
  · intro v w
    refine and_congr_right fun differ => ?_
    rw [mem_agreeingPairs differ]
    constructor
    · rintro ⟨a, a_present, b, b_present, rfl, rfl, agrees⟩
      obtain ⟨a_agrees, a_found⟩ := (mem_pairwise a).mp a_present
      obtain ⟨b_agrees, b_found⟩ := (mem_pairwise b).mp b_present
      exact ⟨(agreeing_iff _).mp a_agrees, (agreeing_iff _).mp b_agrees,
        (pairAgrees_iff a_agrees b_agrees).mp ⟨a, b, a_found, b_found, agrees⟩⟩
    · rintro ⟨v_listed, w_listed, agrees⟩
      have v_agrees := (agreeing_iff v).mpr v_listed
      have w_agrees := (agreeing_iff w).mpr w_listed
      obtain ⟨a, b, a_found, b_found, pair⟩ := (pairAgrees_iff v_agrees w_agrees).mpr agrees
      obtain ⟨rfl, -⟩ := pairwiseOf_eq_some.mp a_found
      obtain ⟨rfl, -⟩ := pairwiseOf_eq_some.mp b_found
      exact ⟨a, (mem_pairwise a).mpr ⟨v_agrees, a_found⟩, b,
        (mem_pairwise b).mpr ⟨w_agrees, b_found⟩,
        rfl, rfl, pair⟩

end F1r3fly.Casper.CliqueOracle
