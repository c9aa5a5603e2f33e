import Mathlib.Algebra.Order.BigOperators.Group.Finset
import Mathlib.Combinatorics.SimpleGraph.Clique
import F1r3fly.Data.SortBy
import F1r3fly.Data.HashOrder

/-! The weight of a heaviest clique of a graph, found by a search that extends cliques and
leaves out branches that cannot get heavier than the best one so far. -/
namespace F1r3fly.Casper.Clique

open HashedSet

variable {A : Type} [BEq A] [LawfulBEq A]

def getNodeSet (e : List (A × A)) : HashedSet A := .ofList (e.flatMap fun it => [it.1, it.2])

def getAdj (e : List (A × A)) : HashedMap A (HashedSet A) :=
  let directedEdges := e.flatMap fun it => [(it.1, it.2), (it.2, it.1)]
  (directedEdges.filter fun edge => edge.1 != edge.2).foldl
    (fun map edge => map.upsert edge.1 .empty (·.insert edge.2)) .empty

def neighbors (adj : HashedMap A (HashedSet A)) (v : A) : HashedSet A := (adj.get? v).getD .empty

def weight (weights : HashedMap A Int64) (v : A) : Int := ((weights.get? v).getD 0).toInt

section Search

variable [HashMapOrder] (adj : HashedMap A (HashedSet A)) (weights : HashedMap A Int64)

def choosePivot (p x : HashedSet A) : Option A :=
  maxBy (fun v w => compare (p.intersection (neighbors adj v)).size
    (p.intersection (neighbors adj w)).size) (p.union x).iter

/-- The best weight after all extensions of `ans` by vertices of `p`. The vertices of `x` were
tried before. Every call has fewer candidates, which bounds the fuel. -/
def expandMaxWeight : Nat → List A → Int → HashedSet A → HashedSet A → Int → Int
  | 0, _, _, _, _, bestWeight => bestWeight
  | fuel + 1, ans, ansWeight, p, x, bestWeight =>
    if p.isEmpty && x.isEmpty then
      if !ans.isEmpty && ansWeight > bestWeight then ansWeight else bestWeight
    else if p.isEmpty then bestWeight
    else
      let remainingWeight := (p.iter.map (weight weights)).sum
      if ansWeight + remainingWeight ≤ bestWeight then bestWeight
      else
        match choosePivot adj p x with
        | none => bestWeight
        | some pivot =>
          let candidates := (p.difference (neighbors adj pivot)).iter
          (candidates.foldl (fun (state : HashedSet A × HashedSet A × Int) v =>
            (state.1.erase v, state.2.1.insert v,
              expandMaxWeight fuel (ans ++ [v]) (ansWeight + weight weights v)
                (state.1.intersection (neighbors adj v))
                (state.2.1.intersection (neighbors adj v)) state.2.2)) (p, x, bestWeight)).2.2

end Search

/-- The sums are exact. -/
def findMaximumCliqueByWeight [HashMapOrder] (edges : List (A × A))
    (weights : HashedMap A Int64) : Int :=
  let nodes := getNodeSet edges
  let bestWeight := ((weights.iter.map fun entry => entry.2.toInt).max?).getD 0
  expandMaxWeight (getAdj edges) weights (nodes.size + 1) [] 0 nodes .empty bestWeight

def graph (edges : List (A × A)) : SimpleGraph A := .fromRel fun a b => (a, b) ∈ edges

theorem mem_getNodeSet {a : A} : a ∈ getNodeSet edges ↔ ∃ b, (a, b) ∈ edges ∨ (b, a) ∈ edges := by
  rw [getNodeSet, mem_ofList]
  constructor
  · rintro ⟨c, listed, same⟩
    rw [← eq_of_beq same] at listed
    obtain ⟨⟨b, d⟩, edge, ends⟩ := mem_flatMap.mp listed
    rcases mem_cons.mp ends with rfl | last
    · exact ⟨d, .inl edge⟩
    · rw [mem_singleton.mp last]
      exact ⟨b, .inr edge⟩
  · rintro ⟨b, edge | edge⟩
    · exact ⟨a, mem_flatMap.mpr ⟨_, edge, (.head _)⟩, beq_self_eq_true a⟩
    · exact ⟨a, mem_flatMap.mpr ⟨_, edge, mem_cons_of_mem _ (.head _)⟩,
        beq_self_eq_true a⟩

theorem mem_neighbors_foldl {directed : List (A × A)} :
    b ∈ neighbors (directed.foldl
        (fun map edge => map.upsert edge.1 .empty (·.insert edge.2)) map) a ↔
      (a, b) ∈ directed ∨ b ∈ neighbors map a := by
  refine (foldl_iff_or (b ∈ neighbors · a) ((a, b) = ·) fun map edge => ?_).trans
    (by simp [or_comm])
  rw [neighbors, HashedMap.get?_upsert]
  split_ifs with same
  · rw [getD_some, mem_insert, beq_iff_eq, Prod.ext_iff, and_iff_right (eq_of_beq same),
      or_comm]
    exact Iff.rfl
  · have not_edge : (a, b) ≠ edge := by
      rintro rfl
      exact same (beq_self_eq_true a)
    simp [not_edge, neighbors]

theorem mem_neighbors_getAdj {edges : List (A × A)} :
    b ∈ neighbors (getAdj edges) a ↔ (graph edges).Adj a b := by
  have none_before : b ∉ neighbors (HashedMap.empty : HashedMap A (HashedSet A)) a :=
    not_mem_empty b
  rw [getAdj, mem_neighbors_foldl, or_iff_left none_before, graph, SimpleGraph.fromRel_adj,
    mem_filter, bne_iff_ne, and_comm]
  refine and_congr_right fun _ => ?_
  simp only [mem_flatMap, mem_cons, Prod.mk.injEq, not_mem_nil, or_false, Prod.exists]
  constructor
  · rintro ⟨c, d, edge, ⟨rfl, rfl⟩ | ⟨rfl, rfl⟩⟩
    · exact .inl edge
    · exact .inr edge
  · rintro (edge | edge)
    · exact ⟨a, b, edge, .inl ⟨rfl, rfl⟩⟩
    · exact ⟨b, a, edge, .inr ⟨rfl, rfl⟩⟩

def Bounded (G : SimpleGraph A) (nodes : HashedSet A) (w : A → Int) (vertices : List A)
    (best : Int) : Prop :=
  ∀ clique : Finset A, G.IsClique clique → (∀ v ∈ clique, v ∈ nodes) →
    (∀ v ∈ vertices, v ∈ clique) → ∑ v ∈ clique, w v ≤ best

/-- A branch of the search: `p` and `x` have all the vertices that extend the clique, and the
cliques with a vertex of `x` are already bounded. -/
structure Branch (G : SimpleGraph A) (nodes : HashedSet A) (w : A → Int) (ans : List A)
    (p x : HashedSet A) (best : Int) : Prop where
  nodup : ans.Nodup
  clique : ∀ v ∈ ans, ∀ u ∈ ans, v ≠ u → G.Adj v u
  inside : ∀ v ∈ ans, v ∈ nodes
  within : ∀ v, v ∈ p ∨ v ∈ x → v ∈ nodes ∧ ∀ a ∈ ans, G.Adj a v
  complete : ∀ v ∈ nodes, (∀ a ∈ ans, G.Adj a v) → v ∈ p ∨ v ∈ x
  tried : ∀ v ∈ x, Bounded G nodes w (v :: ans) best
  nonneg : 0 ≤ best

section Search

variable {G : SimpleGraph A} {nodes : HashedSet A} {w : A → Int} {ans : List A}
  {p x : HashedSet A} {best : Int}

omit [LawfulBEq A] in
theorem Bounded.mono (bounded : Bounded G nodes w vertices best) (le : best ≤ larger) :
    Bounded G nodes w vertices larger :=
  fun clique is_clique inside contains => (bounded clique is_clique inside contains).trans le

omit [LawfulBEq A] in
theorem Branch.extend (branch : Branch G nodes w ans p x best) (candidate : v ∈ p)
    (mem_p : ∀ u, u ∈ p' ↔ u ∈ p ∧ G.Adj v u) (mem_x : ∀ u, u ∈ x' ↔ u ∈ x ∧ G.Adj v u) :
    Branch G nodes w (ans ++ [v]) p' x' best where
  nodup := by
    refine nodup_append.mpr ⟨branch.nodup, List.nodup_singleton v, ?_⟩
    intro a a_listed b b_listed
    rw [mem_singleton.mp b_listed]
    rintro rfl
    exact G.irrefl ((branch.within a (.inl candidate)).2 a a_listed)
  clique := by
    have adjacent := (branch.within v (.inl candidate)).2
    simp only [forall_mem_append, forall_mem_singleton]
    refine ⟨fun a a_old => ⟨branch.clique a a_old, fun _ => adjacent a a_old⟩, ?_, ?_⟩
    · exact fun b b_old _ => (adjacent b b_old).symm
    · exact fun differ => absurd rfl differ
  inside := by
    simp only [forall_mem_append, forall_mem_singleton]
    exact ⟨branch.inside, (branch.within v (.inl candidate)).1⟩
  within := by
    intro u member
    have kept : (u ∈ p ∨ u ∈ x) ∧ G.Adj v u := by
      rcases member with in_p | in_x
      · exact ⟨.inl ((mem_p u).mp in_p).1, ((mem_p u).mp in_p).2⟩
      · exact ⟨.inr ((mem_x u).mp in_x).1, ((mem_x u).mp in_x).2⟩
    obtain ⟨inside, adjacent⟩ := branch.within u kept.1
    simp only [forall_mem_append, forall_mem_singleton]
    exact ⟨inside, adjacent, kept.2⟩
  complete := by
    intro u inside adjacent
    have adjacent_new := adjacent v (mem_append_right ans (mem_singleton_self v))
    rcases branch.complete u inside fun a old => adjacent a (mem_append_left [v] old) with
      in_p | in_x
    · exact .inl ((mem_p u).mpr ⟨in_p, adjacent_new⟩)
    · exact .inr ((mem_x u).mpr ⟨in_x, adjacent_new⟩)
  tried := by
    intro u in_x clique is_clique inside contains
    obtain ⟨has_u, others⟩ := forall_mem_cons.mp contains
    exact branch.tried u ((mem_x u).mp in_x).1 clique is_clique inside
      (forall_mem_cons.mpr ⟨has_u, (forall_mem_append.mp others).1⟩)
  nonneg := branch.nonneg

theorem Branch.tryNext (branch : Branch G nodes w ans p x best) (candidate : v ∈ p)
    (le : best ≤ larger) (bounded : Bounded G nodes w (ans ++ [v]) larger) :
    Branch G nodes w ans (p.erase v) (x.insert v) larger where
  nodup := branch.nodup
  clique := branch.clique
  inside := branch.inside
  within := by
    intro u member
    apply branch.within u
    rcases member with in_p | in_x
    · exact .inl (mem_erase.mp in_p).1
    · rcases mem_insert.mp in_x with same | old
      · rw [eq_of_beq same]
        exact .inl candidate
      · exact .inr old
  complete := by
    intro u inside adjacent
    rcases branch.complete u inside adjacent with in_p | in_x
    · by_cases same : u = v
      · exact .inr (mem_insert.mpr (.inl (beq_iff_eq.mpr same)))
      · exact .inl (mem_erase.mpr ⟨in_p, beq_false_of_ne same⟩)
    · exact .inr (mem_insert.mpr (.inr in_x))
  tried := by
    intro u in_x
    rcases mem_insert.mp in_x with same | old
    · rw [eq_of_beq same]
      intro clique is_clique inside contains
      obtain ⟨has_v, others⟩ := forall_mem_cons.mp contains
      exact bounded clique is_clique inside
        (forall_mem_append.mpr ⟨others, forall_mem_singleton.mpr has_v⟩)
    · exact (branch.tried u old).mono le
  nonneg := branch.nonneg.trans le

omit [LawfulBEq A] in
theorem weight_le_of_extension (nonneg : ∀ v, 0 ≤ w v) {clique : Finset A}
    (is_clique : G.IsClique clique) (inside : ∀ v ∈ clique, v ∈ nodes)
    (contains : ∀ v ∈ vertices, v ∈ clique) (new : u ∉ clique) (u_inside : u ∈ nodes)
    (adjacent : ∀ v ∈ clique, G.Adj u v) (bounded : Bounded G nodes w (u :: vertices) best) :
    ∑ v ∈ clique, w v ≤ best := by
  classical
  have extended := bounded (insert u clique)
    (by
      rw [Finset.coe_insert]
      exact is_clique.insert fun v member _ => adjacent v member)
    ((Finset.forall_mem_insert ..).mpr ⟨u_inside, inside⟩)
    (forall_mem_cons.mpr ⟨Finset.mem_insert_self u clique,
      fun v old => Finset.mem_insert_of_mem (contains v old)⟩)
  rw [Finset.sum_insert new] at extended
  have weight_nonneg := nonneg u
  omega

/-- The cliques that extend a branch only by candidates weigh no more than all candidates. -/
theorem weight_le_remaining [HashMapOrder] (nonneg : ∀ v, 0 ≤ w v) (nodup : ans.Nodup)
    (candidates : ∀ v ∈ clique, v ∉ ans → v ∈ p) :
    ∑ v ∈ clique, w v ≤ (ans.map w).sum + (p.iter.map w).sum := by
  classical
  have iter_sum : (p.iter.map w).sum = (p.elements.map w).sum :=
    ((HashMapOrder.perm p.elements).map w).sum_eq
  have elements_nodup : p.elements.Nodup := p.distinct.imp fun differ => ne_of_beq_false differ
  rw [iter_sum, ← List.sum_toFinset w nodup, ← List.sum_toFinset w elements_nodup,
    ← Finset.sum_filter_add_sum_filter_not clique (· ∈ ans)]
  apply add_le_add
  · refine Finset.sum_le_sum_of_subset_of_nonneg ?_ fun v _ _ => nonneg v
    intro v member
    exact List.mem_toFinset.mpr (Finset.mem_filter.mp member).2
  · refine Finset.sum_le_sum_of_subset_of_nonneg ?_ fun v _ _ => nonneg v
    intro v member
    obtain ⟨in_clique, not_old⟩ := Finset.mem_filter.mp member
    exact List.mem_toFinset.mpr (mem_elements_iff.mpr (candidates v in_clique not_old))

theorem size_lt_of_mem {small large : HashedSet A} (subset : ∀ v ∈ small, v ∈ large)
    (missing : v ∉ small) (present : v ∈ large) : small.size < large.size := by
  have small_nodup : (v :: small.elements).Nodup :=
    nodup_cons.mpr ⟨fun member => missing (mem_elements_iff.mp member),
      small.distinct.imp fun differ => ne_of_beq_false differ⟩
  have included : v :: small.elements ⊆ large.elements :=
    List.cons_subset.mpr ⟨mem_elements_iff.mpr present,
      fun u old => mem_elements_iff.mpr (subset u (mem_elements_iff.mp old))⟩
  exact (List.subperm_of_subset small_nodup included).length_le

structure Found (G : SimpleGraph A) (nodes : HashedSet A) (w : A → Int) (ans : List A)
    (best after : Int) : Prop where
  le : best ≤ after
  bounded : Bounded G nodes w ans after
  attained : after = best ∨ ∃ clique : Finset A, G.IsClique clique ∧ ∑ v ∈ clique, w v = after

section

variable (branch : Branch G nodes w ans p x best)
include branch

theorem Branch.found_of_maximal (no_p : ∀ v, v ∉ p) (no_x : ∀ v, v ∉ x) : Found G nodes w ans best
      (if !ans.isEmpty && (ans.map w).sum > best then (ans.map w).sum else best) := by
  classical
  have ans_only {clique : Finset A} (is_clique : G.IsClique clique)
      (inside : ∀ v ∈ clique, v ∈ nodes) (contains : ∀ v ∈ ans, v ∈ clique) :
      ∑ v ∈ clique, w v = (ans.map w).sum := by
    have same : clique = ans.toFinset := by
      ext v
      rw [List.mem_toFinset]
      refine ⟨fun member => ?_, contains v⟩
      by_contra not_listed
      rcases branch.complete v (inside v member) fun a listed =>
        is_clique (contains a listed) member fun same => not_listed (same ▸ listed) with in_p | in_x
      · exact no_p v in_p
      · exact no_x v in_x
    rw [same, List.sum_toFinset w branch.nodup]
  have ans_clique : G.IsClique ans.toFinset := by
    intro v v_member u u_member differ
    exact branch.clique v (List.mem_toFinset.mp v_member) u (List.mem_toFinset.mp u_member) differ
  split_ifs with better
  · rw [and_eq_true, decide_eq_true_eq] at better
    refine ⟨better.2.le, ?_, .inr ⟨ans.toFinset, ans_clique, List.sum_toFinset w branch.nodup⟩⟩
    intro clique is_clique inside contains
    exact (ans_only is_clique inside contains).le
  · refine ⟨le_rfl, ?_, .inl rfl⟩
    intro clique is_clique inside contains
    rw [ans_only is_clique inside contains]
    by_contra heavier
    apply better
    rw [and_eq_true, decide_eq_true_eq]
    refine ⟨?_, not_le.mp heavier⟩
    cases ans with
    | nil => exact absurd branch.nonneg heavier
    | cons a rest => rfl

omit [LawfulBEq A] in
/-- Only cliques that extend the branch by candidates are left to be bounded. -/
theorem Branch.bounded
    (bounded : ∀ clique : Finset A, G.IsClique clique → (∀ v ∈ clique, v ∈ nodes) →
      (∀ v ∈ ans, v ∈ clique) → (∀ v ∈ clique, v ∉ x) → (∀ v ∈ clique, v ∉ ans → v ∈ p) →
        ∑ v ∈ clique, w v ≤ best) : Bounded G nodes w ans best := by
  intro clique is_clique inside contains
  by_cases tried : ∃ v ∈ clique, v ∈ x
  · obtain ⟨v, member, in_x⟩ := tried
    exact branch.tried v in_x clique is_clique inside (forall_mem_cons.mpr ⟨member, contains⟩)
  · push Not at tried
    refine bounded clique is_clique inside contains tried fun v member not_listed => ?_
    refine (branch.complete v (inside v member) fun a listed => ?_).resolve_right (tried v member)
    exact is_clique (contains a listed) member fun same => not_listed (same ▸ listed)

theorem Branch.bounded_of_tried (nonneg : ∀ v, 0 ≤ w v)
    (u_member : u ∈ p ∨ u ∈ x) (others : ∀ v, v ∈ p → v ≠ u ∧ G.Adj u v) :
    Bounded G nodes w ans best := by
  obtain ⟨u_inside, u_adjacent⟩ := branch.within u u_member
  have u_in_x : u ∈ x := u_member.resolve_left fun in_p => (others u in_p).1 rfl
  refine branch.bounded fun clique is_clique inside contains untried candidates => ?_
  have adjacent : ∀ v ∈ clique, G.Adj u v := by
    intro v member
    by_cases listed : v ∈ ans
    · exact (u_adjacent v listed).symm
    · exact (others v (candidates v member listed)).2
  exact weight_le_of_extension nonneg is_clique inside contains
    (fun member => untried u member u_in_x) u_inside adjacent (branch.tried u u_in_x)

end

theorem Branch.foldl_candidates {call : A → HashedSet A → HashedSet A → Int → Int}
    (next : A → HashedSet A → HashedSet A)
    (calls : ∀ v p x best, Branch G nodes w ans p x best → v ∈ p → p.size < limit →
      Found G nodes w (ans ++ [v]) best (call v (next v p) (next v x) best))
    (candidates : List A) (distinct : candidates.Nodup) (branch : Branch G nodes w ans p x best)
    (enough : p.size < limit) (listed : ∀ v ∈ candidates, v ∈ p) :
    ∃ p' x' after, candidates.foldl (fun (state : HashedSet A × HashedSet A × Int) v =>
        (state.1.erase v, state.2.1.insert v, call v (next v state.1) (next v state.2.1) state.2.2))
        (p, x, best) = (p', x', after) ∧
      Branch G nodes w ans p' x' after ∧ best ≤ after ∧ (∀ v ∈ p', v ∈ p ∧ v ∉ candidates) ∧
      (∀ v ∈ p, v ∈ p' ∨ v ∈ x') ∧ (∀ v ∈ x, v ∈ x') ∧
      (after = best ∨ ∃ clique : Finset A, G.IsClique clique ∧ ∑ v ∈ clique, w v = after) := by
  induction candidates generalizing p x best with
  | nil => exact ⟨p, x, best, rfl, branch, le_rfl, by simp, fun v => .inl, fun v => id, .inl rfl⟩
  | cons v rest ih =>
    have v_member := listed v (.head _)
    have found := calls v p x best branch v_member enough
    have fewer : (p.erase v).size < limit := (List.length_filter_le _ _).trans_lt enough
    obtain ⟨v_new, rest_distinct⟩ := nodup_cons.mp distinct
    obtain ⟨p', x', after, folded, after_branch, le, left, moved, kept, attained⟩ :=
      ih rest_distinct (branch.tryNext v_member found.le found.bounded) fewer (by
        intro u member
        refine mem_erase.mpr ⟨listed u (.tail v member), ?_⟩
        exact beq_false_of_ne fun same => v_new (same ▸ member))
    refine ⟨p', x', after, folded, after_branch, found.le.trans le, ?_, ?_, ?_, ?_⟩
    · intro u member
      obtain ⟨in_erased, not_rest⟩ := left u member
      obtain ⟨in_p, differs⟩ := mem_erase.mp in_erased
      refine ⟨in_p, fun in_candidates => ?_⟩
      rcases mem_cons.mp in_candidates with rfl | later
      · exact ne_of_beq_false differs rfl
      · exact not_rest later
    · intro u in_p
      by_cases same : u = v
      · exact .inr (kept u (mem_insert.mpr (.inl (beq_iff_eq.mpr same))))
      · exact moved u (mem_erase.mpr ⟨in_p, beq_false_of_ne same⟩)
    · exact fun u in_x => kept u (mem_insert.mpr (.inr in_x))
    · rcases attained with unchanged | clique
      · rw [unchanged]
        exact found.attained
      · exact .inr clique

end Search

theorem mem_of_choosePivot [HashMapOrder] {pivot : A} (chosen : choosePivot adj p x = some pivot) :
    pivot ∈ p ∨ pivot ∈ x := by
  have listed := mem_iter.mp (maxBy_mem chosen)
  exact mem_union.mp (mem_elements_iff.mp listed)

variable {weights : HashedMap A Int64}

/-- The search bounds all cliques that extend the one it starts with. -/
theorem expandMaxWeight_found [HashMapOrder] {edges : List (A × A)}
    (nonneg : ∀ v, 0 ≤ weight weights v) (fuel : Nat) (ans : List A) (p x : HashedSet A)
    (best : Int) (branch : Branch (graph edges) nodes (weight weights) ans p x best)
    (enough : p.size < fuel) :
    Found (graph edges) nodes (weight weights) ans best
      (expandMaxWeight (getAdj edges) weights fuel ans
        (ans.map (weight weights)).sum p x best) := by
  induction fuel generalizing ans p x best with
  | zero => omega
  | succ fuel ih =>
    rw [expandMaxWeight]
    split
    case isTrue nothing =>
      rw [and_eq_true] at nothing
      exact branch.found_of_maximal (isEmpty_iff.mp nothing.1) (isEmpty_iff.mp nothing.2)
    case isFalse something =>
      split
      case isTrue no_p =>
        have not_empty : ¬x.isEmpty := fun no_x =>
          something (and_eq_true_iff.mpr ⟨no_p, no_x⟩)
        rw [HashedSet.isEmpty_iff] at not_empty
        push Not at not_empty
        obtain ⟨u, in_x⟩ := not_empty
        refine ⟨le_rfl, branch.bounded_of_tried nonneg (.inr in_x) ?_, .inl rfl⟩
        exact fun v in_p => absurd in_p (isEmpty_iff.mp no_p v)
      case isFalse some_p =>
        dsimp only
        split
        case isTrue light =>
          -- A branch whose candidates are too light is left out.
          refine ⟨le_rfl, branch.bounded fun clique _ _ _ _ candidates => ?_, .inl rfl⟩
          exact (weight_le_remaining nonneg branch.nodup candidates).trans light
        case isFalse heavy =>
          cases chosen : choosePivot (getAdj edges) p x with
          | none =>
            -- there is a candidate, so there is a pivot
            have no_union : (p.union x).iter = [] := by
              rw [choosePivot] at chosen
              cases listed : (p.union x).iter with
              | nil => rfl
              | cons first rest =>
                rw [listed] at chosen
                cases chosen
            rw [HashedSet.isEmpty_iff] at some_p
            push Not at some_p
            obtain ⟨v, in_p⟩ := some_p
            have listed : v ∈ (p.union x).iter := mem_iter.mpr
              (mem_elements_iff.mpr (mem_union.mpr (.inl in_p)))
            rw [no_union] at listed
            cases listed
          | some pivot =>
            have calls (v : A) (p x : HashedSet A) (best : Int)
                (branch : Branch (graph edges) nodes (weight weights) ans p x best)
                (candidate : v ∈ p) (enough : p.size < fuel + 1) :
                Found (graph edges) nodes (weight weights) (ans ++ [v]) best
                  (expandMaxWeight (getAdj edges) weights fuel (ans ++ [v])
                    ((ans.map (weight weights)).sum + weight weights v)
                    (p.intersection (neighbors (getAdj edges) v))
                    (x.intersection (neighbors (getAdj edges) v)) best) := by
              have mem_next (s : HashedSet A) (u : A) :
                  u ∈ s.intersection (neighbors (getAdj edges) v) ↔
                    u ∈ s ∧ (graph edges).Adj v u := by
                rw [mem_intersection, mem_neighbors_getAdj]
              have fewer : (p.intersection (neighbors (getAdj edges) v)).size < p.size :=
                size_lt_of_mem (fun u member => ((mem_next p u).mp member).1)
                  (fun member => (graph edges).irrefl ((mem_next p v).mp member).2) candidate
              have sum_eq : (ans.map (weight weights)).sum + weight weights v =
                  ((ans ++ [v]).map (weight weights)).sum := by simp
              rw [sum_eq]
              exact ih _ _ _ _ (branch.extend candidate (mem_next p) (mem_next x)) (by omega)
            have distinct : (p.difference (neighbors (getAdj edges) pivot)).iter.Nodup :=
              (HashMapOrder.perm _).nodup_iff.mpr
                ((p.difference _).distinct.imp fun differ => ne_of_beq_false differ)
            have mem_candidates (v : A) : v ∈ (p.difference (neighbors (getAdj edges) pivot)).iter ↔
                v ∈ p ∧ ¬(graph edges).Adj pivot v := by
              rw [mem_iter, mem_elements_iff, mem_difference, mem_neighbors_getAdj]
            obtain ⟨p', x', after, folded, after_branch, le, left, moved, kept, attained⟩ :=
              branch.foldl_candidates (fun v s => s.intersection (neighbors (getAdj edges) v))
                calls _ distinct enough fun v member => ((mem_candidates v).mp member).1
            dsimp only
            rw [folded]
            have pivot_member : pivot ∈ p' ∨ pivot ∈ x' :=
              (mem_of_choosePivot chosen).elim (moved pivot) fun in_x => .inr (kept pivot in_x)
            refine ⟨le, after_branch.bounded_of_tried nonneg pivot_member ?_, attained⟩
            · intro v member
              obtain ⟨in_p, not_candidate⟩ := left v member
              have adjacent : (graph edges).Adj pivot v := by
                by_contra not_adjacent
                exact not_candidate ((mem_candidates v).mpr ⟨in_p, not_adjacent⟩)
              exact ⟨adjacent.ne', adjacent⟩

theorem weight_nonneg (nonneg : ∀ entry ∈ weights.entries, 0 ≤ entry.2.toInt) (v : A) :
    0 ≤ weight weights v := by
  rw [weight]
  cases found : weights.get? v with
  | none => rfl
  | some stake =>
    obtain ⟨key, present, -⟩ := HashedMap.get?_eq_some_iff.mp found
    exact nonneg _ present

theorem start_spec [HashMapOrder]
    (nonneg : ∀ entry ∈ weights.entries, 0 ≤ entry.2.toInt)
    (start_eq : ((weights.iter.map fun entry => entry.2.toInt).max?).getD 0 = start) :
    0 ≤ start ∧ (∀ v, weight weights v ≤ start) ∧ (start = 0 ∨ ∃ v, weight weights v = start) := by
  cases largest : (weights.iter.map fun entry => entry.2.toInt).max? with
  | none =>
    rw [largest] at start_eq
    subst start_eq
    have no_entries : weights.entries = [] := by
      have no_weights := List.map_eq_nil_iff.mp (List.max?_eq_none_iff.mp largest)
      exact length_eq_zero_iff.mp ((HashMapOrder.perm weights.entries).length_eq ▸
        congrArg List.length no_weights)
    refine ⟨le_rfl, fun v => ?_, .inl rfl⟩
    have not_found : weights.get? v = none := HashedMap.get?_eq_none_iff.mpr (by
      rw [HashedMap.keys, no_entries]
      simp)
    rw [weight, not_found]
    rfl
  | some top =>
    rw [largest, getD_some] at start_eq
    subst start_eq
    obtain ⟨top_listed, top_largest⟩ := List.max?_eq_some_iff.mp largest
    obtain ⟨entry, entry_listed, rfl⟩ := mem_map.mp top_listed
    have present := HashedMap.mem_iter.mp entry_listed
    refine ⟨nonneg entry present, fun v => ?_, .inr ⟨entry.1, ?_⟩⟩
    · rw [weight]
      cases found : weights.get? v with
      | none => exact nonneg entry present
      | some stake =>
        obtain ⟨key, key_present, -⟩ := HashedMap.get?_eq_some_iff.mp found
        exact top_largest _ (mem_map_of_mem (HashedMap.mem_iter.mpr key_present))
    · rw [weight, HashedMap.get?_of_mem present]
      rfl

/-- A clique with one vertex may not have a node. -/
theorem clique_cases {clique : Finset A} (is_clique : (graph edges).IsClique clique) :
    (∀ v ∈ clique, v ∈ getNodeSet edges) ∨ ∃ v, clique = {v} := by
  by_cases inside : ∀ v ∈ clique, v ∈ getNodeSet edges
  · exact .inl inside
  · push Not at inside
    obtain ⟨v, member, outside⟩ := inside
    refine .inr ⟨v, Finset.eq_singleton_iff_unique_mem.mpr ⟨member, fun u u_member => ?_⟩⟩
    by_contra differ
    have adjacent := is_clique member u_member (Ne.symm differ)
    exact outside (mem_getNodeSet.mpr ⟨u, adjacent.2⟩)

section Greatest

variable [HashMapOrder] (edges : List (A × A))
  (nonneg : ∀ entry ∈ weights.entries, 0 ≤ entry.2.toInt)

include nonneg

/-- The weight is that of a heaviest clique, whatever the order in which sets are iterated. -/
theorem findMaximumCliqueByWeight_isGreatest :
    IsGreatest {total | ∃ clique : Finset A, (graph edges).IsClique clique ∧
      ∑ v ∈ clique, weight weights v = total} (findMaximumCliqueByWeight edges weights) := by
  rw [findMaximumCliqueByWeight]
  generalize start_eq : ((weights.iter.map fun entry => entry.2.toInt).max?).getD 0 = start
  obtain ⟨start_nonneg, start_largest, start_attained⟩ := start_spec nonneg start_eq
  have branch : Branch (graph edges) (getNodeSet edges) (weight weights) [] (getNodeSet edges)
      .empty start := by
    refine ⟨List.nodup_nil, by simp, by simp, ?_, ?_, ?_, start_nonneg⟩
    · intro v member
      exact ⟨member.resolve_right (not_mem_empty v), by simp⟩
    · exact fun v inside _ => .inl inside
    · exact fun v member => absurd member (not_mem_empty v)
  have found := expandMaxWeight_found (weight_nonneg nonneg) _ [] _ _ _ branch (Nat.lt_succ_self _)
  constructor
  · rcases found.attained with unchanged | attained
    · rcases start_attained with zero | ⟨v, largest⟩
      · exact ⟨∅, by simp, (Finset.sum_empty.trans zero.symm).trans unchanged.symm⟩
      · exact ⟨{v}, by simp, ((Finset.sum_singleton _ v).trans largest).trans unchanged.symm⟩
    · exact attained
  · rintro total ⟨clique, is_clique, rfl⟩
    rcases clique_cases is_clique with inside | ⟨v, rfl⟩
    · exact found.bounded clique is_clique inside (by simp)
    · rw [Finset.sum_singleton]
      exact (start_largest v).trans found.le

/-- The weight is the greatest one of a single vertex that has a weight, or of a clique of the
nodes of the edges. -/
theorem findMaximumCliqueByWeight_maximum :
    IsGreatest ({total | ∃ v ∈ weights.keys, weight weights v = total} ∪
      {total | ∃ clique : Finset A, (∀ v ∈ clique, v ∈ getNodeSet edges) ∧
        (graph edges).IsClique clique ∧ ∑ v ∈ clique, weight weights v = total})
      (findMaximumCliqueByWeight edges weights) := by
  obtain ⟨⟨clique, is_clique, sum_eq⟩, largest⟩ :=
    findMaximumCliqueByWeight_isGreatest edges nonneg
  constructor
  · rcases clique_cases is_clique with inside | ⟨v, rfl⟩
    · exact .inr ⟨clique, inside, is_clique, sum_eq⟩
    · rw [Finset.sum_singleton] at sum_eq
      by_cases weighed : v ∈ weights.keys
      · exact .inl ⟨v, weighed, sum_eq⟩
      · -- a vertex without a weight is no heavier than no vertex at all
        have missing : weights.get? v = none :=
          Option.not_isSome_iff_eq_none.mp (mt HashedMap.mem_keys_iff.mpr weighed)
        refine .inr ⟨∅, by simp, by simp, ?_⟩
        rw [Finset.sum_empty, ← sum_eq, weight, missing]
        rfl
  · rintro total (⟨v, -, rfl⟩ | ⟨clique, -, is_clique, rfl⟩)
    · exact largest ⟨{v}, by simp, Finset.sum_singleton _ v⟩
    · exact largest ⟨clique, is_clique, rfl⟩

end Greatest

attribute [local instance] storedOrder

/-- The heaviest vertex is on no edge below, and the two others are heavier together. -/
def sampleWeights : HashedMap Nat Int64 := .ofList [(0, 3), (1, 4), (2, 5)]

theorem findMaximumCliqueByWeight_maximum_of_edge :
    IsGreatest ({total | ∃ v ∈ sampleWeights.keys, weight sampleWeights v = total} ∪
      {total | ∃ clique : Finset Nat, (∀ v ∈ clique, v ∈ getNodeSet [(0, 1)]) ∧
        (graph [(0, 1)]).IsClique clique ∧ ∑ v ∈ clique, weight sampleWeights v = total})
      (findMaximumCliqueByWeight [(0, 1)] sampleWeights) :=
  findMaximumCliqueByWeight_maximum [(0, 1)] (by decide)

end F1r3fly.Casper.Clique
