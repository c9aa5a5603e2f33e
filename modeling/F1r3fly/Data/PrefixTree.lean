import Mathlib.Data.List.Basic

/-! Path-compressed trees over an arbitrary alphabet, read as partial maps from words to values.
Canonical trees never leave a branch with fewer than two inhabited children, so a map has one
canonical tree. -/
namespace F1r3fly.PrefixTree

/-- A branch stores the letters shared by all of its words once; `children`
is indexed by the letter that follows. -/
inductive Tree (α β : Type) where
  | empty
  | leaf (segment : List α) (value : β)
  | branch (segment : List α) (children : α → Tree α β)

/-- A segment shared by two words that part after `front` is at most `front`. -/
theorem shared_segment_le {segment : List α} (different : a ≠ b)
    (first : front ++ a :: u = segment ++ s)
    (second : front ++ b :: v = segment ++ t) : segment.length ≤ front.length := by
  by_contra longer
  have bound : front.length < segment.length := by omega
  have atFirst : (segment ++ s)[front.length]? = some a := by rw [← first]; simp
  have atSecond : (segment ++ t)[front.length]? = some b := by rw [← second]; simp
  rw [List.getElem?_append_left bound] at atFirst atSecond
  exact different (Option.some.inj (atFirst.symm.trans atSecond))

variable {α β : Type} [DecidableEq α]

variable {segment : List α}

theorem dropPrefix_iff : word.dropPrefix? segment = some rest ↔ word = segment ++ rest := by
  rw [List.dropPrefix?_eq_some_iff]
  constructor
  · rintro ⟨front, rfl, same⟩
    rw [eq_of_beq same]
  · rintro rfl
    exact ⟨segment, rfl, beq_self_eq_true segment⟩

def lookup : Tree α β → List α → Option β
  | .empty, _ => none
  | .leaf segment value, word => if word = segment then some value else none
  | .branch segment children, word =>
    match word.dropPrefix? segment with
    | some (letter :: rest) => lookup (children letter) rest
    | _ => none

/-- A family of children is itself a map: the first letter selects the child. -/
def lookupFamily (children : α → Tree α β) : List α → Option β
  | [] => none
  | letter :: rest => lookup (children letter) rest

/-- Reading a word ignores what the other children hold, so the family is a
congruence for the map it denotes. -/
theorem lookup_branch_append (segment word : List α) (children : α → Tree α β) :
    lookup (.branch segment children) (segment ++ word) = lookupFamily children word := by
  have dropped : (segment ++ word).dropPrefix? segment = some word := dropPrefix_iff.mpr rfl
  simp only [lookup, dropped]
  cases word <;> rfl

theorem lookup_branch_iff :
    lookup (.branch segment children) word = some value ↔
      ∃ rest, word = segment ++ rest ∧ lookupFamily children rest = some value := by
  constructor
  · intro found
    simp only [lookup] at found
    split at found
    · rename_i letter rest dropped
      exact ⟨letter :: rest, dropPrefix_iff.mp dropped, found⟩
    · contradiction
  · rintro ⟨rest, rfl, found⟩
    rwa [lookup_branch_append]

theorem lookup_branch_none (outside : ∀ rest, word ≠ segment ++ rest) :
    lookup (.branch segment children) word = none := by
  apply Option.eq_none_iff_forall_ne_some.mpr
  intro value found
  obtain ⟨rest, same, _⟩ := lookup_branch_iff.mp found
  exact outside rest same

/-- All words of the tree have length `n`, and every branch separates at least
two of them. -/
def Canonical : Nat → Tree α β → Prop
  | _, .empty => True
  | n, .leaf segment _ => segment.length = n
  | n, .branch segment children =>
    segment.length < n ∧ (∀ letter, Canonical (n - segment.length - 1) (children letter)) ∧
      ∃ a b, a ≠ b ∧ children a ≠ .empty ∧ children b ≠ .empty

theorem Canonical.exists_lookup {tree : Tree α β} (canonical : Canonical n tree)
    (inhabited : tree ≠ .empty) : ∃ word value, lookup tree word = some value := by
  induction tree generalizing n with
  | empty => exact absurd rfl inhabited
  | leaf segment held => exact ⟨segment, held, by simp [lookup]⟩
  | branch segment children ih =>
    obtain ⟨_, inner, a, _, _, ha, _⟩ := canonical
    obtain ⟨word, value, found⟩ := ih a (inner a) ha
    exact ⟨segment ++ a :: word, value, by rw [lookup_branch_append]; exact found⟩

/-- Two words that part right after the segment. They pin the segment down as
the longest segment shared by all words of the branch. -/
theorem Canonical.exists_fork (canonical : Canonical n (.branch segment children)) :
    ∃ a b u v x y, a ≠ b ∧
      lookup (.branch segment children) (segment ++ a :: u) = some x ∧
      lookup (.branch segment children) (segment ++ b :: v) = some y := by
  obtain ⟨_, inner, a, b, different, ha, hb⟩ := canonical
  obtain ⟨u, x, hu⟩ := (inner a).exists_lookup ha
  obtain ⟨v, y, hv⟩ := (inner b).exists_lookup hb
  refine ⟨a, b, u, v, x, y, different, ?_, ?_⟩
  · rw [lookup_branch_append]; exact hu
  · rw [lookup_branch_append]; exact hv

/-- One map, one canonical tree: no trace of the order in which words were
inserted or removed survives in the tree. -/
theorem canonical_unique {left right : Tree α β} (hl : Canonical n left) (hr : Canonical n right)
    (same : ∀ word, lookup left word = lookup right word) : left = right := by
  induction left generalizing n right with
  | empty =>
    by_contra different
    obtain ⟨word, value, found⟩ := hr.exists_lookup (Ne.symm different)
    rw [← same word] at found
    simp [lookup] at found
  | leaf segment held =>
    have here : lookup right segment = some held := by rw [← same]; simp [lookup]
    have only : ∀ word value, lookup right word = some value → word = segment := by
      intro word value found
      rw [← same] at found
      simp only [lookup] at found
      split at found
      · assumption
      · contradiction
    cases right with
    | empty => simp [lookup] at here
    | leaf other value =>
      simp only [lookup] at here
      split at here
      · rename_i eq
        cases Option.some.inj here
        rw [eq]
      · contradiction
    | branch other children =>
      obtain ⟨a, b, u, v, x, y, different, first, second⟩ := hr.exists_fork
      have forked := (only _ _ first).trans (only _ _ second).symm
      rw [List.append_cancel_left_eq, List.cons.injEq] at forked
      exact absurd forked.1 different
  | branch segment children ih =>
    obtain ⟨a, b, u, v, x, y, different, first, second⟩ := hl.exists_fork
    cases right with
    | empty => rw [same] at first; simp [lookup] at first
    | leaf other value =>
      rw [same] at first second
      simp only [lookup] at first second
      split at first
      · split at second
        · rename_i hf hs
          have forked := hf.trans hs.symm
          rw [List.append_cancel_left_eq, List.cons.injEq] at forked
          exact absurd forked.1 different
        · contradiction
      · contradiction
    | branch other others =>
      -- Each segment is shared by a fork of the other tree, so neither is longer.
      obtain ⟨c, d, u', v', x', y', different', first', second'⟩ := hr.exists_fork
      have segmentEq : segment = other := by
        obtain ⟨r₁, e₁, _⟩ := lookup_branch_iff.mp ((same _).symm.trans first)
        obtain ⟨r₂, e₂, _⟩ := lookup_branch_iff.mp ((same _).symm.trans second)
        obtain ⟨r₃, e₃, _⟩ := lookup_branch_iff.mp ((same _).trans first')
        obtain ⟨r₄, e₄, _⟩ := lookup_branch_iff.mp ((same _).trans second')
        have le₁ := shared_segment_le different e₁ e₂
        have le₂ := shared_segment_le different' e₃ e₄
        exact (List.append_inj e₁ (by omega)).1
      subst segmentEq
      have childrenEq : children = others := by
        funext letter
        refine ih letter (hl.2.1 letter) (hr.2.1 letter) ?_
        intro word
        have family := same (segment ++ letter :: word)
        rwa [lookup_branch_append, lookup_branch_append] at family
      rw [childrenEq]

end F1r3fly.PrefixTree
