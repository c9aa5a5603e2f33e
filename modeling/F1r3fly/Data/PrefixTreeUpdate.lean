import F1r3fly.Data.PrefixTree

/-! Insertion, removal and compaction of path-compressed trees, with the map each result denotes. -/
namespace F1r3fly.PrefixTree

open Function

variable {α β : Type}

def prepend (front : List α) : Tree α β → Tree α β
  | .empty => .empty
  | .leaf segment value => .leaf (front ++ segment) value
  | .branch segment children => .branch (front ++ segment) children

open Classical in
/-- The branch over `children`, or what is left of it when fewer than two
children hold a word. -/
noncomputable def compact (segment : List α) (children : α → Tree α β) : Tree α β :=
  if _two : ∃ a b, a ≠ b ∧ children a ≠ .empty ∧ children b ≠ .empty then
    .branch segment children
  else if one : ∃ a, children a ≠ .empty then
    prepend (segment ++ [one.choose]) (children one.choose)
  else .empty

variable {segment : List α} {children : α → Tree α β} {tree : Tree α β}

theorem compact_branch (different : a ≠ b) (ha : children a ≠ .empty) (hb : children b ≠ .empty) :
    compact segment children = .branch segment children := by
  rw [compact, dif_pos ⟨a, b, different, ha, hb⟩]

theorem compact_single (inhabited : children a ≠ .empty)
    (others : ∀ b, b ≠ a → children b = .empty) :
    compact segment children = prepend (segment ++ [a]) (children a) := by
  have alone : ∀ b, children b ≠ .empty → b = a := by
    intro b hb
    by_contra different
    exact hb (others b different)
  have notTwo : ¬ ∃ b c, b ≠ c ∧ children b ≠ .empty ∧ children c ≠ .empty := by
    rintro ⟨b, c, different, hb, hc⟩
    exact different ((alone b hb).trans (alone c hc).symm)
  have one : ∃ b, children b ≠ .empty := ⟨a, inhabited⟩
  rw [compact, dif_neg notTwo, dif_pos one, alone _ one.choose_spec]

theorem compact_empty (vacant : ∀ a, children a = .empty) : compact segment children = .empty := by
  have notTwo : ¬ ∃ b c, b ≠ c ∧ children b ≠ .empty ∧ children c ≠ .empty := by
    rintro ⟨b, _, _, hb, _⟩
    exact hb (vacant b)
  have notOne : ¬ ∃ b, children b ≠ .empty := by
    rintro ⟨b, hb⟩
    exact hb (vacant b)
  rw [compact, dif_neg notTwo, dif_neg notOne]

theorem children_cases (children : α → Tree α β) :
    (∀ a, children a = .empty) ∨
    (∃ a, children a ≠ .empty ∧ ∀ b, b ≠ a → children b = .empty) ∨
    ∃ a b, a ≠ b ∧ children a ≠ .empty ∧ children b ≠ .empty := by
  by_cases one : ∃ a, children a ≠ .empty
  · obtain ⟨a, inhabited⟩ := one
    grind
  · grind

theorem canonical_prepend_iff (front : List α) :
    Canonical (front.length + n) (prepend front tree) ↔ Canonical n tree := by
  cases tree <;> simp [prepend, Canonical, Nat.add_sub_add_left]

theorem Canonical.of_prepend (canonical : Canonical n (PrefixTree.prepend front tree)) :
    Canonical (n - front.length) tree := by
  cases tree with
  | empty => trivial
  | leaf segment held =>
    simp only [PrefixTree.prepend, Canonical, List.length_append] at canonical ⊢
    omega
  | branch segment children =>
    simp only [PrefixTree.prepend, Canonical, List.length_append, Nat.sub_add_eq] at canonical ⊢
    exact ⟨by omega, canonical.2⟩

theorem canonical_compact (short : segment.length < n)
    (inner : ∀ letter, Canonical (n - segment.length - 1) (children letter)) :
    Canonical n (compact segment children) := by
  rcases children_cases children with vacant | ⟨a, inhabited, others⟩ | fork
  · rw [compact_empty vacant]; trivial
  · rw [compact_single inhabited others]
    have canonical := (canonical_prepend_iff (segment ++ [a])).mpr (inner a)
    have same : (segment ++ [a]).length + (n - segment.length - 1) = n := by
      simp only [List.length_append, List.length_singleton]; omega
    rwa [same] at canonical
  · obtain ⟨a, b, different, ha, hb⟩ := fork
    rw [compact_branch different ha hb]
    exact ⟨short, inner, a, b, different, ha, hb⟩

theorem Canonical.compact_eq (canonical : Canonical n (.branch segment children)) :
    compact segment children = .branch segment children := by
  obtain ⟨_, _, a, b, different, ha, hb⟩ := canonical
  exact compact_branch different ha hb

variable [DecidableEq α]

theorem lookup_prepend_iff :
    lookup (prepend front tree) word = some value ↔
      ∃ rest, word = front ++ rest ∧ lookup tree rest = some value := by
  cases tree with
  | empty => simp [prepend, lookup]
  | leaf segment held =>
    simp only [prepend, lookup]
    constructor
    · intro found
      split at found
      · rename_i same
        exact ⟨segment, same, by simpa using found⟩
      · contradiction
    · rintro ⟨rest, rfl, found⟩
      split at found
      · rename_i same
        simpa [same] using found
      · contradiction
  | branch segment children =>
    simp only [prepend, lookup_branch_iff, List.append_assoc]
    constructor
    · rintro ⟨rest, rfl, found⟩
      exact ⟨segment ++ rest, rfl, rest, rfl, found⟩
    · rintro ⟨_, rfl, rest, rfl, found⟩
      exact ⟨rest, rfl, found⟩

theorem lookup_compact (segment word : List α) (children : α → Tree α β) :
    lookup (compact segment children) word = lookup (.branch segment children) word := by
  apply Option.ext
  intro value
  rcases children_cases children with vacant | ⟨a, inhabited, others⟩ | ⟨a, b, different, ha, hb⟩
  · rw [compact_empty vacant, lookup_branch_iff]
    simp only [lookup, reduceCtorEq, false_iff, not_exists, not_and]
    rintro rest - found
    cases rest <;> simp [lookupFamily, vacant, lookup] at found
  · rw [compact_single inhabited others, lookup_prepend_iff, lookup_branch_iff]
    constructor
    · rintro ⟨rest, rfl, found⟩
      exact ⟨a :: rest, by simp, found⟩
    · rintro ⟨rest, rfl, found⟩
      cases rest with
      | nil => simp [lookupFamily] at found
      | cons letter rest =>
        by_cases same : letter = a
        · subst same
          exact ⟨rest, by simp, found⟩
        · simp [lookupFamily, others letter same, lookup] at found
  · rw [compact_branch different ha hb]

/-- The longest common front of two words and what follows it in each. -/
def split : List α → List α → List α × List α × List α
  | a :: left, b :: right =>
    if a = b then
      ((a :: (split left right).1), (split left right).2)
    else ([], a :: left, b :: right)
  | left, right => ([], left, right)

theorem split_fork (different : a ≠ b) (front left right : List α) :
    split (front ++ a :: left) (front ++ b :: right) = (front, a :: left, b :: right) := by
  induction front with
  | nil => simp [split, different]
  | cons head front ih => simp [split, ih]

theorem split_front (front rest : List α) : split front (front ++ rest) = (front, [], rest) := by
  induction front with
  | nil => cases rest <;> simp [split]
  | cons head front ih => simp [split, ih]

theorem split_back (front rest : List α) : split (front ++ rest) front = (front, rest, []) := by
  induction front with
  | nil => cases rest <;> simp [split]
  | cons head front ih => simp [split, ih]

/-- Two words part at a letter unless one of them is a front of the other. -/
theorem split_cases (left right : List α) :
    (∃ rest, right = left ++ rest) ∨ (∃ rest, left = right ++ rest) ∨
    ∃ front a b l r, a ≠ b ∧ left = front ++ a :: l ∧ right = front ++ b :: r := by
  induction left generalizing right with
  | nil => exact .inl ⟨right, rfl⟩
  | cons a left ih =>
    cases right with
    | nil => exact .inr (.inl ⟨a :: left, rfl⟩)
    | cons b right =>
      by_cases same : a = b
      · subst same
        rcases ih right with ⟨rest, rfl⟩ | ⟨rest, rfl⟩ | ⟨front, c, d, l, r, different, rfl, rfl⟩
        · exact .inl ⟨rest, rfl⟩
        · exact .inr (.inl ⟨rest, rfl⟩)
        · exact .inr (.inr ⟨a :: front, c, d, l, r, different, rfl, rfl⟩)
      · exact .inr (.inr ⟨[], a, b, left, right, same, rfl, rfl⟩)

theorem exists_append_of_split {left right : List α} (covered : (split left right).2.2 = []) :
    ∃ rest, left = right ++ rest := by
  rcases split_cases left right with ⟨rest, rfl⟩ | behind | ⟨front, a, b, l, r, different, rfl, rfl⟩
  · rw [split_front] at covered
    cases covered
    exact ⟨[], by simp⟩
  · exact behind
  · rw [split_fork different] at covered
    cases covered

/-- Two words of one length are equal or part at a letter. -/
theorem eq_or_fork {left right : List α} (lengths : left.length = right.length) :
    left = right ∨ ∃ front a b l r, a ≠ b ∧ left = front ++ a :: l ∧ right = front ++ b :: r := by
  rcases split_cases left right with ⟨rest, rfl⟩ | ⟨rest, rfl⟩ | fork
  case inr.inr => exact .inr fork
  all_goals
    have vacant : rest = [] := List.length_eq_zero_iff.mp (by simpa using lengths)
    exact .inl (by simp [vacant])

def pair (a : α) (left : Tree α β) (b : α) (right : Tree α β) : α → Tree α β :=
  update (update (fun _ => .empty) a left) b right

theorem forall_pair (P : Tree α β → Prop) (vacant : P .empty)
    (hl : P left) (hr : P right) (letter : α) : P (pair a left b right letter) :=
  (forall_update_iff _ fun _ => P).mpr ⟨hr, fun letter _ =>
    (forall_update_iff _ fun _ => P).mpr ⟨hl, fun _ _ => vacant⟩ letter⟩ letter

theorem lookupFamily_update (children : α → Tree α β) (letter : α) (tree : Tree α β)
    (word : List α) :
    lookupFamily (update children letter tree) word =
      if word.head? = some letter then lookup tree word.tail else lookupFamily children word := by
  cases word with
  | nil => simp [lookupFamily]
  | cons head rest =>
    by_cases same : head = letter
    · subst same; simp [lookupFamily]
    · simp [lookupFamily, same]

theorem canonical_pair (different : a ≠ b) (hl : Canonical m left)
    (hr : Canonical m right) (leftInhabited : left ≠ .empty) (rightInhabited : right ≠ .empty)
    (fits : n = segment.length + 1 + m) : Canonical n (.branch segment (pair a left b right)) := by
  have width : n - segment.length - 1 = m := by omega
  refine ⟨by omega, ?_, a, b, different, ?_, ?_⟩
  · rw [width]
    exact forall_pair (Canonical m) trivial hl hr
  · simpa [pair, update_of_ne different] using leftInhabited
  · simpa [pair] using rightInhabited

/-- Changing one child at one word changes the branch at one word. -/
theorem lookup_branch_update
    (changed : ∀ word, lookup tree word = if word = rest then result
      else lookup (children letter) word) (segment word : List α) :
    lookup (.branch segment (update children letter tree)) word =
      if word = segment ++ letter :: rest then result
      else lookup (.branch segment children) word := by
  by_cases inside : ∃ tail, word = segment ++ tail
  · obtain ⟨tail, rfl⟩ := inside
    rw [lookup_branch_append, lookup_branch_append, lookupFamily_update]
    cases tail with
    | nil => simp
    | cons head tail =>
      by_cases same : head = letter
      · subst same
        simp [changed, lookupFamily]
      · simp [same]
  · have outside : ∀ tail, word ≠ segment ++ tail := fun tail same => inside ⟨tail, same⟩
    rw [lookup_branch_none outside, lookup_branch_none outside, if_neg (outside _)]

theorem canonical_update (canonical : Canonical n (.branch segment children))
    (child : Canonical (n - segment.length - 1) tree) (inhabited : tree ≠ .empty) :
    Canonical n (.branch segment (update children letter tree)) := by
  obtain ⟨short, inner, a, b, different, ha, hb⟩ := canonical
  have kept : ∀ c, children c ≠ .empty → update children letter tree c ≠ .empty :=
    (forall_update_iff children fun c child => children c ≠ .empty → child ≠ .empty).mpr
      ⟨fun _ => inhabited, fun c _ hc => hc⟩
  refine ⟨short, ?_, a, b, different, kept a ha, kept b hb⟩
  exact (forall_update_iff children fun _ => Canonical _).mpr ⟨child, fun c _ => inner c⟩

theorem lookup_fork_iff {left right : Tree α β} (different : a ≠ b) :
    lookup (.branch front (pair a left b right)) word = some value ↔
      lookup (prepend (front ++ [a]) left) word = some value ∨
      lookup (prepend (front ++ [b]) right) word = some value := by
  rw [lookup_branch_iff, lookup_prepend_iff, lookup_prepend_iff]
  simp only [pair, lookupFamily_update]
  constructor
  · rintro ⟨rest, rfl, found⟩
    cases rest with
    | nil => simp [lookupFamily] at found
    | cons letter rest =>
      by_cases hb : letter = b
      · subst hb
        exact .inr ⟨rest, by simp, by simpa using found⟩
      · by_cases ha : letter = a
        · subst ha
          exact .inl ⟨rest, by simp, by simpa [hb] using found⟩
        · simp [hb, ha, lookupFamily, lookup] at found
  · rintro (⟨rest, rfl, found⟩ | ⟨rest, rfl, found⟩)
    · exact ⟨a :: rest, by simp, by simpa [different] using found⟩
    · exact ⟨b :: rest, by simp, by simpa using found⟩

theorem lookup_fork_leaf (tree : Tree α β) (different : a ≠ b) (front fresh word : List α)
    (value : β) :
    lookup (.branch front (pair a tree b (.leaf fresh value))) word =
      if word = front ++ b :: fresh then some value
      else lookup (prepend (front ++ [a]) tree) word := by
  apply Option.ext
  intro held
  rw [lookup_fork_iff different]
  by_cases new : word = front ++ b :: fresh
  · have outside : ¬ lookup (prepend (front ++ [a]) tree) word = some held := by
      rw [lookup_prepend_iff]
      rintro ⟨rest, same, _⟩
      rw [new, List.append_assoc, List.append_cancel_left_eq] at same
      exact different (List.cons.inj same).1.symm
    simp [new, prepend, lookup] at outside ⊢
    tauto
  · simp [new, prepend, lookup]

def insert : Tree α β → List α → β → Tree α β
  | .empty, word, value => .leaf word value
  | .leaf segment held, word, value =>
    match split segment word with
    | (front, a :: old, b :: fresh) =>
      .branch front (pair a (.leaf old held) b (.leaf fresh value))
    | _ => .leaf word value
  | .branch segment children, word, value =>
    match split segment word with
    | (_, [], b :: fresh) =>
      .branch segment (update children b (insert (children b) fresh value))
    | (front, a :: old, b :: fresh) =>
      .branch front (pair a (.branch old children) b (.leaf fresh value))
    | _ => .branch segment children

theorem insert_ne_empty (tree : Tree α β) (word : List α) (value : β) :
    insert tree word value ≠ .empty := by
  fun_cases insert tree word value <;> simp

theorem insert_spec (canonical : Canonical n tree) (fits : word.length = n) (value : β) :
    Canonical n (insert tree word value) ∧ ∀ other, lookup (insert tree word value) other =
      if other = word then some value else lookup tree other := by
  induction tree generalizing n word with
  | empty => exact ⟨fits, fun other => rfl⟩
  | leaf segment held =>
    have held : segment.length = n := canonical
    rcases eq_or_fork (held.trans fits.symm) with rfl | ⟨front, a, b, l, r, different, rfl, rfl⟩
    · have whole : split segment segment = (segment, [], []) := by
        simpa using split_front segment []
      simp only [insert, whole, lookup]
      refine ⟨held, fun other => ?_⟩
      split <;> rfl
    · rw [insert, split_fork different]
      simp only [List.length_append, List.length_cons] at held fits
      have width : r.length = l.length := by omega
      refine ⟨canonical_pair (m := l.length) different rfl width (by simp) (by simp) (by omega), ?_⟩
      intro other
      simpa [prepend] using lookup_fork_leaf (.leaf l _) different front r other value
  | branch segment children ih =>
    obtain ⟨short, inner, c, d, apart, hc, hd⟩ := canonical
    rcases split_cases segment word with ⟨rest, rfl⟩ | ⟨rest, rfl⟩ | fork
    · cases rest with
      | nil => simp at fits; omega
      | cons b fresh =>
        have width : fresh.length = n - segment.length - 1 := by
          simp only [List.length_append, List.length_cons] at fits; omega
        obtain ⟨child, changed⟩ := ih b (inner b) width
        rw [insert, split_front]
        exact ⟨canonical_update ⟨short, inner, c, d, apart, hc, hd⟩ child (insert_ne_empty _ _ _),
          lookup_branch_update changed segment⟩
    · simp at short fits; omega
    · obtain ⟨front, a, b, l, r, different, rfl, rfl⟩ := fork
      rw [insert, split_fork different]
      simp only [List.length_append, List.length_cons] at short fits
      have width : n - (front ++ a :: l).length - 1 = r.length - l.length - 1 := by
        simp only [List.length_append, List.length_cons]; omega
      rw [width] at inner
      refine ⟨canonical_pair (m := r.length) different ⟨by omega, inner, c, d, apart, hc, hd⟩ rfl
        (by simp) (by simp) (by omega), ?_⟩
      intro other
      simpa [prepend] using lookup_fork_leaf (.branch l children) different front r other value

noncomputable def erase : Tree α β → List α → Tree α β
  | .empty, _ => .empty
  | .leaf segment held, word => if word = segment then .empty else .leaf segment held
  | .branch segment children, word =>
    match word.dropPrefix? segment with
    | some (letter :: rest) =>
      compact segment (update children letter (erase (children letter) rest))
    | _ => .branch segment children

theorem erase_branch_outside (outside : ¬ ∃ letter rest, word = segment ++ letter :: rest) :
    erase (.branch segment children) word = .branch segment children := by
  simp only [erase]
  split
  · rename_i letter rest dropped
    exact absurd ⟨letter, rest, dropPrefix_iff.mp dropped⟩ outside
  · rfl

theorem erase_spec (canonical : Canonical n tree) (word : List α) :
    Canonical n (erase tree word) ∧ ∀ other, lookup (erase tree word) other =
      if other = word then none else lookup tree other := by
  induction tree generalizing n word with
  | empty => exact ⟨trivial, fun other => by simp [erase, lookup]⟩
  | leaf segment held =>
    rw [erase]
    split_ifs with same
    · refine ⟨trivial, fun other => ?_⟩
      by_cases here : other = word <;> simp [lookup, ← same, here]
    · refine ⟨canonical, fun other => ?_⟩
      by_cases here : other = word <;> simp [lookup, here, same]
  | branch segment children ih =>
    by_cases inside : ∃ letter rest, word = segment ++ letter :: rest
    · obtain ⟨letter, rest, rfl⟩ := inside
      obtain ⟨short, inner, _⟩ := canonical
      obtain ⟨child, changed⟩ := ih letter (inner letter) rest
      have dropped : (segment ++ letter :: rest).dropPrefix? segment = some (letter :: rest) :=
        dropPrefix_iff.mpr rfl
      simp only [erase, dropped, lookup_compact]
      refine ⟨canonical_compact short ?_, lookup_branch_update changed segment⟩
      exact (forall_update_iff children fun _ => Canonical _).mpr ⟨child, fun c _ => inner c⟩
    · have absent : lookup (.branch segment children) word = none := by
        apply Option.eq_none_iff_forall_ne_some.mpr
        intro value found
        obtain ⟨rest, same, family⟩ := lookup_branch_iff.mp found
        cases rest with
        | nil => simp [lookupFamily] at family
        | cons letter rest => exact inside ⟨letter, rest, same⟩
      rw [erase_branch_outside inside]
      refine ⟨canonical, fun other => ?_⟩
      split_ifs with here
      · rw [here, absent]
      · rfl

/-- The words of a tree, one letter in: a leaf or a branch with a segment becomes
the only child of its first letter. -/
def expand : Tree α β → α → Tree α β
  | .leaf (letter :: segment) value =>
    update (fun _ => .empty) letter (.leaf segment value)
  | .branch (letter :: segment) children =>
    update (fun _ => .empty) letter (.branch segment children)
  | .branch [] children => children
  | _ => fun _ => .empty

theorem canonical_expand (canonical : Canonical (n + 1) tree) (letter : α) :
    Canonical n (expand tree letter) := by
  cases tree with
  | empty => trivial
  | leaf segment value =>
    cases segment with
    | nil => trivial
    | cons head segment =>
      by_cases same : letter = head
      · subst same
        simpa [expand, Canonical] using canonical
      · simp [expand, update_of_ne same, Canonical]
  | branch segment children =>
    obtain ⟨short, inner, fork⟩ := canonical
    cases segment with
    | nil => exact inner letter
    | cons head segment =>
      by_cases same : letter = head
      · subst same
        simp only [List.length_cons] at short
        simp only [expand, update_self]
        refine ⟨by omega, ?_, fork⟩
        intro other
        have width : n - segment.length - 1 = n + 1 - (letter :: segment).length - 1 := by simp
        rw [width]
        exact inner other
      · simp [expand, update_of_ne same, Canonical]

theorem lookupFamily_single (letter : α) (tree : Tree α β) (word : List α) :
    lookupFamily (update (fun _ => .empty) letter tree) word =
      lookup (prepend [letter] tree) word := by
  apply Option.ext
  intro value
  rw [lookupFamily_update, lookup_prepend_iff]
  cases word with
  | nil => simp [lookupFamily]
  | cons head rest =>
    by_cases same : head = letter
    · simp [same]
    · simp [same, lookupFamily, lookup]

theorem lookupFamily_expand (canonical : Canonical (n + 1) tree) (word : List α) :
    lookupFamily (expand tree) word = lookup tree word := by
  cases tree with
  | empty => cases word <;> rfl
  | leaf segment value =>
    cases segment with
    | nil => simp [Canonical] at canonical
    | cons head segment => exact lookupFamily_single head (.leaf segment value) word
  | branch segment children =>
    cases segment with
    | nil => exact (lookup_branch_append [] word children).symm
    | cons head segment => exact lookupFamily_single head (.branch segment children) word

theorem compact_expand (canonical : Canonical (n + 1) tree) : compact [] (expand tree) = tree := by
  have compacted : Canonical (n + 1) (compact [] (expand tree)) :=
    canonical_compact (by simp) fun letter => by simpa using canonical_expand canonical letter
  refine canonical_unique compacted canonical ?_
  intro word
  rw [lookup_compact, ← lookupFamily_expand canonical word]
  exact lookup_branch_append [] word (expand tree)

end F1r3fly.PrefixTree
