import F1r3fly.RSpace.Merger.EventLogIndex
import F1r3fly.RSpace.Merger.TrieActions

/-! Number channels hold one number each. Changes of such a channel are merged by combining the
differences they make. -/
namespace F1r3fly.Rholang

open RSpace RSpace.Merger HashedSet SortedMap
open Results (Fallible mapM_eq_pure)

/-- Processes, of which the merger only tells single numbers from all others. -/
class RhoNumber (Par : Type) where
  createPar : Int64 → Par
  unapply : Par → Option Int64

structure ListParWithRandom (Par : Type) where
  pars : List Par
  randomState : ByteVector
deriving DecidableEq

/-- Splittable random generators; `mergeAll` is applied to two or more of them. -/
class Blake2b512Random (Random : Type) where
  ofBytes : ByteVector → Random
  toBytes : Random → ByteVector
  mergeAll : List Random → Random

/-- Asserts that there are at least two inputs to merge. -/
def Blake2b512Random.merge {Random : Type} [Blake2b512Random Random] (children : List Random) :
    Option Random :=
  if children.length ≥ 2 then some (mergeAll children) else none

/-- Reading back an encoded datum; bytes that are no encoding are a panic. -/
class DecodeDatum (A : Type) where
  decodeDatum : ByteVector → Option (Datum A)

export DecodeDatum (decodeDatum)

variable {Par : Type} [RhoNumber Par]

/-- The number of a value that is a single number; its generator is not read here. -/
def tryGetNumber (parWithRnd : ListParWithRandom Par) : Option Int64 :=
  if parWithRnd.pars.length ≠ 1 then none else parWithRnd.pars.head?.bind RhoNumber.unapply

/-- No number if there are no data; anything but one number is an error. -/
def convertToReadNumber [Debug Blake2b256Hash]
    (getData : Blake2b256Hash → Except MergerError (List (Datum (ListParWithRandom Par))))
    (hash : Blake2b256Hash) : Except MergerError (Option Int64) := do
  let data ← getData hash
  if data.length > 1 then
    throw (.mergeError ("Number channel " ++ Debug.debug hash ++ " has " ++ toString data.length ++
      " pre-state values; single-value invariant violated"))
  match data.head? with
  | none => return none
  | some datum =>
    match tryGetNumber datum.a with
    | some number => return some number
    | none => throw (.mergeError ("Number channel " ++ Debug.debug hash ++
        " pre-state value is non-numeric; channel-type invariant violated"))

section Merge

variable {C P K Random : Type} (Par : Type) [RhoNumber Par] [Blake2b]
  [Serialize (ListParWithRandom Par)] [DecodeDatum (ListParWithRandom Par)]
  [Blake2b512Random Random] [DecidableEq Random] [HashMapOrder]

def decodeRnd (parWithRndEncoded : ByteVector) : Option Random := do
  let datum : Datum (ListParWithRandom Par) ← decodeDatum parWithRndEncoded
  return Blake2b512Random.ofBytes datum.a.randomState

def createDatumEncoded (channelHash : Blake2b256Hash) (num : Int64) (rnd : Random) : ByteVector :=
  let parWithRnd : ListParWithRandom Par :=
    { pars := [RhoNumber.createPar num], randomState := Blake2b512Random.toBytes rnd }
  encodeDatum {
    a := parWithRnd
    persist := false
    source := {
      channelHash
      hash := hashProduce channelHash parWithRnd false
      persistent := false
      isDeterministic := true
      outputValue := []
      failed := false } }

/-- The generator of the only value added, or the generators of all of them merged. -/
def mergeRnd (added : List ByteVector) : Option Random :=
  if (ofList added).size = 1 then
    added.head?.bind (decodeRnd Par)
  else do
    let rndAdded ← added.mapM (decodeRnd Par)
    let sortedRnds := sortByKey Blake2b512Random.toBytes (ofList rndAdded).iter
    Blake2b512Random.merge sortedRnds

omit [RhoNumber Par] [Blake2b] [Serialize (ListParWithRandom Par)] in
/-- A generator for the merged value is there if all data that were added are the same one, or
if they come with different generators. -/
theorem mergeRnd_isSome_iff {generator : ByteVector → Random}
    (decodes : ∀ bytes ∈ added, decodeRnd Par bytes = some (generator bytes)) :
    (mergeRnd Par added : Option Random).isSome ↔
      added ≠ [] ∧ (∀ a ∈ added, ∀ b ∈ added, a = b) ∨
        ∃ a ∈ added, ∃ b ∈ added, generator a ≠ generator b := by
  rw [mergeRnd]
  split_ifs with single
  · obtain ⟨nonempty, same⟩ := size_ofList_eq_one_iff.mp single
    obtain ⟨first, rest, rfl⟩ := exists_cons_of_ne_nil nonempty
    refine iff_of_true ?_ (.inl ⟨nonempty, same⟩)
    rw [List.head?_cons, bind_some, decodes first (.head _)]
    rfl
  · have sizes : (sortByKey Blake2b512Random.toBytes
        (ofList (added.map generator)).iter).length =
          (ofList (added.map generator)).size :=
      ((sortBy_perm _ _).trans (HashMapOrder.perm _)).length_eq
    rw [mapM_eq_pure decodes, pure_bind, Blake2b512Random.merge, sizes,
      or_iff_right (single ∘ size_ofList_eq_one_iff.mpr)]
    simp only [Option.isSome_ite, ge_iff_le, Nat.succ_le_iff, one_lt_size_ofList,
      mem_map, exists_exists_and_eq_and]

def mergeNumber (initNum diff : Int64) : MergeType → Int64
  | .integerAdd => initNum + diff
  | .bitmaskOr => initNum ||| diff

variable {Par}

/-- The value of a number channel, from the base state and the combined difference. -/
def calculateNumberChannelMerge [Debug Blake2b256Hash] (Random : Type) [Blake2b512Random Random]
    [DecidableEq Random] (channelHash : Blake2b256Hash) (diff : Int64) (mergeType : MergeType)
    (changes : ChannelChange ByteVector)
    (getBaseData : Blake2b256Hash → Except MergerError (List (Datum (ListParWithRandom Par)))) :
    Fallible MergerError (HotStoreTrieAction C P (ListParWithRandom Par) K) := do
  let initNum ← liftM (convertToReadNumber getBaseData channelHash)
  let newVal := mergeNumber (initNum.getD 0) diff mergeType
  let newRnd : Random ← ExceptT.lift (mergeRnd Par changes.added)
  return .trieInsertBinaryProduce channelHash [createDatumEncoded Par channelHash newVal newRnd]

end Merge

section Diffs

variable {Key : Type} [LinearOrder Key]

/-- The values of the number channels after a deploy, or the differences it makes. -/
abbrev ChannelValues (Key : Type) [LT Key] := SortedMap Key (Int64 × MergeType)

def valueDiff (endVal prevVal : Int64) : MergeType → Int64
  | .integerAdd => endVal - prevVal
  | .bitmaskOr => endVal &&& ~~~prevVal

def diffStep (state : SortedMap Key Int64) (endValMap : ChannelValues Key) :
    ChannelValues Key × SortedMap Key Int64 :=
  endValMap.entries.foldl (fun (diffs, state) (ch, endVal, mergeType) =>
    match state.get? ch with
    | some prevVal => (diffs.insert ch (valueDiff endVal prevVal mergeType, mergeType),
        state.insert ch endVal)
    | none => (diffs, state)) (.empty, state)

def diffsFrom (state : SortedMap Key Int64) : List (ChannelValues Key) → List (ChannelValues Key)
  | [] => []
  | endValMap :: rest => (diffStep state endValMap).1 :: diffsFrom (diffStep state endValMap).2 rest

def calculateNumChannelDiff (channelValues : List (ChannelValues Key))
    (getInitialValue : Key → Option Int64) : List (ChannelValues Key) :=
  let uniqueKeys := ofList (channelValues.flatMap (·.keys))
  let state := uniqueKeys.elements.foldl
    (fun state key => state.insert key ((getInitialValue key).getD 0)) .empty
  diffsFrom state channelValues

/-- A value of a bitmask includes all bits of the one before. -/
def IncludesEarlier (earlier : Int64) : List (Int64 × MergeType) → Prop
  | [] => True
  | (value, mergeType) :: rest =>
    (mergeType = .bitmaskOr → earlier &&& value = earlier) ∧ IncludesEarlier value rest

def combineAll (value : Int64) (diffs : List (Int64 × MergeType)) : Int64 :=
  diffs.foldl (fun value diff => combineMergeableValue value diff.1 diff.2) value

theorem combine_valueDiff (included : mergeType = .bitmaskOr → earlier &&& value = earlier) :
    combineMergeableValue earlier (valueDiff value earlier mergeType) mergeType = value := by
  cases mergeType with
  | integerAdd =>
    rw [combineMergeableValue, valueDiff]
    grind
  | bitmaskOr =>
    have covered := included rfl
    rw [← Int64.toBitVec_inj] at covered ⊢
    ext i bound
    have bit := congrArg (·.getLsbD i) covered
    simp [combineMergeableValue, valueDiff] at bit ⊢
    grind

theorem get?_diffStep (state : SortedMap Key Int64) (endValMap : ChannelValues Key) (key : Key) :
    ((diffStep state endValMap).1.get? key, (diffStep state endValMap).2.get? key) =
      (endValMap.get? key).elim (none, state.get? key) fun value =>
        (state.get? key).elim (none, none) fun prevVal =>
          (some (valueDiff value.1 prevVal value.2, value.2), some value.1) := by
  have stepped := endValMap.foldl_entries
    (fun s : ChannelValues Key × SortedMap Key Int64 => (s.1.get? key, s.2.get? key))
    key fun seen value => seen.2.elim seen fun prevVal =>
      (some (valueDiff value.1 prevVal value.2, value.2), some value.1)
  rw [diffStep, stepped]
  · cases state.get? key <;> rfl
  · rintro ⟨diffs, state⟩ ⟨ch, endVal, mergeType⟩
    by_cases same : ch = key
    · subst same
      cases found : state.get? ch <;> simp [found, get?_insert]
    · cases found : state.get? ch <;> simp [found, same, Ne.symm same, get?_insert]

/-- The invariant is that the state has the last value of a channel that is still mentioned. -/
theorem diffsFrom_telescopes (maps : List (ChannelValues Key))
    (known : (∃ m ∈ maps, key ∈ m.keys) → state.get? key = some prevVal)
    (included : IncludesEarlier prevVal (maps.filterMap (·.get? key))) :
    combineAll prevVal ((diffsFrom state maps).filterMap (·.get? key)) =
      ((maps.filterMap (·.get? key)).getLast?.map (·.1)).getD prevVal := by
  induction maps generalizing state prevVal with
  | nil => rfl
  | cons endValMap rest ih =>
    have stepped := get?_diffStep state endValMap key
    rw [diffsFrom]
    cases mentions : endValMap.get? key with
    | none =>
      rw [mentions] at stepped
      obtain ⟨no_diff, kept⟩ := Prod.mk.inj stepped
      simp only [filterMap_cons, mentions, no_diff] at included ⊢
      refine ih ?_ included
      rintro ⟨m, later, mentioned⟩
      exact kept.trans (known ⟨m, .tail _ later, mentioned⟩)
    | some value =>
      have before := known ⟨endValMap, .head _, by rw [mem_keys_iff, mentions]; rfl⟩
      rw [mentions, before] at stepped
      obtain ⟨diff, kept⟩ := Prod.mk.inj stepped
      simp only [filterMap_cons, mentions, diff] at included ⊢
      rw [combineAll, foldl_cons, combine_valueDiff included.1, ← combineAll,
        ih (fun _ => kept) included.2, List.getLast?_cons]
      cases (rest.filterMap (·.get? key)).getLast? <;> rfl

theorem calculateNumChannelDiff_telescopes (channelValues : List (ChannelValues Key))
    (getInitialValue : Key → Option Int64) (key : Key)
    (included : IncludesEarlier ((getInitialValue key).getD 0)
      (channelValues.filterMap (·.get? key))) :
    combineAll ((getInitialValue key).getD 0)
        ((calculateNumChannelDiff channelValues getInitialValue).filterMap (·.get? key)) =
      ((channelValues.filterMap (·.get? key)).getLast?.map (·.1)).getD
        ((getInitialValue key).getD 0) := by
  refine diffsFrom_telescopes channelValues ?_ included
  rintro ⟨m, present, mentioned⟩
  refine (foldl_iff_or (fun state : SortedMap Key Int64 =>
    state.get? key = some ((getInitialValue key).getD 0)) (key = ·) ?_).mpr (.inr ⟨key, ?_, rfl⟩)
  · intro state other
    rw [get?_insert]
    by_cases same : key = other
    · simp [same]
    · simp [same]
  · rw [mem_elements_iff, mem_ofList]
    exact ⟨key, mem_flatMap.mpr ⟨m, present, mentioned⟩, BEq.rfl⟩

end Diffs

/-- Three deploys; the second one does not mention the channels. -/
theorem calculateNumChannelDiff_telescopes_of_values :
    let diffs := calculateNumChannelDiff
      [(empty.insert 1 (20, .integerAdd)).insert 3 (14, .bitmaskOr),
        empty.insert 2 (5, .integerAdd),
        (empty.insert 1 (15, .integerAdd)).insert 3 (31, .bitmaskOr)] fun _ : Nat => some 10
    combineAll 10 (diffs.filterMap (·.get? 1)) = 15 ∧
      combineAll 10 (diffs.filterMap (·.get? 3)) = 31 :=
  ⟨calculateNumChannelDiff_telescopes _ (fun _ => some 10) 1 ⟨by decide, by decide, trivial⟩,
    calculateNumChannelDiff_telescopes _ (fun _ => some 10) 3 ⟨by decide, by decide, trivial⟩⟩

end F1r3fly.Rholang
