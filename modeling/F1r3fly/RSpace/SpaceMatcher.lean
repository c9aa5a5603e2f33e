import F1r3fly.RSpace.Internal

/-! The matcher: for each channel and its pattern the first datum that fits, channel by channel. -/
namespace F1r3fly.RSpace

open Function Option

variable {C P A K : Type}

/-- `get` returns the matched part of the datum, or nothing. -/
class Match (P A : Type) where
  get : P → A → Option A

abbrev Indexed (A : Type) := List (Datum A × Int)

abbrev ChannelToIndexedData (C A : Type) := C → Option (Indexed A)

section Model

variable [Match P A]

def findMatchingDataCandidate (channel : C) (pattern : P) :
    Indexed A → Option (ConsumeCandidate C A × Indexed A)
  | [] => none
  | (datum, dataIndex) :: rest =>
    match Match.get pattern datum.a with
    | some mat =>
      some (⟨channel, { datum with a := mat }, datum.a, dataIndex⟩,
        if datum.persist then (datum, dataIndex) :: rest else rest)
    | none =>
      (findMatchingDataCandidate channel pattern rest).map fun found =>
        (found.1, (datum, dataIndex) :: found.2)

abbrev Rollback (C A : Type) := List (C × Indexed A)

variable [DecidableEq C]

/-- The candidates, the data that remain, and the entries that were replaced,
the first one first. -/
def extractDataCandidatesRollback :
    List (C × P) → ChannelToIndexedData C A →
      List (Option (ConsumeCandidate C A)) × ChannelToIndexedData C A × Rollback C A
  | [], map => ([], map, [])
  | (channel, pattern) :: pairs, map =>
    match map channel with
    | some original =>
      match findMatchingDataCandidate channel pattern original with
      | some (candidate, remaining) =>
        let (candidates, map, rollback) := extractDataCandidatesRollback pairs
          (update map channel (some remaining))
        (some candidate :: candidates, map, (channel, original) :: rollback)
      | none =>
        let (candidates, map, rollback) := extractDataCandidatesRollback pairs map
        (none :: candidates, map, rollback)
    | none =>
      let (candidates, map, rollback) := extractDataCandidatesRollback pairs map
      (none :: candidates, map, rollback)

def extractDataCandidates (pairs : List (C × P)) (map : ChannelToIndexedData C A) :
    List (Option (ConsumeCandidate C A)) :=
  (extractDataCandidatesRollback pairs map).1

/-- The replaced entries are put back in the order in which they were replaced. -/
def restore (map : ChannelToIndexedData C A) (rollback : Rollback C A) : ChannelToIndexedData C A :=
  rollback.foldl (fun map entry => update map entry.1 (some entry.2)) map

def collect (candidates : List (Option (ConsumeCandidate C A))) :
    Option (List (ConsumeCandidate C A)) :=
  if candidates.all isSome then some (candidates.filterMap id) else none

def extractFirstMatch (channels : List C) :
    List (WaitingContinuation P K × Int) → ChannelToIndexedData C A →
      Option (ProduceCandidate C P A K)
  | [], _ => none
  | (cont, index) :: rest, map =>
    let (dataCandidates, remaining, rollback) :=
      extractDataCandidatesRollback (channels.zip cont.patterns) map
    match collect dataCandidates with
    | some found => some ⟨channels, cont, index, found⟩
    | none => extractFirstMatch channels rest (restore remaining rollback)

end Model

section Sound

theorem collect_eq_none : collect candidates = none ↔ none ∈ candidates := by
  simp [collect]

theorem collect_eq_some : collect candidates = some found ↔ candidates = found.map some := by
  constructor
  · intro full
    unfold collect at full
    split_ifs at full with all
    obtain rfl := some.inj full
    clear full
    induction candidates with
    | nil => rfl
    | cons candidate candidates ih =>
      obtain ⟨_, rfl⟩ := isSome_iff_exists.mp (all_eq_true.mp all candidate (by simp))
      have rest := ih (all_eq_true.mpr fun other member =>
        all_eq_true.mp all other (by simp [member]))
      exact congrArg (List.cons _) rest
  · rintro rfl
    simp [collect]

variable [Match P A]

/-- The candidate is an entry on the channel, and its pattern accepts it. -/
structure Fits (channel : C) (pattern : P) (entries : Indexed A)
    (candidate : ConsumeCandidate C A) : Prop where
  channel_eq : candidate.channel = channel
  entry : (candidate.original, candidate.datumIndex) ∈ entries
  accepted : Match.get pattern candidate.removedDatum = some candidate.datum.a

theorem Fits.mono {candidate : ConsumeCandidate C A} {pattern : P}
    (fits : Fits channel pattern entries candidate) (more : entries ⊆ all) :
    Fits channel pattern all candidate :=
  { fits with entry := more fits.entry }

theorem findMatchingDataCandidate_none {pattern : P} {entries : Indexed A} :
    findMatchingDataCandidate channel pattern entries = none ↔
      ∀ entry ∈ entries, Match.get pattern entry.1.a = none := by
  fun_induction findMatchingDataCandidate channel pattern entries with
  | case1 => simp
  | case2 datum dataIndex rest mat accepted => simp [accepted]
  | case3 datum dataIndex rest rejected ih => simp [rejected, ih]

theorem findMatchingDataCandidate_some {channel : C} {pattern : P} {entries remaining : Indexed A}
    (found : findMatchingDataCandidate channel pattern entries = some (candidate, remaining)) :
    Fits channel pattern entries candidate ∧ remaining.Sublist entries := by
  fun_induction findMatchingDataCandidate channel pattern entries
    generalizing candidate remaining with
  | case1 => cases found
  | case2 datum dataIndex rest mat accepted =>
    obtain ⟨rfl, rfl⟩ := Prod.mk.inj (some.inj found)
    refine ⟨⟨rfl, by simp [ConsumeCandidate.original], accepted⟩, ?_⟩
    split
    · exact .refl _
    · exact List.sublist_cons_self _ _
  | case3 datum dataIndex rest rejected ih =>
    obtain ⟨⟨candidate', remaining'⟩, later, same⟩ := map_eq_some_iff.mp found
    obtain ⟨rfl, rfl⟩ := Prod.mk.inj same
    obtain ⟨fits, kept⟩ := ih later
    exact ⟨fits.mono (List.subset_cons_self _ _), kept.cons_cons _⟩

def Within (map all : ChannelToIndexedData C A) : Prop :=
  ∀ channel entries, map channel = some entries →
    ∃ more, all channel = some more ∧ entries.Sublist more

/-- What one search leaves: candidates among the given entries, and a map that
restoring brings back within them. -/
structure Searched (all : ChannelToIndexedData C A) (pairs : List (C × P))
    (result : List (Option (ConsumeCandidate C A)) × ChannelToIndexedData C A × Rollback C A) :
    Prop where
  fits : pairs.Forall₂ (fun pair found => ∀ candidate, found = some candidate →
    ∃ entries, all pair.1 = some entries ∧ Fits pair.1 pair.2 entries candidate) result.1
  within : Within result.2.1 all
  replaced : ∀ entry ∈ result.2.2, ∃ more, all entry.1 = some more ∧ entry.2.Sublist more

variable {all map : ChannelToIndexedData C A} {pairs : List (C × P)}

theorem Searched.miss (rest : Searched all pairs (candidates, map, rollback)) (pair : C × P) :
    Searched all (pair :: pairs) (none :: candidates, map, rollback) :=
  { rest with fits := .cons (by simp) rest.fits }

theorem Within.refl (map : ChannelToIndexedData C A) : Within map map :=
  fun _ entries found => ⟨entries, found, .refl _⟩

variable [DecidableEq C]

theorem Within.update (within : Within map all)
    (found : all channel = some more) (sublist : entries.Sublist more) :
    Within (update map channel (some entries)) all := by
  intro other entries' found'
  by_cases same : other = channel
  · subst same
    rw [update_self] at found'
    obtain rfl := some.inj found'
    exact ⟨more, found, sublist⟩
  · rw [update_of_ne same] at found'
    exact within other entries' found'

theorem Within.restore (within : Within map all)
    (replaced : ∀ entry ∈ rollback, ∃ more, all entry.1 = some more ∧ entry.2.Sublist more) :
    Within (restore map rollback) all := by
  induction rollback generalizing map with
  | nil => exact within
  | cons entry rollback ih =>
    obtain ⟨more, found, sublist⟩ := replaced entry (by simp)
    exact ih (within.update found sublist) fun other member => replaced other (by simp [member])

theorem extractDataCandidatesRollback_searched (within : Within map all) :
    Searched all pairs (extractDataCandidatesRollback pairs map) := by
  fun_induction extractDataCandidatesRollback pairs map with
  | case1 map => exact ⟨.nil, within, by simp⟩
  | case2 channel pattern pairs map original entry candidate remaining found
    candidates map' rollback
      result ih =>
    obtain ⟨more, entries, sublist⟩ := within channel original entry
    obtain ⟨fits, kept⟩ := findMatchingDataCandidate_some found
    have rest := ih (within.update entries (kept.trans sublist))
    rw [result] at rest
    refine ⟨.cons ?_ rest.fits, rest.within, ?_⟩
    · rintro _ ⟨⟩
      exact ⟨more, entries, fits.mono sublist.subset⟩
    · intro replaced member
      rcases mem_cons.mp member with rfl | member
      · exact ⟨more, entries, sublist⟩
      · exact rest.replaced replaced member
  | case3 channel pattern pairs map original entry missed candidates map' rollback result ih =>
    exact (result ▸ ih within).miss _
  | case4 channel pattern pairs map absent candidates map' rollback result ih =>
    exact (result ▸ ih within).miss _

/-- A full list of candidates: one for each pair, among the entries of its channel. -/
def Selection (map : ChannelToIndexedData C A) (pairs : List (C × P))
    (candidates : List (ConsumeCandidate C A)) : Prop :=
  pairs.Forall₂ (fun pair candidate =>
    ∃ entries, map pair.1 = some entries ∧ Fits pair.1 pair.2 entries candidate) candidates

omit [DecidableEq C] in
theorem Searched.selection
    (searched : Searched all pairs result) (full : collect result.1 = some found) :
    Selection all pairs found := by
  have fits := searched.fits
  rw [collect_eq_some.mp full, List.forall₂_map_right_iff] at fits
  exact fits.imp fun _ _ each => each _ rfl

theorem extractDataCandidates_sound
    (full : collect (extractDataCandidates pairs map) = some found) : Selection map pairs found :=
  (extractDataCandidatesRollback_searched (.refl map)).selection full

/-- The continuation comes from the given ones, and its candidates from the given data. -/
theorem extractFirstMatch_sound
    {candidates : List (WaitingContinuation P K × Int)} (within : Within map all)
    (matched : extractFirstMatch channels candidates map = some found) :
    found.channels = channels ∧ (found.continuation, found.continuationIndex) ∈ candidates ∧
      Selection all (channels.zip found.continuation.patterns) found.dataCandidates := by
  fun_induction extractFirstMatch channels candidates map with
  | case1 => cases matched
  | case2 cont index rest map dataCandidates remaining rollback result found' full =>
    obtain rfl := some.inj matched
    have searched : Searched all (channels.zip cont.patterns) _ :=
      extractDataCandidatesRollback_searched within
    rw [result] at searched
    exact ⟨rfl, by simp, searched.selection full⟩
  | case3 cont index rest map dataCandidates remaining rollback result missing ih =>
    have searched : Searched all (channels.zip cont.patterns) _ :=
      extractDataCandidatesRollback_searched within
    rw [result] at searched
    obtain ⟨same, member, selection⟩ := ih (searched.within.restore searched.replaced) matched
    exact ⟨same, mem_cons_of_mem _ member, selection⟩

end Sound

section Complete

theorem nodup_zip {channels : List C} (distinct : channels.Nodup) (patterns : List P) :
    ((channels.zip patterns).map Prod.fst).Nodup := by
  rw [List.zip_eq_zip_take_min, List.map_fst_zip (by simp)]
  exact distinct.sublist (List.take_sublist _ _)

variable [Match P A] [DecidableEq C]

theorem restore_update {rollback : Rollback C A} (fresh : channel ∉ rollback.map Prod.fst)
    (entries : Option (Indexed A)) :
    restore (update map channel entries) rollback =
      update (restore map rollback) channel entries := by
  induction rollback generalizing map with
  | nil => rfl
  | cons entry rollback ih =>
    rw [map_cons, mem_cons, not_or] at fresh
    simp only [restore, foldl_cons] at ih ⊢
    rw [update_comm fresh.1, ih fresh.2]

variable {map : ChannelToIndexedData C A} {pairs : List (C × P)}

/-- What a search records: an entry for each pair it does not miss. Putting the
entries back undoes the search unless a channel is among them twice. -/
structure Recorded (map : ChannelToIndexedData C A) (pairs : List (C × P))
    (result : List (Option (ConsumeCandidate C A)) × ChannelToIndexedData C A × Rollback C A) :
    Prop where
  keys : (result.2.2.map Prod.fst).Sublist (pairs.map Prod.fst)
  missing : none ∈ result.1 ↔ result.2.2.length < pairs.length
  restored : (result.2.2.map Prod.fst).Nodup → restore result.2.1 result.2.2 = map

omit [Match P A] in
theorem Recorded.miss (rest : Recorded map pairs (candidates, map', rollback)) (pair : C × P) :
    Recorded map (pair :: pairs) (none :: candidates, map', rollback) where
  keys := rest.keys.cons _
  missing := by simpa [Nat.lt_succ_iff] using rest.keys.length_le
  restored := rest.restored

theorem extractDataCandidatesRollback_recorded :
    Recorded map pairs (extractDataCandidatesRollback pairs map) := by
  fun_induction extractDataCandidatesRollback pairs map with
  | case1 map => exact ⟨.slnil, by simp, fun _ => rfl⟩
  | case2 channel pattern pairs map original entry candidate remaining found
    candidates map' rollback
      result rest =>
    rw [result] at rest
    refine ⟨rest.keys.cons_cons _, by simpa using rest.missing, fun distinct => ?_⟩
    obtain ⟨fresh, distinct⟩ := nodup_cons.mp distinct
    calc restore map' ((channel, original) :: rollback)
        = restore (update map' channel (some original)) rollback := rfl
      _ = update (update map channel (some remaining)) channel
            (some original) := by rw [restore_update fresh, rest.restored distinct]
      _ = map := by rw [update_idem, ← entry, update_eq_self]
  | case3 channel pattern pairs map original entry missed candidates map' rollback result rest =>
    exact (result ▸ rest).miss _
  | case4 channel pattern pairs map absent candidates map' rollback result rest =>
    exact (result ▸ rest).miss _

/-- The first continuation all of whose patterns match the data as they are given. -/
def firstMatch (channels : List C) (candidates : List (WaitingContinuation P K × Int))
    (map : ChannelToIndexedData C A) : Option (ProduceCandidate C P A K) :=
  candidates.findSome? fun (cont, index) =>
    (collect (extractDataCandidates (channels.zip cont.patterns) map)).map
      (⟨channels, cont, index, ·⟩)

theorem extractFirstMatch_eq_firstMatch
    {candidates : List (WaitingContinuation P K × Int)}
    (exactly : channels.Nodup ∨ channels.length ≤ 2) :
    extractFirstMatch channels candidates map = firstMatch channels candidates map := by
  fun_induction extractFirstMatch channels candidates map with
  | case1 => rfl
  | case2 cont index rest map dataCandidates remaining rollback result found full =>
    simp [firstMatch, extractDataCandidates, result, full]
  | case3 cont index rest map dataCandidates remaining rollback result missing ih =>
    have recorded : Recorded map (channels.zip cont.patterns) _ :=
      extractDataCandidatesRollback_recorded
    rw [result] at recorded
    have distinct : (rollback.map Prod.fst).Nodup := by
      rcases exactly with distinct | short
      · exact (nodup_zip distinct cont.patterns).sublist recorded.keys
      · -- one of at most two pairs is missed, so at most one entry is recorded
        have missed : rollback.length < _ := recorded.missing.mp (collect_eq_none.mp missing)
        have few : rollback.length ≤ 1 := by
          rw [List.length_zip] at missed
          omega
        match rollback, few with
        | [], _ | [_], _ => simp
    rw [ih, recorded.restored distinct]
    simp [firstMatch, extractDataCandidates, result, missing]

def lookupCandidate (map : ChannelToIndexedData C A) (pair : C × P) :
    Option (ConsumeCandidate C A) :=
  (map pair.1).bind fun entries => (findMatchingDataCandidate pair.1 pair.2 entries).map Prod.fst

/-- On pairwise distinct channels the search looks up each channel as it was given. -/
theorem extractDataCandidates_of_nodup (distinct : (pairs.map Prod.fst).Nodup) :
    extractDataCandidates pairs map = pairs.map (lookupCandidate map) := by
  unfold extractDataCandidates
  fun_induction extractDataCandidatesRollback pairs map with
  | case1 map => rfl
  | case2 channel pattern pairs map original entry candidate remaining found
    candidates map' rollback
      result ih =>
    obtain ⟨fresh, distinct⟩ := nodup_cons.mp distinct
    have head : lookupCandidate map (channel, pattern) = some candidate := by
      simp [lookupCandidate, entry, found]
    refine congrArg₂ List.cons head.symm ((result ▸ ih distinct).trans ?_)
    refine map_congr_left fun pair member => ?_
    have other : pair.1 ≠ channel := fun same => fresh (mem_map.mpr ⟨pair, member, same⟩)
    rw [lookupCandidate, update_of_ne other, lookupCandidate]
  | case3 channel pattern pairs map original entry missed candidates map' rollback result ih =>
    have rest := ih (nodup_cons.mp distinct).2
    simpa [lookupCandidate, entry, missed, result] using rest
  | case4 channel pattern pairs map absent candidates map' rollback result ih =>
    have rest := ih (nodup_cons.mp distinct).2
    simpa [lookupCandidate, absent, result] using rest

def Unmatched (map : ChannelToIndexedData C A) (pairs : List (C × P)) : Prop :=
  ∃ pair ∈ pairs, ∀ entries, map pair.1 = some entries →
    ∀ entry ∈ entries, Match.get pair.2 entry.1.a = none

theorem extractDataCandidates_complete (distinct : (pairs.map Prod.fst).Nodup)
    (missing : collect (extractDataCandidates pairs map) = none) : Unmatched map pairs := by
  rw [collect_eq_none, extractDataCandidates_of_nodup distinct] at missing
  obtain ⟨pair, member, missed⟩ := mem_map.mp missing
  refine ⟨pair, member, fun entries found => ?_⟩
  have nothing : findMatchingDataCandidate pair.1 pair.2 entries = none := by
    simpa [lookupCandidate, found] using missed
  exact findMatchingDataCandidate_none.mp nothing

theorem extractFirstMatch_complete
    {candidates : List (WaitingContinuation P K × Int)} (distinct : channels.Nodup)
    (unmatched : extractFirstMatch channels candidates map = none) :
    ∀ candidate ∈ candidates, Unmatched map (channels.zip candidate.1.patterns) := by
  rw [extractFirstMatch_eq_firstMatch (.inl distinct), firstMatch,
    List.findSome?_eq_none_iff] at unmatched
  intro candidate member
  have missing := map_eq_none_iff.mp (unmatched candidate member)
  exact extractDataCandidates_complete (nodup_zip distinct _) missing

end Complete

section Repeated

variable [DecidableEq C] {channel : C} {channels : List C}

/-- A pattern that accepts every number but one. -/
structure OtherThan where
  number : Nat

instance : Match OtherThan Nat := ⟨fun pattern a => if a = pattern.number then none else some a⟩

def numbered (persist : Bool) (number : Nat) : Datum Nat × Int :=
  (⟨number, persist, ⟨[], [], persist, true, [], false⟩⟩, number)

/-- The numbers are on one channel; on every other one there is a zero that stays. -/
def stock (channel : C) (numbers : List Nat) : ChannelToIndexedData C Nat := fun other =>
  some (if other = channel then numbers.map (numbered false) else [numbered true 0])

def waiting (length : Nat) (pattern : OtherThan) : WaitingContinuation OtherThan Unit :=
  ⟨List.replicate length pattern, (), false, .none, ⟨[], [], false⟩⟩

theorem update_stock (left : List Nat) :
    update (stock channel numbers) channel (some (left.map (numbered false))) =
      stock channel left := by
  funext other
  by_cases same : other = channel <;> simp [stock, same]

/-- Each time the channel comes up it loses its first number. -/
theorem extractDataCandidatesRollback_stock (positive : 0 ∉ numbers) :
    (extractDataCandidatesRollback (channels.zip (List.replicate channels.length (OtherThan.mk 0)))
      (stock channel numbers)).2 =
    (stock channel (numbers.drop (channels.count channel)),
      ((List.range numbers.length).take (channels.count channel)).map fun taken =>
        (channel, (numbers.drop taken).map (numbered false))) := by
  induction channels generalizing numbers with
  | nil => simp [extractDataCandidatesRollback]
  | cons other channels ih =>
    rw [length_cons, List.replicate_succ, List.zip_cons_cons]
    by_cases same : other = channel
    · subst same
      cases numbers with
      | nil => simp [extractDataCandidatesRollback, stock, findMatchingDataCandidate, ih positive]
      | cons number numbers =>
        obtain ⟨nonzero, positive⟩ := not_or.mp (mt mem_cons.mpr positive)
        have found : findMatchingDataCandidate other (OtherThan.mk 0)
            (numbered false number :: numbers.map (numbered false)) =
            some (⟨other, (numbered false number).1, number, number⟩,
              numbers.map (numbered false)) := by
          simp [findMatchingDataCandidate, numbered, Match.get, Ne.symm nonzero]
        have stocked : stock other (number :: numbers) other =
            some (numbered false number :: numbers.map (numbered false)) := by simp [stock]
        simp [extractDataCandidatesRollback, stocked, found, update_stock, ih positive,
          List.range_succ_eq_map, ← List.map_take]
    · have missed : findMatchingDataCandidate other (OtherThan.mk 0) [numbered true 0] = none := rfl
      rw [List.count_cons_of_ne same, ← ih positive]
      simp [extractDataCandidatesRollback, stock, same, missed]

/-- Up to the channel's first place the patterns match unless all its numbers are two. -/
theorem none_mem_extractDataCandidates_stock (member : channel ∈ channels) (numbers : List Nat) :
    none ∈ extractDataCandidates
        (channels.zip (List.replicate (channels.idxOf channel + 1) (OtherThan.mk 2)))
        (stock channel numbers) ↔ ∀ number ∈ numbers, number = 2 := by
  unfold extractDataCandidates
  induction channels with
  | nil => cases member
  | cons other channels ih =>
    rw [List.replicate_succ, List.zip_cons_cons]
    by_cases same : other = channel
    · subst same
      have missed : findMatchingDataCandidate other (OtherThan.mk 2)
          (numbers.map (numbered false)) = none ↔ ∀ number ∈ numbers, number = 2 := by
        simp [findMatchingDataCandidate_none, numbered, Match.get]
      rw [List.idxOf_cons_self, ← missed]
      cases found : findMatchingDataCandidate other (OtherThan.mk 2)
        (numbers.map (numbered false)) <;> simp [extractDataCandidatesRollback, stock, found]
    · have found : findMatchingDataCandidate other (OtherThan.mk 2) [numbered true 0] =
          some (⟨other, (numbered true 0).1, 0, 0⟩, [numbered true 0]) := rfl
      have stocked : stock channel numbers other = some [numbered true 0] := by simp [stock, same]
      have kept := update_eq_self other (stock channel numbers)
      rw [List.idxOf_cons_ne _ same]
      rw [stocked] at kept
      simp only [extractDataCandidatesRollback, stocked, found, kept, mem_cons, reduceCtorEq,
        false_or]
      exact ih (List.mem_of_ne_of_mem (Ne.symm same) member)

/-- Trying the continuations one after the other finds the first match against
the given data exactly when no channel is repeated or there are at most two. -/
theorem extractFirstMatch_eq_firstMatch_iff (channels : List C) :
    (∀ (P A K : Type) [Match P A] (candidates : List (WaitingContinuation P K × Int))
      (map : ChannelToIndexedData C A),
      extractFirstMatch channels candidates map = firstMatch channels candidates map) ↔
    channels.Nodup ∨ channels.length ≤ 2 := by
  refine ⟨fun holds => ?_, fun few P A K _ candidates map => extractFirstMatch_eq_firstMatch few⟩
  by_contra! ⟨repeated, long⟩
  obtain ⟨channel, twice⟩ : ∃ channel, 1 < channels.count channel := by
    simpa [List.nodup_iff_count_le_one] using repeated
  have member : channel ∈ channels := List.count_pos_iff.mp (by omega)
  -- the first attempt takes both numbers and fails, the second needs the first of them
  have both : (List.range 2).take (channels.count channel) = [0, 1] :=
    List.take_of_length_le twice
  have drained : [1, 2].drop (channels.count channel) = [] := List.drop_of_length_le twice
  have attempt : (extractDataCandidatesRollback
      (channels.zip (List.replicate channels.length (OtherThan.mk 0))) (stock channel [1, 2])).2 =
      (stock channel [],
        [(channel, [1, 2].map (numbered false)), (channel, [2].map (numbered false))]) := by
    rw [extractDataCandidatesRollback_stock (by decide), drained, length_cons,
      List.length_singleton, both]
    rfl
  have recorded : Recorded (stock channel [1, 2]) _ (extractDataCandidatesRollback
    (channels.zip (List.replicate channels.length (OtherThan.mk 0))) (stock channel [1, 2])) :=
    extractDataCandidatesRollback_recorded
  have missing := recorded.missing.mpr (by simpa [attempt] using long)
  have restored : restore (stock channel []) [(channel, [1, 2].map (numbered false)),
      (channel, [2].map (numbered false))] = stock channel [2] := by
    rw [restore, foldl_cons, foldl_cons, update_stock, update_stock, List.foldl_nil]
  have lost := (none_mem_extractDataCandidates_stock member [2]).mpr (by simp)
  have same := holds OtherThan Nat Unit [(waiting channels.length ⟨0⟩, 0),
    (waiting (channels.idxOf channel + 1) ⟨2⟩, 1)] (stock channel [1, 2])
  rw [extractDataCandidates, ← collect_eq_none] at lost
  rw [← collect_eq_none] at missing
  simp only [extractFirstMatch, waiting, attempt, missing, restored, lost] at same
  have refused := List.findSome?_eq_none_iff.mp same.symm _ (mem_cons_of_mem _ List.mem_cons_self)
  have two := (none_mem_extractDataCandidates_stock member _).mp
    (collect_eq_none.mp (map_eq_none_iff.mp refused)) 1 (by simp)
  omega

theorem extractFirstMatch_loses_datum :
    let refusing : WaitingContinuation OtherThan Unit :=
      { waiting 3 ⟨0⟩ with patterns := [⟨0⟩, ⟨0⟩, ⟨3⟩] }
    (extractFirstMatch [0, 0, 0] [(refusing, 0), (waiting 3 ⟨0⟩, 1)] (stock 0 [1, 2, 3])).isNone ∧
      (firstMatch [0, 0, 0] [(refusing, 0), (waiting 3 ⟨0⟩, 1)] (stock 0 [1, 2, 3])).isSome := by
  decide

end Repeated

end F1r3fly.RSpace
