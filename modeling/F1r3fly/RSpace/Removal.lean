import Mathlib.Data.List.Perm.Basic
import F1r3fly.RSpace.Effects

/-! What the removal loops leave in the store. The candidates are walked by rising index although
their indices were taken before any removal, so data are removed as intended when no channel
loses two. -/
namespace F1r3fly.RSpace

open Function StateInvariant StateView

variable {C P A K : Type}

/-- A stored datum that the communication takes away. -/
def ConsumeCandidate.taken (candidate : ConsumeCandidate C A) : Bool :=
  candidate.datumIndex ≥ 0 && !candidate.datum.persist

/-- If the candidate takes a datum, it is where the candidate says. -/
def Present (data : C → List (Datum A)) (candidate : ConsumeCandidate C A) : Prop :=
  candidate.taken → (data candidate.channel)[candidate.datumIndex.toNat]? = some candidate.original

theorem mem_withIndex :
    (item, index) ∈ Space.withIndex items ↔ 0 ≤ index ∧ items[index.toNat]? = some item := by
  simp only [Space.withIndex, mem_map, Prod.mk.injEq, Prod.exists, List.mem_zipIdx_iff_getElem?]
  constructor
  · rintro ⟨item, position, here, rfl, rfl⟩
    exact ⟨Int.natCast_nonneg _, by simpa using here⟩
  · rintro ⟨positive, here⟩
    exact ⟨item, index.toNat, here, rfl, Int.toNat_of_nonneg positive⟩

section Data

variable [DecidableEq C]

def takeDatum (data : C → List (Datum A)) (candidate : ConsumeCandidate C A) : C → List (Datum A) :=
  if candidate.taken then
    Function.update data candidate.channel
      ((data candidate.channel).eraseIdx candidate.datumIndex.toNat)
  else data

def takenFrom (channel : C) (candidates : List (ConsumeCandidate C A)) : List (Datum A) :=
  (candidates.filter fun candidate => candidate.taken && candidate.channel = channel).map
    ConsumeCandidate.original

/-- No channel loses two data. -/
def Separate (candidates : List (ConsumeCandidate C A)) : Prop :=
  candidates.Pairwise fun a b => a.taken → b.taken → a.channel ≠ b.channel

variable {candidate : ConsumeCandidate C A}

theorem takeDatum_of_ne (other : channel ≠ candidate.channel) :
    takeDatum data candidate channel = data channel := by
  unfold takeDatum
  split_ifs
  · exact update_of_ne other ..
  · rfl

theorem takeDatum_sublist (data : C → List (Datum A)) (candidate : ConsumeCandidate C A)
    (channel : C) : (takeDatum data candidate channel).Sublist (data channel) := by
  by_cases same : channel = candidate.channel
  · subst same
    unfold takeDatum
    split_ifs
    · rw [update_self]
      exact List.eraseIdx_sublist ..
    · exact .refl _
  · rw [takeDatum_of_ne same]

theorem foldl_takeDatum_sublist (data : C → List (Datum A))
    (candidates : List (ConsumeCandidate C A)) (channel : C) :
    (candidates.foldl takeDatum data channel).Sublist (data channel) := by
  induction candidates generalizing data with
  | nil => exact .refl _
  | cons candidate candidates ih => exact (ih _).trans (takeDatum_sublist ..)

theorem Present.takeDatum {first later : ConsumeCandidate C A}
    (apart : first.taken → later.taken → first.channel ≠ later.channel)
    (present : Present data later) : Present (takeDatum data first) later := by
  intro taken
  rw [← present taken]
  by_cases also : first.taken
  · rw [takeDatum_of_ne (apart also taken).symm]
  · rw [RSpace.takeDatum, if_neg also]

theorem takeDatum_perm (present : Present data candidate) (channel : C) :
    (takeDatum data candidate channel ++ takenFrom channel [candidate]).Perm (data channel) := by
  by_cases same : candidate.channel = channel
  · subst same
    by_cases taken : candidate.taken
    · obtain ⟨bound, here⟩ := getElem?_eq_some_iff.mp (present taken)
      rw [RSpace.takeDatum, if_pos taken, update_self]
      simp only [takenFrom, taken, decide_true, Bool.and_self, List.filter_cons_of_pos,
        List.filter_nil, map_cons, map_nil, ← here]
      exact (List.perm_append_singleton _ _).trans (List.getElem_cons_eraseIdx_perm bound)
    · simp [RSpace.takeDatum, takenFrom, taken]
  · rw [takeDatum_of_ne (Ne.symm same)]
    simp [takenFrom, same]

/-- Candidates that take at most one datum from each channel take just those. -/
theorem foldl_takeDatum_perm {candidates : List (ConsumeCandidate C A)}
    (separate : Separate candidates) (present : ∀ candidate ∈ candidates, Present data candidate)
    (channel : C) :
    (candidates.foldl takeDatum data channel ++ takenFrom channel candidates).Perm
      (data channel) := by
  induction candidates generalizing data with
  | nil => simp [takenFrom]
  | cons candidate candidates ih =>
    obtain ⟨apart, separate⟩ := pairwise_cons.mp separate
    have rest := ih separate fun later member =>
      (present later (by simp [member])).takeDatum (apart later member)
    have head := takeDatum_perm (present candidate (by simp)) channel
    have split : takenFrom channel (candidate :: candidates) =
        takenFrom channel [candidate] ++ takenFrom channel candidates := by
      rw [takenFrom, takenFrom, takenFrom, ← map_append, ← List.filter_append]
      rfl
    calc candidates.foldl takeDatum (takeDatum data candidate) channel ++
          takenFrom channel (candidate :: candidates)
        = candidates.foldl takeDatum (takeDatum data candidate) channel ++
          (takenFrom channel [candidate] ++ takenFrom channel candidates) := by rw [split]
      List.Perm _ (candidates.foldl takeDatum (takeDatum data candidate) channel ++
          takenFrom channel candidates ++ takenFrom channel [candidate]) := by
        rw [append_assoc]
        exact List.perm_append_comm.append_left _
      List.Perm _ (takeDatum data candidate channel ++ takenFrom channel [candidate]) :=
        rest.append_right _
      List.Perm _ (data channel) := head

end Data

section Loop

theorem outOfBounds_eq (nonneg : 0 ≤ index) (items : List α) :
    outOfBounds index items = decide (items.length ≤ index.toNat) := by
  simp [outOfBounds, Int.not_lt.mpr nonneg]

variable [DecidableEq C] [Debug P] [Debug K]

/-- A step of a removal loop: it takes the candidate's datum, fails only if
that is not there, and touches neither continuations nor what is installed. -/
structure Takes (step : StateM (EagerStore C P A K) (Option Unit))
    (candidate : ConsumeCandidate C A) : Prop where
  frame : ∀ store, (step store).2 =
    { store with data := takeDatum store.data candidate, joins := (step store).2.joins }
  done : ∀ store : EagerStore C P A K, Present store.data candidate → (step store).1 = some ()

variable {candidate : ConsumeCandidate C A}

omit [DecidableEq C] in
theorem ConsumeCandidate.taken_nonneg (taken : candidate.taken) : 0 ≤ candidate.datumIndex :=
  of_decide_eq_true (and_eq_true_iff.mp taken).1

theorem removeIfStored_of_taken (taken : candidate.taken) (store : EagerStore C P A K) :
    removeIfStored candidate store =
      ((removeDatumIndex candidate.datumIndex (store.data candidate.channel)).2.toOption,
        { store with data := takeDatum store.data candidate }) := by
  have same : (removeDatumIndex candidate.datumIndex (store.data candidate.channel)).1 =
      (store.data candidate.channel).eraseIdx candidate.datumIndex.toNat := by
    rw [removeDatumIndex, outOfBounds_eq (ConsumeCandidate.taken_nonneg taken)]
    split_ifs with outside
    · exact (List.eraseIdx_of_length_le (of_decide_eq_true outside)).symm
    · rfl
  rw [takeDatum, if_pos taken, ← same]
  exact congrFun (if_pos taken) store

theorem removeIfStored_of_not_taken (kept : ¬ candidate.taken) (store : EagerStore C P A K) :
    removeIfStored candidate store = (some (), store) :=
  congrFun (if_neg kept) store

theorem removeIfStored_frame (candidate : ConsumeCandidate C A) (store : EagerStore C P A K) :
    (removeIfStored candidate store).2 = { store with data := takeDatum store.data candidate } := by
  by_cases taken : candidate.taken
  · rw [removeIfStored_of_taken taken]
  · rw [removeIfStored_of_not_taken taken, takeDatum, if_neg taken]

theorem removeIfStored_done {store : EagerStore C P A K} (present : Present store.data candidate) :
    (removeIfStored candidate store).1 = some () := by
  by_cases taken : candidate.taken
  · obtain ⟨bound, _⟩ := getElem?_eq_some_iff.mp (present taken)
    rw [removeIfStored_of_taken taken, removeDatumIndex,
      outOfBounds_eq (ConsumeCandidate.taken_nonneg taken), if_neg (by simpa using bound)]
    rfl
  · rw [removeIfStored_of_not_taken taken]

theorem removeIfStored_takes (candidate : ConsumeCandidate C A) :
    Takes (P := P) (K := K) (removeIfStored candidate) candidate where
  frame store := by rw [removeIfStored_frame]
  done _ := removeIfStored_done

theorem removeCandidate_eq (nonneg : 0 ≤ candidate.datumIndex) :
    (removeCandidate candidate : StateM (EagerStore C P A K) (Option Unit)) =
      removeIfStored candidate := by
  unfold removeCandidate removeIfStored
  cases candidate.datum.persist <;> simp [nonneg]

/-- The join is erased if the datum was removed and no continuation is left under it. -/
theorem removeCandidateAndJoin_eq (channels : List C) (candidate : ConsumeCandidate C A)
    (store : EagerStore C P A K) :
    removeCandidateAndJoin channels candidate store =
      ((removeIfStored candidate store).1,
        { store with
          data := takeDatum store.data candidate
          joins := if (removeIfStored candidate store).1.isSome ∧
              (store.allContinuations channels).isEmpty then
            Function.update store.joins candidate.channel
              ((store.joins candidate.channel).erase channels) else store.joins }) := by
  have frame := removeIfStored_frame candidate store
  rw [removeCandidateAndJoin, run_bind]
  generalize removeIfStored candidate store = outcome at frame ⊢
  obtain ⟨removed, after⟩ := outcome
  obtain rfl : after = _ := frame
  cases removed with
  | none => rfl
  | some done =>
    refine congrArg (Prod.mk _) ?_
    change (if (store.allContinuations channels).isEmpty then _ else _) = _
    by_cases empty : (store.allContinuations channels).isEmpty
    · rw [if_pos empty]
      simp only [isSome_some, empty, and_self, if_true]
      rfl
    · rw [if_neg empty]
      simp [empty]

theorem removeCandidateAndJoin_takes (channels : List C) (candidate : ConsumeCandidate C A) :
    Takes (P := P) (K := K) (removeCandidateAndJoin channels candidate) candidate where
  frame store := by rw [removeCandidateAndJoin_eq]
  done store present := by rw [removeCandidateAndJoin_eq, removeIfStored_done present]

variable {step : ConsumeCandidate C A → StateM (EagerStore C P A K) (Option Unit)}
  {candidates : List (ConsumeCandidate C A)}

omit [Debug P] [Debug K] in
theorem mapM_frame (takes : ∀ candidate ∈ candidates, Takes (step candidate) candidate)
    (store : EagerStore C P A K) :
    (candidates.mapM step store).2 =
      { store with
        data := candidates.foldl takeDatum store.data
        joins := (candidates.mapM step store).2.joins } := by
  induction candidates generalizing store with
  | nil => rfl
  | cons candidate candidates ih =>
    have rest := ih (fun later member => takes later (by simp [member])) (step candidate store).2
    rw [run_mapM_cons]
    refine rest.trans ?_
    rw [(takes candidate (by simp)).frame store]
    rfl

omit [Debug P] [Debug K] in
theorem mapM_done (takes : ∀ candidate ∈ candidates, Takes (step candidate) candidate)
    (separate : Separate candidates) {store : EagerStore C P A K}
    (present : ∀ candidate ∈ candidates, Present store.data candidate) :
    ∀ done ∈ (candidates.mapM step store).1, done = some () := by
  induction candidates generalizing store with
  | nil => simp [run_pure]
  | cons candidate candidates ih =>
    obtain ⟨apart, separate⟩ := pairwise_cons.mp separate
    have first := takes candidate (by simp)
    have rest := @ih (fun later member => takes later (by simp [member])) separate
      (step candidate store).2 fun later member => by
        rw [first.frame]
        exact (present later (by simp [member])).takeDatum (apart later member)
    rw [run_mapM_cons]
    intro done member
    rcases mem_cons.mp member with rfl | member
    · exact first.done store (present candidate (by simp))
    · exact rest done member

theorem removeCandidateAndJoin_joins_of_ne (other : channel ≠ candidate.channel)
    (channels : List C) (store : EagerStore C P A K) :
    (removeCandidateAndJoin channels candidate store).2.joins channel = store.joins channel := by
  rw [removeCandidateAndJoin_eq]
  split_ifs
  · exact update_of_ne other ..
  · rfl

theorem removeCandidateAndJoin_joins
    {store : EagerStore C P A K} (empty : (store.allContinuations channels).isEmpty)
    (ready : Present store.data candidate ∨ channels ∉ store.joins candidate.channel) :
    (removeCandidateAndJoin channels candidate store).2.joins candidate.channel =
      (store.joins candidate.channel).erase channels := by
  rw [removeCandidateAndJoin_eq]
  split_ifs with reached
  · exact update_self ..
  · rcases ready with present | gone
    · rw [removeIfStored_done present] at reached
      exact absurd ⟨rfl, empty⟩ reached
    · exact (List.erase_of_not_mem gone).symm

theorem mapM_joins_of_waiting {store : EagerStore C P A K}
    (waiting : ¬ (store.allContinuations channels).isEmpty) :
    (candidates.mapM (removeCandidateAndJoin channels) store).2.joins = store.joins := by
  induction candidates generalizing store with
  | nil => rfl
  | cons candidate candidates ih =>
    have still : ¬ ((removeCandidateAndJoin channels candidate store).2.allContinuations
        channels).isEmpty := by rwa [removeCandidateAndJoin_eq]
    rw [run_mapM_cons]
    refine (ih still).trans ?_
    rw [removeCandidateAndJoin_eq]
    exact if_neg fun cleared => waiting cleared.2

/-- When no continuation is left, the join goes from every channel of the
candidates. The first candidate of a channel is where its index says, so its step
gets to the join; the later ones find it gone. -/
theorem mapM_joins {channel : C} {store : EagerStore C P A K}
    (empty : (store.allContinuations channels).isEmpty) (distinct : (store.joins channel).Nodup)
    (ready : (∀ candidate ∈ candidates, candidate.channel = channel →
      Present store.data candidate) ∨ channels ∉ store.joins channel) :
    (candidates.mapM (removeCandidateAndJoin channels) store).2.joins channel =
      if channel ∈ candidates.map (·.channel) then (store.joins channel).erase channels
      else store.joins channel := by
  induction candidates generalizing store with
  | nil => simp [run_pure]
  | cons candidate candidates ih =>
    have still : ((removeCandidateAndJoin channels candidate store).2.allContinuations
        channels).isEmpty := by rwa [removeCandidateAndJoin_eq]
    rw [run_mapM_cons]
    by_cases same : candidate.channel = channel
    · subst same
      have erased := removeCandidateAndJoin_joins empty
        (ready.imp_left fun each => each candidate (by simp) rfl)
      have gone := distinct.not_mem_erase (a := channels)
      rw [← erased] at gone
      rw [ih still (erased ▸ distinct.erase _) (.inr gone), List.erase_of_not_mem gone, ite_self,
        erased, if_pos (by simp)]
    · have kept := removeCandidateAndJoin_joins_of_ne (Ne.symm same) channels store
      rw [ih still (kept ▸ distinct), kept]
      · simp [Ne.symm same]
      · rw [kept]
        refine ready.imp_left fun each later member onChannel => ?_
        rw [(removeCandidateAndJoin_takes channels candidate).frame]
        exact (each later (by simp [member]) onChannel).takeDatum
          fun _ _ clash => same (clash.trans onChannel)

end Loop

section Whole

variable {candidates : List (ConsumeCandidate C A)}

theorem removalOrder_perm (candidates : List (ConsumeCandidate C A)) :
    (removalOrder candidates).Perm candidates :=
  (List.reverse_perm _).trans (List.perm_insertionSort _ _)

theorem Separate.perm (separate : Separate candidates) (perm : candidates.Perm others) :
    Separate others :=
  (perm.pairwise_iff fun apart second first same => apart first second same.symm).mp separate

theorem allDone_isNone (done : ∀ result ∈ results, result = some ()) :
    (allDone results).isNone = false := by
  unfold allDone
  rw [if_neg]
  · rfl
  · intro failed
    obtain ⟨result, member, missing⟩ := any_eq_true.mp failed
    rw [done result member] at missing
    cases missing

variable [DecidableEq C] [Debug P] [Debug K]

theorem mapM_removeCandidate (nonneg : ∀ candidate ∈ candidates, 0 ≤ candidate.datumIndex) :
    (candidates.mapM removeCandidate : StateM (EagerStore C P A K) _) =
      candidates.mapM removeIfStored := by
  induction candidates with
  | nil => rfl
  | cons candidate candidates ih =>
    rw [mapM_cons, mapM_cons, removeCandidate_eq (nonneg candidate (by simp)),
      ih fun later member => nonneg later (by simp [member])]

theorem mapM_removeIfStored_joins (candidates : List (ConsumeCandidate C A))
    (store : EagerStore C P A K) :
    (candidates.mapM removeIfStored store).2.joins = store.joins := by
  have keeps : Yields (fun s : EagerStore C P A K => s.joins = store.joins)
      (candidates.mapM removeIfStored) (candidates.Forall₂ fun _ _ => True) :=
    .mapM (fun candidate s same => ⟨by rw [removeIfStored_frame]; exact same, trivial⟩) candidates
  exact (keeps store rfl).1

section

variable (nonneg : ∀ candidate ∈ candidates, 0 ≤ candidate.datumIndex) (store : EagerStore C P A K)
include nonneg store

theorem storePersistentData_eq : storePersistentData candidates store =
      (allDone ((removalOrder candidates).mapM removeIfStored store).1,
        ((removalOrder candidates).mapM removeIfStored store).2) := by
  rw [storePersistentData, mapM_removeCandidate fun candidate member =>
    nonneg candidate ((removalOrder_perm candidates).mem_iff.mp member)]
  rfl

theorem storePersistentData_frame : (storePersistentData candidates store).2 =
      { store with data := (removalOrder candidates).foldl takeDatum store.data } := by
  rw [storePersistentData_eq nonneg, mapM_frame fun candidate _ => removeIfStored_takes candidate,
    mapM_removeIfStored_joins]

end

theorem removeMatchedDatumAndJoin_frame (channels : List C)
    (candidates : List (ConsumeCandidate C A)) (store : EagerStore C P A K) :
    (removeMatchedDatumAndJoin channels candidates store).2 =
      { store with
        data := (removalOrder candidates).foldl takeDatum store.data
        joins := (removeMatchedDatumAndJoin channels candidates store).2.joins } :=
  mapM_frame (fun candidate _ => removeCandidateAndJoin_takes channels candidate) store

variable {store : EagerStore C P A K}

omit [Debug P] [Debug K] in
theorem removalOrder_foldl_perm (separate : Separate candidates)
    (present : ∀ candidate ∈ candidates, Present store.data candidate) (channel : C) :
    ((removalOrder candidates).foldl takeDatum store.data channel ++
      takenFrom channel candidates).Perm (store.data channel) := by
  have order := removalOrder_perm candidates
  refine (((order.symm.filter _).map _).append_left _).trans ?_
  exact foldl_takeDatum_perm (separate.perm order.symm)
    (fun candidate member => present candidate (order.mem_iff.mp member)) channel

theorem storePersistentData_done (nonneg : ∀ candidate ∈ candidates, 0 ≤ candidate.datumIndex)
    (separate : Separate candidates)
    (present : ∀ candidate ∈ candidates, Present store.data candidate) :
    (storePersistentData candidates store).1.isNone = false := by
  have order := removalOrder_perm candidates
  rw [storePersistentData_eq nonneg]
  exact allDone_isNone (mapM_done (fun candidate _ => removeIfStored_takes candidate)
    (separate.perm order.symm) fun candidate member => present candidate (order.mem_iff.mp member))

theorem removeMatchedDatumAndJoin_done (channels : List C) (separate : Separate candidates)
    (present : ∀ candidate ∈ candidates, Present store.data candidate) :
    (removeMatchedDatumAndJoin channels candidates store).1.isNone = false := by
  have order := removalOrder_perm candidates
  exact allDone_isNone (mapM_done
    (fun candidate _ => removeCandidateAndJoin_takes channels candidate)
    (separate.perm order.symm) fun candidate member => present candidate (order.mem_iff.mp member))

theorem removeMatchedDatumAndJoin_joins_of_waiting
    (waiting : ¬ (store.allContinuations channels).isEmpty) :
    (removeMatchedDatumAndJoin channels candidates store).2.joins = store.joins :=
  mapM_joins_of_waiting waiting

theorem removeMatchedDatumAndJoin_joins (empty : (store.allContinuations channels).isEmpty)
    (distinct : (store.joins channel).Nodup)
    (present : ∀ candidate ∈ candidates, Present store.data candidate) :
    (removeMatchedDatumAndJoin channels candidates store).2.joins channel =
      if channel ∈ candidates.map (·.channel) then (store.joins channel).erase channels
      else store.joins channel := by
  have order := removalOrder_perm candidates
  refine (mapM_joins empty distinct (.inl fun candidate member _ =>
    present candidate (order.mem_iff.mp member))).trans ?_
  simp only [(order.map (·.channel)).mem_iff]

end Whole

section Handed

variable [Match P A] {store : EagerStore C P A K} {pairs : List (C × P)}
  {candidates : List (ConsumeCandidate C A)}

theorem Handed.mem (handed : Handed entries pairs candidates) :
    ∀ candidate ∈ candidates, ∃ pair ∈ pairs, Fits pair.1 pair.2 (entries pair.1) candidate := by
  induction handed with
  | nil => simp
  | cons fits _ ih =>
    simpa using ⟨.inl fits, fun later member => .inr (by simpa using ih later member)⟩

theorem Handed.of_pair (handed : Handed entries pairs candidates) (member : pair ∈ pairs) :
    ∃ candidate ∈ candidates, Fits pair.1 pair.2 (entries pair.1) candidate := by
  induction handed with
  | nil => cases member
  | cons fits _ ih =>
    rcases mem_cons.mp member with rfl | later
    · exact ⟨_, by simp, fits⟩
    · obtain ⟨candidate, here, fits⟩ := ih later
      exact ⟨candidate, mem_cons_of_mem _ here, fits⟩

theorem Handed.nonneg (handed : Handed store.entries pairs candidates) :
    ∀ candidate ∈ candidates, 0 ≤ candidate.datumIndex := by
  intro candidate member
  obtain ⟨pair, _, fits⟩ := handed.mem candidate member
  exact (mem_withIndex.mp fits.entry).1

theorem Handed.present (handed : Handed store.entries pairs candidates) :
    ∀ candidate ∈ candidates, Present store.data candidate := by
  intro candidate member _
  obtain ⟨pair, _, fits⟩ := handed.mem candidate member
  rw [fits.channel_eq]
  exact (mem_withIndex.mp fits.entry).2

theorem Handed.present_with [DecidableEq C]
    (handed : Handed (store.entriesWith channel datum) pairs candidates) :
    ∀ candidate ∈ candidates, Present store.data candidate := by
  intro candidate member taken
  obtain ⟨pair, _, fits⟩ := handed.mem candidate member
  have stored : (candidate.original, candidate.datumIndex) ∈ store.entries pair.1 := by
    have entry := fits.entry
    unfold EagerStore.entriesWith at entry
    split_ifs at entry
    · rcases mem_cons.mp entry with new | stored
      · have index : candidate.datumIndex = -1 := congrArg Prod.snd new
        have nonneg := ConsumeCandidate.taken_nonneg taken
        omega
      · exact stored
    · exact entry
  rw [fits.channel_eq]
  exact (mem_withIndex.mp stored).2

end Handed

end F1r3fly.RSpace
