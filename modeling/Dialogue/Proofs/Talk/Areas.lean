import Dialogue.Proofs.Talk.Skipping
import Dialogue.Proofs.Talk.Teardown

/-!
# The areas of a talk

The records of the areas change on four occasions: a section that starts adds its record, the start of
playback makes all areas visible, the request to close starts their animations, and at the end of its
animation an area is detached. Records are found by the numbers of their sections; these differ, so that a
change of all sections changes every record once.

Main results:

* `Areas.foldl_modify_eq` — records that are changed section by section.
* `Talk.areas_startSection`, `Talk.areas_start`, `Talk.Open.areas_perform` — the areas of a talk that was
  not asked to close.
* `Talk.Roster.areas_beginClosing` — what the request to close does to them.
* `Talk.Leaving.perform` — and what is done to them from then on.
-/

namespace Dialogue

/-! ## Records by number -/

namespace Areas

variable {f : AreaRecord → AreaRecord} {records : List AreaRecord}

/-- Where the numbers differ, the first record with a number is the one that has it. -/
theorem modifyFirst_eq_map (hNodup : (records.map AreaRecord.number).Nodup) (number : Nat) :
    modifyFirst number f records =
      records.map fun record => if record.number = number then f record else record := by
  induction records with
  | nil => rfl
  | cons first rest ih =>
    rw [List.map_cons, List.nodup_cons] at hNodup
    obtain ⟨hFirst, hRest⟩ := hNodup
    rw [modifyFirst, List.map_cons]
    split
    · rename_i hNumber
      -- no other record has the number
      have hOthers : rest.map (fun record => if record.number = number then f record else record) =
          rest.map id := by
        refine List.map_congr_left fun record hMem => if_neg fun hSame => hFirst ?_
        rw [hNumber, ← hSame]
        exact List.mem_map_of_mem hMem
      rw [hOthers, List.map_id]
    · rw [ih hRest]

/-- Section by section, the records with these numbers are changed, and nothing else is. -/
theorem foldl_modify_eq (hf : AreaRecord.KeepsLabel f) {numbers : List Nat} (hNumbers : numbers.Nodup)
    {areas : Areas} (hNodup : (areas.records.map AreaRecord.number).Nodup) :
    numbers.foldl (fun areas number => areas.modify number f) areas =
      { areas with
        records := areas.records.map fun record =>
          if record.number ∈ numbers then f record else record } := by
  have hNumber : ∀ record, (f record).number = record.number := fun record =>
    congrArg Prod.fst (hf record)
  induction numbers generalizing areas with
  | nil => simp
  | cons number rest ih =>
    obtain ⟨hNew, hRest⟩ := List.nodup_cons.mp hNumbers
    have hModified := modifyFirst_eq_map (f := f) hNodup number
    have hSame : ((areas.modify number f).records.map AreaRecord.number) =
        areas.records.map AreaRecord.number := by
      show (modifyFirst number f areas.records).map AreaRecord.number = _
      rw [hModified, List.map_map]
      refine List.map_congr_left fun record _ => ?_
      show (if record.number = number then f record else record).number = record.number
      split
      · exact hNumber record
      · rfl
    rw [List.foldl_cons, ih hRest (by rw [hSame]; exact hNodup)]
    show { areas with records := (modifyFirst number f areas.records).map _ } = _
    rw [hModified, List.map_map]
    congr 1
    refine List.map_congr_left fun record _ => ?_
    show (if (if record.number = number then f record else record).number ∈ rest then
      f (if record.number = number then f record else record)
      else if record.number = number then f record else record) = _
    -- the number is not among the later ones, so that its record is changed once
    by_cases hFirst : record.number = number
    · simp [hFirst, hNumber, hNew]
    · simp [hFirst]

end Areas

/-- Whether an operation moves the clock. -/
def Operation.movesClock : Operation → Bool
  | .advanceTo _ | .advanceBy _ | .playOut => true
  | .direct _ | .pace _ | .wrapUp | .start | .skip | .close | .finish | .collectEvents | .observe ..
  | .performWith _ => false

/-- Only three operations move the clock. -/
theorem Operation.movesClock_cases (operation : Operation) :
    operation.movesClock = false ∨ (∃ time, operation = .advanceTo time) ∨
      (∃ delta, operation = .advanceBy delta) ∨ operation = .playOut := by
  cases operation <;> simp [movesClock]

namespace Talk

/-- Changing the areas of all sections changes all records. -/
theorem Roster.foldl_modify_eq {talk : Talk} (h : Roster talk) {f : AreaRecord → AreaRecord}
    (hf : AreaRecord.KeepsLabel f) :
    talk.scrap.numbers.foldl (fun areas number => areas.modify number f) talk.areas =
      { talk.areas with records := talk.areas.records.map f } := by
  have hNodup := h.nodup_records
  rw [Areas.foldl_modify_eq hf (by rw [← h.numbers_records]; exact hNodup) hNodup]
  congr 1
  refine List.map_congr_left fun record hMem => if_pos ?_
  rw [← h.numbers_records]
  exact List.mem_map_of_mem hMem

/-! ## Sections that start -/

@[simp] theorem areas_endSection (talk : Talk) : talk.endSection.areas = talk.areas := by
  unfold endSection
  split <;> rfl

@[simp] theorem areas_modifyCurrent (talk : Talk) (f : Section → Section) :
    (talk.modifyCurrent f).areas = talk.areas := by
  unfold modifyCurrent
  split <;> rfl

/-- A section that starts is handed an area, and adds its record. -/
theorem areas_startSection (talk : Talk) (asked : Option String) :
    (talk.startSection asked).areas =
      { talk.areas.choose (talk.areas.areaFor asked) with
        records := talk.areas.records ++
          [(AreaRecord.fresh (talk.registry.sections + 1) (talk.areas.areaFor asked)).opening] } := by
  have hAreas : (talk.startSection asked).areas =
      { talk.endSection.areas.choose (talk.endSection.areas.areaFor asked) with
        records := modifyLast AreaRecord.opening (talk.endSection.areas.records ++
          [.fresh (talk.endSection.registry.sections + 1)
            (talk.endSection.areas.areaFor asked)]) } := rfl
  rw [hAreas, modifyLast_append_singleton, areas_endSection, registry_endSection]

/-! ## Before the talk is asked to close -/

/-- With the start of playback, the areas of all sections can be seen. -/
theorem areas_start {talk : Talk} (hOpen : talk.outcome .closing = none)
    (hFresh : talk.startTime = none) :
    talk.start.areas = talk.showAreas.areas ∧ talk.start.startTime = some talk.startsAt := by
  by_cases hEmpty : talk.scrap.entries = []
  · obtain ⟨outbox, hPlayed⟩ := (talk.plan talk.startsAt).markPlayed_eq .resolved
    rw [start_of_empty hOpen hFresh hEmpty, hPlayed]
    exact ⟨rfl, rfl⟩
  · cases hPlay : talk.outcome .play with
    -- the reveals are only planned
    | none =>
      rw [start_of_playing hOpen hFresh hEmpty hPlay]
      exact ⟨rfl, rfl⟩
    | some outcome =>
      -- a text that was skipped before is shown at once
      have hSettled : talk.outcome .play ≠ none := by
        rw [hPlay]
        exact Option.some_ne_none _
      have hSkipped : (talk.plan talk.startsAt).outcome .play ≠ none := hSettled
      obtain ⟨shown, hStill⟩ := still_revealRest hSkipped
      obtain ⟨raised, hPlays, -⟩ := revealRest_plays hSkipped
      rw [start_of_skipped hOpen hFresh hEmpty hSettled]
      exact ⟨hStill.areas, (hPlays.seen ⟨0, .terminal⟩).startTime⟩

/-- The start makes all areas visible. -/
theorem Roster.areas_start {talk : Talk} (h : Roster talk) (hOpen : talk.outcome .closing = none)
    (hFresh : talk.startTime = none) :
    talk.start.areas =
      { talk.areas with records := talk.areas.records.map AreaRecord.makeVisible } := by
  have hLabel : AreaRecord.KeepsLabel AreaRecord.makeVisible := fun _ => rfl
  rw [(Talk.areas_start hOpen hFresh).1, ← h.foldl_modify_eq hLabel, Scrap.numbers, List.foldl_map]
  rfl

/-- A skip touches no area. -/
theorem areas_skip (talk : Talk) : talk.skip.2.areas = talk.areas := by
  cases hPlay : talk.outcome .play with
  | some outcome =>
    rw [skip, if_neg]
    -- a text that is shown already is not skipped again
    rw [isPending_eq, hPlay]
    exact Bool.false_ne_true
  | none =>
    by_cases hStarted : talk.startTime = none
    · rw [skip, if_pos (by rw [isPending_eq, hPlay]; rfl)]
      simp [settle, report, hStarted]
    · obtain ⟨-, raised, hStill⟩ := skip_still hPlay hStarted
      exact hStill.areas

/-- Beside its direction, nothing but the start of playback and the request to close changes the areas. -/
theorem Open.areas_perform {talk : Talk} (h : Open talk) {operation : Operation}
    (hRequest : operation.requestsClose = false)
    (hStarted : operation = .start → talk.startTime ≠ none) :
    (talk.perform operation).2.areas = (talk.authoredBy operation).areas := by
  cases operation with
  | direct direction => rfl
  | pace scope =>
    show (talk.pace scope).2.areas = talk.areas
    rw [pace_eq]
  -- the section that it ends leaves the areas alone
  | wrapUp =>
    show talk.wrapUp.2.areas = talk.endSection.areas
    rw [wrapUp_eq h.closing]
  | start =>
    obtain ⟨time, hTime⟩ := Option.ne_none_iff_exists'.mp (hStarted rfl)
    show talk.start.areas = talk.areas
    simp [start, isClosing_of_open h.closing, hTime]
  | skip => exact talk.areas_skip
  | close => cases hRequest
  | finish => cases hRequest
  | advanceTo time =>
    obtain ⟨timed, hTicks, -⟩ := talk.ticks_advanceTo time
    exact hTicks.areas h
  | advanceBy delta =>
    obtain ⟨timed, hTicks, -⟩ := talk.ticks_advanceTo (talk.now + delta)
    exact hTicks.areas h
  | playOut =>
    obtain ⟨timed, hTicks, -⟩ := talk.ticks_playOut
    exact hTicks.areas h
  | collectEvents => rfl
  | observe milestone observer => rfl
  | performWith performer => rfl

/-! ## The request to close -/

/-- The end of a talk leaves its areas as they are. -/
theorem areas_conclude (talk : Talk) : talk.conclude.areas = talk.areas := by
  obtain ⟨registry, outbox, hConclude⟩ := talk.conclude_eq
  rw [hConclude]

/-- Closing sections closes their areas. -/
theorem areas_foldl_startClosing (talk : Talk) (numbers : List Nat) :
    (numbers.foldl startClosing talk).areas =
      numbers.foldl (fun areas number => areas.modify number AreaRecord.close) talk.areas := by
  induction numbers generalizing talk with
  | nil => rfl
  | cons number rest ih => exact ih (talk.startClosing number)

/-- All areas of the closing sections are closed. -/
theorem areas_closeSections (talk : Talk) :
    talk.closeSections.areas =
      talk.closingSections.foldl (fun areas number => areas.modify number AreaRecord.close)
        talk.areas := by
  rw [closeSections]
  simp only
  split
  · rw [areas_conclude, areas_foldl_startClosing]
  · rw [areas_foldl_startClosing]

/-- The animations of all areas start. -/
theorem Roster.areas_beginClosing {talk : Talk} (h : Roster talk)
    (hOpen : talk.outcome .closing = none) (outcome : Outcome) :
    (talk.beginClosing outcome).2.areas =
      { talk.areas with records := talk.areas.records.map AreaRecord.close } := by
  have hPending : talk.isPending .closing = true := by
    rw [isPending_eq, hOpen]
    rfl
  have hLabel : AreaRecord.KeepsLabel AreaRecord.close := fun _ => rfl
  obtain ⟨outbox, hPlay⟩ := abandonPlay_eq
    ((talk.settle .closing outcome).report .debug ("closing (" ++ outcome.name ++ ")"))
  rw [← h.foldl_modify_eq hLabel, ← h.closing, beginClosing, if_pos hPending]
  show (((talk.settle .closing outcome).report .debug
    ("closing (" ++ outcome.name ++ ")")).abandonPlay.stopPlayback).closeSections.areas = _
  -- and abandoning `play` has not touched them before
  rw [areas_closeSections, hPlay]
  rfl

/-! ## On the way out -/

/-- A talk that is closing takes no more sections. -/
theorem areas_direct_of_closing {talk : Talk} (hClosing : talk.isClosing = true)
    (direction : Direction) : (talk.direct direction).areas = talk.areas := by
  refine keeps_direct_asking (fun later => later.areas = talk.areas) (fun _ _ h => h) ?_ ?_ ?_ rfl
  · intro later h
    rwa [areas_endSection]
  · intro later asked hOpen
    rw [hClosing] at hOpen
    cases hOpen
  · intro later f _ _ h
    rwa [areas_modifyCurrent]

/-- Only the clock can change what is left to close. -/
theorem Ending.rest_perform {talk : Talk} (h : Ending talk) {operation : Operation}
    (hClock : operation.movesClock = false) :
    (talk.perform operation).2.areas = talk.areas ∧
      (talk.perform operation).2.agenda = talk.agenda := by
  have hClosing : talk.isClosing = true := isClosing_of_settled h.closing
  have hSettled : talk.isPending .closing = false := isPending_of_settled h.closing
  have hPlayed : talk.isPending .play = false := isPending_of_settled h.play
  cases operation with
  | direct direction =>
    exact ⟨areas_direct_of_closing hClosing direction, (talk.written_direct direction).agenda⟩
  | pace scope => simp [perform, pace, hClosing]
  -- a closing talk has nothing to pace, and what ends its section leaves the clock alone
  | wrapUp =>
    have hEnded : talk.endSection.isClosing = true := by
      rw [← hClosing, isClosing_eq, isClosing_eq, outcome_eq, talk.written_endSection.lifecycle]
      rfl
    simp [perform, wrapUp, pace, hEnded, report, talk.written_endSection.agenda]
  | start => simp [perform, start, hClosing, report]
  | skip => simp [perform, skip, hPlayed]
  | close => simp [perform, close, beginClosing, hSettled]
  | finish => simp [perform, finish, beginClosing, hSettled]
  | advanceTo time => cases hClock
  | advanceBy delta => cases hClock
  | playOut => cases hClock
  | collectEvents => exact ⟨rfl, rfl⟩
  | observe milestone observer => exact ⟨rfl, rfl⟩
  | performWith performer => exact ⟨rfl, rfl⟩

/-- What is left to close is still left, with the areas as they were, or all of it has closed. -/
def AllOrNothing (due : Millis) (left : List Nat) (talk later : Talk) : Prop :=
  (Leaving due left later ∧ later.areas = talk.areas) ∨
    (Leaving due [] later ∧ later.areas =
      left.foldl (fun areas number => areas.modify number AreaRecord.detach) talk.areas)

namespace Leaving

variable {talk : Talk} {due : Millis} {left : List Nat}

/-- When the wait is over, the areas of all sections that are left are detached. -/
theorem areas_fireDue {time : Millis} (h : Leaving due left talk) (hLate : due ≤ time) :
    (talk.fireDue time).areas =
      left.foldl (fun areas number => areas.modify number AreaRecord.detach) talk.areas := by
  induction left generalizing talk with
  | nil =>
    rw [fireDue_of_none (h.pop?_eq_none (.inl rfl))]
    rfl
  | cons number left ih =>
    -- the first section leaves now, and the others are due at the same time
    obtain ⟨rest, hPop, hTaken, hRest⟩ := h.pop?_eq_some hLate
    obtain ⟨registry, outbox, hClosing⟩ := { talk with agenda := rest }.endClosing_eq number
    rw [fireDue_of_pop? hPop, ih (h.fire hTaken hRest), Talk.fire, hClosing]
    rfl

/-- What is left to close is seen on the agenda and at the areas. -/
theorem congr {later : Talk} (h : Leaving due left talk) (hEnding : Ending later)
    (hRoster : Roster later) (hPending : later.agenda.pending = talk.agenda.pending)
    (hAreas : later.areas = talk.areas) : Leaving due left later := by
  refine ⟨hEnding, hRoster, hPending.trans h.pending, ?_⟩
  rw [hAreas]
  exact h.areas

/-- A talk whose clock is moved still waits, or closes all that is left. -/
theorem allOrNothing {later : Talk} (h : Leaving due left talk) (hEnding : Ending later)
    (hRoster : Roster later) {time : Millis}
    (hPending : later.agenda.pending = (talk.fireDue time).agenda.pending)
    (hAreas : later.areas = (talk.fireDue time).areas) : AllOrNothing due left talk later := by
  by_cases hLate : due ≤ time
  · exact .inr ⟨(leaving_fireDue h hLate).1.congr hEnding hRoster hPending hAreas,
      hAreas.trans (h.areas_fireDue hLate)⟩
  · rw [fireDue_of_none (h.pop?_eq_none (.inr (Nat.lt_of_not_le hLate)))] at hPending hAreas
    exact .inl ⟨h.congr hEnding hRoster hPending hAreas, hAreas⟩

/-- To play out is to wait until all that is left has closed. -/
theorem playOut (h : Leaving due left talk) :
    talk.playOut.2.agenda.pending = (talk.fireDue due).agenda.pending ∧
      talk.playOut.2.areas = (talk.fireDue due).areas := by
  cases left with
  | nil =>
    rw [playOut_of_none (Agenda.nextDue_eq_none.mpr h.pending),
      fireDue_of_none (h.pop?_eq_none (.inl rfl))]
    exact ⟨rfl, rfl⟩
  | cons number left =>
    have hDue : talk.nextDue = some due := by
      show talk.agenda.nextDue = some due
      rw [Agenda.nextDue, h.pending]
      rfl
    -- one move of the clock, and nothing is left
    have hNothing : (talk.advanceTo due).2.agenda.pending = [] :=
      (leaving_fireDue h (Millis.le_refl due)).1.pending
    rw [playOut_of_due hDue, playOut_of_none (Agenda.nextDue_eq_none.mpr hNothing)]
    exact ⟨rfl, rfl⟩

/-- Until the wait is over nothing happens, and then all that is left happens at once. -/
theorem perform (h : Leaving due left talk) (hReachable : Reachable talk) (operation : Operation) :
    AllOrNothing due left talk (talk.perform operation).2 := by
  have hLeads : Leads talk [operation] (talk.perform operation).2 := .perform .refl operation
  have hEnding := (hReachable.leads hLeads).isEnding (hLeads.closing h.ending.closing)
  have hRoster := (hReachable.leads hLeads).roster
  -- an operation that leaves the clock alone leaves all sections, and one that moves it takes all or none
  rcases operation.movesClock_cases with hStill | ⟨time, rfl⟩ | ⟨delta, rfl⟩ | rfl
  · obtain ⟨hAreas, hAgenda⟩ := h.ending.rest_perform hStill
    exact .inl ⟨h.congr hEnding hRoster (by rw [hAgenda]) hAreas, hAreas⟩
  · exact h.allOrNothing hEnding hRoster (show _ = (talk.fireDue time).agenda.pending from rfl) rfl
  · exact h.allOrNothing hEnding hRoster
      (show _ = (talk.fireDue (talk.now + delta)).agenda.pending from rfl) rfl
  · exact h.allOrNothing hEnding hRoster h.playOut.1 h.playOut.2

end Leaving

end Talk

end Dialogue
