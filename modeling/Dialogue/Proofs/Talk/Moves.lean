import Dialogue.Proofs.Talk.Writing

/-!
# Moves

Whatever a host does to a talk happens in small steps. A `Move` is a step of playback with the events
that it raises: a cue fires, the text is skipped, or nothing changes that a later step depends on.
`Plays` puts moves one after the other, and `Effect` says what each operation comes to: moves,
authoring, pacing, starting, or closing.

Main results:

* `Talk.fireDue_plays`, `Talk.playOut_plays` — the clock makes moves.
* `Talk.revealRest_plays` — so does a skip: all reveals that are left fire at once.
* `Talk.effect_perform` — every operation has its `Effect`, and hands out events or keeps them.
-/

namespace Dialogue.Talk

/-! ## Moves -/

/-- `later` is like `talk` in all that later steps depend on. The clock may have moved forward, and
what was told to the outside may have been taken. -/
structure Alike (talk later : Talk) : Prop where
  options : later.options = talk.options
  scrap : later.scrap = talk.scrap
  pending : later.agenda.pending = talk.agenda.pending
  now_le : talk.agenda.now ≤ later.agenda.now
  startTime : later.startTime = talk.startTime
  marks : later.marks = talk.marks
  outcome : ∀ milestone, later.outcome milestone = talk.outcome milestone
  closingSections : later.closingSections = talk.closingSections
  closesLeft : later.closesLeft = talk.closesLeft

/-- A cue is taken from an agenda. No reveal stands before it, and the clock may move forward. -/
structure Taken (agenda : Agenda Cue) (cue : Cue) (rest : Agenda Cue) : Prop where
  split : ∃ before due after, agenda.pending = before ++ ⟨due, cue⟩ :: after ∧
    rest.pending = before ++ after ∧ ∀ x ∈ before, x.event.isReveal = false
  now_le : agenda.now ≤ rest.now

/-- A cue that is taken was on the agenda. -/
theorem Taken.mem {agenda rest : Agenda Cue} {cue : Cue} (hTaken : Taken agenda cue rest) :
    ∃ due, ⟨due, cue⟩ ∈ agenda.pending := by
  obtain ⟨before, due, after, hPending, -⟩ := hTaken.split
  exact ⟨due, by rw [hPending]; simp⟩

/-- What is left on the agenda was there before. -/
theorem Taken.mem_of_mem {agenda rest : Agenda Cue} {cue : Cue} (hTaken : Taken agenda cue rest)
    {x : Appointment Cue} (hMem : x ∈ rest.pending) : x ∈ agenda.pending := by
  obtain ⟨before, due, after, hPending, hRest, -⟩ := hTaken.split
  rw [hPending]
  rw [hRest] at hMem
  exact (List.Sublist.append_left (List.sublist_cons_self ..) before).subset hMem

/-- The cue that is taken stood among those that are left. -/
theorem Taken.exists_perm {agenda rest : Agenda Cue} {cue : Cue} (hTaken : Taken agenda cue rest) :
    ∃ due, agenda.pending.Perm (⟨due, cue⟩ :: rest.pending) := by
  obtain ⟨before, due, after, hPending, hRest, -⟩ := hTaken.split
  refine ⟨due, ?_⟩
  rw [hPending, hRest]
  exact List.perm_middle

/-- The events of a cue that fires. -/
def firedEvents (talk : Talk) : Cue → List Event
  | .reveal entry last => talk.revealEvents entry last
  | .fadeEnd entry => [.faded entry]
  | .closeEnd number =>
    .sectionClosed number :: if talk.closesLeft - 1 = 0 then talk.closedEvents else []

/-- When a section has closed, that is told, and perhaps that the talk is over. -/
theorem mem_firedEvents_closeEnd {talk : Talk} {number : Nat} {event : Event}
    (hMem : event ∈ talk.firedEvents (.closeEnd number)) :
    event = .sectionClosed number ∨ event = .closed := by
  rcases List.mem_cons.mp hMem with rfl | hClosed
  · exact .inl rfl
  · split at hClosed
    · exact .inr (mem_closedEvents hClosed)
    · cases hClosed

/-- One step of playback, with the events that it raises. -/
inductive Move : Talk → List Event → Talk → Prop where
  | quiet {talk later : Talk} (hAlike : Alike talk later) : Move talk [] later
  | skip {talk : Talk} (hPlaying : talk.outcome .play = none) :
      Move talk [] (talk.settle .play .resolved)
  | fire {talk : Talk} {cue : Cue} {rest : Agenda Cue} (hTaken : Taken talk.agenda cue rest) :
      Move talk (talk.firedEvents cue) ({ talk with agenda := rest }.fire cue)

/-- Moves one after the other, with all events that they raise. -/
inductive Plays : Talk → List Event → Talk → Prop where
  | refl (talk : Talk) : Plays talk [] talk
  | move {first second third : Talk} {raised more : List Event} (hMove : Move first raised second)
      (hRest : Plays second more third) : Plays first (raised ++ more) third

namespace Plays

/-- One move is one way to play. -/
theorem single {talk later : Talk} {raised : List Event} (hMove : Move talk raised later) :
    Plays talk raised later := by
  rw [← List.append_nil raised]
  exact .move hMove (.refl later)

/-- One stretch of playing can follow another. -/
theorem trans {first second third : Talk} {raised more : List Event}
    (h : Plays first raised second) (h' : Plays second more third) :
    Plays first (raised ++ more) third := by
  induction h with
  | refl talk => exact h'
  | move hMove hRest ih =>
    rw [List.append_assoc]
    exact .move hMove (ih h')

/-- What every move keeps, moves one after the other keep. -/
theorem keeps {Inv : List Event → Talk → Prop}
    (hMove : ∀ {raised talk more later}, Inv raised talk → Move talk more later →
      Inv (raised ++ more) later)
    {talk later : Talk} {raised more : List Event} (hPlays : Plays talk more later)
    (hInv : Inv raised talk) : Inv (raised ++ more) later := by
  induction hPlays generalizing raised with
  | refl talk => rwa [List.append_nil]
  | move hFirst hRest ih =>
    rw [← List.append_assoc]
    exact ih (hMove hInv hFirst)

end Plays

/-! ## What is left to do -/

/-- A cue puts nothing on the agenda but the end of a fade, which begins when an entry is revealed. -/
theorem mem_agenda_fire {talk : Talk} {cue : Cue} {x : Appointment Cue}
    (hMem : x ∈ (talk.fire cue).agenda.pending) :
    x ∈ talk.agenda.pending ∨ ∃ entry last, cue = .reveal entry last ∧
      x = ⟨talk.now + talk.options.tempo.fade, .fadeEnd entry⟩ := by
  cases cue with
  | reveal entry last =>
    -- a reveal adds the end of its fade if the talk animates
    obtain ⟨outbox, hReveal⟩ := talk.reveal_eq entry last
    rw [fire, hReveal] at hMem
    simp only at hMem
    split at hMem
    · rcases Agenda.mem_insertLast.mp hMem with rfl | hMem
      · exact .inr ⟨entry, last, rfl, rfl⟩
      · exact .inl hMem
    · exact .inl hMem
  | fadeEnd entry =>
    rw [fire, agenda_endFade] at hMem
    exact .inl hMem
  | closeEnd number =>
    rw [fire, agenda_endClosing] at hMem
    exact .inl hMem

/-- What a cue leaves on the agenda: what was there but for the cue, and the fade that it starts. -/
theorem mem_pending_fire {talk : Talk} {cue : Cue} {rest : Agenda Cue}
    (hTaken : Taken talk.agenda cue rest) {x : Appointment Cue}
    (hMem : x ∈ ({ talk with agenda := rest }.fire cue).agenda.pending) :
    x ∈ talk.agenda.pending ∨ ∃ entry, x.event = .fadeEnd entry := by
  rcases mem_agenda_fire hMem with hOld | ⟨entry, -, -, rfl⟩
  · exact .inl (hTaken.mem_of_mem hOld)
  · exact .inr ⟨entry, rfl⟩

/-- A plan adds reveals. -/
theorem mem_pending_plan {talk : Talk} {start : Millis} {x : Appointment Cue}
    (hMem : x ∈ (talk.plan start).agenda.pending) :
    x ∈ talk.agenda.pending ∨ x.event.isReveal = true := by
  -- what stood there and the reveals, in some order
  have hAll := (perm_scheduleAll talk.agenda (reveals start 0 talk.scrap.entries)).mem_iff.mp hMem
  rcases List.mem_append.mp hAll with hNew | hOld
  · obtain ⟨cue, hCue, rfl⟩ := List.mem_map.mp hNew
    exact .inr (isReveal_of_mem_reveals hCue)
  · exact .inl hOld

/-! ## What a cue changes in the scrap -/

/-- What fires moves no entry to another place. -/
theorem marks_fire (talk : Talk) (cue : Cue) : (talk.fire cue).marks = talk.marks := by
  cases cue with
  | reveal entry last =>
    obtain ⟨outbox, hReveal⟩ := talk.reveal_eq entry last
    rw [fire, hReveal]
  | fadeEnd entry => rw [fire, endFade_eq]
  | closeEnd number =>
    obtain ⟨registry, outbox, hClosing⟩ := talk.endClosing_eq number
    rw [fire, hClosing]

/-- What fires does not change the time at which the talk has started. -/
theorem startTime_fire (talk : Talk) (cue : Cue) : (talk.fire cue).startTime = talk.startTime := by
  cases cue with
  | reveal entry last =>
    obtain ⟨outbox, hReveal⟩ := talk.reveal_eq entry last
    rw [fire, hReveal]
  | fadeEnd entry => rw [fire, endFade_eq]
  | closeEnd number =>
    obtain ⟨registry, outbox, hClosing⟩ := talk.endClosing_eq number
    rw [fire, hClosing]

/-- A reveal and the end of a fade change the entry with their number, and nothing else changes. -/
theorem entryAt?_fire (talk : Talk) (cue : Cue) (place : Place) :
    (talk.fire cue).scrap.entryAt? place =
      match cue with
      | .reveal entry _ =>
        if talk.marks[entry]? = some place then
          (talk.scrap.entryAt? place).map fun e =>
            { e with visible := true, fading := talk.animates }
        else talk.scrap.entryAt? place
      | .fadeEnd entry =>
        if talk.marks[entry]? = some place then
          (talk.scrap.entryAt? place).map fun e => { e with fading := false }
        else talk.scrap.entryAt? place
      | .closeEnd _ => talk.scrap.entryAt? place := by
  cases cue with
  | reveal entry last =>
    obtain ⟨outbox, hReveal⟩ := talk.reveal_eq entry last
    rw [fire, hReveal]
    exact talk.entryAt?_revealed entry place
  | fadeEnd entry => exact talk.entryAt?_endFade entry place
  | closeEnd number =>
    obtain ⟨registry, outbox, hClosing⟩ := talk.endClosing_eq number
    -- a section that leaves takes no entry with it
    rw [fire, hClosing]

/-- No move loses an entry. -/
theorem Move.isSome_entryAt? {talk later : Talk} {raised : List Event}
    (hMove : Move talk raised later) {place : Place}
    (h : (talk.scrap.entryAt? place).isSome) : (later.scrap.entryAt? place).isSome := by
  cases hMove with
  | quiet hAlike => rwa [hAlike.scrap]
  | skip => exact h
  | fire hTaken =>
    rename_i cue rest
    rw [entryAt?_fire]
    cases cue with
    | reveal entry last =>
      simp only
      split
      · simpa using h
      · exact h
    | fadeEnd entry =>
      simp only
      split
      · simpa using h
      · exact h
    | closeEnd number => exact h

/-! ## The clock -/

/-- What fires raises its events behind those that wait. -/
theorem events_fire (talk : Talk) (cue : Cue) :
    (talk.fire cue).events = talk.events ++ talk.firedEvents cue := by
  cases cue with
  | reveal entry last =>
    obtain ⟨outbox, hReveal⟩ := talk.reveal_eq entry last
    rw [fire, hReveal]
    rfl
  | fadeEnd entry =>
    rw [fire, endFade_eq]
    rfl
  | closeEnd number =>
    obtain ⟨registry, outbox, hClosing⟩ := talk.endClosing_eq number
    rw [fire, hClosing]
    rfl

/-- A cue that pops up was taken from the agenda. -/
theorem taken_of_pop? {talk rest : Talk} {limit : Millis} {cue : Cue}
    (h : talk.pop? limit = some (cue, rest)) :
    ∃ agenda, Taken talk.agenda cue agenda ∧ rest = { talk with agenda } := by
  obtain ⟨⟨next, agenda⟩, hPop, hEq⟩ := Option.map_eq_some_iff.mp h
  simp only [Prod.mk.injEq] at hEq
  obtain ⟨rfl, rfl⟩ := hEq
  obtain ⟨hPending, -, hNow⟩ := Agenda.pop?_eq_some hPop
  refine ⟨agenda, ⟨⟨[], next.due, agenda.pending, hPending, rfl, by simp⟩, ?_⟩, rfl⟩
  rw [hNow]
  exact Millis.le_max_left _ _

/-- Firing what is due makes moves. -/
theorem fireDue_plays (talk : Talk) (limit : Millis) :
    ∃ raised, Plays talk raised (talk.fireDue limit) ∧
      (talk.fireDue limit).events = talk.events ++ raised := by
  fun_induction fireDue talk limit with
  | case1 talk => exact ⟨[], .refl talk, by simp⟩
  | case2 talk cue rest hPop ih =>
    obtain ⟨raised, hPlays, hEvents⟩ := ih
    obtain ⟨agenda, hTaken, rfl⟩ := taken_of_pop? hPop
    refine ⟨talk.firedEvents cue ++ raised, .move (.fire hTaken) hPlays, ?_⟩
    rw [hEvents, events_fire, List.append_assoc]
    cases cue <;> rfl

/-- Moving the clock is playing. -/
theorem advanceTo_plays (talk : Talk) (time : Millis) :
    ∃ raised, Plays talk raised (talk.advanceTo time).2 ∧
      talk.events ++ raised = (talk.advanceTo time).1 ++ (talk.advanceTo time).2.events := by
  obtain ⟨raised, hPlays, hEvents⟩ := talk.fireDue_plays time
  have hTaken : Alike (talk.fireDue time) (talk.advanceTo time).2 :=
    ⟨rfl, rfl, rfl, Millis.le_max_left _ _, rfl, rfl, fun _ => rfl, rfl, rfl⟩
  refine ⟨raised, ?_, ?_⟩
  · have hAll := hPlays.trans (.single (.quiet hTaken))
    rwa [List.append_nil] at hAll
  · rw [← hEvents]
    exact (List.append_nil _).symm

/-- Playing out is playing. -/
theorem playOut_plays (talk : Talk) :
    ∃ raised, Plays talk raised talk.playOut.2 ∧
      talk.events ++ raised = talk.playOut.1 ++ talk.playOut.2.events := by
  fun_induction playOut talk with
  | case1 talk hDue =>
    have hTaken : Alike talk talk.collectEvents.2 :=
      ⟨rfl, rfl, rfl, Millis.le_refl _, rfl, rfl, fun _ => rfl, rfl, rfl⟩
    exact ⟨[], .single (.quiet hTaken), rfl⟩
  | case2 talk due hDue later last hRest ih =>
    -- up to the next due time, and on from there
    obtain ⟨raised, hPlays, hEvents⟩ := talk.advanceTo_plays due
    obtain ⟨more, hMore, hLater⟩ := ih
    rw [hRest] at hMore hLater
    refine ⟨raised ++ more, hPlays.trans hMore, ?_⟩
    rw [← List.append_assoc, hEvents, List.append_assoc, hLater, List.append_assoc]

/-! ## Revealing the rest -/

/-- A reveal without animation has nothing to do with the agenda. -/
theorem reveal_of_not_animates {talk : Talk} (hStill : talk.animates = false)
    (agenda : Agenda Cue) (entry : Nat) (last : Bool) :
    { talk with agenda }.reveal entry last = { talk.reveal entry last with agenda } := by
  have hShow : { talk with agenda }.showEntry entry = { talk.showEntry entry with agenda } := by
    have hMarked : { talk with agenda }.marked? entry = talk.marked? entry := rfl
    unfold showEntry
    rw [hMarked]
    cases talk.marked? entry <;> rfl
  -- to be played does not depend on the agenda either
  have hPlayed : ∀ t : Talk, { t with agenda }.markPlayed .resolved =
      { t.markPlayed .resolved with agenda } := by
    intro t
    have hPending : { t with agenda }.isPending .played = t.isPending .played := rfl
    unfold markPlayed
    rw [hPending]
    split <;> rfl
  have hAnimates : { talk with agenda }.animates = false := hStill
  unfold reveal
  simp only [hStill, hAnimates, Bool.false_eq_true, if_false, hShow]
  split
  · exact hPlayed _
  · rfl

/-- Of the milestones a reveal settles `played` at most. -/
theorem outcome_reveal (talk : Talk) (entry : Nat) (last : Bool) {milestone : Milestone}
    (hOther : milestone ≠ .played) :
    (talk.reveal entry last).outcome milestone = talk.outcome milestone := by
  obtain ⟨outbox, hReveal⟩ := talk.reveal_eq entry last
  rw [hReveal, outcome_eq, outcome_eq]
  cases last with
  | false => rfl
  | true =>
    simp only [if_true, Lifecycle.outcome_get_settle]
    rw [if_neg hOther.symm]

/-- A text that was skipped does not animate. -/
theorem not_animates_of_skipped {talk : Talk} (hSkipped : talk.outcome .play ≠ none) :
    talk.animates = false := by
  rw [animates_eq]
  cases hPlay : talk.outcome .play with
  | none => exact absurd hPlay hSkipped
  | some outcome => rfl

/-- Where no reveal is pending there is no rest to be revealed. -/
theorem revealRest_of_none {talk : Talk} (hNone : talk.agenda.cancelled Cue.isReveal = []) :
    talk.revealRest = talk := by
  have hOther : ∀ x ∈ talk.agenda.pending, x.event.isReveal = false := by
    simpa [Agenda.cancelled, List.filter_eq_nil_iff] using hNone
  have hCancel : talk.agenda.cancel Cue.isReveal = talk.agenda := by
    refine Agenda.ext rfl (List.filter_eq_self.mpr ?_)
    intro x hMem
    rw [hOther x hMem]
    rfl
  unfold revealRest
  simp only [hNone, hCancel, List.foldl_nil]

/-- The first of the reveals that are left can be taken, whatever stands before it. -/
theorem exists_taken {agenda : Agenda Cue} {cue : Cue} {more : List Cue}
    (hLeft : agenda.cancelled Cue.isReveal = cue :: more) :
    ∃ rest, Taken agenda cue rest ∧ cue.isReveal = true ∧
      rest.cancelled Cue.isReveal = more ∧
      rest.cancel Cue.isReveal = agenda.cancel Cue.isReveal := by
  have hFilter : (agenda.pending.filter fun x => x.event.isReveal).map Appointment.event =
      cue :: more := by
    rw [← hLeft, Agenda.cancelled, List.filter_map]
    rfl
  obtain ⟨⟨time, cue⟩, others, hCons, rfl, rfl⟩ := List.map_eq_cons_iff.mp hFilter
  obtain ⟨before, after, hPending, hBefore, hReveal, hAfter⟩ := List.filter_eq_cons_iff.mp hCons
  have hSorted := agenda.sorted
  rw [hPending] at hSorted
  refine ⟨⟨agenda.now, before ++ after,
    hSorted.sublist (List.Sublist.append_left (List.sublist_cons_self ..) before)⟩,
    ⟨⟨before, time, after, hPending, rfl, by simpa using hBefore⟩, Millis.le_refl _⟩, hReveal,
    ?_, ?_⟩
  · -- no reveal stands before it, so those behind it are the others
    have hNoneBefore : before.filter (fun x => x.event.isReveal) = [] :=
      List.filter_eq_nil_iff.mpr hBefore
    rw [Agenda.cancelled, List.filter_map]
    show ((before ++ after).filter fun x => x.event.isReveal).map _ = _
    rw [List.filter_append, hNoneBefore, hAfter, List.nil_append]
  · -- and the cue that was taken would be struck out anyway
    refine Agenda.ext rfl ?_
    show (before ++ after).filter _ = agenda.pending.filter _
    have hDropped : (!cue.isReveal) = false := by
      rw [hReveal]
      rfl
    rw [hPending, List.filter_append, List.filter_append, List.filter_cons_of_neg (by simp [hDropped])]

/-- Showing the rest shows the first entry that is left, and then the rest. -/
theorem revealRest_reveal {talk : Talk} (hStill : talk.animates = false) {entry : Nat} {last : Bool}
    {more : List Cue} {rest : Agenda Cue}
    (hLeft : talk.agenda.cancelled Cue.isReveal = .reveal entry last :: more)
    (hMore : rest.cancelled Cue.isReveal = more)
    (hCancel : rest.cancel Cue.isReveal = talk.agenda.cancel Cue.isReveal) :
    ({ talk with agenda := rest }.reveal entry last).revealRest = talk.revealRest := by
  have hNext := reveal_of_not_animates hStill rest entry last
  have hOthers : ({ talk with agenda := rest }.reveal entry last).agenda.cancelled Cue.isReveal =
      more := by
    rw [hNext]
    exact hMore
  unfold revealRest
  simp only [hOthers, hLeft, List.foldl_cons]
  rw [hNext, ← hCancel, reveal_of_not_animates hStill (rest.cancel Cue.isReveal)]

/-- Where the text was skipped, all reveals that are left fire one after the other. -/
theorem revealRest_plays {talk : Talk} (hSkipped : talk.outcome .play ≠ none) :
    ∃ raised, Plays talk raised talk.revealRest ∧
      talk.revealRest.events = talk.events ++ raised := by
  generalize hLeft : talk.agenda.cancelled Cue.isReveal = left
  induction left generalizing talk with
  | nil =>
    rw [revealRest_of_none hLeft]
    exact ⟨[], .refl talk, (List.append_nil _).symm⟩
  | cons cue more ih =>
    obtain ⟨rest, hTaken, hReveal, hMore, hCancel⟩ := exists_taken hLeft
    cases cue with
    | fadeEnd entry => cases hReveal
    | closeEnd number => cases hReveal
    | reveal entry last =>
      have hStill := not_animates_of_skipped hSkipped
      -- the text stays skipped, and the others are left
      have hSettled : ({ talk with agenda := rest }.reveal entry last).outcome .play ≠ none := by
        rw [outcome_reveal _ _ _ (by decide)]
        exact hSkipped
      have hOthers : ({ talk with agenda := rest }.reveal entry last).agenda.cancelled
          Cue.isReveal = more := by
        rw [reveal_of_not_animates hStill]
        exact hMore
      obtain ⟨raised, hPlays, hEvents⟩ := ih hSettled hOthers
      rw [revealRest_reveal hStill hLeft hMore hCancel] at hPlays hEvents
      refine ⟨talk.firedEvents (.reveal entry last) ++ raised, .move (.fire hTaken) hPlays, ?_⟩
      rw [hEvents, ← List.append_assoc]
      congr 1
      exact events_fire { talk with agenda := rest } (.reveal entry last)

/-! ## Operations -/

theorem alike_report (talk : Talk) (severity : Severity) (text : String) :
    Alike talk (talk.report severity text) :=
  ⟨rfl, rfl, rfl, Millis.le_refl _, rfl, rfl, fun _ => rfl, rfl, rfl⟩

/-- A skip is a settlement, and then playing. -/
theorem skip_plays (talk : Talk) :
    ∃ raised, Plays talk raised talk.skip.2 ∧ talk.skip.2.events = talk.events ++ raised := by
  unfold skip
  rw [isPending_eq]
  cases hPlay : talk.outcome .play with
  | some outcome => exact ⟨[], .refl talk, by simp⟩
  | none =>
    -- `play` resolves, and what is left is revealed if playback has started
    have hFirst : Plays talk [] ((talk.settle .play .resolved).report .debug "play resolved") :=
      .move (.skip hPlay) (.single (.quiet (alike_report ..)))
    have hSettled :
        ((talk.settle .play .resolved).report .debug "play resolved").outcome .play ≠ none := by
      show ((talk.lifecycle.settle .play .resolved).get .play).outcome ≠ none
      rw [Lifecycle.outcome_get_settle]
      simp
    by_cases hStarted : talk.startTime.isSome
    · obtain ⟨raised, hPlays, hEvents⟩ := revealRest_plays hSettled
      have hRest := hFirst.trans hPlays
      exact ⟨raised, by simpa [settle, report, hStarted] using hRest,
        by simpa [settle, report, hStarted] using hEvents⟩
    · exact ⟨[], by simpa [settle, report, hStarted] using hFirst,
        by simp [settle, report, hStarted]⟩

/-- What an operation comes to, with the events that it raises. -/
inductive Effect (talk : Talk) : Operation → List Event → Talk → Prop where
  | plays {operation : Operation} {raised : List Event} {later : Talk}
      (hOther : operation.scope? = none) (hPlays : Plays talk raised later) :
      Effect talk operation raised later
  | written {operation : Operation} {later : Talk}
      (hOther : operation.scope? = none ∨ talk.outcome .closing ≠ none)
      (hWritten : Written talk later) : Effect talk operation [] later
  | paced {scope : PaceScope} {later : Talk} (hPaced : Paced talk scope later) :
      Effect talk (.pace scope) [] later
  /-- The current section is ended before everything is paced. -/
  | wrapped {ended later : Talk} (hWritten : Written talk ended)
      (hPaced : Paced ended .whole later) : Effect talk .wrapUp [] later
  | started {raised : List Event} {later : Talk} (hOpen : talk.outcome .closing = none)
      (hFresh : talk.startTime = none) (hText : talk.scrap.entries ≠ [])
      (hPlays : Plays (talk.plan talk.startsAt) raised later) : Effect talk .start raised later
  /-- A text without entries is complete as soon as it starts. -/
  | completed (hOpen : talk.outcome .closing = none) (hFresh : talk.startTime = none)
      (hEmpty : talk.scrap.entries = []) :
      Effect talk .start (talk.playedEvents .resolved)
        ((talk.plan talk.startsAt).markPlayed .resolved)
  | closed {operation : Operation} (hRequest : operation.requestsClose = true) (outcome : Outcome)
      (hOpen : talk.outcome .closing = none) :
      Effect talk operation talk.closingEvents (talk.beginClosing outcome).2

/-- A start has one of the effects, or none if it is the second or comes too late. -/
theorem effect_start (talk : Talk) :
    ∃ raised, Effect talk .start raised talk.start ∧ talk.start.events = talk.events ++ raised := by
  cases hClosing : talk.outcome .closing with
  | some outcome =>
    have hStart : talk.start = talk.report .warn "run after close" := by
      simp [start, isClosing_eq, hClosing]
    rw [hStart]
    exact ⟨[], .plays rfl (.single (.quiet (alike_report ..))), (List.append_nil _).symm⟩
  | none =>
    -- starting has an effect once, on a talk that is open
    cases hFresh : talk.startTime with
    | some time =>
      have hStart : talk.start = talk := by
        simp [start, isClosing_eq, hClosing, hFresh]
      rw [hStart]
      exact ⟨[], .plays rfl (.refl talk), (List.append_nil _).symm⟩
    | none =>
      by_cases hEmpty : talk.scrap.entries = []
      · obtain ⟨outbox, hPlayed⟩ := (talk.plan talk.startsAt).markPlayed_eq .resolved
        rw [start_of_empty hClosing hFresh hEmpty]
        exact ⟨_, .completed hClosing hFresh hEmpty, by rw [hPlayed]; rfl⟩
      · cases hPlay : talk.outcome .play with
        | none =>
          -- the reveals are planned, and nothing is raised yet
          rw [start_of_playing hClosing hFresh hEmpty hPlay]
          exact ⟨[], .started hClosing hFresh hEmpty (.refl _), (List.append_nil _).symm⟩
        | some outcome =>
          -- a text that was skipped before is revealed at once
          have hSettled : (talk.plan talk.startsAt).outcome .play ≠ none := by
            show talk.outcome .play ≠ none
            rw [hPlay]; simp
          obtain ⟨raised, hPlays, hEvents⟩ := revealRest_plays hSettled
          rw [start_of_skipped hClosing hFresh hEmpty (by rw [hPlay]; simp)]
          exact ⟨raised, .started hClosing hFresh hEmpty hPlays, hEvents⟩

/-- Neither a total nor a refusal hands events out. -/
theorem raised_ofPacing (outcome : Except PacingError Millis) : (Reply.ofPacing outcome).raised = [] := by
  cases outcome <;> rfl

/-- Pacing has its effect on an open talk, whether the scope can be paced or not. -/
theorem effect_pace (talk : Talk) (scope : PaceScope) :
    Effect talk (.pace scope) [] (talk.perform (.pace scope)).2 ∧
      (talk.perform (.pace scope)).2.events = talk.events := by
  simp only [perform]
  rcases hPace : talk.pace scope with ⟨outcome, later⟩
  cases outcome with
  | ok total =>
    have hPaced := paced_of_pace hPace
    exact ⟨.paced hPaced, by rw [hPaced.rest]⟩
  | error error =>
    refine ⟨?_, by rw [eq_of_pace_error hPace]⟩
    cases hClosing : talk.outcome .closing with
    | some outcome =>
      rw [eq_of_pace_error hPace]
      exact .written (.inr (by simp [hClosing])) (.refl talk)
    | none => exact .paced (paced_of_pace_error hClosing hPace)

/-- Wrapping up ends the section and paces the scrap, as far as the talk is open. -/
theorem effect_wrapUp (talk : Talk) :
    Effect talk .wrapUp [] talk.wrapUp.2 ∧ talk.wrapUp.2.events = talk.events := by
  have hWritten := talk.written_endSection
  unfold wrapUp
  simp only
  rcases hPace : talk.endSection.pace .whole with ⟨outcome, later⟩
  cases outcome with
  | ok total =>
    have hPaced := paced_of_pace hPace
    refine ⟨.wrapped hWritten hPaced, ?_⟩
    simp only
    rw [hPaced.rest]
    exact hWritten.events
  | error error =>
    obtain rfl := eq_of_pace_error hPace
    refine ⟨?_, hWritten.events⟩
    cases hClosing : talk.outcome .closing with
    | some outcome =>
      exact .written (.inr (by simp [hClosing])) (hWritten.trans (written_report ..))
    | none =>
      -- all of the scrap can always be paced
      have hOpen : talk.endSection.isClosing = false := by
        rw [isClosing_eq, outcome_eq, hWritten.lifecycle, ← outcome_eq, hClosing]
        rfl
      simp [pace, hOpen] at hPace

/-- Observing a signal does not change how it stands. -/
theorem outcome_observe (talk : Talk) (milestone : Milestone) (observer : Observer)
    (other : Milestone) : (talk.observe milestone observer).outcome other = talk.outcome other := by
  -- enlisting an observer does not settle the signal
  have hEnlist : ((talk.lifecycle.get milestone).enlist observer).outcome =
      (talk.lifecycle.get milestone).outcome := by
    unfold Signal.enlist; split <;> rfl
  show ((talk.lifecycle.put milestone _).get other).outcome = _
  by_cases hEq : other = milestone
  · subst hEq
    rw [Lifecycle.get_put, hEnlist]
    rfl
  · rw [Lifecycle.get_put_of_ne _ _ hEq]
    rfl

/-- The first request to close has its effect, and no later one has any. -/
theorem effect_beginClosing (talk : Talk) {operation : Operation}
    (hRequest : operation.requestsClose = true) (outcome : Outcome) :
    ∃ raised, Effect talk operation raised (talk.beginClosing outcome).2 ∧
      (talk.beginClosing outcome).2.events = talk.events ++ raised := by
  cases hClosing : talk.outcome .closing with
  | none =>
    obtain ⟨registry, areas, outbox, hEq⟩ := beginClosing_eq hClosing outcome
    exact ⟨talk.closingEvents, .closed hRequest outcome hClosing, by rw [hEq]⟩
  | some settled =>
    have hSame : (talk.beginClosing outcome).2 = talk := by
      simp [beginClosing, isPending_eq, hClosing]
    rw [hSame]
    exact ⟨[], .plays (Operation.scope?_of_requestsClose hRequest) (.refl talk),
      (List.append_nil _).symm⟩

/-- Each operation has an effect. The events go into the reply, or wait to be taken. -/
theorem effect_perform (talk : Talk) (operation : Operation) :
    ∃ raised, Effect talk operation raised (talk.perform operation).2 ∧
      talk.events ++ raised =
        (talk.perform operation).1.raised ++ (talk.perform operation).2.events := by
  cases operation with
  | direct direction =>
    have hWritten := talk.written_direct direction
    exact ⟨[], .written (.inl rfl) hWritten, by rw [List.append_nil]; exact hWritten.events.symm⟩
  | pace scope =>
    obtain ⟨hEffect, hEvents⟩ := talk.effect_pace scope
    refine ⟨[], hEffect, ?_⟩
    have hNone : (talk.perform (.pace scope)).1.raised = [] := raised_ofPacing _
    rw [hEvents, hNone, List.append_nil, List.nil_append]
  | wrapUp =>
    obtain ⟨hEffect, hEvents⟩ := talk.effect_wrapUp
    exact ⟨[], hEffect, by rw [List.append_nil]; exact hEvents.symm⟩
  | start =>
    obtain ⟨raised, hEffect, hEvents⟩ := talk.effect_start
    exact ⟨raised, hEffect, hEvents.symm⟩
  | skip =>
    obtain ⟨raised, hPlays, hEvents⟩ := talk.skip_plays
    exact ⟨raised, .plays rfl hPlays, hEvents.symm⟩
  | close =>
    have hRequest : Operation.requestsClose .close = true := rfl
    obtain ⟨raised, hEffect, hEvents⟩ := talk.effect_beginClosing hRequest .abandoned
    exact ⟨raised, hEffect, hEvents.symm⟩
  | finish =>
    have hRequest : Operation.requestsClose .finish = true := rfl
    obtain ⟨raised, hEffect, hEvents⟩ := talk.effect_beginClosing hRequest .resolved
    exact ⟨raised, hEffect, hEvents.symm⟩
  | advanceTo time =>
    -- the clock brings nothing but playing
    obtain ⟨raised, hPlays, hEvents⟩ := talk.advanceTo_plays time
    exact ⟨raised, .plays rfl hPlays, hEvents⟩
  | advanceBy delta =>
    obtain ⟨raised, hPlays, hEvents⟩ := talk.advanceTo_plays (talk.now + delta)
    exact ⟨raised, .plays rfl hPlays, hEvents⟩
  | playOut =>
    obtain ⟨raised, hPlays, hEvents⟩ := talk.playOut_plays
    exact ⟨raised, .plays rfl hPlays, hEvents⟩
  | collectEvents =>
    have hTaken : Alike talk talk.collectEvents.2 :=
      ⟨rfl, rfl, rfl, Millis.le_refl _, rfl, rfl, fun _ => rfl, rfl, rfl⟩
    exact ⟨[], .plays rfl (.single (.quiet hTaken)), rfl⟩
  | observe milestone observer =>
    have hAlike : Alike talk (talk.observe milestone observer) :=
      ⟨rfl, rfl, rfl, Millis.le_refl _, rfl, rfl, outcome_observe talk milestone observer, rfl, rfl⟩
    exact ⟨[], .plays rfl (.single (.quiet hAlike)), List.append_nil _⟩
  | performWith performer =>
    have hAlike : Alike talk (talk.performWith performer) :=
      ⟨rfl, rfl, rfl, Millis.le_refl _, rfl, rfl, fun _ => rfl, rfl, rfl⟩
    exact ⟨[], .plays rfl (.single (.quiet hAlike)), List.append_nil _⟩

end Dialogue.Talk
