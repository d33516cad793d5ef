import Dialogue.Proofs.Talk.Authored
import Dialogue.Proofs.Talk.Playing

/-!
# Playback from the start to the end

What the clock fires on a text that was written, wrapped up and started is a `Trace`, and how far it comes
by a time is settled by the due times alone.

Main results:

* `Talk.Authored.playing_start` — how a playback begins.
* `Talk.playing_advanceTo`, `Talk.playing_playOut` — what the clock does to it.
* `Talk.plays_on_time` — what a text has raised by any time, and how it is left at its end.
-/

namespace Dialogue.Talk

/-! ## The start -/

/-- The reveals are numbered in the order of the entries, and the one of the last entry says so. -/
theorem reveals_eq (start : Millis) (number : Nat) (entries : List Entry) :
    reveals start number entries = (entries.zipIdx number).map fun x =>
      (start + x.1.timestamp, .reveal x.2 (decide (x.2 + 1 = number + entries.length))) := by
  induction entries generalizing number with
  | nil => rfl
  | cons e rest ih =>
    rw [reveals, ih, List.zipIdx_cons, List.map_cons]
    have hLast : rest.isEmpty = decide (number + 1 = number + (e :: rest).length) := by
      cases rest <;> simp
    have hLength : number + 1 + rest.length = number + (e :: rest).length := by
      rw [List.length_cons]
      omega
    rw [hLast, hLength]

/-- Each entry has its reveal, at the time at which it is due. -/
theorem map_reveals (first : Talk) :
    ((reveals first.startsAt 0 first.scrap.entries).map fun x => Appointment.mk x.1 x.2) =
      (List.range' 0 first.scrap.entries.length).map first.revealAt := by
  apply List.ext_getElem?
  intro i
  rw [reveals_eq, List.map_map, List.getElem?_map, List.getElem?_map, List.getElem?_zipIdx]
  by_cases hi : i < first.scrap.entries.length
  · rw [List.getElem?_range' hi, List.getElem?_eq_getElem hi]
    simp [revealAt, dueAt, hi]
  · rw [List.getElem?_eq_none (by omega), List.getElem?_eq_none (by simpa using hi)]
    rfl

section Start

variable {settings : Options} {first : Talk} (h : Authored settings first)

include h

/-- In an authored talk the delays up to an entry decide when it is due. -/
theorem Authored.dueAt_eq {i : Nat} (hi : i < first.scrap.entries.length) :
    first.dueAt i =
      settings.startTime.getD 0 + settings.tempo.elapsed (first.scrap.entries.take (i + 1)) := by
  have hEntry := List.getElem?_eq_getElem hi
  rw [dueAt, startsAt, Talk.now, h.options, h.now, hEntry, Option.elim_some, h.timestamp i _ hEntry]

/-- Later entries of an authored talk are due no earlier. -/
theorem Authored.dueInOrder : first.DueInOrder := by
  intro i j hLe hj
  rw [h.dueAt_eq (Nat.lt_of_le_of_lt hLe hj), h.dueAt_eq hj]
  exact Millis.add_le_add_left (settings.tempo.elapsed_take_mono _ (Nat.succ_le_succ hLe)) _

/-- The reveals of a text that is started stand in document order. -/
theorem Authored.pending_plan : (first.plan first.startsAt).agenda.pending =
    (List.range' 0 first.scrap.entries.length).map first.revealAt := by
  have hReveals := first.map_reveals
  show (scheduleAll first.agenda (reveals first.startsAt 0 first.scrap.entries)).pending = _
  rw [pending_scheduleAll, h.pending, hReveals, List.nil_append]
  -- the due times do not fall from one entry to the next
  rw [h.pending, hReveals, List.nil_append, List.pairwise_map]
  refine (List.pairwise_lt_range' ..).imp_of_mem fun {i j} _ hj hLt => ?_
  exact h.dueInOrder i j (Nat.le_of_lt hLt) (by simpa using List.mem_range'_1.mp hj)

/-- Once an authored talk is planned, all its reveals are to come and nothing is fading. -/
theorem Authored.upcoming_plan : Upcoming first 0 0 (first.plan first.startsAt).agenda := by
  have hPending := h.pending_plan
  -- nothing but reveals was put on the agenda
  have hReveals : ∀ x ∈ (first.plan first.startsAt).agenda.pending, x.event.isReveal = true := by
    intro x hMem
    rw [hPending] at hMem
    obtain ⟨i, -, rfl⟩ := List.mem_map.mp hMem
    rfl
  refine ⟨fun x hMem => ?_, ?_, ?_⟩
  · have hNow : (first.plan first.startsAt).agenda.now = 0 :=
      (now_scheduleAll ..).trans h.now
    rw [hNow, Millis.le_def, Millis.toNat_zero]
    exact Nat.zero_le _
  · rw [List.filter_eq_self.mpr hReveals, hPending]
    rfl
  · refine List.filter_eq_nil_iff.mpr ?_
    intro x hMem
    rw [hReveals x hMem]
    simp

/-- A text that is started has shown nothing, and is complete if it has no entries. -/
theorem Authored.displayed_start : Displayed first 0 0 first.start := by
  have hOpen := h.outcome .closing
  -- pacing has ended all fades
  have hStill : ∀ place e, first.scrap.entryAt? place = some e → e.fading = true →
      ∃ i, 0 ≤ i ∧ i < 0 ∧ first.scrap.places[i]? = some place := by
    intro place e hEntry hFading
    rw [h.still place e hEntry] at hFading
    cases hFading
  by_cases hText : first.scrap.entries = []
  · have hOutcome := (first.plan first.startsAt).outcome_markPlayed .resolved
    obtain ⟨outbox, hPlayed⟩ := (first.plan first.startsAt).markPlayed_eq .resolved
    rw [start_of_empty hOpen h.startTime hText]
    rw [hPlayed] at hOutcome ⊢
    refine ⟨Nat.zero_le _, Nat.le_refl _, rfl, rfl, (hOutcome .play).trans (h.outcome .play), ?_,
      (hOutcome .closing).trans hOpen, (hOutcome .closed).trans (h.outcome .closed),
      fun _ => rfl, fun i hi => absurd hi (Nat.not_lt_zero i), hStill⟩
    have hNone : (first.plan first.startsAt).outcome .played = none := h.outcome .played
    rw [hOutcome, if_pos rfl, hNone, hText]
    rfl
  · -- the text is planned, and nothing is shown yet
    rw [start_of_playing hOpen h.startTime hText (h.outcome .play)]
    refine ⟨Nat.zero_le _, Nat.le_refl _, rfl, rfl, h.outcome .play, ?_, hOpen, h.outcome .closed,
      fun _ => rfl, fun i hi => absurd hi (Nat.not_lt_zero i), hStill⟩
    rw [if_neg fun hNone => hText (List.length_eq_zero_iff.mp hNone.symm)]
    exact h.outcome .played

/-- Starting a text begins its playback. -/
theorem Authored.playing_start : Playing first 0 0 first.start := by
  refine ⟨h.displayed_start, ?_⟩
  have hOpen := h.outcome .closing
  by_cases hText : first.scrap.entries = []
  · rw [start_of_empty hOpen h.startTime hText, agenda_markPlayed]
    exact h.upcoming_plan
  · rw [start_of_playing hOpen h.startTime hText (h.outcome .play)]
    exact h.upcoming_plan

/-- Starting a text raises an event only if there is nothing to show. -/
theorem Authored.events_start :
    first.start.events = if first.scrap.entries = [] then [.played .resolved] else [] := by
  have hOpen := h.outcome .closing
  by_cases hText : first.scrap.entries = []
  · obtain ⟨outbox, hPlayed⟩ := (first.plan first.startsAt).markPlayed_eq .resolved
    -- without a text there is nothing to wait for
    have hNews : (first.plan first.startsAt).playedEvents .resolved = [.played .resolved] := by
      have hNone : (first.plan first.startsAt).outcome .played = none := h.outcome .played
      rw [playedEvents, hNone]
    have hEvents : (first.plan first.startsAt).events = [] := h.events
    rw [start_of_empty hOpen h.startTime hText, hPlayed, if_pos hText, hNews, hEvents]
    rfl
  · rw [start_of_playing hOpen h.startTime hText (h.outcome .play), if_neg hText]
    exact h.events

end Start

/-! ## The clock -/

section Clock

variable {first talk : Talk} {shown faded : Nat} {raised : List Event}

/-- Firing all that is due goes on with the playback, as far as cues are due. -/
theorem playing_fireDue (h : Playing first shown faded talk) (hOrder : first.DueInOrder)
    (hTrace : Trace first.scrap.entries shown faded raised) (limit : Millis) :
    ∃ shown' faded' more, Playing first shown' faded' (talk.fireDue limit) ∧
      Trace first.scrap.entries shown' faded' (raised ++ more) ∧
      (talk.fireDue limit).events = talk.events ++ more ∧
      (∀ x ∈ (talk.fireDue limit).agenda.pending, limit < x.due) ∧
      (∀ i, i < shown' → i < shown ∨ first.dueAt i ≤ limit) ∧
      (∀ i, i < faded' → i < faded ∨ first.dueAt i + first.options.tempo.fade ≤ limit) := by
  -- cue by cue, with the trace that was raised so far
  fun_induction fireDue talk limit generalizing shown faded raised with
  | case1 talk hPop =>
    refine ⟨shown, faded, [], h, ?_, ?_, ?_, fun i hi => .inl hi, fun i hi => .inl hi⟩
    · rwa [List.append_nil]
    · rw [List.append_nil]
    · exact Agenda.lt_due_of_pop?_eq_none (Option.map_eq_none_iff.mp hPop)
  | case2 talk cue rest hPop ih =>
    -- one cue, and then what is due after it
    obtain ⟨middle, ended, hPlaying, hMiddle, hShown, hFaded⟩ := playing_fire h hOrder hTrace hPop
    obtain ⟨shown', faded', more, hLater, hAll, hEvents, hLeft, hShown', hFaded'⟩ :=
      ih hPlaying hMiddle
    refine ⟨shown', faded', rest.firedEvents cue ++ more, hLater, ?_, ?_, hLeft, ?_, ?_⟩
    · rwa [← List.append_assoc]
    · obtain ⟨agenda, -, rfl⟩ := taken_of_pop? hPop
      rw [hEvents, events_fire, List.append_assoc]
    · intro i hi
      rcases hShown' i hi with hOld | hDue
      · exact hShown i hOld
      · exact .inr hDue
    · intro i hi
      rcases hFaded' i hi with hOld | hDue
      · exact hFaded i hOld
      · exact .inr hDue

/-- Moving the clock raises what was due, and leaves what is due later. -/
theorem playing_advanceTo (h : Playing first shown faded talk) (hOrder : first.DueInOrder)
    (hTrace : Trace first.scrap.entries shown faded raised) (time : Millis) :
    ∃ shown' faded' more, Playing first shown' faded' (talk.advanceTo time).2 ∧
      Trace first.scrap.entries shown' faded' (raised ++ more) ∧
      talk.events ++ more = (talk.advanceTo time).1 ++ (talk.advanceTo time).2.events ∧
      (∀ x ∈ (talk.advanceTo time).2.agenda.pending, time < x.due) ∧
      (∀ i, i < shown' → i < shown ∨ first.dueAt i ≤ time) ∧
      (∀ i, i < faded' → i < faded ∨ first.dueAt i + first.options.tempo.fade ≤ time) := by
  obtain ⟨shown', faded', more, hPlaying, hAll, hEvents, hLeft, hShown, hFaded⟩ :=
    playing_fireDue h hOrder hTrace time
  refine ⟨shown', faded', more, ⟨hPlaying.displayed.aside _ [], ?_⟩, hAll, ?_, hLeft, hShown, hFaded⟩
  · refine ⟨fun x hMem => ?_, hPlaying.upcoming.reveals, hPlaying.upcoming.fades⟩
    -- neither the time before nor the new one has passed what is left
    have hNow := hPlaying.upcoming.now_le x hMem
    have hLater := hLeft x hMem
    show max (talk.fireDue time).agenda.now time ≤ x.due
    rw [Millis.le_def, Millis.toNat_max]
    rw [Millis.le_def] at hNow
    rw [Millis.lt_def] at hLater
    omega
  · rw [← hEvents]
    exact (List.append_nil _).symm

/-- Where nothing is left to do, everything was shown and has faded in. -/
theorem Upcoming.complete {agenda : Agenda Cue} (h : Upcoming first shown faded agenda)
    (hDone : agenda.pending = []) : first.scrap.entries.length ≤ shown ∧ shown ≤ faded := by
  have hReveals := congrArg List.length h.reveals
  have hFades := congrArg List.length h.fades
  rw [hDone, List.length_map, List.length_range'] at hReveals hFades
  simp only [List.filter_nil, List.length_nil] at hReveals hFades
  omega

/-- Playing out shows everything and ends all fades. -/
theorem playing_playOut (h : Playing first shown faded talk) (hOrder : first.DueInOrder)
    (hTrace : Trace first.scrap.entries shown faded raised) :
    ∃ more, Playing first first.scrap.entries.length first.scrap.entries.length talk.playOut.2 ∧
      Trace first.scrap.entries first.scrap.entries.length first.scrap.entries.length
        (raised ++ more) ∧
      talk.events ++ more = talk.playOut.1 ++ talk.playOut.2.events := by
  fun_induction playOut talk generalizing shown faded raised with
  | case1 talk hDue =>
    -- nothing is left on the agenda
    obtain ⟨hAll, hEnded⟩ := h.upcoming.complete (Agenda.nextDue_eq_none.mp hDue)
    have hShown := Nat.le_antisymm h.displayed.shown_le hAll
    have hFaded := Nat.le_antisymm h.displayed.faded_le hEnded
    rw [hFaded, hShown] at h hTrace
    refine ⟨[], ⟨h.displayed.aside _ [], h.upcoming⟩, ?_, rfl⟩
    rwa [List.append_nil]
  | case2 talk due hDue later last hRest ih =>
    obtain ⟨shown', faded', more, hPlaying, hMore, hEvents, -⟩ :=
      playing_advanceTo h hOrder hTrace due
    obtain ⟨others, hLast, hAll, hLater⟩ := ih hPlaying hMore
    rw [hRest] at hLast hLater
    refine ⟨more ++ others, hLast, ?_, ?_⟩
    · rwa [← List.append_assoc]
    · rw [← List.append_assoc, hEvents, List.append_assoc, hLater, List.append_assoc]

end Clock

/-! ## From the first direction to the end -/

/-- Writing a text and wrapping it up. -/
def authoring (directions : List Direction) : List Operation :=
  directions.map .direct ++ [.wrapUp]

/-- Writing a text, wrapping it up, starting it, and moving the clock to each of the times. -/
def performance (directions : List Direction) (times : List Millis) : List Operation :=
  authoring directions ++ [.start] ++ times.map .advanceTo

/-- The entries of a text that is written and wrapped up. -/
def text (talk : Talk) (directions : List Direction) : List Entry :=
  (talk.after (authoring directions)).scrap.entries

/-- When the entry in position `i` is due: the sum of the delays up to it after the start. -/
def dueTime (settings : Options) (entries : List Entry) (i : Nat) : Millis :=
  settings.startTime.getD 0 + settings.tempo.elapsed (entries.take (i + 1))

/-- Directions are carried out one after the other. -/
theorem after_directions (talk : Talk) (directions : List Direction) :
    talk.after (directions.map .direct) = talk.directAll directions := by
  induction directions generalizing talk with
  | nil => rfl
  | cons direction rest ih => exact ih _

/-- Authoring is to carry out the directions and to wrap up. -/
theorem after_authoring (talk : Talk) (directions : List Direction) :
    talk.after (authoring directions) = (talk.directAll directions).wrapUp.2 := by
  rw [authoring, after_append, after_directions]
  rfl

/-- Nothing happens before a text is started. -/
theorem history_authoring {talk : Talk} (hNew : talk.IsNew) (directions : List Direction) :
    talk.history (authoring directions) = [] := by
  -- directions raise nothing, and they hand nothing out
  have hWritten : talk.history (directions.map .direct) = [] := by
    induction directions using List.reverseRecOn with
    | nil => exact hNew.events
    | append_singleton directions direction ih =>
      rw [List.map_append, List.map_singleton, history_append_singleton, ih]
      · rfl
      · rw [List.append_nil]
        exact (written_direct _ direction).events.symm
  have hEvents : (talk.after (directions.map .direct)).events = [] := by
    rw [after_directions, (talk.written_directAll directions).events, hNew.events]
  rw [authoring, history_append_singleton, hWritten]
  · rfl
  · rw [List.append_nil, hEvents, after_directions]
    exact (authored_wrapUp hNew directions).events.symm

/-- How a text that is started begins. -/
theorem playing_authoring {talk : Talk} (hNew : talk.IsNew) (directions : List Direction) :
    Playing (talk.after (authoring directions)) 0 0
        (talk.after (authoring directions ++ [.start])) ∧
      talk.history (authoring directions ++ [.start]) =
        if talk.text directions = [] then [.played .resolved] else [] := by
  have hAuthored := authored_wrapUp hNew directions
  rw [← after_authoring] at hAuthored
  constructor
  · rw [after_append]
    exact hAuthored.playing_start
  · rw [history_append_singleton, history_authoring hNew, List.nil_append]
    rw [hAuthored.events]
    exact hAuthored.events_start.symm

section Clock

variable {first talk : Talk} {shown faded : Nat} {operations : List Operation}

/-- Moving the clock any number of times goes on with the playback. -/
theorem playing_advances (hOrder : first.DueInOrder)
    (h : Playing first shown faded (talk.after operations))
    (hTrace : Trace first.scrap.entries shown faded (talk.history operations)) (times : List Millis) :
    ∃ shown' faded', Playing first shown' faded' (talk.after (operations ++ times.map .advanceTo)) ∧
      Trace first.scrap.entries shown' faded'
        (talk.history (operations ++ times.map .advanceTo)) := by
  induction times using List.reverseRecOn with
  | nil =>
    rw [List.map_nil, List.append_nil]
    exact ⟨shown, faded, h, hTrace⟩
  | append_singleton times time ih =>
    obtain ⟨shown', faded', hPlaying, hMore⟩ := ih
    -- one more move of the clock goes on with the trace
    obtain ⟨shown'', faded'', more, hLater, hAll, hEvents, -⟩ :=
      playing_advanceTo hPlaying hOrder hMore time
    rw [List.map_append, List.map_singleton, ← List.append_assoc]
    refine ⟨shown'', faded'', ?_, ?_⟩
    · rw [after_append]
      exact hLater
    · rw [history_append_singleton _ _ hEvents]
      exact hAll

/-- A playback that has shown and ended everything. -/
theorem Displayed.at_end
    (h : Displayed first first.scrap.entries.length first.scrap.entries.length talk) :
    (∀ e ∈ talk.scrap.entries, e.visible = true ∧ e.fading = false) ∧ talk.phase = .played := by
  constructor
  · intro e hMem
    obtain ⟨place, hEntry⟩ := Scrap.mem_entries_iff.mp hMem
    have hContent := h.content place
    rw [hEntry, Option.map_some, eq_comm, Option.map_eq_some_iff] at hContent
    obtain ⟨old, hOld, -⟩ := hContent
    -- every entry stood at a place when the text started, and has a number
    obtain ⟨i, hLt, hPlace⟩ := List.getElem_of_mem (Scrap.mem_places_iff.mpr ⟨old, hOld⟩)
    constructor
    · refine h.visible i (by rwa [← Scrap.length_places]) place ?_ e hEntry
      rw [List.getElem?_eq_getElem hLt, hPlace]
    · rw [← Bool.not_eq_true]
      intro hFading
      obtain ⟨j, hGe, hLess, -⟩ := h.fading place e hEntry hFading
      omega
  · have hPlayed := h.played
    rw [if_pos rfl] at hPlayed
    have hClosing := h.closing
    have hClosed := h.closed
    rw [outcome_eq] at hPlayed hClosing hClosed
    rw [phase, Lifecycle.phase]
    simp [Lifecycle.isPending, Signal.isPending, hPlayed, hClosing, hClosed]

end Clock

/-- A text that is written, wrapped up, started and moved to a time has raised all that is due by then,
in document order. However it is moved, playing it out shows the whole text and leaves it open. -/
theorem plays_on_time (registry : Registry) {options : Options} (hValid : options.Valid) :
    ∃ talk, Talk.create registry options = .ok talk ∧ ∀ directions,
      talk.history (performance directions []) =
        (if talk.text directions = [] then [.played .resolved] else []) ∧
      (∀ time, Playback (talk.text directions) (dueTime options (talk.text directions))
        options.tempo.fade time (talk.history (performance directions [time]))) ∧
      ∀ times,
        Playback (talk.text directions) (dueTime options (talk.text directions))
          options.tempo.fade .last (talk.history (performance directions times ++ [.playOut])) ∧
        (∀ e ∈ (talk.after (performance directions times ++ [.playOut])).scrap.entries,
          e.visible = true ∧ e.fading = false) ∧
        (talk.after (performance directions times ++ [.playOut])).phase = .played ∧
        (talk.after (performance directions times ++ [.playOut])).outcome .play = none := by
  obtain ⟨talk, hCreate, rfl, hNew⟩ := exists_create registry hValid
  refine ⟨talk, hCreate, fun directions => ?_⟩
  have hAuthored := authored_wrapUp hNew directions
  rw [← after_authoring] at hAuthored
  obtain ⟨hPlaying, hHistory⟩ := playing_authoring hNew directions
  -- the trace begins with what starting raised
  have hTrace : Trace (talk.text directions) 0 0 (talk.history (authoring directions ++ [.start])) := by
    rw [hHistory]
    exact .start
  have hOrder := hAuthored.dueInOrder
  refine ⟨?_, fun time => ?_, fun times => ?_⟩
  · rw [performance, List.map_nil, List.append_nil]
    exact hHistory
  · obtain ⟨shown, faded, more, hLater, hAll, hEvents, hLeft, hShown, hFaded⟩ :=
      playing_advanceTo hPlaying hOrder hTrace time
    rw [performance, List.map_singleton, history_append_singleton _ _ hEvents]
    -- what the clock has reached has happened, and nothing else has
    refine hAll.playback hAuthored.last (fun i hi => ?_) fun i hi => ?_
    · rw [dueTime, text, ← hAuthored.dueAt_eq hi]
      exact ⟨fun hLt => (hShown i hLt).resolve_left (Nat.not_lt_zero i),
        hLater.upcoming.lt_shown hLeft hi⟩
    · rw [dueTime, text, ← hAuthored.dueAt_eq hi, ← hAuthored.options]
      exact ⟨fun hLt => (hFaded i hLt).resolve_left (Nat.not_lt_zero i),
        hLater.upcoming.lt_faded hLeft hi⟩
  · obtain ⟨shown, faded, hLater, hMore⟩ := playing_advances hOrder hPlaying hTrace times
    obtain ⟨more, hEnd, hAll, hEvents⟩ := playing_playOut hLater hOrder hMore
    have hLast : (talk.after (performance directions times ++ [.playOut])) =
        (talk.after (performance directions times)).playOut.2 := by
      rw [after_append]
      rfl
    rw [hLast]
    obtain ⟨hEntries, hPhase⟩ := hEnd.displayed.at_end
    refine ⟨?_, hEntries, hPhase, hEnd.displayed.play⟩
    rw [history_append_singleton _ _ hEvents]
    -- no time is later than the last one
    exact hAll.playback hAuthored.last (fun i hi => iff_of_true hi (Millis.toNat_le _))
      fun i hi => iff_of_true hi (Millis.toNat_le _)

/-- A word, and then an emote. -/
def greeting : List Direction := [.beginParagraph "guide", .speak "Hi", .emote "wave"]

/-- Two letters, and a wave behind them. -/
theorem plays_on_time_greeting :
    Options.standard.Valid ∧
    ∃ talk, Talk.create .empty .standard = .ok talk ∧
      -- the last two are the pauses of the paragraph and the section
      (talk.text greeting).map Entry.content =
        [.glyph 'H', .glyph 'i', .emote "wave", .pause, .pause] ∧
      (∀ time, Playback (talk.text greeting) (dueTime .standard (talk.text greeting))
        Options.standard.tempo.fade time (talk.history (performance greeting [time]))) ∧
      ∀ times,
        Playback (talk.text greeting) (dueTime .standard (talk.text greeting))
          Options.standard.tempo.fade .last (talk.history (performance greeting times ++ [.playOut])) ∧
        (∀ e ∈ (talk.after (performance greeting times ++ [.playOut])).scrap.entries,
          e.visible = true ∧ e.fading = false) ∧
        (talk.after (performance greeting times ++ [.playOut])).phase = .played ∧
        (talk.after (performance greeting times ++ [.playOut])).outcome .play = none := by
  obtain ⟨talk, hCreate, hPlays⟩ :=
    plays_on_time .empty (show Options.standard.Valid by decide)
  obtain ⟨-, hOnTime, hOut⟩ := hPlays greeting
  refine ⟨by decide, talk, hCreate, ?_, hOnTime, hOut⟩
  cases hCreate
  decide

end Dialogue.Talk
