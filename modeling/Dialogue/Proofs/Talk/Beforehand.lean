import Dialogue.Proofs.Talk.Skipping

/-!
# Skipped before it starts

A text may be skipped before it is started, or right after. The first skip only resolves `play`, and the
start then shows what it has just put on the agenda; the second one does so itself. Either way the same
reveals are carried out on the same talk, in the order in which they stand on the agenda, and so the two
ways differ in nothing but the lines that they log. Where there is nothing to show, the start completes the
text at once, and then observers of `play` and of `played` take notice in another order as well.

Main results:

* `Talk.revealRest_withLog` — what was logged before makes no difference to what is shown.
* `Talk.Finished` — how a text stands that was shown at once.
* `Talk.skip_start_comm` — a skip before the start and one right after it compared.
-/

namespace Dialogue

/-! ## Two signals -/

namespace Lifecycle

variable (lifecycle : Lifecycle) {milestone other : Milestone} (hNe : milestone ≠ other)

include hNe

theorem put_comm (signal signal' : Signal Observer) :
    (lifecycle.put milestone signal).put other signal' =
      (lifecycle.put other signal').put milestone signal := by
  cases milestone <;> cases other <;> first | rfl | exact absurd rfl hNe

/-- Settling one milestone leaves the others as they are. -/
theorem get_settle_of_ne (outcome : Outcome) :
    (lifecycle.settle milestone outcome).get other = lifecycle.get other := by
  unfold settle
  split
  · exact lifecycle.get_put_of_ne _ hNe.symm
  · rfl

/-- The observers of a signal do not care which other one settles before. -/
theorem settleNotices_settle (outcome outcome' : Outcome) :
    (lifecycle.settle milestone outcome).settleNotices other outcome' =
      lifecycle.settleNotices other outcome' := by
  unfold settleNotices
  rw [get_settle_of_ne lifecycle hNe]

/-- Which of two signals settles first makes no difference to either of them. -/
theorem settle_comm (outcome outcome' : Outcome) :
    (lifecycle.settle milestone outcome).settle other outcome' =
      (lifecycle.settle other outcome').settle milestone outcome := by
  have hOther := lifecycle.get_settle_of_ne hNe outcome
  have hSame := lifecycle.get_settle_of_ne hNe.symm outcome'
  conv_lhs => rw [settle, hOther]
  conv_rhs => rw [settle, hSame]
  unfold settle
  -- each of them settles, or has settled before
  cases (lifecycle.get milestone).settle? outcome <;> cases (lifecycle.get other).settle? outcome'
  · rfl
  · rfl
  · rfl
  · exact lifecycle.put_comm hNe _ _

end Lifecycle

namespace Talk

/-! ## What was logged before -/

/-- The talk, if other lines had been logged before. -/
def withLog (talk : Talk) (log : List LogLine) : Talk :=
  { talk with outbox := { talk.outbox with log } }

section Log

variable (talk : Talk) (log : List LogLine)

theorem report_withLog (severity : Severity) (text : String) :
    (talk.report severity text).withLog log = talk.withLog log := rfl

/-- The log plays no part in marking a talk as played. -/
theorem markPlayed_withLog (outcome : Outcome) :
    (talk.withLog log).markPlayed outcome = (talk.markPlayed outcome).withLog log := by
  have hPending : (talk.withLog log).isPending .played = talk.isPending .played := rfl
  unfold markPlayed
  rw [hPending]
  split <;> rfl

/-- The log plays no part in showing an entry. -/
theorem showEntry_withLog (entry : Nat) :
    (talk.withLog log).showEntry entry = (talk.showEntry entry).withLog log := by
  have hMarked : (talk.withLog log).marked? entry = talk.marked? entry := rfl
  unfold showEntry
  rw [hMarked]
  cases talk.marked? entry <;> rfl

/-- The log plays no part in performing an emote. -/
theorem performAt_withLog (entry : Nat) :
    (talk.withLog log).performAt entry = (talk.performAt entry).withLog log := by
  have hMarked : (talk.withLog log).marked? entry = talk.marked? entry := rfl
  unfold performAt
  rw [hMarked]
  cases (talk.marked? entry).bind fun x => x.2.emote? <;> rfl

/-- What is logged plays no part in a reveal. -/
theorem reveal_withLog (entry : Nat) (last : Bool) :
    (talk.withLog log).reveal entry last = (talk.reveal entry last).withLog log := by
  have hAnimates : (talk.withLog log).animates = talk.animates := rfl
  have hFade : ∀ t : Talk, (t.withLog log).startFade entry = (t.startFade entry).withLog log :=
    fun _ => rfl
  unfold reveal
  simp only [hAnimates, showEntry_withLog]
  -- with or without the animation, and with or without the end of the text
  split <;> split <;> simp only [performAt_withLog, hFade, markPlayed_withLog]

/-- What was logged before makes no difference to what is shown. -/
theorem revealRest_withLog : (talk.withLog log).revealRest = talk.revealRest.withLog log := by
  unfold revealRest
  -- the same cues are carried out, one after the other
  show List.foldl _ (withLog { talk with agenda := talk.agenda.cancel Cue.isReveal } log) _ = _
  refine List.foldl_hom (withLog · log) fun t cue => ?_
  cases cue with
  | reveal entry last => exact t.reveal_withLog log entry last
  | fadeEnd entry => rfl
  | closeEnd number => rfl

end Log

/-! ## Before the start -/

/-- As long as a talk was not started, nothing was shown, and nothing is to come unless it closes. -/
theorem Reachable.unstarted {talk : Talk} (h : Reachable talk) (hFresh : talk.startTime = none) :
    ∃ raised, Unstarted raised talk := by
  obtain ⟨registry, options, first, operations, hCreate, hLeads⟩ := h
  obtain ⟨-, hNew, -⟩ := of_create hCreate
  refine Leads.keeps (fun talk => talk.startTime = none → ∃ raised, Unstarted raised talk)
    ?_ ?_ hLeads (fun _ => ⟨_, unstarted_of_isNew hNew⟩) hFresh
  · intro talk operation ih hFresh
    obtain ⟨raised, hEffect, -⟩ := talk.effect_perform operation
    -- a talk that was started stays so
    have hBefore : talk.startTime = none := by
      by_contra hStarted
      exact hStarted ((hEffect.started_stays hStarted).1.symm.trans hFresh)
    obtain ⟨before, hUnstarted⟩ := ih hBefore
    rcases hUnstarted.effect hEffect with hStill | ⟨-, -, hProgress⟩
    · exact ⟨_, hStill⟩
    · exact absurd hFresh hProgress.startTime
  · intro talk registry hShared ih hFresh
    obtain ⟨before, hUnstarted⟩ := ih hFresh
    exact ⟨_, hUnstarted.move (.quiet (talk.alike_share registry))⟩

/-- A skip before the start only resolves `play`. -/
theorem skip_of_fresh {talk : Talk} (hFresh : talk.startTime = none)
    (hPlay : talk.outcome .play = none) :
    talk.skip = (true, (talk.settle .play .resolved).report .debug "play resolved") := by
  unfold skip
  simp [isPending_eq, hPlay, settle, report, hFresh]

/-- What is planned has nothing to do with `play`. -/
theorem exists_plan_settle (talk : Talk) (start : Millis) :
    ∃ log, ((talk.settle .play .resolved).report .debug "play resolved").plan start =
      ((talk.plan start).settle .play .resolved).withLog log :=
  ⟨_, rfl⟩

/-- Which of `play` and `played` settles first is noticed by their observers only. -/
theorem markPlayed_settle (talk : Talk) :
    ∃ notices,
      notices.Perm (((talk.markPlayed .resolved).settle .play .resolved).outbox.notices) ∧
      (talk.settle .play .resolved).markPlayed .resolved =
        { (talk.markPlayed .resolved).settle .play .resolved with
          outbox := { ((talk.markPlayed .resolved).settle .play .resolved).outbox with notices } } := by
  have hNe : Milestone.play ≠ .played := by decide
  have hPending : (talk.settle .play .resolved).isPending .played = talk.isPending .played := by
    rw [isPending_eq, isPending_eq, outcome_settle]
    rfl
  unfold markPlayed
  rw [hPending]
  split
  · have hLifecycle := talk.lifecycle.settle_comm hNe .resolved .resolved
    refine ⟨((talk.settle .play .resolved).settle .played .resolved).outbox.notices, ?_, ?_⟩
    · show ((talk.outbox.notices ++ talk.lifecycle.settleNotices .play .resolved) ++
        (talk.lifecycle.settle .play .resolved).settleNotices .played .resolved).Perm
        ((talk.outbox.notices ++ talk.lifecycle.settleNotices .played .resolved) ++
          (talk.lifecycle.settle .played .resolved).settleNotices .play .resolved)
      rw [Lifecycle.settleNotices_settle _ hNe, Lifecycle.settleNotices_settle _ hNe.symm,
        List.append_assoc, List.append_assoc]
      -- the observers of the one are called before those of the other
      exact List.perm_append_comm.append_left _
    · simp only [settle, raise, hLifecycle]
  · exact ⟨_, .refl _, rfl⟩

section Start

variable {talk : Talk} (hFresh : talk.startTime = none) (hPlay : talk.outcome .play = none)
  (hClosing : talk.outcome .closing = none)

include hFresh hPlay hClosing

/-- A start plans all reveals. Beyond that it completes the text, where it is empty. -/
theorem start_eq_plan : ∃ lifecycle events outbox,
    talk.start = { talk.plan talk.startsAt with lifecycle, events, outbox } := by
  by_cases hEmpty : talk.scrap.entries = []
  · obtain ⟨outbox, hPlayed⟩ := (talk.plan talk.startsAt).markPlayed_eq .resolved
    exact ⟨_, _, outbox, (start_of_empty hClosing hFresh hEmpty).trans hPlayed⟩
  · exact ⟨_, _, _, start_of_playing hClosing hFresh hEmpty hPlay⟩

/-- No other signal settles with the start. -/
theorem outcome_start {milestone : Milestone} (hOther : milestone ≠ .played) :
    talk.start.outcome milestone = talk.outcome milestone := by
  by_cases hEmpty : talk.scrap.entries = []
  · rw [start_of_empty hClosing hFresh hEmpty, outcome_markPlayed, if_neg hOther.symm]
    rfl
  · rw [start_of_playing hClosing hFresh hEmpty hPlay]
    rfl

/-- A talk that has been started has a start time. -/
theorem startTime_start : talk.start.startTime ≠ none := by
  obtain ⟨_, _, _, hStart⟩ := start_eq_plan hFresh hPlay hClosing
  rw [hStart]
  exact Option.some_ne_none _

/-- Where there is text, the same reveals are carried out either way. -/
theorem skip_start_of_text (hText : talk.scrap.entries ≠ []) :
    ∃ log, talk.skip.2.start = talk.start.skip.2.withLog log := by
  -- the talk is started as one that was skipped
  have hSettled := talk.play_settle .resolved
  obtain ⟨log, hPlan⟩ := talk.exists_plan_settle talk.startsAt
  have hStart : talk.skip.2.start =
      (((talk.settle .play .resolved).report .debug "play resolved").plan
        talk.startsAt).revealRest := by
    rw [skip_of_fresh hFresh hPlay]
    refine start_of_skipped ?_ hFresh hText hSettled
    show (talk.settle .play .resolved).outcome .closing = none
    rw [outcome_settle]
    exact hClosing
  -- or skipped as one that was started
  have hStarted : (talk.plan talk.startsAt).startTime ≠ none := Option.some_ne_none _
  have hSkip : (talk.plan talk.startsAt).skip = _ := skip_eq hPlay hStarted
  refine ⟨log, ?_⟩
  rw [hStart, hPlan, ← report_withLog _ log .debug "play resolved", revealRest_withLog,
    start_of_playing hClosing hFresh hText hPlay, hSkip]

/-- Where there is no text, nothing is carried out, and two signals settle in one order or in the other. -/
theorem skip_start_of_empty (hIdle : talk.agenda.pending = []) (hEmpty : talk.scrap.entries = []) :
    ∃ log notices, notices.Perm talk.start.skip.2.outbox.notices ∧
      talk.skip.2.start =
        { talk.start.skip.2 with outbox := { talk.start.skip.2.outbox with log, notices } } := by
  have hStart := start_of_empty hClosing hFresh hEmpty
  obtain ⟨outbox, hPlayed⟩ := (talk.plan talk.startsAt).markPlayed_eq .resolved
  -- after the start, nothing is left to be shown
  have hSkip : talk.start.skip.2 = (talk.start.settle .play .resolved).report .debug "play resolved" := by
    have hPending : talk.start.outcome .play = none :=
      (outcome_start hFresh hPlay hClosing (by decide)).trans hPlay
    rw [skip_eq hPending (startTime_start hFresh hPlay hClosing)]
    refine revealRest_of_none ?_
    have hAgenda : talk.start.agenda = talk.agenda := by
      rw [hStart, hPlayed]
      show scheduleAll talk.agenda (reveals talk.startsAt 0 talk.scrap.entries) = talk.agenda
      rw [hEmpty]
      rfl
    show talk.start.agenda.cancelled Cue.isReveal = []
    rw [hAgenda, Agenda.cancelled, hIdle]
    rfl
  -- and nothing is shown by the other start either
  have hOther : talk.skip.2.start =
      (((talk.settle .play .resolved).report .debug "play resolved").plan
        talk.startsAt).markPlayed .resolved := by
    rw [skip_of_fresh hFresh hPlay]
    refine start_of_empty ?_ hFresh hEmpty
    show (talk.settle .play .resolved).outcome .closing = none
    rw [outcome_settle]
    exact hClosing
  obtain ⟨notices, hPerm, hSame⟩ := (talk.plan talk.startsAt).markPlayed_settle
  obtain ⟨log, hPlan⟩ := talk.exists_plan_settle talk.startsAt
  rw [hSkip, hOther, hPlan, hStart]
  refine ⟨log, notices, hPerm, ?_⟩
  -- only the log and the order of the notices differ
  rw [markPlayed_withLog, hSame]
  rfl

/-- All reveals are planned, so every entry will be visible, and none of them will fade in for long. -/
theorem outlook?_start (hIdle : talk.agenda.pending = []) {place : Place} {e : Entry}
    (hOutlook : talk.start.outlook? place = some e) : e.visible = true ∧ e.fading = false := by
  obtain ⟨_, _, _, hStart⟩ := start_eq_plan hFresh hPlay hClosing
  have hPlan : talk.start.outlook? place = (talk.plan talk.startsAt).outlook? place := by
    rw [hStart]
    rfl
  obtain ⟨old, hOld, rfl⟩ := Option.map_eq_some_iff.mp (hPlan.symm.trans hOutlook)
  -- the entry at the place has a number, and with it a reveal
  have hPlaces : place ∈ talk.scrap.places := Scrap.mem_places_iff.mpr ⟨old, hOld⟩
  obtain ⟨i, hi, hPlace⟩ := List.getElem_of_mem hPlaces
  have hLength : i < talk.scrap.entries.length := by
    rw [← Scrap.length_places]
    exact hi
  have hAwaits : (talk.plan talk.startsAt).awaitsAt place Cue.revealed?
      (talk.plan talk.startsAt).agenda.pending = true := by
    refine List.any_eq_true.mpr
      ⟨⟨talk.dueAt i, _⟩, (mem_pending_plan_iff hIdle).mpr ⟨i, hLength, rfl, rfl⟩, ?_⟩
    show decide (talk.scrap.places[i]? = some place) = true
    rw [List.getElem?_eq_getElem hi]
    exact decide_eq_true (congrArg some hPlace)
  rw [hAwaits]
  simp

end Start

/-! ## Either way -/

/-- How a text stands that was shown at once. -/
structure Finished (talk : Talk) : Prop where
  shown : ∀ e ∈ talk.scrap.entries, e.visible = true ∧ e.fading = false
  pending : talk.agenda.pending = []
  play : talk.outcome .play = some .resolved
  played : talk.outcome .played = some .resolved

/-- A talk that is skipped right after its start is finished, and what it says is what it said. -/
theorem Unstarted.finished {talk : Talk} {raised : List Event} (h : Unstarted raised talk)
    (hPlay : talk.outcome .play = none) (hClosing : talk.outcome .closing = none) :
    talk.start.skip.1 = true ∧ talk.start.skip.2.Finished ∧
      talk.start.skip.2.scrap.bare = talk.scrap.bare := by
  have hIdle := h.idle hClosing
  have hPending : talk.start.outcome .play = none :=
    (outcome_start h.startTime hPlay hClosing (by decide)).trans hPlay
  have hStillOpen : talk.start.outcome .closing = none :=
    (outcome_start h.startTime hPlay hClosing (by decide)).trans hClosing
  obtain ⟨_, _, _, hStart⟩ := start_eq_plan h.startTime hPlay hClosing
  obtain ⟨hNews, shown, hStill⟩ := skip_still hPending (startTime_start h.startTime hPlay hClosing)
  obtain ⟨more, hPlays, -⟩ := talk.start.skip_plays
  -- only reveals were planned, and the skip strikes them out
  have hDone : talk.start.skip.2.agenda.pending = [] := by
    rw [hStill.agenda]
    refine List.filter_eq_nil_iff.mpr fun x hMem => ?_
    rw [hStart] at hMem
    obtain ⟨i, -, -, hEvent⟩ := (mem_pending_plan_iff hIdle).mp hMem
    rw [hEvent]
    exact Bool.false_ne_true
  obtain ⟨news, -, hUnderway⟩ := h.underway hClosing
  have hEnd := hPlays.keeps (Underway.invariant hIdle).move hUnderway
  have hOpen := hPlays.isOpen (hUnderway.faithful.progress.inStep.isOpen hStillOpen)
  refine ⟨hNews, ⟨fun e hMem => ?_, hDone, ?_, hEnd.played_eq hOpen hDone⟩, ?_⟩
  · obtain ⟨place, hAt⟩ := Scrap.mem_entries_iff.mp hMem
    have hOutlook : talk.start.outlook? place = some e := by
      rw [← hPlays.outlook?, outlook?_of_done hDone]
      exact hAt
    -- what is shown now is what was to be shown after the start
    exact outlook?_start h.startTime hPlay hClosing hIdle hOutlook
  · rw [hStill.play]
    show (talk.start.settle .play .resolved).outcome .play = _
    rw [outcome_settle, hPending]
    rfl
  · rw [hPlays.bare, hStart]
    rfl

/-- From any talk that was neither started nor skipped nor asked to close: skipping it and then starting it,
or the other way round, is news to `play` both times and finishes the text, and the talks that come out
are the same, with the same events in the same order. Only what was logged differs, and the order in
which observers took notice. -/
theorem skip_start_comm {talk : Talk} (hReachable : Reachable talk) (hFresh : talk.startTime = none)
    (hPlay : talk.outcome .play = none) (hClosing : talk.outcome .closing = none) :
    talk.skip.1 = true ∧ talk.start.skip.1 = true ∧ talk.start.skip.2.Finished ∧
      talk.start.skip.2.scrap.bare = talk.scrap.bare ∧
      ∃ log notices, notices.Perm talk.start.skip.2.outbox.notices ∧
        talk.skip.2.start =
          { talk.start.skip.2 with outbox := { talk.start.skip.2.outbox with log, notices } } := by
  obtain ⟨raised, hUnstarted⟩ := hReachable.unstarted hFresh
  obtain ⟨hNews, hFinished, hBare⟩ := hUnstarted.finished hPlay hClosing
  refine ⟨by rw [skip_of_fresh hFresh hPlay], hNews, hFinished, hBare, ?_⟩
  by_cases hEmpty : talk.scrap.entries = []
  · exact skip_start_of_empty hFresh hPlay hClosing (hUnstarted.idle hClosing) hEmpty
  · obtain ⟨log, hSame⟩ := skip_start_of_text hFresh hPlay hClosing hEmpty
    exact ⟨log, _, .refl _, hSame⟩

/-- A word that is wrapped up, but not started. -/
def unheard : List Operation := [.direct (.speak "Hi"), .direct (.emote "wave"), .wrapUp]

/-- A skip before the start of these few words, and one after it. -/
theorem skip_start_comm_unheard :
    ∃ first, Talk.create .empty .standard = .ok first ∧
      (first.after unheard).startTime = none ∧ (first.after unheard).outcome .play = none ∧
      (first.after unheard).outcome .closing = none ∧
      (first.after unheard).start.skip.2.Finished ∧
      (first.after unheard).skip.2.start.events = (first.after unheard).start.skip.2.events := by
  obtain ⟨first, hCreate⟩ : ∃ first, Talk.create .empty .standard = .ok first := ⟨_, rfl⟩
  have hFresh : (first.after unheard).startTime = none := by
    cases hCreate
    decide
  have hPlay : (first.after unheard).outcome .play = none := by
    cases hCreate
    decide
  have hClosing : (first.after unheard).outcome .closing = none := by
    cases hCreate
    decide
  have hReachable : Reachable (first.after unheard) :=
    Tells.reachable hCreate (.of_after first unheard)
  obtain ⟨-, -, hFinished, -, log, notices, -, hSame⟩ :=
    skip_start_comm hReachable hFresh hPlay hClosing
  exact ⟨first, hCreate, hFresh, hPlay, hClosing, hFinished, by rw [hSame]⟩

end Talk

end Dialogue
