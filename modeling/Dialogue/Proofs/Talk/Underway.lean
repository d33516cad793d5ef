import Dialogue.Proofs.Talk.Revealing

/-!
# Talks underway

A talk that was started is underway, and everything that waits on its agenda has its reason there: the
reveals stand at the times that were planned for them, a fade ends only for an entry that was shown, and
as long as the text is not complete, the reveal that completes it is still to come.

Main results:

* `Talk.Underway.invariant` — what every operation keeps once the talk was started.
* `Talk.Tells.exists_underway` — every talk that was started is underway, from the moment of its start on.
-/

namespace Dialogue.Talk

/-- How a talk stands that was started when it stood like `first`, with all that is to come. -/
structure Underway (first : Talk) (raised : List Event) (talk : Talk) : Prop where
  faithful : Faithful first raised talk
  /-- Reveals stand at the times that were planned. -/
  dues : ∀ x ∈ talk.agenda.pending, ∀ i last, x.event = .reveal i last → x.due = first.dueAt i
  /-- Only what was shown fades in. -/
  fades : ∀ x ∈ talk.agenda.pending, ∀ i, x.event = .fadeEnd i → ∃ glyph, .shown i glyph ∈ raised
  /-- The text is complete, or will be. -/
  concludes : talk.outcome .played ≠ none ∨
    ∃ x ∈ talk.agenda.pending, ∃ i, x.event = .reveal i true

namespace Underway

variable {first talk later : Talk} {raised more : List Event}

/-- A talk stays underway where nothing more comes on its agenda and nothing that is needed is lost. -/
theorem append (h : Underway first raised talk) (hFaithful : Faithful first (raised ++ more) later)
    (hPending : ∀ x ∈ later.agenda.pending, x.event.isPlayback = true → x ∈ talk.agenda.pending)
    (hConcludes : talk.outcome .played ≠ none ∨
        (∃ x ∈ talk.agenda.pending, ∃ i, x.event = .reveal i true) →
      later.outcome .played ≠ none ∨ ∃ x ∈ later.agenda.pending, ∃ i, x.event = .reveal i true) :
    Underway first (raised ++ more) later where
  faithful := hFaithful
  dues x hMem i last hEvent := h.dues x (hPending x hMem (by rw [hEvent]; rfl)) i last hEvent
  fades x hMem i hEvent := by
    obtain ⟨glyph, hShown⟩ := h.fades x (hPending x hMem (by rw [hEvent]; rfl)) i hEvent
    exact ⟨glyph, List.mem_append_left _ hShown⟩
  concludes := hConcludes h.concludes

/-- That a talk is underway depends on its agenda and on whether it was played. -/
theorem congr (h : Underway first raised talk) (hFaithful : Faithful first raised later)
    (hPending : later.agenda.pending = talk.agenda.pending)
    (hPlayed : later.outcome .played = talk.outcome .played) : Underway first raised later where
  faithful := hFaithful
  dues := by rw [hPending]; exact h.dues
  fades := by rw [hPending]; exact h.fades
  concludes := by rw [hPending, hPlayed]; exact h.concludes

/-- A cue that fires completes the text or leaves the cue that does on the agenda. -/
theorem concludes_fire (h : Underway first raised talk) {cue : Cue} {rest : Agenda Cue}
    (hTaken : Taken talk.agenda cue rest) :
    ({ talk with agenda := rest }.fire cue).outcome .played ≠ none ∨
      ∃ x ∈ ({ talk with agenda := rest }.fire cue).agenda.pending, ∃ i,
        x.event = .reveal i true := by
  rcases h.concludes with hPlayed | ⟨x, hMem, i, hEvent⟩
  · obtain ⟨outcome, hOutcome⟩ := Option.ne_none_iff_exists'.mp hPlayed
    rw [(Move.fire hTaken).settled hOutcome]
    exact .inl (Option.some_ne_none _)
  · by_cases hCue : x.event = cue
    · refine .inl ?_
      rw [outcome_fire, ← hCue, hEvent]
      simp
    · exact .inr ⟨x, hTaken.mem_fire hMem hCue, i, hEvent⟩

/-- A talk that is underway stays so through every move. -/
theorem move (h : Underway first raised talk) (hIdle : first.agenda.pending = [])
    (hMove : Move talk more later) : Underway first (raised ++ more) later := by
  have hFaithful := h.faithful.move hIdle hMove
  cases hMove with
  | quiet hAlike =>
    rw [List.append_nil] at hFaithful ⊢
    exact h.congr hFaithful hAlike.pending (hAlike.outcome _)
  | skip hPlaying =>
    rw [List.append_nil] at hFaithful ⊢
    refine h.congr hFaithful rfl ?_
    rw [outcome_settle]
    rfl
  | fire hTaken =>
    rename_i cue rest
    -- a cue that fires starts a fade at most, and takes the place of no reveal
    refine ⟨hFaithful, fun x hMem i last hEvent => ?_, fun x hMem i hEvent => ?_,
      h.concludes_fire hTaken⟩
    · rcases mem_pending_fire hTaken hMem with hOld | ⟨entry, hFade⟩
      · exact h.dues x hOld i last hEvent
      · rw [hEvent] at hFade
        cases hFade
    · -- a fade was there before, or it was started by the reveal that fires
      rcases mem_agenda_fire hMem with hOld | ⟨entry, last, rfl, rfl⟩
      · obtain ⟨glyph, hShown⟩ := h.fades x (hTaken.mem_of_mem hOld) i hEvent
        exact ⟨glyph, List.mem_append_left _ hShown⟩
      · cases hEvent
        obtain ⟨glyph, hShows⟩ := h.faithful.progress.shownEvents_of_taken hIdle hTaken
        have hNew : .shown i glyph ∈ talk.shownEvents i := by
          rw [hShows]
          exact List.mem_singleton_self _
        exact ⟨glyph, List.mem_append_right _ (List.mem_append_left _ hNew)⟩

/-- From the start on, every operation leaves the agenda in good order. -/
theorem invariant (hIdle : first.agenda.pending = []) : Invariant (Underway first) where
  move h hMove := h.move hIdle hMove
  plan start h _ hFresh := absurd hFresh h.faithful.progress.startTime
  complete {raised talk} h hOpen hEmpty hStarted := by
    have hFaithful := (Faithful.invariant hIdle).complete h.faithful hOpen hEmpty hStarted
    refine h.append hFaithful (fun x hMem _ => by rwa [agenda_markPlayed] at hMem) fun _ => .inl ?_
    rw [outcome_markPlayed]
    simp
  written {raised talk later} h hWritten := by
    refine h.congr ((Faithful.invariant hIdle).written h.faithful hWritten)
      (by rw [hWritten.agenda]) ?_
    rw [outcome_eq, hWritten.lifecycle]
    rfl
  paced {raised talk scope later} h hPaced := by
    have hFaithful := (Faithful.invariant hIdle).paced h.faithful hPaced
    have hRest := hPaced.rest
    exact h.congr hFaithful (by rw [hRest]) (by rw [hRest]; rfl)
  closed {raised talk} outcome h hOpen := by
    have hFaithful := (Faithful.invariant hIdle).closed outcome h.faithful hOpen
    -- nothing of the playback is left
    have hEnding := (h.faithful.progress.inStep.isOpen hOpen).beginClosing outcome
    refine h.append hFaithful (fun x hMem hPlayback => ?_) fun _ => .inl hEnding.played
    rw [hEnding.playback x hMem] at hPlayback
    cases hPlayback

end Underway

/-! ## The start -/

/-- The plan of a text that is not empty ends with the reveal that completes it. -/
theorem Faithful.underway_plan {talk : Talk} {raised : List Event}
    (h : Faithful talk raised (talk.plan talk.startsAt)) (hIdle : talk.agenda.pending = [])
    (hText : talk.scrap.entries ≠ []) : Underway talk raised (talk.plan talk.startsAt) := by
  have hMem : ∀ x, x ∈ (talk.plan talk.startsAt).agenda.pending ↔
      ∃ i, i < talk.scrap.entries.length ∧ x.due = talk.dueAt i ∧
        x.event = .reveal i (decide (i + 1 = talk.scrap.entries.length)) :=
    fun x => mem_pending_plan_iff hIdle
  refine ⟨h, fun x hx i last hEvent => ?_, fun x hx i hEvent => ?_, .inr ?_⟩
  · obtain ⟨j, -, hDue, hReveal⟩ := (hMem x).mp hx
    rw [hEvent] at hReveal
    cases hReveal
    exact hDue
  · obtain ⟨j, -, -, hReveal⟩ := (hMem x).mp hx
    rw [hEvent] at hReveal
    cases hReveal
  · -- the last entry has the reveal that ends the play
    obtain ⟨last, hLast⟩ : ∃ last, last + 1 = talk.scrap.entries.length :=
      ⟨_, Nat.sub_add_cancel (List.length_pos_of_ne_nil hText)⟩
    refine ⟨⟨talk.dueAt last, .reveal last true⟩, (hMem _).mpr ⟨last, by omega, rfl, ?_⟩, last, rfl⟩
    simp [hLast]

/-- With its start, a talk is underway. -/
theorem Unstarted.underway {talk : Talk} {raised : List Event} (h : Unstarted raised talk)
    (hOpen : talk.outcome .closing = none) :
    ∃ news, talk.start.events = talk.events ++ news ∧
      Underway talk (raised ++ news) talk.start := by
  have hIdle := h.idle hOpen
  have hPlanned := h.faithful_plan hOpen
  rcases start_cases hOpen h.startTime with ⟨hEmpty, hStart⟩ | ⟨hText, news, hPlays, hEvents⟩
  · -- nothing is on the agenda of an empty text
    have hNone : ∀ x, x ∉ (talk.plan talk.startsAt).agenda.pending := by
      intro x hMem
      obtain ⟨j, hj, -⟩ := (mem_pending_plan_iff hIdle).mp hMem
      rw [hEmpty] at hj
      cases hj
    have hComplete := (Faithful.invariant hIdle).complete hPlanned hOpen hEmpty
      (Option.some_ne_none _)
    obtain ⟨outbox, hPlayed⟩ := (talk.plan talk.startsAt).markPlayed_eq .resolved
    refine ⟨(talk.plan talk.startsAt).playedEvents .resolved, by rw [hStart, hPlayed]; rfl, ?_⟩
    rw [hStart]
    refine ⟨hComplete, ?_, ?_, .inl ?_⟩
    · rw [agenda_markPlayed]
      exact fun x hMem => absurd hMem (hNone x)
    · rw [agenda_markPlayed]
      exact fun x hMem => absurd hMem (hNone x)
    · rw [outcome_markPlayed]
      simp
  · exact ⟨news, hEvents,
      hPlays.keeps (Underway.invariant hIdle).move (hPlanned.underway_plan hIdle hText)⟩

/-- Every talk that was started is underway, from the moment of its start on. -/
theorem Tells.exists_underway {first talk : Talk} {told : List Event} (hTells : Tells first told talk)
    (hNew : first.IsNew) (hStarted : talk.startTime ≠ none) :
    ∃ before, before.agenda.pending = [] ∧ Underway before (told ++ talk.events) talk := by
  induction hTells with
  | refl => exact absurd hNew.startTime hStarted
  | @perform told talk hTells operation ih =>
    obtain ⟨raised, hEffect, hEvents⟩ := talk.effect_perform operation
    rw [List.append_assoc, ← hEvents, ← List.append_assoc]
    by_cases hBefore : talk.startTime = none
    · -- this very operation starts it
      have hUnstarted := hTells.unstarted hNew hBefore
      rcases hUnstarted.effect hEffect with hStill | ⟨rfl, hOpen, -⟩
      · exact absurd hStill.startTime hStarted
      · obtain ⟨news, hNews, hUnderway⟩ := hUnstarted.underway hOpen
        have hSame : raised = news := List.append_cancel_left (hEvents.trans hNews)
        rw [hSame]
        exact ⟨talk, hUnstarted.idle hOpen, hUnderway⟩
    · obtain ⟨before, hIdle, hUnderway⟩ := ih hBefore
      exact ⟨before, hIdle, (Underway.invariant hIdle).effect hUnderway hEffect⟩
  | @share told talk registry hTells hShared ih =>
    obtain ⟨before, hIdle, hUnderway⟩ := ih hStarted
    have hNext := hUnderway.move hIdle (.quiet (talk.alike_share registry))
    rw [List.append_nil] at hNext
    exact ⟨before, hIdle, hNext⟩

end Dialogue.Talk
