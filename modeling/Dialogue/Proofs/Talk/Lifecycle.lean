import Dialogue.Proofs.Talk.Signals

/-!
# The lifecycle

The four signals of a talk, its agenda and the events it raised are kept in step. A talk is `Open` until
it is asked to close, and `Ending` from then on: the text is over then, and only the ends of closing
animations stand on the agenda, one for each that is counted. What was raised is `Logged`: one event
for each of `played` and `closed` that has settled, and nothing after the latter.

Main results:

* `Talk.Open.move`, `Talk.Ending.move`, `Talk.Logged.move` — what each move keeps.
* `Talk.lifecycle_consistent` — how phases, signals and history fit together, whatever is done to a
  talk.
-/

namespace Dialogue

namespace Event

/-- The outcome in a `played` event. -/
def played? : Event → Option Outcome
  | played outcome => some outcome
  | shown .. | emote .. | faded _ | sectionClosing _ | sectionClosed _ | closed => none

/-- Whether an event belongs to showing the text. -/
def isShowing : Event → Bool
  | shown .. | emote .. | faded _ => true
  | played _ | sectionClosing _ | sectionClosed _ | closed => false

end Event

namespace Talk

/-! ## Before and after the talk is asked to close -/

/-- A talk that was not asked to close: nothing was given up, and nothing but playback is to come. -/
structure Open (talk : Talk) : Prop where
  closing : talk.outcome .closing = none
  closed : talk.outcome .closed = none
  play : talk.outcome .play ≠ some .abandoned
  played : talk.outcome .played ≠ some .abandoned
  playback : ∀ x ∈ talk.agenda.pending, x.event.isPlayback = true

/-- A talk that was asked to close: playback is over, and each closing animation that is counted ends
with a cue. It is over when none is left. -/
structure Ending (talk : Talk) : Prop where
  closing : talk.outcome .closing ≠ none
  play : talk.outcome .play ≠ none
  played : talk.outcome .played ≠ none
  playback : ∀ x ∈ talk.agenda.pending, x.event.isPlayback = false
  closesLeft : talk.closesLeft = talk.agenda.pending.length
  closed : talk.outcome .closed = if talk.agenda.pending = [] then some .resolved else none

/-- A plan consists of playback, so that the talk is as open as before. -/
theorem Open.plan {talk : Talk} (h : Open talk) (start : Millis) : Open (talk.plan start) where
  closing := h.closing
  closed := h.closed
  play := h.play
  played := h.played
  playback x hMem := by
    rcases mem_pending_plan hMem with hMem | hReveal
    · exact h.playback x hMem
    · exact isPlayback_of_isReveal hReveal

/-- To have been played to the end leaves a talk open. -/
theorem Open.markPlayed {talk : Talk} (h : Open talk) : Open (talk.markPlayed .resolved) where
  closing := by rw [outcome_markPlayed]; exact h.closing
  closed := by rw [outcome_markPlayed]; exact h.closed
  play := by rw [outcome_markPlayed]; exact h.play
  played := by
    rw [outcome_markPlayed, if_pos rfl]
    have hPlayed := h.played
    cases hOutcome : talk.outcome .played with
    | none => simp
    -- it was played before, and stays so
    | some outcome =>
      rw [hOutcome] at hPlayed
      exact hPlayed
  playback := by rw [agenda_markPlayed]; exact h.playback

/-- A talk is as open as another one with the same outcomes and the same agenda. -/
theorem Open.congr {talk later : Talk} (h : Open talk)
    (hOutcome : ∀ milestone, later.outcome milestone = talk.outcome milestone)
    (hPending : later.agenda.pending = talk.agenda.pending) : Open later where
  closing := by rw [hOutcome, h.closing]
  closed := by rw [hOutcome, h.closed]
  play := by rw [hOutcome]; exact h.play
  played := by rw [hOutcome]; exact h.played
  playback := by rw [hPending]; exact h.playback

theorem Open.written {talk later : Talk} (h : Open talk) (hWritten : Written talk later) :
    Open later :=
  h.congr (fun milestone => by rw [outcome, outcome, hWritten.lifecycle]) (by rw [hWritten.agenda])

/-- No move closes an open talk. -/
theorem Open.move {talk later : Talk} {raised : List Event} (h : Open talk)
    (hMove : Move talk raised later) : Open later := by
  cases hMove with
  | quiet hAlike => exact h.congr hAlike.outcome hAlike.pending
  | skip hPlaying =>
    refine ⟨?_, ?_, ?_, ?_, h.playback⟩
    · rw [outcome_settle]; exact h.closing
    · rw [outcome_settle]; exact h.closed
    · rw [outcome_settle, hPlaying]; simp
    · rw [outcome_settle]; exact h.played
  | fire hTaken =>
    rename_i cue rest
    obtain ⟨due, hMem⟩ := hTaken.mem
    have hPlayback : cue.isPlayback = true := h.playback _ hMem
    -- in an open talk every cue belongs to playback, so it settles `played` or nothing
    have hOther : ∀ milestone, milestone ≠ .played →
        ({ talk with agenda := rest }.fire cue).outcome milestone = talk.outcome milestone := by
      intro milestone hNe
      rw [outcome_fire]
      cases cue with
      | reveal entry last => simp [hNe.symm]
      | fadeEnd entry => rfl
      | closeEnd number => cases hPlayback
    refine ⟨?_, ?_, ?_, ?_, ?_⟩
    · rw [hOther _ (by decide), h.closing]
    · rw [hOther _ (by decide), h.closed]
    · rw [hOther _ (by decide)]; exact h.play
    · have hPlayed := h.played
      rw [outcome_fire]
      cases cue with
      | reveal entry last =>
        -- the last reveal resolves `played`, unless it was settled before
        cases last with
        | false => simpa using hPlayed
        | true =>
          cases hOutcome : talk.outcome .played with
          | none => simp [hOutcome]
          | some outcome =>
            rw [hOutcome] at hPlayed
            simpa [hOutcome] using hPlayed
      | fadeEnd entry => exact hPlayed
      | closeEnd number => cases hPlayback
    · intro x hx
      rcases mem_pending_fire hTaken hx with hOld | ⟨entry, hFade⟩
      · exact h.playback x hOld
      · rw [hFade]; rfl

/-- Once the talk was asked to close, only closing animations end. -/
theorem Ending.cue {talk : Talk} (h : Ending talk) {cue : Cue} {rest : Agenda Cue}
    (hTaken : Taken talk.agenda cue rest) : ∃ number, cue = .closeEnd number := by
  obtain ⟨due, hMem⟩ := hTaken.mem
  have hPlayback : cue.isPlayback = false := h.playback _ hMem
  cases cue with
  | reveal entry last => cases hPlayback
  | fadeEnd entry => cases hPlayback
  | closeEnd number => exact ⟨number, rfl⟩

/-- While animations are to end, the talk is not over. -/
theorem Ending.closed_of_taken {talk : Talk} (h : Ending talk) {cue : Cue} {rest : Agenda Cue}
    (hTaken : Taken talk.agenda cue rest) : talk.outcome .closed = none := by
  obtain ⟨due, hMem⟩ := hTaken.mem
  rw [h.closed, if_neg (List.ne_nil_of_mem hMem)]

/-- A section that leaves is one less to be waited for. -/
theorem Ending.closesLeft_of_taken {talk : Talk} (h : Ending talk) {cue : Cue} {rest : Agenda Cue}
    (hTaken : Taken talk.agenda cue rest) : talk.closesLeft - 1 = rest.pending.length := by
  obtain ⟨before, due, after, hPending, hRest, -⟩ := hTaken.split
  rw [h.closesLeft, hPending, hRest]
  simp

/-- A talk is ending just like another one with the same outcomes, agenda and count. -/
theorem Ending.congr {talk later : Talk} (h : Ending talk)
    (hOutcome : ∀ milestone, later.outcome milestone = talk.outcome milestone)
    (hPending : later.agenda.pending = talk.agenda.pending)
    (hLeft : later.closesLeft = talk.closesLeft) : Ending later where
  closing := by rw [hOutcome]; exact h.closing
  play := by rw [hOutcome]; exact h.play
  played := by rw [hOutcome]; exact h.played
  playback := by rw [hPending]; exact h.playback
  closesLeft := by rw [hLeft, hPending]; exact h.closesLeft
  closed := by rw [hOutcome, h.closed]; simp only [hPending]

/-- Every move of an ending talk leaves it ending. -/
theorem Ending.move {talk later : Talk} {raised : List Event} (h : Ending talk)
    (hMove : Move talk raised later) : Ending later := by
  cases hMove with
  | quiet hAlike => exact h.congr hAlike.outcome hAlike.pending hAlike.closesLeft
  | skip hPlaying => exact absurd hPlaying h.play
  | fire hTaken =>
    rename_i cue rest
    have hClosed := h.closed_of_taken hTaken
    have hLeft := h.closesLeft_of_taken hTaken
    obtain ⟨number, rfl⟩ := h.cue hTaken
    obtain ⟨registry, outbox, hClosing⟩ := { talk with agenda := rest }.endClosing_eq number
    -- all that is left are ends of closing animations, and only the last of them settles a signal
    have hOther : ∀ milestone, milestone ≠ .closed →
        ({ talk with agenda := rest }.fire (.closeEnd number)).outcome milestone =
          talk.outcome milestone := by
      intro milestone hNe
      rw [outcome_fire]
      simp [hNe.symm]
    refine ⟨?_, ?_, ?_, ?_, ?_, ?_⟩
    · rw [hOther _ (by decide)]; exact h.closing
    · rw [hOther _ (by decide)]; exact h.play
    · rw [hOther _ (by decide)]; exact h.played
    · intro x hx
      rw [fire, agenda_endClosing] at hx
      exact h.playback x (hTaken.mem_of_mem hx)
    · rw [fire, hClosing]
      exact hLeft
    · rw [outcome_fire, fire, agenda_endClosing]
      simp only [outcome_with_agenda, hClosed, and_true, hLeft, List.length_eq_zero_iff]
      rfl

/-- When the sections of a talk that is asked to close now will have closed. -/
def closesAt (talk : Talk) : Millis := talk.now + talk.options.tempo.sectionClose

/-- The request leaves the ends of the closing animations on the agenda, and nothing else. -/
theorem Open.pending_closingAgenda {talk : Talk} (h : Open talk) :
    talk.closingAgenda.pending =
      talk.closingSections.map fun number => ⟨talk.closesAt, .closeEnd number⟩ := by
  -- an open agenda holds playback only, and all of it is struck out
  have hCancelled : (talk.agenda.cancel Cue.isPlayback).pending = [] := by
    refine List.filter_eq_nil_iff.mpr ?_
    intro x hMem
    rw [h.playback x hMem]
    decide
  rw [closingAgenda, pending_scheduleAll, hCancelled, List.nil_append, List.map_map]
  · rfl
  · -- all of them are due at the same time
    rw [hCancelled, List.nil_append, List.map_map, List.pairwise_map]
    exact List.pairwise_of_forall fun _ _ => Millis.le_refl _

/-- Asking a talk to close strikes out all of the playback, and counts one animation for each section. -/
theorem Open.beginClosing {talk : Talk} (h : Open talk) (outcome : Outcome) :
    Ending (talk.beginClosing outcome).2 := by
  have hOutcome := outcome_beginClosing h.closing outcome
  have hPending := h.pending_closingAgenda
  obtain ⟨registry, areas, outbox, hEq⟩ := beginClosing_eq h.closing outcome
  refine ⟨?_, ?_, ?_, ?_, ?_, ?_⟩
  · rw [hOutcome]; simp
  · rw [hOutcome]; simp
  · rw [hOutcome]; simp
  · rw [hEq]
    intro x hMem
    simp only [hPending] at hMem
    -- all playback is struck out, and sections that close are put in its place
    obtain ⟨number, -, rfl⟩ := List.mem_map.mp hMem
    rfl
  · rw [hEq]
    simp only [hPending, List.length_map]
  · -- a talk without sections is over at once
    rw [hOutcome, hEq]
    simp only [h.closed, Option.getD_none, hPending, List.map_eq_nil_iff]

/-! ## What was raised -/

/-- One event for each of `played` and `closed` that has settled, the latter at the end. -/
structure Logged (raised : List Event) (talk : Talk) : Prop where
  played : raised.filterMap Event.played? = (talk.outcome .played).toList
  notYet : talk.outcome .closed = none → .closed ∉ raised
  closed : talk.outcome .closed ≠ none → ∃ before, raised = before ++ [.closed] ∧ .closed ∉ before

/-- The one `played` event is raised when the signal settles. -/
theorem played_append_playedEvents (talk : Talk) (outcome : Outcome) :
    (talk.outcome .played).toList ++ (talk.playedEvents outcome).filterMap Event.played? =
      [(talk.outcome .played).getD outcome] := by
  unfold playedEvents
  cases talk.outcome .played <;> rfl

/-- Only the last reveal tells that the talk was played. -/
theorem played_revealEvents (talk : Talk) (entry : Nat) (last : Bool) :
    (talk.revealEvents entry last).filterMap Event.played? =
      if last then (talk.playedEvents .resolved).filterMap Event.played? else [] := by
  -- neither the entry nor its emote says anything about `played`
  have hShown : (talk.shownEvents entry).filterMap Event.played? = [] := by
    refine List.filterMap_eq_nil_iff.mpr ?_
    intro event hMem
    obtain ⟨glyph, rfl⟩ := mem_shownEvents hMem
    rfl
  have hEmote : (if talk.animates then talk.emoteEvents entry else []).filterMap Event.played? =
      [] := by
    refine List.filterMap_eq_nil_iff.mpr ?_
    intro event hMem
    split at hMem
    · obtain ⟨name, rfl⟩ := mem_emoteEvents hMem
      rfl
    · cases hMem
  rw [revealEvents, List.filterMap_append, List.filterMap_append, hShown, hEmote]
  cases last <;> rfl

namespace Logged

/-- Events other than `closed`, raised before the talk is over. -/
theorem append {raised more : List Event} {talk later : Talk} (h : Logged raised talk)
    (hPlayed : (talk.outcome .played).toList ++ more.filterMap Event.played? =
      (later.outcome .played).toList)
    (hClosed : later.outcome .closed = talk.outcome .closed)
    (hMore : more = [] ∨ talk.outcome .closed = none ∧ .closed ∉ more) :
    Logged (raised ++ more) later where
  played := by rw [List.filterMap_append, h.played, hPlayed]
  notYet hNone := by
    rw [hClosed] at hNone
    rw [List.mem_append, not_or]
    refine ⟨h.notYet hNone, ?_⟩
    rcases hMore with rfl | ⟨-, hMore⟩
    · exact List.not_mem_nil
    · exact hMore
  closed hSettled := by
    rw [hClosed] at hSettled
    -- what has been closed raises nothing more
    rcases hMore with rfl | ⟨hNone, -⟩
    · rw [List.append_nil]
      exact h.closed hSettled
    · exact absurd hNone hSettled

/-- What was logged agrees with any talk that has the same outcomes. -/
theorem of_outcome {raised : List Event} {talk later : Talk} (h : Logged raised talk)
    (hOutcome : ∀ milestone, later.outcome milestone = talk.outcome milestone) :
    Logged raised later where
  played := by rw [hOutcome, h.played]
  notYet := by rw [hOutcome]; exact h.notYet
  closed := by rw [hOutcome]; exact h.closed

/-- The talk is over, with the `closed` event as the last one. -/
theorem append_closed {raised more : List Event} {talk later : Talk} (h : Logged raised talk)
    (hPlayed : (talk.outcome .played).toList ++ more.filterMap Event.played? =
      (later.outcome .played).toList)
    (hOpen : talk.outcome .closed = none) (hClosed : later.outcome .closed ≠ none)
    (hMore : .closed ∉ more) : Logged (raised ++ (more ++ [.closed])) later where
  played := by
    rw [List.filterMap_append, List.filterMap_append, h.played, ← List.append_assoc, hPlayed]
    exact List.append_nil _
  notYet hNone := absurd hNone hClosed
  closed _ := by
    refine ⟨raised ++ more, (List.append_assoc ..).symm, ?_⟩
    rw [List.mem_append, not_or]
    exact ⟨h.notYet hOpen, hMore⟩

/-- With every move the log goes on to agree with the outcomes. -/
theorem move {raised more : List Event} {talk later : Talk} (h : Logged raised talk)
    (hState : Open talk ∨ Ending talk) (hMove : Move talk more later) :
    Logged (raised ++ more) later := by
  cases hMove with
  | quiet hAlike =>
    rw [List.append_nil]
    exact h.of_outcome hAlike.outcome
  | skip hPlaying =>
    refine h.append ?_ ?_ (.inl rfl)
    · rw [outcome_settle]
      exact List.append_nil _
    · rw [outcome_settle]
      rfl
  | fire hTaken =>
    rename_i cue rest
    -- whatever fires, the talk is not over yet
    have hClosed : talk.outcome .closed = none := by
      rcases hState with hState | hState
      · exact hState.closed
      · exact hState.closed_of_taken hTaken
    cases cue with
    | reveal entry last =>
      refine h.append ?_ ?_ (.inr ⟨hClosed, fun hMem => ?_⟩)
      · rw [firedEvents, played_revealEvents, outcome_fire]
        cases last with
        | false => simp
        | true => simpa using talk.played_append_playedEvents .resolved
      · rw [outcome_fire]
        simp
      · -- a reveal closes nothing
        rcases mem_revealEvents hMem with ⟨glyph, hEq⟩ | ⟨name, hEq⟩ | hEq <;> cases hEq
    | fadeEnd entry =>
      refine h.append ?_ ?_ (.inr ⟨hClosed, by simp [firedEvents]⟩)
      · rw [outcome_fire]
        exact List.append_nil _
      · rw [outcome_fire]
        rfl
    | closeEnd number =>
      -- the last animation to end is followed by `closed`
      by_cases hLast : talk.closesLeft - 1 = 0
      · have hEvents : talk.firedEvents (.closeEnd number) =
            [.sectionClosed number] ++ [.closed] := by
          simp [firedEvents, hLast, closedEvents, hClosed]
        rw [hEvents]
        refine h.append_closed ?_ hClosed ?_ (by simp)
        · rw [outcome_fire]
          simp [Event.played?]
        · rw [outcome_fire]
          simp [hLast]
      · have hEvents : talk.firedEvents (.closeEnd number) = [.sectionClosed number] := by
          simp [firedEvents, hLast]
        rw [hEvents]
        refine h.append ?_ ?_ (.inr ⟨hClosed, by simp⟩)
        · rw [outcome_fire]
          simp [Event.played?]
        · rw [outcome_fire]
          simp [hLast]

/-- A text without entries is complete at once. -/
theorem markPlayed {raised : List Event} {talk : Talk} (h : Logged raised talk)
    (hState : Open talk) :
    Logged (raised ++ talk.playedEvents .resolved) (talk.markPlayed .resolved) := by
  refine h.append ?_ ?_ (.inr ⟨hState.closed, fun hMem => ?_⟩)
  · rw [outcome_markPlayed, if_pos rfl]
    exact talk.played_append_playedEvents .resolved
  · rw [outcome_markPlayed]
    rfl
  · cases mem_playedEvents hMem

/-- Asking a talk to close raises `played` if that is news, then what becomes of the sections. -/
theorem beginClosing {raised : List Event} {talk : Talk} (h : Logged raised talk)
    (hState : Open talk) (outcome : Outcome) :
    Logged (raised ++ talk.closingEvents) (talk.beginClosing outcome).2 := by
  have hOutcome := outcome_beginClosing hState.closing outcome
  -- the closing of sections says nothing about `played`, and closing settles it before
  have hSections : (talk.closingSections.map Event.sectionClosing).filterMap Event.played? = [] := by
    rw [List.filterMap_map]
    exact List.filterMap_eq_nil_iff.mpr fun _ _ => rfl
  have hNotPlayed : .closed ∉ talk.playedEvents .abandoned := by
    intro hMem
    cases mem_playedEvents hMem
  by_cases hNone : talk.closingSections = []
  · -- without sections the talk is closed at once
    have hEvents : talk.closingEvents = talk.playedEvents .abandoned ++ [.closed] := by
      simp [closingEvents, hNone, closedEvents, hState.closed]
    rw [hEvents]
    refine h.append_closed ?_ hState.closed ?_ hNotPlayed
    · rw [hOutcome]
      exact talk.played_append_playedEvents .abandoned
    · rw [hOutcome]
      simp [hNone]
  · have hEvents : talk.closingEvents =
        talk.playedEvents .abandoned ++ talk.closingSections.map Event.sectionClosing := by
      simp [closingEvents, hNone]
    rw [hEvents]
    refine h.append ?_ ?_ (.inr ⟨hState.closed, ?_⟩)
    · rw [hOutcome, List.filterMap_append, hSections, List.append_nil]
      exact talk.played_append_playedEvents .abandoned
    · rw [hOutcome]
      simp [hNone]
    · rw [List.mem_append, not_or]
      exact ⟨hNotPlayed, by simp⟩

end Logged

/-! ## Whatever is done to a talk -/

/-- Signals, agenda and events are in step. -/
structure InStep (raised : List Event) (talk : Talk) : Prop where
  logged : Logged raised talk
  state : Open talk ∨ Ending talk

/-- A talk that is in step and has not settled `closing` is open. -/
theorem InStep.isOpen {raised : List Event} {talk : Talk} (h : InStep raised talk)
    (hOpen : talk.outcome .closing = none) : Open talk := by
  rcases h.state with hState | hState
  · exact hState
  · exact absurd hOpen hState.closing

/-- One that has settled it is ending. -/
theorem InStep.isEnding {raised : List Event} {talk : Talk} (h : InStep raised talk)
    (hClosing : talk.outcome .closing ≠ none) : Ending talk := by
  rcases h.state with hState | hState
  · exact absurd hState.closing hClosing
  · exact hState

/-- A talk is in step as long as its outcomes, its agenda and its count are the same. -/
theorem InStep.congr {raised : List Event} {talk later : Talk} (h : InStep raised talk)
    (hOutcome : ∀ milestone, later.outcome milestone = talk.outcome milestone)
    (hPending : later.agenda.pending = talk.agenda.pending)
    (hLeft : later.closesLeft = talk.closesLeft) : InStep raised later where
  logged := h.logged.of_outcome hOutcome
  state := by
    rcases h.state with hState | hState
    · exact .inl (hState.congr hOutcome hPending)
    · exact .inr (hState.congr hOutcome hPending hLeft)

/-- Every talk stays in step with its log, whatever is done to it. -/
theorem invariant_inStep : Invariant InStep where
  move h hMove := by
    refine ⟨h.logged.move h.state hMove, ?_⟩
    rcases h.state with hState | hState
    · exact .inl (hState.move hMove)
    · exact .inr (hState.move hMove)
  plan start h hOpen _ := by
    -- starting and closing ask for an open talk, which rules out one that is ending
    refine ⟨h.logged.of_outcome fun _ => rfl, ?_⟩
    rcases h.state with hState | hState
    · exact .inl (hState.plan start)
    · exact absurd hOpen hState.closing
  complete h hOpen _ _ := by
    rcases h.state with hState | hState
    · exact ⟨h.logged.markPlayed hState, .inl hState.markPlayed⟩
    · exact absurd hOpen hState.closing
  written h hWritten := by
    refine h.congr (fun milestone => ?_) (by rw [hWritten.agenda]) hWritten.closesLeft
    rw [outcome_eq, hWritten.lifecycle]
    rfl
  paced h hPaced := by
    rw [hPaced.rest]
    exact h.congr (fun _ => rfl) rfl rfl
  closed outcome h hOpen := by
    rcases h.state with hState | hState
    · exact ⟨h.logged.beginClosing hState outcome, .inr (hState.beginClosing outcome)⟩
    · exact absurd hOpen hState.closing

/-- A new talk is in step, as nothing has settled and nothing was raised. -/
theorem inStep_of_isNew {talk : Talk} (hNew : talk.IsNew) : InStep talk.events talk where
  logged := by
    rw [hNew.events]
    refine ⟨?_, fun _ => List.not_mem_nil, fun hSettled => absurd (hNew.outcome _) hSettled⟩
    rw [hNew.outcome]
    rfl
  state := by
    refine .inl ⟨hNew.outcome _, hNew.outcome _, ?_, ?_, ?_⟩
    · rw [hNew.outcome]; simp
    · rw [hNew.outcome]; simp
    · rw [hNew.pending]; simp

/-- Once the talk was asked to close, no move shows anything. -/
theorem Ending.not_showing {talk later : Talk} {raised : List Event} (h : Ending talk)
    (hMove : Move talk raised later) : ∀ event ∈ raised, event.isShowing = false := by
  cases hMove with
  | quiet => simp
  | skip => simp
  | fire hTaken =>
    obtain ⟨number, rfl⟩ := h.cue hTaken
    intro event hMem
    rcases mem_firedEvents_closeEnd hMem with rfl | rfl <;> rfl

/-- Once the talk is ending, nothing that plays shows an entry. -/
theorem Plays.not_showing {talk later : Talk} {raised : List Event}
    (hPlays : Plays talk raised later) (h : Ending talk) :
    ∀ event ∈ raised, event.isShowing = false := by
  -- the talk is ending before each of the moves
  induction hPlays with
  | refl talk => simp
  | move hMove hRest ih =>
    intro event hMem
    rcases List.mem_append.mp hMem with hFirst | hLater
    · exact h.not_showing hMove event hFirst
    · exact ih (h.move hMove) event hLater

/-- Moves do not close a talk. -/
theorem Plays.isOpen {talk later : Talk} {raised : List Event} (hPlays : Plays talk raised later)
    (h : Open talk) : Open later := by
  induction hPlays with
  | refl talk => exact h
  | move hMove hRest ih => exact ih (h.move hMove)

/-- Nothing but a request closes a talk. -/
theorem Effect.isOpen {talk later : Talk} {operation : Operation} {raised : List Event}
    (hEffect : Effect talk operation raised later) (h : Open talk)
    (hRequest : operation.requestsClose = false) : Open later := by
  cases hEffect with
  | plays _ hPlays => exact hPlays.isOpen h
  | written _ hWritten => exact h.written hWritten
  | paced hPaced =>
    rw [hPaced.rest]
    exact h.congr (fun _ => rfl) rfl
  | wrapped hWritten hPaced =>
    rw [hPaced.rest]
    exact (h.written hWritten).congr (fun _ => rfl) rfl
  | started _ _ _ hPlays => exact hPlays.isOpen (h.plan _)
  | completed => exact (h.plan _).markPlayed
  | closed hRequested =>
    rw [hRequest] at hRequested
    cases hRequested

/-- A request asks the talk to close, one way or the other. -/
theorem perform_request (talk : Talk) {operation : Operation}
    (hRequest : operation.requestsClose = true) :
    ∃ outcome, (talk.perform operation).2 = (talk.beginClosing outcome).2 := by
  cases operation with
  | close => exact ⟨.abandoned, rfl⟩
  | finish => exact ⟨.resolved, rfl⟩
  | direct | pace | wrapUp | start | skip | advanceTo | advanceBy | playOut | collectEvents | observe
  | performWith => cases hRequest

/-- A request to close closes a talk that was open. -/
theorem closing_of_request {talk : Talk} {operation : Operation}
    (hOpen : talk.outcome .closing = none) (hRequest : operation.requestsClose = true) :
    (talk.perform operation).2.outcome .closing ≠ none := by
  obtain ⟨outcome, hPerform⟩ := talk.perform_request hRequest
  rw [hPerform, outcome_beginClosing hOpen]
  exact Option.some_ne_none _

/-- An operation after which the talk is closing shows nothing from the moment it closes. -/
theorem InStep.not_showing {log raised : List Event} {talk later : Talk} {operation : Operation}
    (h : InStep log talk) (hEffect : Effect talk operation raised later)
    (hClosing : later.outcome .closing ≠ none) : ∀ event ∈ raised, event.isShowing = false := by
  cases hEffect with
  | plays _ hPlays =>
    -- an open talk would still be open after moves
    rcases h.state with hState | hState
    · exact absurd (hPlays.isOpen hState).closing hClosing
    · exact hPlays.not_showing hState
  | started hOpen _ _ hPlays =>
    rcases h.state with hState | hState
    · exact absurd (hPlays.isOpen (hState.plan _)).closing hClosing
    · exact absurd hOpen hState.closing
  | completed hOpen =>
    intro event hMem
    rw [mem_playedEvents hMem]
    rfl
  | written => simp
  | paced => simp
  | wrapped => simp
  | closed _ outcome hOpen =>
    intro event hMem
    -- what closing raises is about `played` and about sections
    rcases mem_closingEvents hMem with rfl | ⟨number, rfl⟩ | rfl <;> rfl

/-- How the signals of a talk fit together, and what they say about all events raised so far. -/
structure Consistent (talk : Talk) (history : List Event) : Prop where
  abandoned : talk.outcome .play = some .abandoned ∨ talk.outcome .played = some .abandoned →
    talk.outcome .closing ≠ none
  closing : talk.outcome .closing ≠ none →
    talk.outcome .play ≠ none ∧ talk.outcome .played ≠ none
  closed : talk.outcome .closed ≠ none →
    talk.outcome .closed = some .resolved ∧ talk.outcome .closing ≠ none
  /-- One `played` event with the outcome of the signal, or none while it is pending. -/
  playedOnce : history.filterMap Event.played? = (talk.outcome .played).toList
  closedOnce : history.count .closed = if talk.outcome .closed = none then 0 else 1
  closedLast : ∀ before after, history = before ++ .closed :: after → after = []

/-- A talk that is in step with its log is consistent with it. -/
theorem InStep.consistent {history : List Event} {talk : Talk} (h : InStep history talk) :
    Consistent talk history where
  abandoned hAbandoned := by
    -- while the talk is open nothing was abandoned, and once it is ending all has settled
    rcases h.state with hState | hState
    · rcases hAbandoned with hPlay | hPlayed
      · exact absurd hPlay hState.play
      · exact absurd hPlayed hState.played
    · exact hState.closing
  closing hClosing := by
    rcases h.state with hState | hState
    · exact absurd hState.closing hClosing
    · exact ⟨hState.play, hState.played⟩
  closed hClosed := by
    rcases h.state with hState | hState
    · exact absurd hState.closed hClosed
    · refine ⟨?_, hState.closing⟩
      have hOver := hState.closed
      split at hOver
      · exact hOver
      · exact absurd hOver hClosed
  playedOnce := h.logged.played
  closedOnce := by
    split
    · rename_i hNone
      exact List.count_eq_zero.mpr (h.logged.notYet hNone)
    · rename_i hSettled
      obtain ⟨before, hHistory, hBefore⟩ := h.logged.closed hSettled
      rw [hHistory, List.count_append, List.count_eq_zero.mpr hBefore]
      rfl
  closedLast before after hHistory := by
    by_cases hNone : talk.outcome .closed = none
    · exact absurd (mem_of_split hHistory) (h.logged.notYet hNone)
    · obtain ⟨all, hAll, hNot⟩ := h.logged.closed hNone
      rcases List.eq_nil_or_concat after with rfl | ⟨init, last, rfl⟩
      · rfl
      · -- then the last event would not be the only one
        have hEq : all ++ [.closed] = (before ++ .closed :: init) ++ [last] := by
          rw [← hAll, hHistory, List.concat_eq_append, List.append_assoc, List.cons_append]
        have hInit : all = before ++ .closed :: init := (List.append_inj' hEq rfl).1
        exact absurd (mem_of_split hInit) hNot

/-- Whatever is done to a talk: its phase never goes back, its signals and its history fit together,
and what an operation raises once the talk is closing shows nothing of the text. -/
theorem lifecycle_consistent (registry : Registry) {options : Options} (hValid : options.Valid) :
    ∃ talk, Talk.create registry options = .ok talk ∧ ∀ operations,
      Consistent (talk.after operations) (talk.history operations) ∧
      (∀ more, (talk.after operations).phase.rank ≤
        (talk.after (operations ++ more)).phase.rank) ∧
      (∀ operation, ∃ raised,
        talk.history (operations ++ [operation]) = talk.history operations ++ raised ∧
        ((talk.after (operations ++ [operation])).outcome .closing ≠ none →
          ∀ event ∈ raised, event.isShowing = false)) := by
  obtain ⟨talk, hCreate, -, hNew⟩ := exists_create registry hValid
  refine ⟨talk, hCreate, fun operations => ?_⟩
  have hInStep := invariant_inStep.history (inStep_of_isNew hNew) operations
  refine ⟨hInStep.consistent, fun more => rank_phase_le fun milestone hSettled => ?_, ?_⟩
  · obtain ⟨outcome, hOutcome⟩ := Option.ne_none_iff_exists'.mp hSettled
    rw [talk.settled_after operations more hOutcome]
    simp
  · intro operation
    obtain ⟨raised, hEffect, hHistory⟩ := talk.effect_after operations operation
    exact ⟨raised, hHistory, hInStep.not_showing hEffect⟩

/-- The standard options are valid, so that all of this holds of a standard talk. -/
theorem lifecycle_consistent_standard :
    Options.standard.Valid ∧
    ∃ talk, Talk.create .empty .standard = .ok talk ∧ ∀ operations,
      Consistent (talk.after operations) (talk.history operations) ∧
      (∀ more, (talk.after operations).phase.rank ≤
        (talk.after (operations ++ more)).phase.rank) ∧
      (∀ operation, ∃ raised,
        talk.history (operations ++ [operation]) = talk.history operations ++ raised ∧
        ((talk.after (operations ++ [operation])).outcome .closing ≠ none →
          ∀ event ∈ raised, event.isShowing = false)) :=
  ⟨by decide, lifecycle_consistent .empty (by decide)⟩

end Talk

end Dialogue
