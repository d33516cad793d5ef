import Dialogue.Proofs.Talk.Fading

/-!
# Reveals and what goes with them

Of the entries that a talk shows, those that are shown while `play` is pending are aired. What was aired
tells everything about fades and emotes, whatever is done to the talk: which entries fade, which fades
have ended, which emotes were reached, and whom they were performed by.

Main results:

* `Talk.Fading.settles` — an operation that settles `play` airs nothing.
* `Talk.hushed_or_aired` — what was aired in a run of operations.
* `Talk.animations_paired` — how fades and emotes go with the reveals.
-/

namespace Dialogue.Talk

/-! ## Counting events -/

/-- Events of one kind, counted by what they tell. -/
theorem count_eq_count_filterMap {β : Type} [BEq β] [LawfulBEq β] {f : Event → Option β} {event : Event}
    {b : β} (hKind : ∀ other, f other = some b ↔ other = event) (events : List Event) :
    events.count event = (events.filterMap f).count b := by
  rw [List.count_filterMap]
  refine List.countP_congr fun other _ => ?_
  simp [hKind]

theorem count_faded (events : List Event) (i : Nat) :
    events.count (.faded i) = (events.filterMap Event.faded?).count i :=
  count_eq_count_filterMap (fun other => by cases other <;> simp [Event.faded?]) events

theorem count_emote (events : List Event) (i : Nat) (name : String) :
    events.count (.emote i name) = (events.filterMap Event.emote?).count (i, name) :=
  count_eq_count_filterMap (fun other => by cases other <;> simp [Event.emote?]) events

/-! ## Before the start -/

/-- How a talk stands before its start: nothing of its text was heard of, and nothing fades. -/
structure Hushed (raised : List Event) (talk : Talk) : Prop where
  unstarted : Unstarted raised talk
  silent : ∀ event ∈ raised, event.isShowing = false
  calm : ∀ place e, talk.scrap.entryAt? place = some e → e.fading = false

namespace Hushed

variable {talk later : Talk} {raised more : List Event}

/-- More can happen before the start, if none of it shows an entry. -/
theorem append (h : Hushed raised talk) (hUnstarted : Unstarted (raised ++ more) later)
    (hSilent : ∀ event ∈ more, event.isShowing = false)
    (hCalm : ∀ place e, later.scrap.entryAt? place = some e → e.fading = false) :
    Hushed (raised ++ more) later where
  unstarted := hUnstarted
  silent event hMem := by
    rcases List.mem_append.mp hMem with hMem | hMem
    · exact h.silent event hMem
    · exact hSilent event hMem
  calm := hCalm

/-- Every move before the start leaves a talk hushed. -/
theorem move (h : Hushed raised talk) (hMove : Move talk more later) :
    Hushed (raised ++ more) later := by
  have hUnstarted := h.unstarted.move hMove
  cases hMove with
  | quiet hAlike =>
    refine h.append hUnstarted (by simp) fun place e hAt => h.calm place e ?_
    rwa [hAlike.scrap] at hAt
  | skip hPlaying => exact h.append hUnstarted (by simp) h.calm
  | fire hTaken =>
    -- only a talk that is closing has something to do
    obtain ⟨due, hMem⟩ := hTaken.mem
    have hClosing : talk.outcome .closing ≠ none := by
      intro hNone
      rw [h.unstarted.idle hNone] at hMem
      cases hMem
    have hEnding := h.unstarted.inStep.isEnding hClosing
    obtain ⟨number, rfl⟩ := hEnding.cue hTaken
    refine h.append hUnstarted (hEnding.not_showing (.fire hTaken)) fun place e hAt => ?_
    rw [entryAt?_fire] at hAt
    exact h.calm place e hAt

/-- A talk is hushed until it starts, whatever is done to it. -/
theorem invariant : Invariant fun raised talk => talk.startTime = none → Hushed raised talk where
  move h hMove hFresh := by
    have hStart := (hMove.seen ⟨0, .terminal⟩).startTime
    rw [hFresh] at hStart
    exact (h hStart.symm).move hMove
  plan start _ _ _ hFresh := by cases hFresh
  complete {raised talk} _ _ _ hStarted hFresh := by
    obtain ⟨outbox, hPlayed⟩ := talk.markPlayed_eq .resolved
    rw [hPlayed] at hFresh
    exact absurd hFresh hStarted
  written {raised talk later} h hWritten hFresh := by
    rw [hWritten.startTime] at hFresh
    have hBefore := h hFresh
    refine ⟨hBefore.unstarted.written hWritten, hBefore.silent, fun place e hAt => ?_⟩
    refine Bool.eq_false_iff.mpr fun hFading => ?_
    -- what is written fades no entry, and so does pacing
    rw [hBefore.calm place e (hWritten.entryAt?_of_fading hAt hFading)] at hFading
    cases hFading
  paced {raised talk scope later} h hPaced hFresh := by
    have hRest := hPaced.rest
    rw [hRest] at hFresh
    have hBefore := h hFresh
    refine ⟨hBefore.unstarted.paced hPaced, hBefore.silent, fun place e hAt => ?_⟩
    refine Bool.eq_false_iff.mpr fun hFading => ?_
    rw [hBefore.calm place e (hPaced.entryAt?_of_fading hAt hFading)] at hFading
    cases hFading
  closed {raised talk} outcome h hOpen hFresh := by
    obtain ⟨registry, areas, outbox, hEq⟩ := beginClosing_eq hOpen outcome
    rw [hEq] at hFresh
    have hBefore := h hFresh
    exact hBefore.append (hBefore.unstarted.beginClosing hOpen outcome) talk.silent_closingEvents
      fun place e hAt => fading_beginClosing hOpen outcome hAt

/-- A new talk has shown nothing. -/
theorem of_isNew (hNew : talk.IsNew) : Hushed talk.events talk where
  unstarted := unstarted_of_isNew hNew
  silent := by
    rw [hNew.events]
    simp
  calm place e hAt := by
    rw [Scrap.entryAt?, hNew.scrap] at hAt
    cases hAt

/-! ### The start -/

/-- What is planned is to be shown, and nothing fades yet. -/
theorem fading_plan (h : Hushed raised talk) (hOpen : talk.outcome .closing = none) :
    Fading talk [] raised (talk.plan talk.startsAt) := by
  -- the plan has reveals only
  have hLeft : (talk.plan talk.startsAt).fadesLeft = [] := by
    refine List.filterMap_eq_nil_iff.mpr fun x hMem => ?_
    obtain ⟨i, -, -, hEvent⟩ := (mem_pending_plan_iff (h.unstarted.idle hOpen)).mp hMem
    rw [hEvent]
    rfl
  have hNone : ∀ i, (raised.filterMap Event.faded?).count i +
      (talk.plan talk.startsAt).fadesLeft.count i = [].count i := by
    intro i
    rw [faded_eq_nil h.silent, hLeft]
    rfl
  refine ⟨List.nil_sublist _, fun i => Nat.le_of_eq (hNone i), fun _ => hNone,
    fun place e hAt hFading => ?_, fun before i rest hSplit => ?_, emote_eq_nil h.silent,
    fun before i name rest hSplit => ?_⟩
  · rw [h.calm place e hAt] at hFading
    cases hFading
  · cases h.silent _ (mem_of_split hSplit)
  · cases h.silent _ (mem_of_split hSplit)

/-- Nothing is aired at the start: a text that was not skipped is planned, and nothing more. -/
theorem start (h : Hushed raised talk) (hOpen : talk.outcome .closing = none) :
    ∃ news, talk.start.events = talk.events ++ news ∧
      Faithful talk (raised ++ news) talk.start ∧ Fading talk [] (raised ++ news) talk.start ∧
      (talk.start.outcome .play = none → (raised ++ news).filterMap Event.shown? = []) := by
  have hIdle := h.unstarted.idle hOpen
  have hFresh := h.unstarted.startTime
  have hFaithful := h.unstarted.faithful_plan hOpen
  have hFading := h.fading_plan hOpen
  have hShown := shown_eq_nil h.silent
  by_cases hEmpty : talk.scrap.entries = []
  · obtain ⟨outbox, hPlayed⟩ := (talk.plan talk.startsAt).markPlayed_eq .resolved
    rw [start_of_empty hOpen hFresh hEmpty]
    refine ⟨(talk.plan talk.startsAt).playedEvents .resolved, by rw [hPlayed]; rfl,
      (Faithful.invariant hIdle).complete hFaithful hOpen hEmpty (Option.some_ne_none _),
      hFading.complete _, fun _ => ?_⟩
    rw [List.filterMap_append, hShown, shown_playedEvents]
    rfl
  · by_cases hPlay : talk.outcome .play = none
    · rw [start_of_playing hOpen hFresh hEmpty hPlay]
      refine ⟨[], (List.append_nil _).symm, ?_⟩
      rw [List.append_nil]
      -- the usual case, in which the reveals come with their times
      exact ⟨hFaithful, hFading, fun _ => hShown⟩
    · -- a text that was skipped before is shown without its animation
      rw [start_of_skipped hOpen hFresh hEmpty hPlay]
      have hSkipped : (talk.plan talk.startsAt).outcome .play ≠ none := hPlay
      obtain ⟨news, hPlays, hEvents⟩ := revealRest_plays hSkipped
      obtain ⟨hFaithful', hSkipped', hFading'⟩ :=
        (Fading.invariant_skipped hIdle).plays hPlays ⟨hFaithful, hSkipped, hFading⟩
      exact ⟨news, hEvents, hFaithful', hFading', fun hNone => absurd hNone hSkipped'⟩

end Hushed

/-! ## What settles `play` -/

/-- Starting does not settle `play`. -/
theorem play_start (talk : Talk) : talk.start.outcome .play = talk.outcome .play := by
  by_cases hOpen : talk.outcome .closing = none
  · by_cases hFresh : talk.startTime = none
    · by_cases hEmpty : talk.scrap.entries = []
      · rw [start_of_empty hOpen hFresh hEmpty, outcome_markPlayed]
        rfl
      · by_cases hPlay : talk.outcome .play = none
        · rw [start_of_playing hOpen hFresh hEmpty hPlay]
          rfl
        · rw [start_of_skipped hOpen hFresh hEmpty hPlay]
          obtain ⟨raised, hStill⟩ :=
            still_revealRest (show (talk.plan talk.startsAt).outcome .play ≠ none from hPlay)
          exact hStill.play
    · -- a talk that has started is left as it is
      obtain ⟨time, hTime⟩ := Option.ne_none_iff_exists'.mp hFresh
      simp [start, isClosing_of_open hOpen, hTime]
  · rw [start, if_pos (isClosing_of_settled hOpen)]
    rfl

/-- Only a skip and a request to close settle `play`. -/
theorem play_perform (talk : Talk) {operation : Operation} (hSkip : operation ≠ .skip)
    (hRequest : operation.requestsClose = false) :
    (talk.perform operation).2.outcome .play = talk.outcome .play := by
  have hWritten : ∀ {later : Talk}, Written talk later → later.outcome .play = talk.outcome .play := by
    intro later hWritten
    rw [outcome_eq, hWritten.lifecycle]
    rfl
  cases operation with
  | direct direction => exact hWritten (talk.written_direct direction)
  | pace scope =>
    simp only [perform]
    rw [pace_eq]
    rfl
  | wrapUp =>
    have hEnded := hWritten talk.written_endSection
    have hPaced : (talk.endSection.pace .whole).2.outcome .play = talk.outcome .play := by
      rw [pace_eq]
      exact hEnded
    simp only [perform, wrapUp]
    split
    all_goals
      rename_i hPace
      rw [hPace] at hPaced
      exact hPaced
  | start => exact talk.play_start
  | skip => exact absurd rfl hSkip
  | close => cases hRequest
  | finish => cases hRequest
  | advanceTo time =>
    -- the clock settles `play` only as `played`
    obtain ⟨timed, hTicks, -⟩ := talk.ticks_advanceTo time
    exact hTicks.play_eq
  | advanceBy delta =>
    obtain ⟨timed, hTicks, -⟩ := talk.ticks_advanceTo (talk.now + delta)
    exact hTicks.play_eq
  | playOut =>
    obtain ⟨timed, hTicks, -⟩ := talk.ticks_playOut
    exact hTicks.play_eq
  | collectEvents => rfl
  | observe milestone observer => exact talk.outcome_observe milestone observer .play
  | performWith performer => rfl

/-- A skip airs nothing: it resolves `play` first, so that the rest is shown without animation. -/
theorem Fading.skip {first talk : Talk} {aired : List Nat} {raised : List Event}
    (h : Fading first aired raised talk) (hFaithful : Faithful first raised talk)
    (hIdle : first.agenda.pending = []) (hPlay : talk.outcome .play = none) :
    ∃ more, talk.skip.2.events = talk.events ++ more ∧ Faithful first (raised ++ more) talk.skip.2 ∧
      Fading first aired (raised ++ more) talk.skip.2 := by
  have hReport := alike_report (talk.settle .play .resolved) .debug "play resolved"
  have hResolved : ((talk.settle .play .resolved).report .debug "play resolved").outcome .play ≠
      none := talk.play_settle .resolved
  have hFaithful' := (hFaithful.move hIdle (.skip hPlay)).move hIdle (.quiet hReport)
  have hFading' := (h.move hFaithful hIdle (.skip hPlay)).move
    (hFaithful.move hIdle (.skip hPlay)) hIdle (.quiet hReport)
  -- so far nothing was shown, and so nothing is aired
  rw [airs_of_shown_eq_nil rfl, airs_of_shown_eq_nil rfl, List.append_nil, List.append_nil]
    at hFading'
  rw [List.append_nil, List.append_nil] at hFaithful' hFading'
  obtain ⟨more, hPlays, hEvents⟩ := revealRest_plays hResolved
  obtain ⟨hFaithfulRest, -, hFadingRest⟩ :=
    (Fading.invariant_skipped hIdle).plays hPlays ⟨hFaithful', hResolved, hFading'⟩
  rw [skip_eq hPlay hFaithful.progress.startTime]
  exact ⟨more, hEvents, hFaithfulRest, hFadingRest⟩

/-- An operation that settles `play` airs nothing. -/
theorem Fading.settles {first talk : Talk} {aired : List Nat} {raised : List Event}
    (h : Fading first aired raised talk) (hFaithful : Faithful first raised talk)
    (hIdle : first.agenda.pending = []) (hPlay : talk.outcome .play = none) {operation : Operation}
    (hSettled : (talk.perform operation).2.outcome .play ≠ none) :
    ∃ more, talk.events ++ more =
        (talk.perform operation).1.raised ++ (talk.perform operation).2.events ∧
      Faithful first (raised ++ more) (talk.perform operation).2 ∧
      Fading first aired (raised ++ more) (talk.perform operation).2 := by
  -- as long as `play` is pending, the talk is open
  have hState : Open talk := by
    rcases hFaithful.progress.inStep.state with hOpen | hEnding
    · exact hOpen
    · exact absurd hPlay hEnding.play
  have hCloses : ∀ outcome, ∃ more, talk.events ++ more = (talk.beginClosing outcome).2.events ∧
      Faithful first (raised ++ more) (talk.beginClosing outcome).2 ∧
      Fading first aired (raised ++ more) (talk.beginClosing outcome).2 := by
    intro outcome
    obtain ⟨registry, areas, outbox, hEq⟩ := beginClosing_eq hState.closing outcome
    exact ⟨talk.closingEvents, by rw [hEq],
      (Faithful.invariant hIdle).closed outcome hFaithful hState.closing, h.closed hState outcome⟩
  by_cases hSkip : operation = .skip
  · subst hSkip
    obtain ⟨more, hEvents, hKept⟩ := h.skip hFaithful hIdle hPlay
    exact ⟨more, hEvents.symm, hKept⟩
  · -- only a skip and a request to close settle `play`
    cases hRequest : operation.requestsClose with
    | false => exact absurd hPlay (by rwa [talk.play_perform hSkip hRequest] at hSettled)
    | true =>
      cases operation with
      | close => exact hCloses .abandoned
      | finish => exact hCloses .resolved
      | _ => cases hRequest

/-! ## A whole run -/

/-- Whether entry `i` was shown while `play` was pending, in a run of operations. A signal that has settled
stays so; of the operations that settle `play`, a skip shows entries only after it has, and those that ask
the talk to close show none. -/
def ShownWhilePlaying (talk : Talk) (operations : List Operation) (i : Nat) : Prop :=
  ∃ earlier later glyph, operations = earlier ++ later ∧
    (talk.after earlier).outcome .play = none ∧ .shown i glyph ∈ talk.history earlier

/-- What was shown while playing was shown. -/
theorem ShownWhilePlaying.exists_shown {talk : Talk} {operations : List Operation} {i : Nat}
    (h : ShownWhilePlaying talk operations i) : ∃ glyph, .shown i glyph ∈ talk.history operations := by
  obtain ⟨earlier, later, glyph, rfl, -, hMem⟩ := h
  obtain ⟨raised, hHistory⟩ := talk.history_append earlier later
  exact ⟨glyph, by rw [hHistory]; exact List.mem_append_left _ hMem⟩

/-- An entry is shown while the talk plays if it was so before the last operation, or is so by it. -/
theorem shownWhilePlaying_append_singleton {talk : Talk} {operations : List Operation}
    {operation : Operation} {i : Nat} :
    ShownWhilePlaying talk (operations ++ [operation]) i ↔
      ShownWhilePlaying talk operations i ∨
        (talk.after (operations ++ [operation])).outcome .play = none ∧
          ∃ glyph, .shown i glyph ∈ talk.history (operations ++ [operation]) := by
  constructor
  · rintro ⟨earlier, later, glyph, hOperations, hPlay, hMem⟩
    rcases List.eq_nil_or_concat later with rfl | ⟨init, last, rfl⟩
    · rw [List.append_nil] at hOperations
      rw [hOperations]
      exact .inr ⟨hPlay, glyph, hMem⟩
    · rw [List.concat_eq_append, ← List.append_assoc] at hOperations
      exact .inl ⟨earlier, init, glyph, (List.append_inj' hOperations rfl).1, hPlay, hMem⟩
  · rintro (⟨earlier, later, glyph, rfl, hPlay, hMem⟩ | ⟨hPlay, glyph, hMem⟩)
    · exact ⟨earlier, later ++ [operation], glyph, List.append_assoc .., hPlay, hMem⟩
    · exact ⟨operations ++ [operation], [], glyph, (List.append_nil _).symm, hPlay, hMem⟩

/-- How a talk stands after operations that started it: what was aired is what was shown while `play` was
pending. -/
structure Aired (talk : Talk) (operations : List Operation) (first : Talk) (aired : List Nat) :
    Prop where
  idle : first.agenda.pending = []
  faithful : Faithful first (talk.history operations) (talk.after operations)
  fading : Fading first aired (talk.history operations) (talk.after operations)
  playing : (talk.after operations).outcome .play = none →
    aired = (talk.history operations).filterMap Event.shown?
  mem : ∀ i, i ∈ aired ↔ ShownWhilePlaying talk operations i

section Run

variable {talk first : Talk} {operations : List Operation} {aired : List Nat}

/-- With the start, the entries are there that will be aired; none of them is yet. -/
theorem Hushed.aired_start (h : Hushed (talk.history operations) (talk.after operations))
    (hOpen : (talk.after operations).outcome .closing = none) :
    Aired talk (operations ++ [.start]) (talk.after operations) [] := by
  obtain ⟨news, hEvents, hFaithful, hFading, hNone⟩ := h.start hOpen
  have hHistory : talk.history (operations ++ [.start]) = talk.history operations ++ news :=
    talk.history_append_singleton operations hEvents.symm
  have hAfter : talk.after (operations ++ [.start]) = (talk.after operations).start :=
    talk.after_append operations [.start]
  refine ⟨h.unstarted.idle hOpen, ?_, ?_, fun hPlay => ?_, fun i => ?_⟩
  · rwa [hHistory, hAfter]
  · rwa [hHistory, hAfter]
  · rw [hHistory, hNone (by rwa [hAfter] at hPlay)]
  · -- nothing was shown before, and nothing is shown now unless the text was skipped
    refine ⟨fun hMem => absurd hMem List.not_mem_nil, fun hShown => ?_⟩
    rcases shownWhilePlaying_append_singleton.mp hShown with hBefore | ⟨hPlay, hNow⟩
    · obtain ⟨glyph, hMem⟩ := hBefore.exists_shown
      cases h.silent _ hMem
    · rw [hAfter] at hPlay
      rw [hHistory, ← mem_shown_iff, hNone hPlay] at hNow
      exact hNow

/-- Any other operation airs what it shows while `play` is pending, and nothing else. -/
theorem Aired.perform (h : Aired talk operations first aired) (operation : Operation) :
    ∃ aired, Aired talk (operations ++ [operation]) first aired := by
  obtain ⟨raised, hEffect, hHistory⟩ := talk.effect_after operations operation
  by_cases hPlay : (talk.after (operations ++ [operation])).outcome .play = none
  · -- `play` was pending all the time
    have hBefore : (talk.after operations).outcome .play = none := by
      by_contra hSkipped
      obtain ⟨outcome, hOutcome⟩ := Option.ne_none_iff_exists'.mp hSkipped
      rw [talk.settled_after operations [operation] hOutcome] at hPlay
      cases hPlay
    obtain ⟨hFaithful, hFading⟩ := (Fading.invariant_playing h.idle).effect
      ⟨h.faithful, fun _ => h.playing hBefore ▸ h.fading⟩ hEffect
    rw [← hHistory] at hFaithful hFading
    refine ⟨_, h.idle, hFaithful, hFading hPlay, fun _ => rfl, fun i => ?_⟩
    rw [shownWhilePlaying_append_singleton, mem_shown_iff]
    refine ⟨fun hShown => .inr ⟨hPlay, hShown⟩, ?_⟩
    rintro (hOld | ⟨-, hShown⟩)
    · obtain ⟨glyph, hMem⟩ := hOld.exists_shown
      exact ⟨glyph, by rw [hHistory]; exact List.mem_append_left _ hMem⟩
    · exact hShown
  · -- nothing is aired by an operation after which `play` has settled
    have hNext : Faithful first (talk.history (operations ++ [operation]))
          (talk.after (operations ++ [operation])) ∧
        Fading first aired (talk.history (operations ++ [operation]))
          (talk.after (operations ++ [operation])) := by
      -- this operation has settled it, or an earlier one has
      by_cases hBefore : (talk.after operations).outcome .play = none
      · have hAfter : talk.after (operations ++ [operation]) =
            ((talk.after operations).perform operation).2 :=
          talk.after_append operations [operation]
        obtain ⟨more, hEvents, hFaithful, hFading⟩ :=
          h.fading.settles h.faithful h.idle hBefore (hAfter ▸ hPlay)
        rw [talk.history_append_singleton operations hEvents, hAfter]
        exact ⟨hFaithful, hFading⟩
      · obtain ⟨hFaithful, -, hFading⟩ := (Fading.invariant_skipped h.idle).effect
          ⟨h.faithful, hBefore, h.fading⟩ hEffect
        rw [hHistory]
        exact ⟨hFaithful, hFading⟩
    refine ⟨aired, h.idle, hNext.1, hNext.2, fun hNone => absurd hNone hPlay, fun i => ?_⟩
    rw [shownWhilePlaying_append_singleton, ← h.mem]
    exact ⟨.inl, fun hShown => hShown.resolve_right fun hNone => hPlay hNone.1⟩

/-- A talk that was not started is hushed, and one that was has aired what was shown while `play` was
pending. -/
theorem hushed_or_aired (hNew : talk.IsNew) (operations : List Operation) :
    Hushed (talk.history operations) (talk.after operations) ∨
      ∃ first aired, Aired talk operations first aired := by
  induction operations using List.reverseRecOn with
  | nil => exact .inl (.of_isNew hNew)
  | append_singleton operations operation ih =>
    rcases ih with hHushed | ⟨first, aired, hAired⟩
    · obtain ⟨raised, hEffect, hHistory⟩ := talk.effect_after operations operation
      have hNext := Hushed.invariant.effect (fun _ => hHushed) hEffect
      rw [← hHistory] at hNext
      rcases hHushed.unstarted.effect hEffect with hStill | ⟨rfl, hOpen, -⟩
      · exact .inl (hNext hStill.startTime)
      · exact .inr ⟨_, _, hHushed.aired_start hOpen⟩
    · obtain ⟨aired', hNext⟩ := hAired.perform operation
      exact .inr ⟨first, aired', hNext⟩

end Run

/-! ## Reveals and what goes with them -/

/-- How the fades and emotes of a talk go with its reveals. -/
structure Paired (talk : Talk) (operations : List Operation) : Prop where
  /-- An entry with its flag set is visible, and the end of its fade stands on the agenda. -/
  flagged : ∀ place e, (talk.after operations).scrap.entryAt? place = some e → e.fading = true →
    e.visible = true ∧ ∃ i, (talk.after operations).marks[i]? = some place ∧
      ∃ x ∈ (talk.after operations).agenda.pending, x.event = .fadeEnd i
  still : (talk.after operations).nextDue = none →
    ∀ e ∈ (talk.after operations).scrap.entries, e.fading = false
  fadedOnce : ∀ i, (talk.history operations).count (.faded i) ≤ 1
  fadedAfter : ∀ before i rest, talk.history operations = before ++ .faded i :: rest →
    ∃ glyph, .shown i glyph ∈ before
  /-- An open talk with nothing left to come has ended the fades of all that was aired. -/
  fadedAll : (talk.after operations).outcome .closing = none →
    (talk.after operations).nextDue = none →
    ∀ i, .faded i ∈ talk.history operations ↔ ShownWhilePlaying talk operations i
  emotes : ∀ i name, .emote i name ∈ talk.history operations ↔
    (((talk.after operations).marked? i).bind fun (_, e) => e.emote?) = some name ∧
      ShownWhilePlaying talk operations i
  emoteOnce : ∀ i name, (talk.history operations).count (.emote i name) ≤ 1
  emoteAfter : ∀ before i name rest, talk.history operations = before ++ .emote i name :: rest →
    ∃ earlier glyph, before = earlier ++ [.shown i glyph]
  /-- Where somebody is to perform before the first emote is reached, the calls are all emotes in their
  order, and they all go to the same one unless somebody else is named. -/
  calls : ∀ earlier performer later, operations = earlier ++ .performWith performer :: later →
    emoteNames (talk.history earlier) = [] →
      (talk.after operations).outbox.emotes.map Prod.snd = emoteNames (talk.history operations) ∧
      ((∀ other, .performWith other ∉ later) → (talk.after operations).outbox.emotes =
        (emoteNames (talk.history operations)).map (performer, ·))

section Paired

variable {talk first : Talk} {operations : List Operation} {aired : List Nat}

/-- Before the start there is nothing to be paired. -/
theorem Hushed.paired (h : Hushed (talk.history operations) (talk.after operations))
    (hNone : talk.outbox.emotes = []) : Paired talk operations := by
  -- whatever pairing asks for presupposes that an entry was shown
  have hUnaired : ∀ i, ¬ ShownWhilePlaying talk operations i := by
    intro i hShown
    obtain ⟨glyph, hMem⟩ := hShown.exists_shown
    cases h.silent _ hMem
  refine ⟨fun place e hAt hFading => ?_, fun _ e hMem => ?_, fun i => ?_, fun before i rest hSplit => ?_,
    fun _ _ i => ⟨fun hMem => ?_, fun hAired => absurd hAired (hUnaired i)⟩,
    fun i name => ⟨fun hMem => ?_, fun hAired => absurd hAired.2 (hUnaired i)⟩, fun i name => ?_,
    fun before i name rest hSplit => ?_, ?_⟩
  · rw [h.calm place e hAt] at hFading
    cases hFading
  · obtain ⟨place, hAt⟩ := Scrap.mem_entries_iff.mp hMem
    exact h.calm place e hAt
  · rw [count_faded, faded_eq_nil h.silent]
    exact Nat.zero_le _
  · cases h.silent _ (mem_of_split hSplit)
  · cases h.silent _ hMem
  · cases h.silent _ hMem
  · rw [count_emote, emote_eq_nil h.silent]
    exact Nat.zero_le _
  · cases h.silent _ (mem_of_split hSplit)
  · rintro earlier performer later rfl hSilent
    exact emotes_after hNone hSilent performer later

/-- No entry is aired twice. -/
theorem Aired.nodup (h : Aired talk operations first aired) : aired.Nodup := by
  obtain ⟨left, hOrder, -⟩ := h.faithful.progress.shown
  have hAll := nodup_order h.idle
  rw [← hOrder] at hAll
  exact h.fading.among.nodup hAll.of_append_left

/-- What was aired stands where it stood at the start, with its emote. -/
theorem Aired.voice?_eq (h : Aired talk operations first aired) {i : Nat} (hMem : i ∈ aired) :
    (((talk.after operations).marked? i).bind fun (_, e) => e.emote?) = first.voice? i := by
  obtain ⟨glyph, hShown⟩ := mem_shown_iff.mp (h.fading.among.subset hMem)
  obtain ⟨_, place, -, hPlace, -, hKept⟩ := h.faithful.exists_place hShown
  obtain ⟨e, hAt, -⟩ := Option.map_eq_some_iff.mp hKept
  have hMarked : (talk.after operations).marked? i = some (place, e) :=
    marked?_eq_some.mpr ⟨by rw [h.faithful.progress.marks, hPlace], hAt⟩
  rw [hMarked]
  exact h.faithful.emote?_of_marked hMarked

/-- The emotes in the history are those of what was aired. -/
theorem Fading.emote_mem_iff {talk : Talk} {raised : List Event}
    (h : Fading first aired raised talk) {i : Nat} {name : String} :
    .emote i name ∈ raised ↔ i ∈ aired ∧ first.voice? i = some name := by
  have hKind : .emote i name ∈ raised ↔ (i, name) ∈ raised.filterMap Event.emote? := by
    rw [← List.count_pos_iff, count_emote, List.count_pos_iff]
  rw [hKind, h.emotes, List.mem_filterMap]
  constructor
  · rintro ⟨j, hMem, hVoice⟩
    obtain ⟨voice, hName, hEq⟩ := Option.map_eq_some_iff.mp hVoice
    cases hEq
    exact ⟨hMem, hName⟩
  · rintro ⟨hMem, hName⟩
    exact ⟨i, hMem, by rw [hName]; rfl⟩

/-- After the start, all of it is told by what was aired. -/
theorem Aired.paired (h : Aired talk operations first aired) (hNone : talk.outbox.emotes = []) :
    Paired talk operations := by
  -- no entry is aired twice
  have hOnce := List.nodup_iff_count_le_one.mp h.nodup
  have hDone : (talk.after operations).nextDue = none → (talk.after operations).fadesLeft = [] := by
    intro hDue
    rw [fadesLeft, Agenda.nextDue_eq_none.mp hDue]
    rfl
  refine ⟨fun place e hAt hFading => ?_, fun hDue e hMem => ?_, fun i => ?_,
    fun before i rest hSplit => ?_, fun hOpen hDue i => ?_, fun i name => ?_, fun i name => ?_,
    fun before i name rest hSplit => h.fading.emoteAfter before i name rest hSplit, ?_⟩
  · obtain ⟨hVisible, i, hMem, hMark⟩ := h.fading.flagged place e hAt hFading
    exact ⟨hVisible, i, hMark, exists_of_mem_fadesLeft hMem⟩
  · obtain ⟨place, hAt⟩ := Scrap.mem_entries_iff.mp hMem
    refine Bool.eq_false_iff.mpr fun hFading => ?_
    obtain ⟨-, i, hLeft, -⟩ := h.fading.flagged place e hAt hFading
    rw [hDone hDue] at hLeft
    cases hLeft
  · have hFades := h.fading.fades i
    have hAired := hOnce i
    rw [count_faded]
    omega
  · exact mem_shown_iff.mp (h.fading.fadedAfter before i rest hSplit)
  · have hFades := h.fading.allFade hOpen i
    rw [hDone hDue, List.count_nil, Nat.add_zero] at hFades
    rw [← List.count_pos_iff, count_faded, hFades, List.count_pos_iff, h.mem]
  · rw [h.fading.emote_mem_iff, ← h.mem]
    constructor
    · rintro ⟨hMem, hName⟩
      exact ⟨by rw [h.voice?_eq hMem, hName], hMem⟩
    · rintro ⟨hName, hMem⟩
      exact ⟨hMem, by rw [← h.voice?_eq hMem, hName]⟩
  · rw [count_emote, h.fading.emotes]
    -- different entries have different emotes, since their numbers differ
    refine List.nodup_iff_count_le_one.mp (h.nodup.filterMap fun j k pair hj hk => ?_) _
    obtain ⟨_, -, rfl⟩ := Option.map_eq_some_iff.mp hj
    obtain ⟨_, -, hEq⟩ := Option.map_eq_some_iff.mp hk
    cases hEq
    rfl
  · rintro earlier performer later rfl hSilent
    exact emotes_after hNone hSilent performer later

end Paired

/-- Whatever is done to a talk, its fades and emotes go with its reveals. -/
theorem animations_paired (registry : Registry) {options : Options} (hValid : options.Valid) :
    ∃ talk, Talk.create registry options = .ok talk ∧ ∀ operations, Paired talk operations := by
  obtain ⟨talk, hCreate, -, hNew⟩ := exists_create registry hValid
  have hNone : talk.outbox.emotes = [] := by
    unfold Talk.create Talk.enroll at hCreate
    rw [Options.validate_eq_ok_iff.mpr hValid] at hCreate
    cases hCreate
    rfl
  refine ⟨talk, hCreate, fun operations => ?_⟩
  -- either nothing was shown yet, or the aired entries are all accounted for
  rcases hushed_or_aired hNew operations with hHushed | ⟨first, aired, hAired⟩
  · exact hHushed.paired hNone
  · exact hAired.paired hNone

/-- A wave and a word that is skipped while the wave fades in. -/
def hailing : List Operation :=
  [.performWith "Ann", .direct (.emote "wave"), .direct (.speak "Hi"), .wrapUp, .start,
    .advanceTo 5, .skip, .playOut]

/-- A wave that is aired, and text that is skipped behind it. -/
theorem animations_paired_hailing :
    Options.standard.Valid ∧ ∃ talk, Talk.create .empty .standard = .ok talk ∧
      Paired talk hailing ∧
      talk.history hailing =
        [.shown 0 none, .emote 0 "wave", .shown 1 (some 'H'), .shown 2 (some 'i'), .shown 3 none,
          .shown 4 none, .played .resolved, .faded 0] ∧
      ShownWhilePlaying talk hailing 0 ∧ ¬ ShownWhilePlaying talk hailing 1 ∧
      (talk.after hailing).outbox.emotes = [("Ann", "wave")] := by
  obtain ⟨talk, hCreate, hPaired⟩ :=
    animations_paired .empty (show Options.standard.Valid by decide)
  have hHistory : talk.history hailing =
      [.shown 0 none, .emote 0 "wave", .shown 1 (some 'H'), .shown 2 (some 'i'), .shown 3 none,
        .shown 4 none, .played .resolved, .faded 0] := by
    cases hCreate
    decide +kernel
  have hOpen : (talk.after hailing).outcome .closing = none := by
    cases hCreate
    decide +kernel
  have hDone : (talk.after hailing).nextDue = none := by
    cases hCreate
    decide +kernel
  have hFaded := (hPaired hailing).fadedAll hOpen hDone
  have hSilent : emoteNames (talk.history []) = [] := by
    cases hCreate
    decide
  have hCalls := ((hPaired hailing).calls [] "Ann" _ rfl hSilent).2 (by simp)
  rw [hHistory] at hFaded hCalls
  exact ⟨by decide, talk, hCreate, hPaired hailing, hHistory, (hFaded 0).mp (by simp),
    fun hAired => absurd ((hFaded 1).mpr hAired) (by simp), hCalls⟩

end Dialogue.Talk
