import Dialogue.Proofs.Talk.Lifecycle
import Dialogue.Proofs.Talk.Schedule

/-!
# Progress of a text

From the moment a talk starts, the entries shown so far and the entries still to be revealed make up the
order in which all entries were put on the agenda, whatever else is done to the talk, and `played`
resolves with the entry that is last in the document. So the entries shown by then are those that are
due no later than that one, and these are all entries exactly if the last one is also due last.

Main results:

* `Talk.Progress.invariant` — what every operation keeps once the talk was started.
* `Talk.Unstarted.effect` — what every operation keeps until then.
* `Talk.shown_before_played` — which entries are shown before `played` resolves.
-/

namespace Dialogue

/-- The number of the entry in a `shown` event. -/
def Event.shown? : Event → Option Nat
  | shown entry _ => some entry
  | emote .. | faded _ | played _ | sectionClosing _ | sectionClosed _ | closed => none

namespace Talk

/-! ## What is left to reveal -/

/-- A reveal that is taken is one of those that were left. -/
theorem Taken.revealsLeft {agenda rest : Agenda Cue} {cue : Cue} (hTaken : Taken agenda cue rest) :
    agenda.pending.filterMap (fun x => x.event.revealed?) =
      cue.revealed?.toList ++ rest.pending.filterMap fun x => x.event.revealed? := by
  obtain ⟨before, due, after, hPending, hRest, hBefore⟩ := hTaken.split
  -- what stands before the cue are no reveals
  have hNone : before.filterMap (fun x => x.event.revealed?) = [] := by
    refine List.filterMap_eq_nil_iff.mpr ?_
    intro x hMem
    have hReveal := hBefore x hMem
    cases hEvent : x.event with
    | reveal entry last => rw [hEvent] at hReveal; cases hReveal
    | fadeEnd entry => rfl
    | closeEnd number => rfl
  rw [hPending, hRest, List.filterMap_append, List.filterMap_append, hNone]
  cases cue <;> rfl

/-- An appointment that says nothing can be put in anywhere. -/
theorem filterMap_insertLast_of_none {β : Type} {f : Appointment Cue → Option β}
    {x : Appointment Cue} (hNone : f x = none) (pending : List (Appointment Cue)) :
    (Agenda.insertLast x pending).filterMap f = pending.filterMap f := by
  induction pending with
  | nil => simp [Agenda.insertLast, hNone]
  | cons y rest ih =>
    unfold Agenda.insertLast
    split
    · rw [List.filterMap_cons, List.filterMap_cons, ih]
    · rw [List.filterMap_cons_none hNone]

/-- A cue that fires puts no reveal on the agenda. -/
theorem revealsLeft_fire (talk : Talk) (cue : Cue) :
    (talk.fire cue).revealsLeft = talk.revealsLeft := by
  cases cue with
  | reveal entry last =>
    obtain ⟨outbox, hReveal⟩ := talk.reveal_eq entry last
    -- a reveal schedules the end of a fading at most
    rw [fire, hReveal]
    unfold revealsLeft
    simp only
    split
    · exact filterMap_insertLast_of_none rfl _
    · rfl
  | fadeEnd entry =>
    rw [fire, revealsLeft, agenda_endFade]
    rfl
  | closeEnd number =>
    rw [fire, revealsLeft, agenda_endClosing]
    rfl

/-! ## What the events show -/

/-- What is played shows no entry. -/
theorem shown_playedEvents (talk : Talk) (outcome : Outcome) :
    (talk.playedEvents outcome).filterMap Event.shown? = [] := by
  refine List.filterMap_eq_nil_iff.mpr ?_
  intro event hMem
  rw [mem_playedEvents hMem]
  rfl

/-- An emote shows no entry. -/
theorem shown_emoteEvents (talk : Talk) (entry : Nat) :
    (talk.emoteEvents entry).filterMap Event.shown? = [] := by
  refine List.filterMap_eq_nil_iff.mpr ?_
  intro event hMem
  obtain ⟨name, rfl⟩ := mem_emoteEvents hMem
  rfl

/-- A reveal shows its entry, and no other. -/
theorem shown_revealEvents (talk : Talk) (entry : Nat) (last : Bool) :
    (talk.revealEvents entry last).filterMap Event.shown? =
      (talk.shownEvents entry).filterMap Event.shown? := by
  rw [revealEvents, List.filterMap_append, List.filterMap_append]
  cases talk.animates <;> cases last <;>
    simp [shown_playedEvents, shown_emoteEvents]

/-- Which entries events show. -/
theorem mem_shown_iff {events : List Event} {i : Nat} :
    i ∈ events.filterMap Event.shown? ↔ ∃ glyph, .shown i glyph ∈ events := by
  rw [List.mem_filterMap]
  constructor
  · rintro ⟨event, hMem, hEvent⟩
    cases event with
    | shown entry glyph =>
      cases hEvent
      exact ⟨glyph, hMem⟩
    | _ => cases hEvent
  · rintro ⟨glyph, hMem⟩
    exact ⟨_, hMem, rfl⟩

/-- What only events of showing tell is not told by others. -/
theorem filterMap_eq_nil_of_not_showing {α : Type} {f : Event → Option α}
    (hNone : ∀ event, event.isShowing = false → f event = none) {events : List Event}
    (h : ∀ event ∈ events, event.isShowing = false) : events.filterMap f = [] :=
  List.filterMap_eq_nil_iff.mpr fun event hMem => hNone event (h event hMem)

/-- Events without showing show nothing. -/
theorem shown_eq_nil {events : List Event} (h : ∀ event ∈ events, event.isShowing = false) :
    events.filterMap Event.shown? = [] :=
  filterMap_eq_nil_of_not_showing
    (fun event hShowing => by cases event <;> first | rfl | cases hShowing) h

/-- Only the reveal of the last entry says that the talk was played. -/
theorem last_of_played_mem {talk : Talk} {i : Nat} {last : Bool} {outcome : Outcome}
    (hMem : .played outcome ∈ talk.revealEvents i last) : last = true := by
  have hPlayed : outcome ∈ (talk.revealEvents i last).filterMap Event.played? :=
    List.mem_filterMap.mpr ⟨_, hMem, rfl⟩
  rw [played_revealEvents] at hPlayed
  cases last with
  | false => cases hPlayed
  | true => rfl

/-- A reveal that resolves `played` has shown its entry before. -/
theorem shown_of_revealEvents_eq {talk : Talk} {i : Nat} {last : Bool} {glyph : Option Char}
    {outcome : Outcome} {before after : List Event}
    (hShows : talk.shownEvents i = [.shown i glyph])
    (hEvents : talk.revealEvents i last = before ++ .played outcome :: after) :
    before.filterMap Event.shown? = [i] := by
  have hShown : (talk.revealEvents i last).filterMap Event.shown? = [i] := by
    rw [shown_revealEvents, hShows]
    rfl
  rw [revealEvents, hShows] at hEvents
  rw [revealEvents, hShows, hEvents] at hShown
  cases before with
  | nil => cases hEvents
  | cons event middle =>
    rw [List.singleton_append, List.cons_append, List.cons.injEq] at hEvents
    obtain ⟨rfl, -⟩ := hEvents
    -- nothing else is shown, neither before the signal nor after it
    simp only [List.cons_append, List.filterMap_cons, List.filterMap_append, Event.shown?,
      List.cons.injEq, List.append_eq_nil_iff, true_and] at hShown ⊢
    exact hShown.1

/-! ## From the start on -/

/-- How a talk stands that was started when it stood like `first`: what was shown and what is left to
reveal is the order of all entries, and `played` resolves with the last entry of the document. -/
structure Progress (first : Talk) (raised : List Event) (talk : Talk) : Prop where
  inStep : InStep raised talk
  startTime : talk.startTime ≠ none
  marks : talk.marks = first.scrap.places
  placed : ∀ place ∈ first.scrap.places, (talk.scrap.entryAt? place).isSome
  shown : ∃ left, raised.filterMap Event.shown? ++ left = first.order ∧
    (talk.outcome .closing = none → talk.revealsLeft = left)
  last : ∀ x ∈ talk.agenda.pending, ∀ i last, x.event = .reveal i last →
    last = decide (i + 1 = first.scrap.entries.length)
  played : ∀ before after, raised = before ++ .played .resolved :: after →
    ∀ i, i + 1 = first.scrap.entries.length → ∃ shown, before.filterMap Event.shown? = shown ++ [i]

namespace Progress

variable {first talk later : Talk} {raised more : List Event}

/-- Events that show nothing and do not resolve `played` change nothing. -/
theorem append (h : Progress first raised talk) (hInStep : InStep (raised ++ more) later)
    (hStart : later.startTime = talk.startTime) (hMarks : later.marks = talk.marks)
    (hPlaced : ∀ {place}, (talk.scrap.entryAt? place).isSome → (later.scrap.entryAt? place).isSome)
    (hShown : more.filterMap Event.shown? = []) (hPlayed : .played .resolved ∉ more)
    (hLeft : later.outcome .closing = none →
      talk.outcome .closing = none ∧ later.revealsLeft = talk.revealsLeft)
    (hReveals : ∀ x ∈ later.agenda.pending, x.event.isReveal → x ∈ talk.agenda.pending) :
    Progress first (raised ++ more) later where
  inStep := hInStep
  startTime := by rw [hStart]; exact h.startTime
  marks := by rw [hMarks, h.marks]
  placed place hMem := hPlaced (h.placed place hMem)
  shown := by
    obtain ⟨left, hOrder, hOpen⟩ := h.shown
    refine ⟨left, ?_, fun hClosing => ?_⟩
    · rw [List.filterMap_append, hShown, List.append_nil, hOrder]
    · obtain ⟨hStill, hSame⟩ := hLeft hClosing
      rw [hSame, hOpen hStill]
  last x hMem i last hEvent := by
    have hReveal : x.event.isReveal = true := by rw [hEvent]; rfl
    exact h.last x (hReveals x hMem hReveal) i last hEvent
  played before after hSplit := by
    -- a `played` event of the new ones would have to be among them
    rcases split_append_cases hSplit with ⟨rest, hRaised, -⟩ | ⟨middle, -, hMore⟩
    · exact h.played before rest hRaised
    · exact absurd (mem_of_split hMore) hPlayed

/-- Progress is about the outcomes, the agenda and the places of a talk. -/
theorem congr (h : Progress first raised talk) (hInStep : InStep raised later)
    (hStart : later.startTime = talk.startTime) (hMarks : later.marks = talk.marks)
    (hPlaced : ∀ {place}, (talk.scrap.entryAt? place).isSome → (later.scrap.entryAt? place).isSome)
    (hClosing : later.outcome .closing = talk.outcome .closing)
    (hPending : later.agenda.pending = talk.agenda.pending) : Progress first raised later where
  inStep := hInStep
  startTime := by rw [hStart]; exact h.startTime
  marks := by rw [hMarks, h.marks]
  placed place hMem := hPlaced (h.placed place hMem)
  shown := by
    rw [hClosing, revealsLeft, hPending]
    exact h.shown
  last := by rw [hPending]; exact h.last
  played := h.played

/-- Only entries that are left are revealed, and the talk is open then. -/
theorem isOpen_of_taken (h : Progress first raised talk) {cue : Cue} {rest : Agenda Cue}
    (hTaken : Taken talk.agenda cue rest) (hPlayback : cue.isPlayback = true) : Open talk := by
  rcases h.inStep.state with hState | hState
  · exact hState
  · obtain ⟨number, rfl⟩ := hState.cue hTaken
    cases hPlayback

/-- The entry of a reveal is still where it was when the talk started, so that it is shown. -/
theorem shownEvents_of_taken (h : Progress first raised talk) (hIdle : first.agenda.pending = [])
    {i : Nat} {last : Bool} {rest : Agenda Cue}
    (hTaken : Taken talk.agenda (.reveal i last) rest) :
    ∃ glyph, talk.shownEvents i = [.shown i glyph] := by
  have hOpen := h.isOpen_of_taken hTaken rfl
  obtain ⟨left, hOrder, hLeft⟩ := h.shown
  have hTalkLeft : talk.revealsLeft = i :: rest.pending.filterMap fun x => x.event.revealed? :=
    hTaken.revealsLeft
  rw [← hLeft hOpen.closing, hTalkLeft] at hOrder
  have hLt : i < first.scrap.entries.length := by
    rw [← mem_order hIdle, ← hOrder]
    simp
  obtain ⟨place, hPlace⟩ : ∃ place, first.scrap.places[i]? = some place :=
    ⟨_, List.getElem?_eq_getElem (by rwa [first.scrap.length_places])⟩
  obtain ⟨e, hEntry⟩ := Option.isSome_iff_exists.mp (h.placed place (List.mem_of_getElem? hPlace))
  -- the entry still stands where it stood at the start
  have hMarked : talk.marked? i = some (place, e) :=
    marked?_eq_some.mpr ⟨by rw [h.marks, hPlace], hEntry⟩
  refine ⟨e.glyph?, ?_⟩
  rw [shownEvents, hMarked]
  rfl

/-- A reveal that fires takes its entry from what is left to what was shown. -/
theorem reveal (h : Progress first raised talk) (hIdle : first.agenda.pending = []) {i : Nat}
    {last : Bool} {rest : Agenda Cue} (hTaken : Taken talk.agenda (.reveal i last) rest) :
    Progress first (raised ++ talk.firedEvents (.reveal i last))
      ({ talk with agenda := rest }.fire (.reveal i last)) := by
  have hMove : Move talk _ _ := .fire hTaken
  have hOpen := h.isOpen_of_taken hTaken rfl
  obtain ⟨left, hOrder, hLeft⟩ := h.shown
  have hTalkLeft : talk.revealsLeft = i :: rest.pending.filterMap fun x => x.event.revealed? :=
    hTaken.revealsLeft
  rw [← hLeft hOpen.closing, hTalkLeft] at hOrder
  obtain ⟨glyph, hShows⟩ := h.shownEvents_of_taken hIdle hTaken
  have hFired : (talk.firedEvents (.reveal i last)).filterMap Event.shown? = [i] := by
    rw [firedEvents, shown_revealEvents, hShows]
    rfl
  refine ⟨invariant_inStep.move h.inStep hMove, ?_, ?_, ?_, ?_, ?_, ?_⟩
  · rw [startTime_fire]
    exact h.startTime
  · rw [marks_fire]
    exact h.marks
  · exact fun place hMem => hMove.isSome_entryAt? (h.placed place hMem)
  · -- the entry has gone from those that are left to those that were shown
    refine ⟨rest.pending.filterMap fun x => x.event.revealed?, ?_, fun _ => ?_⟩
    · rw [List.filterMap_append, hFired, List.append_assoc]
      exact hOrder
    · rw [revealsLeft_fire]
      rfl
  · intro x hMem j l hEvent
    rcases mem_pending_fire hTaken hMem with hOld | ⟨entry, hFade⟩
    · exact h.last x hOld j l hEvent
    · rw [hEvent] at hFade
      cases hFade
  -- a `played` event that was there before keeps its place; a new one comes from this reveal
  · intro before after hSplit j hLast
    rcases split_append_cases hSplit with ⟨more, hRaised, -⟩ | ⟨middle, hBefore, hMore⟩
    · exact h.played before more hRaised j hLast
    · -- the signal resolves with this entry, so it is the last one
      have hIsLast : last = true := by
        exact last_of_played_mem (mem_of_split (show talk.revealEvents i last = _ from hMore))
      obtain ⟨due, hMem⟩ := hTaken.mem
      have hLastEntry : i + 1 = first.scrap.entries.length := by
        simpa [hIsLast] using h.last _ hMem i last rfl
      have hj : j = i := by omega
      refine ⟨raised.filterMap Event.shown?, ?_⟩
      rw [hBefore, List.filterMap_append, shown_of_revealEvents_eq hShows hMore, hj]

/-- Every move of the talk is progress. -/
theorem move (h : Progress first raised talk) (hIdle : first.agenda.pending = [])
    (hMove : Move talk more later) : Progress first (raised ++ more) later := by
  have hInStep := invariant_inStep.move h.inStep hMove
  have hPlaced : ∀ {place}, (talk.scrap.entryAt? place).isSome →
      (later.scrap.entryAt? place).isSome := hMove.isSome_entryAt?
  cases hMove with
  | quiet hAlike =>
    rw [List.append_nil] at hInStep ⊢
    exact h.congr hInStep hAlike.startTime hAlike.marks hPlaced (hAlike.outcome _)
      hAlike.pending
  | skip hPlaying =>
    rw [List.append_nil] at hInStep ⊢
    refine h.congr hInStep rfl rfl hPlaced ?_ rfl
    rw [outcome_settle]
    rfl
  | fire hTaken =>
    rename_i cue rest
    -- cues other than reveals leave the order of what is to come as it is
    have hLeft : cue.revealed? = none →
        ({ talk with agenda := rest }.fire cue).revealsLeft = talk.revealsLeft := by
      intro hNone
      have hAll := hTaken.revealsLeft
      rw [hNone] at hAll
      rw [revealsLeft_fire]
      exact hAll.symm
    -- and no cue puts a reveal on the agenda
    have hReveals : ∀ x ∈ ({ talk with agenda := rest }.fire cue).agenda.pending,
        x.event.isReveal → x ∈ talk.agenda.pending := by
      intro x hMem hReveal
      rcases mem_pending_fire hTaken hMem with hOld | ⟨entry, hFade⟩
      · exact hOld
      · rw [hFade] at hReveal
        cases hReveal
    cases cue with
    | reveal i last => exact h.reveal hIdle hTaken
    | fadeEnd entry =>
      refine h.append hInStep (startTime_fire _ _) (marks_fire _ _) hPlaced rfl
        (by simp [firedEvents]) (fun hClosing => ⟨?_, hLeft rfl⟩) hReveals
      rwa [outcome_fire] at hClosing
    | closeEnd number =>
      refine h.append hInStep (startTime_fire _ _) (marks_fire _ _) hPlaced
        (shown_eq_nil fun event hMem => ?_) (fun hMem => ?_) (fun hClosing => ⟨?_, hLeft rfl⟩)
        hReveals
      · -- the end of a section shows nothing
        rcases mem_firedEvents_closeEnd hMem with rfl | rfl <;> rfl
      · rcases mem_firedEvents_closeEnd hMem with hEq | hEq <;> cases hEq
      · simpa [outcome_fire] using hClosing

/-- To begin to close shows nothing, and leaves nothing to be shown. -/
theorem beginClosing (h : Progress first raised talk) (hOpen : talk.outcome .closing = none)
    (outcome : Outcome) :
    Progress first (raised ++ talk.closingEvents) (talk.beginClosing outcome).2 := by
  have hInStep := invariant_inStep.closed outcome h.inStep hOpen
  have hClosing : (talk.beginClosing outcome).2.outcome .closing ≠ none := by
    rw [outcome_beginClosing hOpen]
    simp
  -- after closing the talk is ending, so that no reveal is left
  have hEnding := hInStep.isEnding hClosing
  have hRequest : Operation.requestsClose .close = true := rfl
  have hShowing := h.inStep.not_showing (.closed hRequest outcome hOpen) hClosing
  obtain ⟨registry, areas, outbox, hEq⟩ := beginClosing_eq hOpen outcome
  refine h.append hInStep (by rw [hEq]) (by rw [hEq]) (fun hSome => ?_)
    (shown_eq_nil hShowing) (fun hMem => ?_) (fun hNone => absurd hNone hClosing)
    fun x hMem hReveal => ?_
  · rw [hEq, Scrap.entryAt?_map, Option.isSome_map]
    exact hSome
  · rcases mem_closingEvents hMem with hEq | ⟨number, hEq⟩ | hEq <;> cases hEq
  · -- only the ends of closing animations are left
    have hPlayback := hEnding.playback x hMem
    rw [isPlayback_of_isReveal hReveal] at hPlayback
    cases hPlayback

/-- A text without entries is complete at once. -/
theorem complete (h : Progress first raised talk) (hOpen : talk.outcome .closing = none)
    (hEmpty : talk.scrap.entries = []) :
    Progress first (raised ++ talk.playedEvents .resolved) (talk.markPlayed .resolved) := by
  -- no entry stood there at the start either, since none gets lost
  have hNone : first.scrap.entries.length = 0 := by
    rw [← first.scrap.length_places, List.length_eq_zero_iff, List.eq_nil_iff_forall_not_mem]
    intro place hMem
    obtain ⟨e, hEntry⟩ := Option.isSome_iff_exists.mp (h.placed place hMem)
    have hListed := Scrap.mem_entries_iff.mpr ⟨place, hEntry⟩
    rw [hEmpty] at hListed
    cases hListed
  have hInStep := invariant_inStep.complete h.inStep hOpen hEmpty h.startTime
  obtain ⟨left, hOrder, hLeft⟩ := h.shown
  obtain ⟨outbox, hPlayed⟩ := talk.markPlayed_eq .resolved
  refine ⟨hInStep, ?_, ?_, ?_, ?_, ?_, ?_⟩
  · rw [hPlayed]
    exact h.startTime
  · rw [hPlayed]
    exact h.marks
  · rw [hPlayed]
    exact h.placed
  · refine ⟨left, ?_, fun _ => ?_⟩
    · -- nothing is shown by it
      rw [List.filterMap_append, shown_playedEvents, List.append_nil, hOrder]
    · rw [revealsLeft, agenda_markPlayed]
      exact hLeft hOpen
  · rw [agenda_markPlayed]
    exact h.last
  · intro before after _ i hLast
    omega

/-- From the start on, every operation keeps what was shown and what is left in order. -/
theorem invariant (hIdle : first.agenda.pending = []) : Invariant (Progress first) where
  move h hMove := h.move hIdle hMove
  plan start h _ hFresh := absurd hFresh h.startTime
  complete h hOpen hEmpty _ := h.complete hOpen hEmpty
  written h hWritten := by
    refine h.congr (invariant_inStep.written h.inStep hWritten) hWritten.startTime hWritten.marks
      hWritten.isSome_entryAt? ?_ (by rw [hWritten.agenda])
    rw [outcome_eq, hWritten.lifecycle]
    rfl
  paced h hPaced := by
    have hInStep := invariant_inStep.paced h.inStep hPaced
    have hPlaced := fun {place} => @Paced.isSome_entryAt? _ _ _ hPaced place
    have hRest := hPaced.rest
    exact h.congr hInStep (by rw [hRest]) (by rw [hRest]) hPlaced (by rw [hRest]; rfl) (by rw [hRest])
  closed outcome h hOpen := h.beginClosing hOpen outcome

end Progress

/-! ## Until the start -/

/-- How a talk stands that was not started: nothing was shown, nothing was resolved, and as long as it
is open nothing is to come. -/
structure Unstarted (raised : List Event) (talk : Talk) : Prop where
  inStep : InStep raised talk
  startTime : talk.startTime = none
  idle : talk.outcome .closing = none → talk.agenda.pending = []
  shown : raised.filterMap Event.shown? = []
  played : .played .resolved ∉ raised

namespace Unstarted

variable {talk later : Talk} {raised more : List Event}

/-- More can happen before the start, if nothing is planned and nothing is shown. -/
theorem append (h : Unstarted raised talk) (hInStep : InStep (raised ++ more) later)
    (hStart : later.startTime = talk.startTime)
    (hIdle : later.outcome .closing = none → later.agenda.pending = [])
    (hShown : more.filterMap Event.shown? = []) (hPlayed : .played .resolved ∉ more) :
    Unstarted (raised ++ more) later where
  inStep := hInStep
  startTime := by rw [hStart, h.startTime]
  idle := hIdle
  shown := by rw [List.filterMap_append, h.shown, hShown, List.append_nil]
  played := by
    rw [List.mem_append, not_or]
    exact ⟨h.played, hPlayed⟩

/-- That a talk has not started is seen in its outcomes, its agenda and its start time. -/
theorem congr (h : Unstarted raised talk) (hInStep : InStep raised later)
    (hStart : later.startTime = talk.startTime)
    (hClosing : later.outcome .closing = talk.outcome .closing)
    (hPending : later.agenda.pending = talk.agenda.pending) : Unstarted raised later where
  inStep := hInStep
  startTime := by rw [hStart, h.startTime]
  idle := by rw [hClosing, hPending]; exact h.idle
  shown := h.shown
  played := h.played

/-- No move starts a talk. -/
theorem move (h : Unstarted raised talk) (hMove : Move talk more later) :
    Unstarted (raised ++ more) later := by
  have hInStep := invariant_inStep.move h.inStep hMove
  cases hMove with
  | quiet hAlike =>
    rw [List.append_nil] at hInStep ⊢
    exact h.congr hInStep hAlike.startTime (hAlike.outcome _) hAlike.pending
  | skip hPlaying =>
    rw [List.append_nil] at hInStep ⊢
    refine h.congr hInStep rfl ?_ rfl
    rw [outcome_settle]
    rfl
  | fire hTaken =>
    -- only a talk that is closing has something to do
    obtain ⟨due, hMem⟩ := hTaken.mem
    have hClosing : talk.outcome .closing ≠ none := by
      intro hNone
      rw [h.idle hNone] at hMem
      cases hMem
    have hEnding := h.inStep.isEnding hClosing
    obtain ⟨number, rfl⟩ := hEnding.cue hTaken
    refine h.append hInStep (startTime_fire _ _) (fun hNone => ?_)
      (shown_eq_nil (hEnding.not_showing (.fire hTaken))) fun hMem => ?_
    · rw [outcome_fire] at hNone
      exact absurd (by simpa using hNone) hClosing
    · rcases mem_firedEvents_closeEnd hMem with hEq | hEq <;> cases hEq

/-- Writing does not start a talk. -/
theorem written (h : Unstarted raised talk) (hWritten : Written talk later) :
    Unstarted raised later := by
  refine h.congr (invariant_inStep.written h.inStep hWritten) hWritten.startTime ?_
    (by rw [hWritten.agenda])
  rw [outcome_eq, hWritten.lifecycle]
  rfl

/-- Pacing does not start a talk. -/
theorem paced (h : Unstarted raised talk) {scope : PaceScope} (hPaced : Paced talk scope later) :
    Unstarted raised later := by
  have hInStep := invariant_inStep.paced h.inStep hPaced
  have hRest := hPaced.rest
  exact h.congr hInStep (by rw [hRest]) (by rw [hRest]; rfl) (by rw [hRest])

/-- To begin to close does not start a talk. -/
theorem beginClosing (h : Unstarted raised talk) (hOpen : talk.outcome .closing = none)
    (outcome : Outcome) : Unstarted (raised ++ talk.closingEvents) (talk.beginClosing outcome).2 := by
  have hInStep := invariant_inStep.closed outcome h.inStep hOpen
  have hClosing : (talk.beginClosing outcome).2.outcome .closing ≠ none := by
    rw [outcome_beginClosing hOpen]
    simp
  have hRequest : Operation.requestsClose .close = true := rfl
  -- closing raises nothing that shows the text
  have hShowing := h.inStep.not_showing (.closed hRequest outcome hOpen) hClosing
  obtain ⟨registry, areas, outbox, hEq⟩ := beginClosing_eq hOpen outcome
  refine h.append hInStep (by rw [hEq]) (fun hNone => absurd hNone hClosing)
    (shown_eq_nil hShowing) fun hMem => ?_
  rcases mem_closingEvents hMem with hEq | ⟨number, hEq⟩ | hEq <;> cases hEq

/-- The start puts all entries on the agenda. -/
theorem plan (h : Unstarted raised talk) (hOpen : talk.outcome .closing = none) :
    Progress talk raised (talk.plan talk.startsAt) where
  inStep := invariant_inStep.plan _ h.inStep hOpen h.startTime
  startTime := Option.some_ne_none _
  marks := rfl
  placed place hMem := by
    obtain ⟨e, hEntry⟩ := Scrap.mem_places_iff.mp hMem
    exact Option.isSome_iff_exists.mpr ⟨e, hEntry⟩
  shown := ⟨talk.order, by rw [h.shown, List.nil_append], fun _ => rfl⟩
  last x hMem i last hEvent := by
    -- the planned reveals are all there is on the agenda
    obtain ⟨j, -, -, hReveal⟩ := (mem_pending_plan_iff (h.idle hOpen)).mp hMem
    rw [hEvent] at hReveal
    cases hReveal
    rfl
  played before after hSplit := absurd (mem_of_split hSplit) h.played

/-- An operation leaves a talk unstarted, or starts it. -/
theorem effect (h : Unstarted raised talk) {operation : Operation}
    (hEffect : Effect talk operation more later) :
    Unstarted (raised ++ more) later ∨
      operation = .start ∧ talk.outcome .closing = none ∧ Progress talk (raised ++ more) later := by
  -- only starting makes a difference: what is planned then is the whole order, and moves may follow
  cases hEffect with
  | plays _ hPlays => exact .inl (hPlays.keeps (fun h hMove => Unstarted.move h hMove) h)
  | started hOpen _ _ hPlays =>
    exact .inr ⟨rfl, hOpen,
      hPlays.keeps (Progress.invariant (h.idle hOpen)).move (h.plan hOpen)⟩
  | completed hOpen _ hEmpty => exact .inr ⟨rfl, hOpen, (h.plan hOpen).complete hOpen hEmpty⟩
  | written _ hWritten =>
    rw [List.append_nil]
    exact .inl (h.written hWritten)
  | paced hPaced =>
    rw [List.append_nil]
    exact .inl (h.paced hPaced)
  | wrapped hWritten hPaced =>
    rw [List.append_nil]
    exact .inl ((h.written hWritten).paced hPaced)
  | closed _ outcome hOpen => exact .inl (h.beginClosing hOpen outcome)

end Unstarted

/-- A new talk has not started. -/
theorem unstarted_of_isNew {talk : Talk} (hNew : talk.IsNew) : Unstarted talk.events talk where
  inStep := inStep_of_isNew hNew
  startTime := hNew.startTime
  idle _ := hNew.pending
  shown := by rw [hNew.events]; rfl
  played := by rw [hNew.events]; exact List.not_mem_nil

/-! ## What is shown before `played` resolves -/

/-- A talk is unstarted, or one of the operations started it. -/
theorem unstarted_or_progress {talk : Talk} (hNew : talk.IsNew) (operations : List Operation) :
    Unstarted (talk.history operations) (talk.after operations) ∨
      ∃ earlier later, operations = earlier ++ .start :: later ∧
        (talk.after earlier).outcome .closing = none ∧ (talk.after earlier).startTime = none ∧
        (talk.after earlier).agenda.pending = [] ∧
        Progress (talk.after earlier) (talk.history operations) (talk.after operations) := by
  -- by the operations, each with its effect; once started, the invariant of progress carries on
  induction operations using List.reverseRecOn with
  | nil => exact .inl (unstarted_of_isNew hNew)
  | append_singleton operations operation ih =>
    obtain ⟨raised, hEffect, hHistory⟩ := talk.effect_after operations operation
    rw [hHistory]
    rcases ih with hUnstarted | ⟨earlier, later, rfl, hOpen, hFresh, hIdle, hProgress⟩
    · rcases hUnstarted.effect hEffect with hStill | ⟨rfl, hOpen, hProgress⟩
      · exact .inl hStill
      · exact .inr ⟨operations, [], rfl, hOpen, hUnstarted.startTime, hUnstarted.idle hOpen,
          hProgress⟩
    · exact .inr ⟨earlier, later ++ [operation], by simp, hOpen, hFresh, hIdle,
        (Progress.invariant hIdle).effect hProgress hEffect⟩

/-- Up to an entry, the order has exactly the entries that are due before it, or with it and earlier in
the document. -/
theorem mem_of_order_eq {talk : Talk} (hIdle : talk.agenda.pending = []) {shown rest : List Nat}
    {last : Nat} (hOrder : talk.order = shown ++ last :: rest)
    (hLast : last + 1 = talk.scrap.entries.length) {i : Nat}
    (hi : i < talk.scrap.entries.length) :
    i ∈ shown ++ [last] ↔ talk.dueAt i ≤ talk.dueAt last := by
  have hPairwise := pairwise_order hIdle
  rw [hOrder, List.pairwise_append, List.pairwise_cons] at hPairwise
  obtain ⟨-, ⟨hAfter, -⟩, hBefore⟩ := hPairwise
  constructor
  · intro hMem
    rcases List.mem_append.mp hMem with hMem | hMem
    · -- what comes up before the last entry is due no later
      rcases hBefore i hMem last (List.mem_cons_self ..) with hLt | ⟨hEq, -⟩
      · exact Nat.le_of_lt hLt
      · rw [hEq]
        exact Millis.le_refl _
    · rw [List.mem_singleton.mp hMem]
      exact Millis.le_refl _
  · intro hDue
    have hMem := (mem_order hIdle).mpr hi
    rw [hOrder, List.mem_append, List.mem_cons] at hMem
    rw [List.mem_append, List.mem_singleton]
    rcases hMem with hShown | rfl | hRest
    · exact .inl hShown
    · exact .inr rfl
    · -- what comes up after the last entry is due later
      exfalso
      rw [Millis.le_def] at hDue
      rcases hAfter i hRest with hLt | ⟨-, hLt⟩
      · rw [Millis.lt_def] at hLt
        omega
      · omega

/-- When `played` resolves, the entries already shown are those that are due no later than the last entry
of the document. These are all entries that were put on the agenda exactly if none is due later. -/
theorem shown_before_played (registry : Registry) {options : Options} (hValid : options.Valid) :
    ∃ talk, Talk.create registry options = .ok talk ∧ ∀ operations before after,
      talk.history operations = before ++ .played .resolved :: after →
      ∃ earlier later, operations = earlier ++ .start :: later ∧
        (talk.after earlier).outcome .closing = none ∧ (talk.after earlier).startTime = none ∧
        (∀ i, i < (talk.after earlier).scrap.entries.length →
          ((∃ glyph, .shown i glyph ∈ before) ↔ (talk.after earlier).dueAt i ≤
            (talk.after earlier).dueAt ((talk.after earlier).scrap.entries.length - 1))) ∧
        ((∀ i, i < (talk.after earlier).scrap.entries.length → ∃ glyph, .shown i glyph ∈ before) ↔
          ∀ i, i < (talk.after earlier).scrap.entries.length → (talk.after earlier).dueAt i ≤
            (talk.after earlier).dueAt ((talk.after earlier).scrap.entries.length - 1)) := by
  obtain ⟨talk, hCreate, -, hNew⟩ := exists_create registry hValid
  refine ⟨talk, hCreate, fun operations before after hSplit => ?_⟩
  rcases unstarted_or_progress hNew operations with
    hUnstarted | ⟨earlier, later, hOperations, hOpen, hFresh, hIdle, hProgress⟩
  · exact absurd (mem_of_split hSplit) hUnstarted.played
  have hShown : ∀ i, i < (talk.after earlier).scrap.entries.length →
      ((∃ glyph, .shown i glyph ∈ before) ↔ (talk.after earlier).dueAt i ≤
        (talk.after earlier).dueAt ((talk.after earlier).scrap.entries.length - 1)) := by
    intro i hi
    have hLast : (talk.after earlier).scrap.entries.length - 1 + 1 =
        (talk.after earlier).scrap.entries.length := by omega
    -- the entries up to the last one were shown, in the order of the agenda
    obtain ⟨shown, hBefore⟩ := hProgress.played before after hSplit _ hLast
    obtain ⟨left, hOrder, -⟩ := hProgress.shown
    rw [hSplit, List.filterMap_append, hBefore, List.append_assoc, List.append_assoc] at hOrder
    rw [← mem_of_order_eq hIdle hOrder.symm hLast hi, ← hBefore, mem_shown_iff]
  refine ⟨earlier, later, hOperations, hOpen, hFresh, hShown, ?_⟩
  exact forall_congr' fun i => forall_congr' fun hi => hShown i hi

/-- A section that was paced, and after it one that was not: the pause of the second is last in the
document, and due first. -/
def unevenlyPaced : List Operation :=
  [.direct (.beginSection none), .direct (.beginSection none), .direct .endSection,
    .pace (.single 1), .start, .skip]

/-- The second pause is shown and the talk has been played, and only then is the first one shown. -/
theorem shown_before_played_unevenlyPaced :
    Options.standard.Valid ∧
    ∃ talk, Talk.create .empty .standard = .ok talk ∧
      talk.history unevenlyPaced = [.shown 1 none] ++ .played .resolved :: [.shown 0 none] ∧
      ∃ earlier later, unevenlyPaced = earlier ++ .start :: later ∧
        (talk.after earlier).outcome .closing = none ∧ (talk.after earlier).startTime = none ∧
        ∀ i, i < (talk.after earlier).scrap.entries.length →
          ((∃ glyph, .shown i glyph ∈ [Event.shown 1 none]) ↔ (talk.after earlier).dueAt i ≤
            (talk.after earlier).dueAt ((talk.after earlier).scrap.entries.length - 1)) := by
  obtain ⟨talk, hCreate, hShown⟩ :=
    shown_before_played .empty (show Options.standard.Valid by decide)
  have hHistory : talk.history unevenlyPaced =
      [.shown 1 none] ++ .played .resolved :: [.shown 0 none] := by
    cases hCreate
    decide
  obtain ⟨earlier, later, hOperations, hOpen, hFresh, hEntries, -⟩ :=
    hShown unevenlyPaced _ _ hHistory
  exact ⟨by decide, talk, hCreate, hHistory, earlier, later, hOperations, hOpen, hFresh, hEntries⟩

/-- Not all entries are shown when `played` resolves. -/
theorem played_before_all_shown :
    ∃ talk, Talk.create .empty .standard = .ok talk ∧
      ∃ before after i, talk.history unevenlyPaced = before ++ .played .resolved :: after ∧
        i < (talk.after unevenlyPaced).scrap.entries.length ∧
        ∀ glyph, .shown i glyph ∉ before := by
  refine ⟨_, rfl, [.shown 1 none], [.shown 0 none], 0, by decide, by decide, fun glyph => ?_⟩
  simp

end Talk

end Dialogue
