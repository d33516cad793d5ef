import Dialogue.CommandLine.Simulation
import Dialogue.Proofs.Talk.Chronicle
import Dialogue.Proofs.Talk.Drafting
import Dialogue.Proofs.Talk.Playback

/-!
# The timeline of a simulation

A simulation drives the clock of a talk from due time to due time and writes down what is raised there.
The clock of a text that was prepared is on time, so that what is written is a chronicle of the talk. Each
entry is shown at its own time, or with the skip if that comes first; closing ends the text, and after the
first of these two actions nothing is left to show.

Main results:

* `driven_drive` — the driver does what the clock does, and writes down the times that the clock shows.
* `Run.step` — what one step adds to the timeline.
* `simulation_faithful` — what the timeline of a script says.
-/

namespace Dialogue.CommandLine

open Talk (Ticks Chronicle Punctual Underway Authored Unstarted)

/-! ## The driver -/

/-- Events of one time are those that a stamp with it makes. -/
theorem eq_stamp {timed : List Timed} {time : Millis} (hTime : ∀ x ∈ timed, x.1 = time) :
    timed = stamp time (timed.map Prod.snd) := by
  have hSame : ∀ x ∈ timed, (time, x.2) = x := fun x hMem => by rw [← hTime x hMem]
  rw [stamp, List.map_map]
  exact ((List.map_congr_left hSame).trans (List.map_id' timed)).symm

/-- How the driver leaves a talk: all that is due by the limit has happened, and all events were taken. -/
structure Driven (limit : Option Millis) (talk : Talk) (timed : List Timed) (last : Talk) :
    Prop where
  ticks : Ticks talk timed last
  taken : last.events = []
  left : ∀ x ∈ last.agenda.pending, ∃ time ∈ limit, time < x.due
  now_le : ∀ time ∈ limit, talk.now ≤ time → last.now ≤ time

/-- At a due time, all that is raised has this time. -/
theorem ticks_nextDue {talk : Talk} {due : Millis} (hTaken : talk.events = [])
    (hPunctual : Punctual talk) (hDue : talk.nextDue = some due) :
    Ticks talk (stamp due (talk.advanceTo due).1) (talk.advanceTo due).2 ∧
      (talk.advanceTo due).2.now = due := by
  obtain ⟨⟨x, hMem, rfl⟩, hFirst⟩ := Agenda.nextDue_eq_some hDue
  have hNow : (talk.advanceTo x.due).2.now = x.due := Talk.now_passTo (hPunctual x hMem)
  obtain ⟨timed, hTicks, hEvents⟩ := talk.ticks_advanceTo x.due
  rw [hTaken, List.nil_append] at hEvents
  -- neither before it, as nothing is due then, nor after it
  have hTimes : ∀ y ∈ timed, y.1 = x.due := by
    intro y hy
    have hLe := hTicks.le_of_due hFirst y hy
    have hGe := (hTicks.spans.bounds y.1 (List.mem_map_of_mem hy)).2
    rw [hNow] at hGe
    exact Millis.ext (Nat.le_antisymm hGe hLe)
  rw [hEvents, ← eq_stamp hTimes]
  exact ⟨hTicks, hNow⟩

/-- While there is something due within the limit, the clock follows the due times. -/
theorem driven_driveDue (limit : Option Millis) {talk : Talk} (hTaken : talk.events = [])
    (hPunctual : Punctual talk) :
    Driven limit talk (driveDue limit talk).1 (driveDue limit talk).2 := by
  fun_induction driveDue limit talk with
  | case1 talk hDue =>
    -- nothing is on the agenda
    refine ⟨.refl talk, hTaken, fun x hMem => ?_, fun time _ hNow => hNow⟩
    rw [Agenda.nextDue_eq_none.mp hDue] at hMem
    cases hMem
  | case2 talk due hDue hLimit =>
    -- what comes next is due after the limit
    obtain ⟨time, hTime, hLater⟩ := (Option.any_eq_true _ _).mp hLimit
    have hFirst := (Agenda.nextDue_eq_some hDue).2
    refine ⟨.refl talk, hTaken, fun x hMem => ⟨time, hTime, ?_⟩, fun time _ hNow => hNow⟩
    exact Nat.lt_of_lt_of_le (of_decide_eq_true hLater) (hFirst x hMem)
  | case3 talk due hDue hLimit later last hRest ih =>
    -- one due time, and then those that come after it
    obtain ⟨hTicks, hNow⟩ := ticks_nextDue hTaken hPunctual hDue
    have hDriven := ih rfl (hTicks.punctual hPunctual)
    rw [hRest] at hDriven
    refine ⟨hTicks.trans hDriven.ticks, hDriven.taken, hDriven.left, fun time hTime _ => ?_⟩
    refine hDriven.now_le time hTime ?_
    -- the limit has not passed yet
    rw [hNow]
    cases hTime
    simpa [Millis.le_def, Millis.lt_def] using hLimit

/-- Where nothing is due, only the clock moves. -/
theorem advanceTo_of_none {talk : Talk} {time : Millis} (hTaken : talk.events = [])
    (hNone : talk.pop? time = none) : talk.advanceTo time = ([], talk.clockTo time) := by
  have hClock : talk.passTo time = talk.clockTo time :=
    congrArg (·.clockTo time) (Talk.fireDue_of_none hNone)
  have hEvents : (talk.clockTo time).events = [] := hTaken
  rw [Talk.advanceTo_eq, hClock, hEvents]
  congr 1
  exact congrArg (fun events => { talk.clockTo time with events }) hEvents.symm

/-- The driver does what the clock does; at a limit, the clock shows the limit. -/
theorem driven_drive (limit : Option Millis) {talk : Talk} (hTaken : talk.events = [])
    (hPunctual : Punctual talk) :
    Driven limit talk (drive limit talk).1 (drive limit talk).2 ∧
      ∀ time ∈ limit, talk.now ≤ time → (drive limit talk).2.now = time := by
  have hDriven := driven_driveDue limit hTaken hPunctual
  cases limit with
  -- without a limit the clock stays at the last due time
  | none => exact ⟨hDriven, fun time hTime => by cases hTime⟩
  | some time =>
    have hDrive : drive (some time) talk =
        ((driveDue (some time) talk).1 ++
            stamp time ((driveDue (some time) talk).2.advanceTo time).1,
          ((driveDue (some time) talk).2.advanceTo time).2) := rfl
    rw [hDrive]
    generalize driveDue (some time) talk = driven at hDriven
    obtain ⟨timed, stopped⟩ := driven
    -- nothing is due at the limit any more, so that only the clock moves
    have hNone : stopped.pop? time = none := by
      refine Talk.pop?_eq_none.mpr (Agenda.pop?_eq_none.mpr fun due hDue => ?_)
      obtain ⟨⟨x, hMem, rfl⟩, -⟩ := Agenda.nextDue_eq_some hDue
      obtain ⟨limit, hLimit, hLater⟩ := hDriven.left x hMem
      cases hLimit
      exact hLater
    have hNow : ∀ limit ∈ some time, talk.now ≤ limit → (stopped.clockTo time).now = limit := by
      intro limit hLimit hAhead
      have hLe := hDriven.now_le limit hLimit hAhead
      cases hLimit
      exact Millis.max_eq_right hLe
    rw [advanceTo_of_none hDriven.taken hNone]
    refine ⟨⟨hDriven.ticks.trans (.wait hNone (.refl _)), hDriven.taken, hDriven.left, ?_⟩, hNow⟩
    intro limit hLimit hAhead
    rw [hNow limit hLimit hAhead]
    exact Millis.le_refl _

/-! ## What a timeline says -/

/-- When an entry is shown that is due at a time: then, or with a skip that comes before. -/
def shownAt (skipAt : Option Millis) (due : Millis) : Millis := skipAt.elim due (min due)

/-- Whether a talk is open at a time, or closes just then. -/
def isOpenAt (closeAt : Option Millis) (time : Millis) : Bool := closeAt.all (time ≤ ·)

/-- An entry that is shown, with the time and its glyph. -/
def showing? (timed : Timed) : Option (Millis × Nat × Option Char) :=
  timed.2.shownGlyph?.map (timed.1, ·)

/-- What the timeline of a text says, from its start to its end. -/
structure FaithfulTimeline (skipAt closeAt : Option Millis) (first : Talk) (timeline : List Timed)
    (last : Talk) : Prop where
  /-- Every event has the time that the clock showed when it was raised. -/
  chronicle : Chronicle first timeline last
  sorted : (timeline.map Prod.fst).Pairwise (· ≤ ·)
  played : ∃ outcome, (timeline.map Prod.snd).filterMap Event.played? = [outcome]
  closed : ∃ before, timeline.map Prod.snd = before ++ [.closed] ∧ .closed ∉ before
  /-- Entries are shown in document order, and those are missing that the closing cuts off. -/
  shown : timeline.filterMap showing? =
    (first.scrap.entries.zipIdx.filter fun x =>
      isOpenAt closeAt (shownAt skipAt x.1.timestamp)).map fun x =>
        (shownAt skipAt x.1.timestamp, x.2, x.1.glyph?)

/-- Where a simulation stands: what it has written down, and that each entry is written down at its time or
will be. -/
structure Run (skipAt closeAt : Option Millis) (first : Talk) (timeline : List Timed) (talk : Talk) :
    Prop where
  chronicle : Chronicle first timeline talk
  underway : Underway first (timeline.map Prod.snd) talk
  taken : talk.events = []
  punctual : Punctual talk
  shown : ∀ time i glyph, (time, .shown i glyph) ∈ timeline →
    time = shownAt skipAt (first.dueAt i) ∧ isOpenAt closeAt time = true
  awaits : ∀ i, i < first.scrap.entries.length →
    isOpenAt closeAt (shownAt skipAt (first.dueAt i)) = true →
      i ∈ (timeline.map Prod.snd).filterMap Event.shown? ∨ i ∈ talk.revealsLeft

namespace Run

variable {skipAt closeAt : Option Millis} {first talk last : Talk} {timeline timed : List Timed}

/-- The talk is open, or it is ending and shows nothing any more. -/
theorem state (h : Run skipAt closeAt first timeline talk) : talk.Open ∨ talk.Ending :=
  h.underway.faithful.progress.inStep.state

/-- Moves close nothing, so that a talk that is closing after them has nothing left. -/
theorem revealsLeft_of_closing (h : Run skipAt closeAt first timeline talk) {raised : List Event}
    (hPlays : Talk.Plays talk raised last) (hClosing : last.outcome .closing ≠ none) :
    talk.revealsLeft = [] := by
  rcases h.state with hState | hState
  · exact absurd (hPlays.isOpen hState).closing hClosing
  · exact hState.revealsLeft

/-- A step goes on with the timeline if what it shows is on time, and closing cuts off only what is not to
be shown. -/
theorem step (hIdle : first.agenda.pending = []) (h : Run skipAt closeAt first timeline talk)
    (hChronicle : Chronicle talk timed last) (hTaken : last.events = [])
    (hPunctual : Punctual last)
    (hShown : ∀ time i glyph, (time, .shown i glyph) ∈ timed →
      time = shownAt skipAt (first.dueAt i) ∧ isOpenAt closeAt time = true)
    (hCut : last.outcome .closing ≠ none → ∀ i ∈ talk.revealsLeft,
      isOpenAt closeAt (shownAt skipAt (first.dueAt i)) = false) :
    Run skipAt closeAt first (timeline ++ timed) last := by
  have hUnderway := hChronicle.keeps (Underway.invariant hIdle) h.underway
  rw [← List.map_append] at hUnderway
  refine ⟨h.chronicle.trans hChronicle, hUnderway, hTaken, hPunctual, fun time i glyph hMem => ?_,
    fun i hi hOpen => ?_⟩
  · rcases List.mem_append.mp hMem with hMem | hMem
    · exact h.shown time i glyph hMem
    · exact hShown time i glyph hMem
  · -- once the talk is closing, what was left is due too late
    by_cases hClosing : last.outcome .closing = none
    · exact hUnderway.shown_or_left hIdle hClosing hi
    · rcases h.awaits i hi hOpen with hShown | hLeft
      · rw [List.map_append, List.filterMap_append]
        exact .inl (List.mem_append_left _ hShown)
      · rw [hCut hClosing i hLeft] at hOpen
        cases hOpen

/-- Driving the clock goes on with the timeline if what comes up by the limit is on time. -/
theorem driven (hIdle : first.agenda.pending = []) (h : Run skipAt closeAt first timeline talk)
    (limit : Option Millis)
    (hDue : ∀ i ∈ talk.revealsLeft, (∀ time ∈ limit, talk.now ≤ time → first.dueAt i ≤ time) →
      shownAt skipAt (first.dueAt i) = first.dueAt i ∧
        isOpenAt closeAt (first.dueAt i) = true) :
    Run skipAt closeAt first (timeline ++ (drive limit talk).1)
      (drive limit talk).2 := by
  obtain ⟨hDriven, -⟩ := driven_drive limit h.taken h.punctual
  have hPlays := hDriven.ticks.plays
  refine h.step hIdle (.of_ticks hDriven.ticks) hDriven.taken (hDriven.ticks.punctual h.punctual)
    (fun time i glyph hMem => ?_) fun hClosing i hLeft => ?_
  · -- an entry comes up at its due time, which the limit has not passed
    have hTime := hDriven.ticks.shown_time hIdle h.underway h.punctual hMem
    have hLeft := hPlays.revealsLeft.1 i glyph (List.mem_map_of_mem hMem)
    have hNow := (hDriven.ticks.spans.bounds time (List.mem_map_of_mem hMem)).2
    subst hTime
    obtain ⟨hSame, hOpen⟩ := hDue i hLeft fun limit hLimit hAhead =>
      Millis.le_trans hNow (hDriven.now_le limit hLimit hAhead)
    exact ⟨hSame.symm, hOpen⟩
  · -- the clock closes nothing
    rw [h.revealsLeft_of_closing hPlays hClosing] at hLeft
    cases hLeft

/-- A command goes on with the timeline in the same way. -/
theorem commanded (hIdle : first.agenda.pending = []) (h : Run skipAt closeAt first timeline talk)
    {operation : Operation} (hCommand : operation ∈ Talk.commands)
    (hPunctual : Punctual (talk.perform operation).2)
    (hShown : ∀ i glyph, .shown i glyph ∈ (talk.perform operation).2.events →
      talk.now = shownAt skipAt (first.dueAt i) ∧ isOpenAt closeAt talk.now = true)
    (hCut : (talk.perform operation).2.outcome .closing ≠ none → ∀ i ∈ talk.revealsLeft,
      isOpenAt closeAt (shownAt skipAt (first.dueAt i)) = false) :
    Run skipAt closeAt first (timeline ++ stamp talk.now (talk.perform operation).2.events)
      (talk.perform operation).2.collectEvents.2 := by
  refine h.step hIdle (.of_command hCommand h.taken) rfl hPunctual (fun time i glyph hMem => ?_)
    hCut
  obtain ⟨event, hEvent, hEq⟩ := List.mem_map.mp hMem
  cases hEq
  exact hShown i glyph hEvent

/-- A skip shows all that is left, and nothing is left then. -/
theorem skipped (hIdle : first.agenda.pending = []) (h : Run skipAt closeAt first timeline talk)
    (hPlay : talk.outcome .play = none ∨ talk.revealsLeft = [])
    (hShown : ∀ i ∈ talk.revealsLeft,
      shownAt skipAt (first.dueAt i) = talk.now ∧ isOpenAt closeAt talk.now = true) :
    Run skipAt closeAt first (timeline ++ stamp talk.now talk.skip.2.events)
        talk.skip.2.collectEvents.2 ∧
      talk.skip.2.revealsLeft = [] := by
  obtain ⟨raised, hPlays, hEvents⟩ := talk.skip_plays
  rw [h.taken, List.nil_append] at hEvents
  obtain ⟨hNews, hLess⟩ := hPlays.revealsLeft
  have hCommand : .skip ∈ Talk.commands := by decide
  refine ⟨h.commanded hIdle hCommand h.punctual.skip (fun i glyph hMem => ?_)
    fun hClosing i hLeft => ?_, ?_⟩
  · have hMem : .shown i glyph ∈ talk.skip.2.events := hMem
    -- what the skip shows was left to reveal, and is shown now
    rw [hEvents] at hMem
    obtain ⟨hTime, hOpen⟩ := hShown i (hNews i glyph hMem)
    exact ⟨hTime.symm, hOpen⟩
  · rw [h.revealsLeft_of_closing hPlays hClosing] at hLeft
    cases hLeft
  · -- either the skip strikes all reveals out, or there was none
    rcases hPlay with hPlay | hNone
    · obtain ⟨-, _, hStill⟩ :=
        Talk.skip_still hPlay h.underway.faithful.progress.startTime
      exact Talk.revealsLeft_of_struck hStill.agenda
    · exact List.subset_nil.mp (hNone ▸ hLess)

/-- Closing shows nothing, and cuts off what is left. -/
theorem closed (hIdle : first.agenda.pending = []) (h : Run skipAt closeAt first timeline talk)
    {operation : Operation} (hRequest : operation = .close ∨ operation = .finish)
    (hCut : ∀ i ∈ talk.revealsLeft,
      isOpenAt closeAt (shownAt skipAt (first.dueAt i)) = false) :
    Run skipAt closeAt first (timeline ++ stamp talk.now (talk.perform operation).2.events)
        (talk.perform operation).2.collectEvents.2 ∧
      (talk.perform operation).2.outcome .closing ≠ none := by
  have hCommand : operation ∈ Talk.commands := by
    rcases hRequest with rfl | rfl <;> decide
  have hCloses : operation.requestsClose = true := by
    rcases hRequest with rfl | rfl <;> rfl
  obtain ⟨raised, hEffect, hEvents⟩ := talk.effect_perform operation
  rw [h.taken, (talk.perform_command hCommand).2, List.nil_append, List.nil_append] at hEvents
  have hClosing : (talk.perform operation).2.outcome .closing ≠ none := by
    -- the request closes the talk, unless an earlier one has
    by_cases hOpen : talk.outcome .closing = none
    · exact Talk.closing_of_request hOpen hCloses
    · obtain ⟨outcome, hSettled⟩ := Option.ne_none_iff_exists'.mp hOpen
      rw [hEffect.settled hSettled]
      exact Option.some_ne_none _
  refine ⟨h.commanded hIdle hCommand ?_ (fun i glyph hMem => ?_) fun _ => hCut, hClosing⟩
  · rcases hRequest with rfl | rfl
    · -- either request closes a punctual talk, the one by giving up and the other at its end
      exact h.punctual.beginClosing h.state .abandoned
    · exact h.punctual.beginClosing h.state .resolved
  · -- what closing raises shows nothing
    rw [← hEvents] at hMem
    have hStill := h.underway.faithful.progress.inStep.not_showing hEffect hClosing _ hMem
    cases hStill

/-- What is left to show is due after the limit. -/
theorem lt_due (h : Run skipAt closeAt first timeline talk) {limit : Option Millis}
    (hPending : ∀ x ∈ talk.agenda.pending, ∃ time ∈ limit, time < x.due) {i : Nat}
    (hLeft : i ∈ talk.revealsLeft) : ∃ time ∈ limit, time < first.dueAt i := by
  obtain ⟨x, hMem, hReveal⟩ := List.mem_filterMap.mp hLeft
  cases hEvent : x.event with
  | reveal entry last =>
    rw [hEvent] at hReveal
    cases hReveal
    rw [← h.underway.dues x hMem i last hEvent]
    exact hPending x hMem
  -- only a reveal stands for an entry that is left
  | fadeEnd entry => rw [hEvent] at hReveal; cases hReveal
  | closeEnd number => rw [hEvent] at hReveal; cases hReveal

/-- Where nothing is left, the clock may be driven anywhere, and no talk is opened again. -/
theorem driven_rest (hIdle : first.agenda.pending = [])
    (h : Run skipAt closeAt first timeline talk) (hNone : talk.revealsLeft = [])
    (limit : Option Millis) :
    Run skipAt closeAt first (timeline ++ (drive limit talk).1) (drive limit talk).2 ∧
      (talk.outcome .closing ≠ none → (drive limit talk).2.outcome .closing ≠ none) := by
  have hPlays := (driven_drive limit h.taken h.punctual).1.ticks.plays
  refine ⟨h.driven hIdle limit fun i hLeft => ?_, fun hClosing => hPlays.stays_settled hClosing⟩
  rw [hNone] at hLeft
  cases hLeft

/-- Without a limit, the clock is driven until nothing is on the agenda. -/
theorem pending_drive (h : Run skipAt closeAt first timeline talk) :
    (drive none talk).2.agenda.pending = [] := by
  refine List.eq_nil_iff_forall_not_mem.mpr fun x hMem => ?_
  obtain ⟨time, hTime, -⟩ := (driven_drive none h.taken h.punctual).1.left x hMem
  cases hTime

end Run

/-! ## Actions -/

/-- One action at its time: the clock is driven there, and what the action raises is written down. -/
def actAt (talk : Talk) (time : Millis) (action : Action) : List Timed × Talk :=
  ((drive (some time) talk).1 ++ stamp time (act (drive (some time) talk).2 action).events,
    (act (drive (some time) talk).2 action).collectEvents.2)

/-- The first action goes before the others. -/
theorem performActions_cons (talk : Talk) (time : Millis) (action : Action)
    (rest : List (Millis × Action)) :
    performActions talk ((time, action) :: rest) =
      ((actAt talk time action).1 ++ (performActions (actAt talk time action).2 rest).1,
        (performActions (actAt talk time action).2 rest).2) := rfl

/-- What becomes of an entry that is due after an action: it is shown now, or not at all. -/
def Action.Decides (skipAt closeAt : Option Millis) (time due : Millis) : Action → Prop
  | .skip => shownAt skipAt due = time ∧ isOpenAt closeAt time = true
  | .close => isOpenAt closeAt (shownAt skipAt due) = false

/-- An action goes on with the timeline, and leaves nothing to show. -/
theorem Run.acted {skipAt closeAt : Option Millis} {first talk : Talk} {timeline : List Timed}
    (hIdle : first.agenda.pending = []) (h : Run skipAt closeAt first timeline talk)
    {time : Millis} (hAhead : talk.now ≤ time) (action : Action)
    (hPlay : talk.outcome .play = none ∨ talk.revealsLeft = [])
    (hBefore : ∀ i ∈ talk.revealsLeft, first.dueAt i ≤ time →
      shownAt skipAt (first.dueAt i) = first.dueAt i ∧ isOpenAt closeAt (first.dueAt i) = true)
    (hAfter : ∀ i ∈ talk.revealsLeft, time < first.dueAt i →
      action.Decides skipAt closeAt time (first.dueAt i)) :
    Run skipAt closeAt first (timeline ++ (actAt talk time action).1)
        (actAt talk time action).2 ∧
      (actAt talk time action).2.revealsLeft = [] ∧
      (actAt talk time action).2.now = time ∧
      (action = .close ∨ talk.outcome .closing ≠ none →
        (actAt talk time action).2.outcome .closing ≠ none) := by
  obtain ⟨hDriven, hNow⟩ := driven_drive (some time) h.taken h.punctual
  have hRun := h.driven hIdle (some time) fun i hLeft hLe => hBefore i hLeft (hLe time rfl hAhead)
  have hTime := hNow time rfl hAhead
  have hPlays := hDriven.ticks.plays
  have hLess := hPlays.revealsLeft.2
  have hStill := hDriven.ticks.play_eq
  unfold actAt
  generalize drive (some time) talk = driven at *
  obtain ⟨timed, stopped⟩ := driven
  simp only at *
  -- what is left when the action comes is due later
  have hDecides : ∀ i ∈ stopped.revealsLeft, action.Decides skipAt closeAt time (first.dueAt i) := by
    intro i hLeft
    refine hAfter i (hLess hLeft) ?_
    obtain ⟨limit, hLimit, hLater⟩ := hRun.lt_due hDriven.left hLeft
    cases hLimit
    exact hLater
  rw [← List.append_assoc, ← hTime]
  cases action with
  | skip =>
    -- driving to the action does not settle the play, nor does it reveal anything anew
    have hPlay : stopped.outcome .play = none ∨ stopped.revealsLeft = [] := by
      rcases hPlay with hPlay | hNone
      · exact .inl (hStill.trans hPlay)
      · exact .inr (List.subset_nil.mp (hNone ▸ hLess))
    obtain ⟨hNext, hNone⟩ := hRun.skipped hIdle hPlay (by rw [hTime]; exact hDecides)
    refine ⟨hNext, hNone, stopped.now_skip, fun hClosing => ?_⟩
    -- a talk that was closing before is closing still
    have hBefore := hPlays.stays_settled (hClosing.resolve_left (by decide))
    obtain ⟨raised, hSkips, -⟩ := stopped.skip_plays
    exact hSkips.stays_settled hBefore
  | close =>
    obtain ⟨hNext, hClosing⟩ := hRun.closed hIdle (.inl rfl) hDecides
    exact ⟨hNext, hNext.revealsLeft_of_closing (.refl _) hClosing, stopped.now_beginClosing _,
      fun _ => hClosing⟩

/-- Actions that come after the first one show nothing. -/
theorem Run.performed {skipAt closeAt : Option Millis} {first talk : Talk}
    {timeline : List Timed} (hIdle : first.agenda.pending = [])
    (h : Run skipAt closeAt first timeline talk) (hNone : talk.revealsLeft = [])
    {actions : List (Millis × Action)} (hSorted : (actions.map Prod.fst).Pairwise (· ≤ ·))
    (hAhead : ∀ x ∈ actions, talk.now ≤ x.1) :
    Run skipAt closeAt first (timeline ++ (performActions talk actions).1)
        (performActions talk actions).2 ∧
      (performActions talk actions).2.revealsLeft = [] ∧
      ((∃ time, (time, .close) ∈ actions) ∨ talk.outcome .closing ≠ none →
        (performActions talk actions).2.outcome .closing ≠ none) := by
  induction actions generalizing talk timeline with
  | nil =>
    refine ⟨?_, hNone, fun hClosing => hClosing.resolve_left (by simp)⟩
    show Run skipAt closeAt first (timeline ++ []) talk
    rwa [List.append_nil]
  | cons x rest ih =>
    obtain ⟨time, action⟩ := x
    -- nothing is left, so that the action decides about nothing
    have hVacuous : ∀ {P : Nat → Prop}, ∀ i ∈ talk.revealsLeft, P i := by
      rw [hNone]
      simp
    obtain ⟨hNext, hLeft, hNow, hClosing⟩ := h.acted hIdle
      (hAhead _ (List.mem_cons_self ..)) action (.inr hNone) hVacuous hVacuous
    rw [List.map_cons, List.pairwise_cons] at hSorted
    have hLater : ∀ x ∈ rest, (actAt talk time action).2.now ≤ x.1 := by
      intro x hMem
      rw [hNow]
      exact hSorted.1 x.1 (List.mem_map_of_mem hMem)
    obtain ⟨hLast, hLastLeft, hLastClosing⟩ := ih hNext hLeft hSorted.2 hLater
    rw [List.append_assoc] at hLast
    refine ⟨hLast, hLastLeft, fun hCloses => hLastClosing ?_⟩
    -- it is this action that closes the talk, or a later one, or an earlier one
    rcases hCloses with ⟨other, hMem⟩ | hBefore
    · rcases List.mem_cons.mp hMem with hEq | hMem
      · cases hEq
        exact .inr (hClosing (.inl rfl))
      · exact .inl ⟨other, hMem⟩
    · exact .inr (hClosing (.inr hBefore))

/-! ## From the start to the end -/

/-- The actions stand by their times. -/
theorem sorted_actions (skipAt closeAt : Option Millis) :
    ((actions skipAt closeAt).map Prod.fst).Pairwise (· ≤ ·) := by
  cases skipAt with
  | none => cases closeAt <;> simp [actions]
  | some skip =>
    cases closeAt with
    | none => simp [actions]
    | some close =>
      -- whichever of the two comes first is listed first
      by_cases hLe : skip ≤ close
      · simp [actions, hLe]
      · have hGe : close ≤ skip := Nat.le_of_not_le hLe
        simpa [actions, hLe] using hGe

/-- The first action decides about the entries that are due after it, and those due before are on time. -/
theorem decides_of_actions_eq {skipAt closeAt : Option Millis} {time : Millis} {action : Action}
    {rest : List (Millis × Action)} (hActions : actions skipAt closeAt = (time, action) :: rest)
    (due : Millis) :
    (due ≤ time → shownAt skipAt due = due ∧ isOpenAt closeAt due = true) ∧
      (time < due → action.Decides skipAt closeAt time due) := by
  cases skipAt with
  | none =>
    cases closeAt with
    | none => cases hActions
    | some close =>
      cases hActions
      exact ⟨fun hLe => ⟨rfl, decide_eq_true hLe⟩, fun hLt => decide_eq_false (Nat.not_le_of_lt hLt)⟩
  | some skip =>
    cases closeAt with
    | none =>
      cases hActions
      exact ⟨fun hLe => ⟨Millis.min_eq_left hLe, rfl⟩, fun hLt => ⟨Millis.min_eq_right hLt, rfl⟩⟩
    | some close =>
      -- of two actions the earlier one decides, and the skip if they are at one time
      by_cases hOrder : skip ≤ close
      · rw [actions, if_pos hOrder] at hActions
        cases hActions
        exact ⟨fun hLe => ⟨Millis.min_eq_left hLe, decide_eq_true (Millis.le_trans hLe hOrder)⟩,
          fun hLt => ⟨Millis.min_eq_right hLt, decide_eq_true hOrder⟩⟩
      · rw [actions, if_neg hOrder] at hActions
        cases hActions
        have hEarlier : time < skip := Nat.lt_of_not_le hOrder
        refine ⟨fun hLe => ⟨Millis.min_eq_left (Millis.le_trans hLe (Nat.le_of_lt hEarlier)),
          decide_eq_true hLe⟩, fun hLt => decide_eq_false ?_⟩
        show ¬ min due skip ≤ time
        by_cases hDue : due ≤ skip
        · rw [Millis.min_eq_left hDue]
          exact Nat.not_le_of_lt hLt
        · rw [Millis.min_eq_right (Nat.lt_of_not_le hDue)]
          exact Nat.not_le_of_lt hEarlier

/-- There is nothing to do exactly if neither time is given. -/
theorem actions_eq_nil {skipAt closeAt : Option Millis} :
    actions skipAt closeAt = [] ↔ skipAt = none ∧ closeAt = none := by
  cases skipAt with
  | none => cases closeAt <;> simp [actions]
  | some skip =>
    cases closeAt with
    | none => simp [actions]
    | some close => by_cases hLe : skip ≤ close <;> simp [actions, hLe]

/-- A talk that is to be closed gets closed. -/
theorem close_mem_actions (skipAt : Option Millis) (close : Millis) :
    ∃ time, (time, .close) ∈ actions skipAt (some close) := by
  refine ⟨close, ?_⟩
  cases skipAt with
  | none => simp [actions]
  | some skip =>
    by_cases hLe : skip ≤ close
    · simp [actions, hLe]
    · simp [actions, hLe]

section Play

variable {settings : Options} {first : Talk} (skipAt closeAt : Option Millis)

/-- The timeline begins with what the start raises. -/
theorem run_start (hAuthored : Authored settings first) (hUnstarted : Unstarted [] first) :
    Run skipAt closeAt first (stamp first.start.now first.start.events)
      first.start.collectEvents.2 := by
  have hIdle := hAuthored.pending
  have hPlaying := hAuthored.playing_start
  have hCommand : .start ∈ Talk.commands := by decide
  obtain ⟨news, hEvents, hUnderway⟩ := hUnstarted.underway (hAuthored.outcome .closing)
  rw [hAuthored.events, List.nil_append] at hEvents
  rw [List.nil_append, ← hEvents] at hUnderway
  have hStamped : (stamp first.start.now first.start.events).map Prod.snd = first.start.events :=
    Talk.map_snd_moment _ _
  -- taking the events changes nothing that the run speaks of
  have hCollected := hUnderway.move hIdle (.quiet first.start.alike_collectEvents)
  rw [List.append_nil, ← hStamped] at hCollected
  refine ⟨?_, hCollected, rfl, hPlaying.upcoming.now_le, fun time i glyph hMem => ?_, fun i hi _ => ?_⟩
  · rw [first.now_start]
    exact .of_command hCommand hAuthored.events
  · -- nothing is shown by the start
    obtain ⟨event, hEvent, hEq⟩ := List.mem_map.mp hMem
    rw [hAuthored.events_start] at hEvent
    split at hEvent
    · rw [List.mem_singleton.mp hEvent] at hEq
      cases hEq
    · cases hEvent
  · exact hCollected.shown_or_left hIdle hPlaying.displayed.closing hi

/-- The timeline goes on until nothing is on the agenda. -/
theorem run_acted (hAuthored : Authored settings first) (hUnstarted : Unstarted [] first) :
    ∃ timeline talk, performActions first.start.collectEvents.2 (actions skipAt closeAt) =
        (timeline, talk) ∧
      Run skipAt closeAt first
        (stamp first.start.now first.start.events ++ timeline ++ (drive none talk).1)
        (drive none talk).2 ∧
      (drive none talk).2.agenda.pending = [] ∧
      (closeAt ≠ none → (drive none talk).2.outcome .closing ≠ none) := by
  have hIdle := hAuthored.pending
  have hRun := run_start skipAt closeAt hAuthored hUnstarted
  cases hActions : actions skipAt closeAt with
  | nil =>
    -- without actions the clock just goes on
    obtain ⟨rfl, rfl⟩ := actions_eq_nil.mp hActions
    refine ⟨[], first.start.collectEvents.2, rfl, ?_, hRun.pending_drive, fun hNe => absurd rfl hNe⟩
    rw [List.append_nil]
    exact hRun.driven hIdle none fun i _ _ => ⟨rfl, rfl⟩
  | cons x rest =>
    obtain ⟨time, action⟩ := x
    have hDecides := fun i => decides_of_actions_eq hActions (first.dueAt i)
    have hSorted := sorted_actions skipAt closeAt
    rw [hActions, List.map_cons, List.pairwise_cons] at hSorted
    have hAhead : first.start.collectEvents.2.now ≤ time := by
      show first.start.now ≤ time
      rw [first.now_start, Talk.now, hAuthored.now]
      exact Nat.zero_le _
    -- the first action decides about all entries
    obtain ⟨hActed, hNone, hNow, hClosing⟩ := hRun.acted hIdle hAhead action
      (.inl hAuthored.playing_start.displayed.play) (fun i _ => (hDecides i).1)
      fun i _ => (hDecides i).2
    obtain ⟨hPerformed, hLeft, hCloses⟩ := hActed.performed hIdle hNone hSorted.2 fun x hMem => by
      rw [hNow]
      exact hSorted.1 x.1 (List.mem_map_of_mem hMem)
    rw [List.append_assoc] at hPerformed
    obtain ⟨hLast, hStays⟩ := hPerformed.driven_rest hIdle hLeft none
    refine ⟨_, _, performActions_cons .., hLast, hPerformed.pending_drive, fun hClose => hStays ?_⟩
    -- the close is among the actions, and whoever comes first the talk is closing after it
    obtain ⟨close, rfl⟩ := Option.ne_none_iff_exists'.mp hClose
    obtain ⟨other, hMem⟩ := close_mem_actions skipAt close
    rw [hActions] at hMem
    rcases List.mem_cons.mp hMem with hEq | hMem
    · cases hEq
      exact hCloses (.inr (hClosing (.inl rfl)))
    · exact hCloses (.inl ⟨other, hMem⟩)

/-- In the end nothing is left on the agenda, and the talk was asked to close. -/
theorem run_play (hAuthored : Authored settings first) (hUnstarted : Unstarted [] first) :
    Run skipAt closeAt first (play skipAt closeAt first).1 (play skipAt closeAt first).2 ∧
      (play skipAt closeAt first).2.agenda.pending = [] ∧
      (play skipAt closeAt first).2.outcome .closing ≠ none := by
  have hIdle := hAuthored.pending
  obtain ⟨timeline, talk, hActed, hRun, hDone, hClosing⟩ :=
    run_acted skipAt closeAt hAuthored hUnstarted
  have hRecord : record first.start.now first.start =
      (stamp first.start.now first.start.events, first.start.collectEvents.2) := rfl
  unfold play
  simp only [hRecord, hActed]
  cases closeAt with
  -- an action has closed it
  | some close => exact ⟨hRun, hDone, hClosing (Option.some_ne_none _)⟩
  | none =>
    -- a talk that nobody has closed is finished
    have hNone : (drive none talk).2.revealsLeft = [] := by
      rw [Talk.revealsLeft, hDone]
      rfl
    obtain ⟨hFinished, hEnds⟩ := hRun.closed hIdle (.inr rfl) (by rw [hNone]; simp)
    obtain ⟨hLast, hStays⟩ :=
      hFinished.driven_rest hIdle (hFinished.revealsLeft_of_closing (.refl _) hEnds) none
    have hNow : (drive none talk).2.finish.2.now = (drive none talk).2.now :=
      Talk.now_beginClosing _ _
    simp only [record, hNow]
    exact ⟨hLast, hFinished.pending_drive, hStays hEnds⟩

end Play

/-! ## The end -/

section End

variable {skipAt closeAt : Option Millis} {settings : Options} {first last : Talk}
  {timeline : List Timed}

/-- A text that was prepared is put on the agenda in document order. -/
theorem order_eq (hAuthored : Authored settings first) :
    first.order = List.range first.scrap.entries.length := by
  rw [Talk.order, Talk.revealsLeft, hAuthored.pending_plan, List.filterMap_map,
    List.range_eq_range']
  exact List.filterMap_some

/-- When nothing is left, the entries that were shown are those that were to be shown. -/
theorem Run.shown_eq (hAuthored : Authored settings first)
    (h : Run skipAt closeAt first timeline last) (hNone : last.revealsLeft = []) :
    (timeline.map Prod.snd).filterMap Event.shown? =
      (List.range first.scrap.entries.length).filter fun i =>
        isOpenAt closeAt (shownAt skipAt (first.dueAt i)) := by
  obtain ⟨left, hOrder, -⟩ := h.underway.faithful.progress.shown
  rw [order_eq hAuthored] at hOrder
  have hNodup : ((timeline.map Prod.snd).filterMap Event.shown? ++ left).Nodup := by
    rw [hOrder]
    exact List.nodup_range
  -- the order splits into what was shown and what is left
  rw [← hOrder, List.filter_append, List.filter_eq_self.mpr, List.filter_eq_nil_iff.mpr,
    List.append_nil]
  · -- what is left was not to be shown
    intro i hLeft hOpen
    have hi : i < first.scrap.entries.length := by
      rw [← List.mem_range, ← hOrder]
      exact List.mem_append_right _ hLeft
    rcases h.awaits i hi hOpen with hShown | hMore
    · exact List.disjoint_of_nodup_append hNodup hShown hLeft
    · rw [hNone] at hMore
      cases hMore
  · -- and what was shown was
    intro i hShown
    obtain ⟨event, hMem, hEvent⟩ := List.mem_filterMap.mp hShown
    obtain ⟨⟨time, other⟩, hTimed, rfl⟩ := List.mem_map.mp hMem
    cases other with
    | shown entry glyph =>
      cases hEvent
      obtain ⟨hTime, hOpen⟩ := h.shown time i glyph hTimed
      rwa [← hTime]
    | _ => cases hEvent

/-- An entry that is shown stands in the timeline at its time. -/
theorem Run.showings_eq (h : Run skipAt closeAt first timeline last) :
    timeline.filterMap showing? =
      ((timeline.map Prod.snd).filterMap Event.shown?).map fun i =>
        (shownAt skipAt (first.dueAt i), i, (first.scrap.entries[i]?).bind Entry.glyph?) := by
  have hGlyphs := h.underway.faithful.shownGlyph_eq
  -- what the events say about an entry, with the time at which it is said
  have hTimes : timeline.filterMap showing? =
      ((timeline.map Prod.snd).filterMap Event.shownGlyph?).map fun x =>
        (shownAt skipAt (first.dueAt x.1), x.1, x.2) := by
    rw [List.map_filterMap, List.filterMap_map]
    refine List.filterMap_congr fun x hMem => ?_
    obtain ⟨time, event⟩ := x
    cases event with
    | shown i glyph =>
      have hTime := (h.shown time i glyph hMem).1
      simp [showing?, Event.shownGlyph?, hTime]
    | _ => rfl
  rw [hTimes, hGlyphs, List.map_map]
  rfl

/-- What is said of the entries by their numbers, said of the entries. -/
theorem filter_range_eq {β : Type} {entries : List Entry} {p : Nat → Bool} {q : Entry → Bool}
    {f : Nat → β} {g : Entry → Nat → β}
    (hSame : ∀ i e, entries[i]? = some e → p i = q e ∧ f i = g e i) :
    ((List.range entries.length).filter p).map f =
      (entries.zipIdx.filter fun x => q x.1).map fun x => g x.1 x.2 := by
  have hRange : List.range entries.length = entries.zipIdx.map Prod.snd := by
    rw [List.zipIdx_map_snd, List.range_eq_range']
  rw [hRange, List.filter_map, List.map_map]
  have hFilter : entries.zipIdx.filter (p ∘ Prod.snd) = entries.zipIdx.filter fun x => q x.1 :=
    List.filter_congr fun x hMem => (hSame x.2 x.1 (List.mem_zipIdx_iff_getElem?.mp hMem)).1
  rw [hFilter]
  refine List.map_congr_left fun x hMem => ?_
  exact (hSame x.2 x.1 (List.mem_zipIdx_iff_getElem?.mp (List.mem_of_mem_filter hMem))).2

/-- What was written down when a simulation comes to its end is the timeline of the text. -/
theorem Run.faithful (hAuthored : Authored settings first) (hStart : settings.startTime = none)
    (h : Run skipAt closeAt first timeline last) (hDone : last.agenda.pending = [])
    (hClosing : last.outcome .closing ≠ none) :
    FaithfulTimeline skipAt closeAt first timeline last := by
  have hInStep := h.underway.faithful.progress.inStep
  have hEnding := hInStep.isEnding hClosing
  have hClosed : last.outcome .closed ≠ none := by
    rw [hEnding.closed, if_pos hDone]
    exact Option.some_ne_none _
  refine ⟨h.chronicle, h.chronicle.spans.sorted, ?_, hInStep.logged.closed hClosed, ?_⟩
  · obtain ⟨outcome, hPlayed⟩ := Option.ne_none_iff_exists'.mp hEnding.played
    exact ⟨outcome, by rw [hInStep.logged.played, hPlayed]; rfl⟩
  · rw [h.showings_eq, h.shown_eq hAuthored hEnding.revealsLeft]
    have hSame : ∀ i e, first.scrap.entries[i]? = some e →
        isOpenAt closeAt (shownAt skipAt (first.dueAt i)) =
            isOpenAt closeAt (shownAt skipAt e.timestamp) ∧
          (shownAt skipAt (first.dueAt i), i, (first.scrap.entries[i]?).bind Entry.glyph?) =
            (shownAt skipAt e.timestamp, i, e.glyph?) := by
      intro i e hEntry
      -- without a start time, an entry is due at its own time
      have hDue : first.dueAt i = e.timestamp := by
        rw [Talk.dueAt, Talk.startsAt, hAuthored.options, hStart, Talk.now, hAuthored.now, hEntry]
        exact Millis.zero_add _
      rw [hDue, hEntry]
      exact ⟨rfl, rfl⟩
    -- so the entries can be gone through in place of their places
    exact filter_range_eq hSame

end End

/-! ## Scripts -/

/-- The simulator's preparing leaves an authored talk. -/
theorem authored_prepare {talk : Talk} (hNew : talk.IsNew) (script : List Script.Directive) :
    Authored talk.options (prepare talk script) := by
  have h := Talk.authored_wrapUp hNew (script.map Script.Directive.direction)
  exact ⟨h.options, h.now, h.pending, h.startTime, h.outcome, h.events, h.still, h.timestamp,
    h.last⟩

theorem unstarted_prepare {talk : Talk} (hNew : talk.IsNew) (script : List Script.Directive) :
    Unstarted [] (prepare talk script) := by
  have h := Talk.unstarted_or_progress hNew
    (Talk.authoring (script.map Script.Directive.direction))
  rw [Talk.history_authoring hNew, Talk.after_authoring] at h
  rcases h with hUnstarted | ⟨_, _, -, -, -, -, hProgress⟩
  · -- the summary is no news for the talk
    have hSummary : Talk.Alike
        (talk.directAll (script.map Script.Directive.direction)).wrapUp.2
        (prepare talk script) :=
      ⟨rfl, rfl, rfl, Millis.le_refl _, rfl, rfl, fun _ => rfl, rfl, rfl⟩
    have hNext := hUnstarted.move (.quiet hSummary)
    rwa [List.append_nil] at hNext
  · exact absurd (authored_prepare hNew script).startTime hProgress.startTime

/-- The timeline of a script that is played with options that name no start time, with any times for a
skip and for closing: it is a chronicle of the talk from its start to its end, it does not go back, it says
once that the text is over, it ends when the talk is closed, and it shows each entry in its turn, at the time
of the entry or with the skip, up to the time of closing. -/
theorem simulation_faithful (registry : Registry) {options : Options} (hValid : options.Valid)
    (hStart : options.startTime = none) :
    ∃ talk, Talk.create registry options = .ok talk ∧ ∀ script skipAt closeAt,
      FaithfulTimeline skipAt closeAt (prepare talk script)
        (play skipAt closeAt (prepare talk script)).1
        (play skipAt closeAt (prepare talk script)).2 := by
  obtain ⟨talk, hCreate, rfl, hNew⟩ := Talk.exists_create registry hValid
  refine ⟨talk, hCreate, fun script skipAt closeAt => ?_⟩
  have hAuthored := authored_prepare hNew script
  obtain ⟨hRun, hDone, hClosing⟩ :=
    run_play skipAt closeAt hAuthored (unstarted_prepare hNew script)
  exact hRun.faithful hAuthored hStart hDone hClosing

/-- A word, which is skipped after its first letter, or closed with its last one. -/
theorem simulation_faithful_word :
    Options.standard.Valid ∧ Options.standard.startTime = none ∧
    ∃ talk, Talk.create .empty .standard = .ok talk ∧
      -- the entries behind the word are the pauses of the paragraph and the section
      (play (some 130) none (prepare talk [.speak "Hi"])).1.filterMap showing? =
        [(120, 0, some 'H'), (130, 1, some 'i'), (130, 2, none), (130, 3, none)] ∧
      (play none (some 240) (prepare talk [.speak "Hi"])).1.filterMap showing? =
        [(120, 0, some 'H'), (240, 1, some 'i')] := by
  obtain ⟨talk, hCreate, hFaithful⟩ :=
    simulation_faithful .empty (show Options.standard.Valid by decide) rfl
  refine ⟨by decide, rfl, talk, hCreate, ?_, ?_⟩
  · rw [(hFaithful _ _ _).shown]
    cases hCreate
    decide
  · rw [(hFaithful _ _ _).shown]
    cases hCreate
    decide

end Dialogue.CommandLine
