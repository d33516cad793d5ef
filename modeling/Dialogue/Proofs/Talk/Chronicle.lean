import Dialogue.Proofs.Talk.Skipping

/-!
# Chronicles

A `Chronicle` is what becomes of a talk under the eyes of a host: the clock ticks, the host starts, skips,
closes or finishes the talk in between, and each event is written down with the time that the clock shows
when it is raised. The clock does not run backwards, and it shows the time for which an entry was planned
when it reveals the entry, unless it had passed that time before.

Main results:

* `Talk.Ticks.shown_time` — the clock reveals entries at the times that were planned.
* `Talk.Chronicle.spans` — the times in a chronicle do not fall.
* `Talk.Chronicle.keeps` — invariants of talks hold along a chronicle, of the events in it.
-/

namespace Dialogue

/-! ## Times that do not fall -/

/-- Times that lie between two others and do not fall. -/
structure Spans (start stop : Millis) (times : List Millis) : Prop where
  le : start ≤ stop
  bounds : ∀ time ∈ times, start ≤ time ∧ time ≤ stop
  sorted : times.Pairwise (· ≤ ·)

namespace Spans

variable {start middle stop : Millis} {times more : List Millis}

theorem nil (hLe : start ≤ stop) : Spans start stop [] :=
  ⟨hLe, fun _ hMem => absurd hMem List.not_mem_nil, .nil⟩

/-- One span of times can follow another. -/
theorem trans (h : Spans start middle times) (h' : Spans middle stop more) :
    Spans start stop (times ++ more) where
  le := Millis.le_trans h.le h'.le
  bounds time hMem := by
    rcases List.mem_append.mp hMem with hMem | hMem
    · obtain ⟨hStart, hMiddle⟩ := h.bounds time hMem
      exact ⟨hStart, Millis.le_trans hMiddle h'.le⟩
    · obtain ⟨hMiddle, hStop⟩ := h'.bounds time hMem
      exact ⟨Millis.le_trans h.le hMiddle, hStop⟩
  sorted := by
    -- the middle stands between the earlier times and the later ones
    refine List.pairwise_append.mpr ⟨h.sorted, h'.sorted, fun time hMem later hLater => ?_⟩
    exact Millis.le_trans (h.bounds time hMem).2 (h'.bounds later hLater).1

/-- All events of a moment have its time. -/
theorem moment (time : Millis) (events : List Event) :
    Spans time time ((events.map fun event => (time, event)).map Prod.fst) := by
  have hTimes : ∀ other ∈ (events.map fun event => (time, event)).map Prod.fst, other = time := by
    intro other hMem
    rw [List.map_map] at hMem
    obtain ⟨event, -, rfl⟩ := List.mem_map.mp hMem
    rfl
  refine ⟨Millis.le_refl _, fun other hMem => ?_, ?_⟩
  · rw [hTimes other hMem]
    exact ⟨Millis.le_refl _, Millis.le_refl _⟩
  · refine List.pairwise_of_forall_mem_list fun a ha b hb => ?_
    rw [hTimes a ha, hTimes b hb]
    exact Millis.le_refl _

end Spans

namespace Talk

/-! ## A clock that is on time -/

/-- A cue puts nothing on the agenda that is due in the past. -/
theorem due_of_mem_pending_fire {talk : Talk} {cue : Cue} {x : Appointment Cue}
    (hMem : x ∈ (talk.fire cue).agenda.pending) :
    x ∈ talk.agenda.pending ∨ talk.now ≤ x.due := by
  rcases mem_agenda_fire hMem with hOld | ⟨entry, last, -, rfl⟩
  · exact .inl hOld
  · exact .inr (Millis.le_add_right _ _)

/-- A talk that has nothing to make up for: all that is on its agenda is yet to come. -/
def Punctual (talk : Talk) : Prop := ∀ x ∈ talk.agenda.pending, talk.now ≤ x.due

section Punctual

variable {talk rest : Talk} {limit : Millis} {cue : Cue}

/-- What comes up next comes up at its time. -/
theorem Punctual.pop? (h : Punctual talk) (hPop : talk.pop? limit = some (cue, rest)) :
    ∃ x ∈ talk.agenda.pending, x.event = cue ∧ rest.now = x.due ∧ Punctual rest := by
  obtain ⟨next, agenda, hPending, -, hNow, rfl, rfl⟩ := pop?_eq_some hPop
  have hMem : next ∈ talk.agenda.pending := by
    rw [hPending]
    exact List.mem_cons_self ..
  have hDue : now { talk with agenda } = next.due := hNow.trans (Millis.max_eq_right (h next hMem))
  refine ⟨next, hMem, rfl, hDue, fun x hx => ?_⟩
  rw [hDue]
  exact Agenda.due_le_of_pending_eq hPending x hx

/-- Whatever fires, a punctual talk stays punctual. -/
theorem Punctual.fire (h : Punctual talk) (cue : Cue) : Punctual (talk.fire cue) := by
  intro x hMem
  rw [now_fire]
  rcases due_of_mem_pending_fire hMem with hOld | hNew
  · exact h x hOld
  · exact hNew

/-- Until something is due, the clock may wait. -/
theorem Punctual.clockTo {time : Millis} (h : Punctual talk) (hPop : talk.pop? time = none) :
    Punctual (talk.clockTo time) := by
  intro x hMem
  have hNow := h x hMem
  have hLater := Agenda.lt_due_of_pop?_eq_none (Talk.pop?_eq_none.mp hPop) x hMem
  show max talk.now time ≤ x.due
  rw [Millis.le_def] at hNow ⊢
  rw [Millis.lt_def] at hLater
  rw [Millis.toNat_max]
  omega

end Punctual

/-! ## What the clock writes down -/

/-- Only the reveal of an entry shows it. -/
theorem reveal_of_shown_mem {talk : Talk} {cue : Cue} {i : Nat} {glyph : Option Char}
    (hMem : .shown i glyph ∈ talk.firedEvents cue) : ∃ last, cue = .reveal i last := by
  cases cue with
  | reveal entry last =>
    rcases mem_revealEvents hMem with ⟨_, hEq⟩ | ⟨_, hEq⟩ | hEq <;> cases hEq
    exact ⟨last, rfl⟩
  | fadeEnd entry => cases List.mem_singleton.mp hMem
  | closeEnd number => rcases mem_firedEvents_closeEnd hMem with hEq | hEq <;> cases hEq

/-- What is shown was left to reveal, and nothing is left to reveal that was not before. -/
theorem Move.revealsLeft {talk later : Talk} {raised : List Event}
    (hMove : Move talk raised later) :
    (∀ i glyph, .shown i glyph ∈ raised → i ∈ talk.revealsLeft) ∧
      later.revealsLeft ⊆ talk.revealsLeft := by
  cases hMove with
  | quiet hAlike =>
    refine ⟨fun _ _ hMem => absurd hMem List.not_mem_nil, fun i hMem => ?_⟩
    rwa [Talk.revealsLeft, hAlike.pending] at hMem
  -- a skip by itself neither shows anything nor puts anything on the agenda
  | skip hPlaying => exact ⟨fun _ _ hMem => absurd hMem List.not_mem_nil, fun _ hMem => hMem⟩
  | fire hTaken =>
    rename_i cue rest
    have hAll : talk.revealsLeft = cue.revealed?.toList ++
        rest.pending.filterMap fun x => x.event.revealed? := hTaken.revealsLeft
    rw [hAll]
    refine ⟨fun i glyph hMem => ?_, fun i hMem => ?_⟩
    · obtain ⟨last, rfl⟩ := reveal_of_shown_mem hMem
      exact List.mem_append_left _ (List.mem_singleton_self _)
    · rw [revealsLeft_fire] at hMem
      exact List.mem_append_right _ hMem

/-- What is shown while the talk plays was left to be revealed, and nothing new is. -/
theorem Plays.revealsLeft {talk last : Talk} {raised : List Event}
    (hPlays : Plays talk raised last) :
    (∀ i glyph, .shown i glyph ∈ raised → i ∈ talk.revealsLeft) ∧
      last.revealsLeft ⊆ talk.revealsLeft := by
  induction hPlays with
  | refl talk => exact ⟨fun _ _ hMem => absurd hMem List.not_mem_nil, fun _ hMem => hMem⟩
  | @move talk next last raised more hMove hRest ih =>
    obtain ⟨hShown, hLeft⟩ := ih
    obtain ⟨hFirst, hNext⟩ := hMove.revealsLeft
    refine ⟨fun i glyph hMem => ?_, fun i hMem => hNext (hLeft hMem)⟩
    rcases List.mem_append.mp hMem with hMem | hMem
    · exact hFirst i glyph hMem
    · exact hNext (hShown i glyph hMem)

/-- Where the reveals were struck out, none is left. -/
theorem revealsLeft_of_struck {talk later : Talk}
    (hStruck : later.agenda = talk.agenda.cancel Cue.isReveal) : later.revealsLeft = [] := by
  refine List.filterMap_eq_nil_iff.mpr fun x hMem => ?_
  rw [hStruck] at hMem
  have hOther := (List.mem_filter.mp hMem).2
  cases hEvent : x.event with
  | reveal entry last =>
    rw [hEvent] at hOther
    cases hOther
  | fadeEnd entry => rfl
  | closeEnd number => rfl

/-- A signal that has settled stays settled. -/
theorem Plays.stays_settled {talk last : Talk} {raised : List Event}
    (hPlays : Plays talk raised last) {milestone : Milestone}
    (hSettled : talk.outcome milestone ≠ none) : last.outcome milestone ≠ none := by
  obtain ⟨outcome, hOutcome⟩ := Option.ne_none_iff_exists'.mp hSettled
  rw [hPlays.settled hOutcome]
  exact Option.some_ne_none _

namespace Ticks

variable {first talk last : Talk} {timed : List (Millis × Event)}

/-- The times of the ticks lie between the clock before and the clock after. -/
theorem spans (h : Ticks talk timed last) : Spans talk.now last.now (timed.map Prod.fst) := by
  induction h with
  | refl talk => exact .nil (Millis.le_refl _)
  | @fire talk rest last limit cue timed hPop hRest ih =>
    obtain ⟨next, agenda, -, -, hNow, -, hEq⟩ := pop?_eq_some hPop
    have hLe : talk.now ≤ rest.now := by
      rw [hEq]
      show talk.now ≤ agenda.now
      rw [hNow]
      exact Millis.le_max_left _ _
    -- the clock goes forward to the cue, and stands still while the cue fires
    rw [now_fire] at ih
    rw [List.map_append]
    exact (Spans.nil hLe).trans ((Spans.moment rest.now _).trans ih)
  | @wait talk last time timed hPop hRest ih =>
    exact (Spans.nil (Millis.le_max_left talk.now time)).trans ih
  | collect hRest ih => exact ih

/-- As the clock ticks, a punctual talk stays punctual. -/
theorem punctual (h : Ticks talk timed last) (hPunctual : Punctual talk) : Punctual last := by
  induction h with
  | refl talk => exact hPunctual
  | @fire talk rest last limit cue timed hPop hRest ih =>
    obtain ⟨-, -, -, -, hLater⟩ := hPunctual.pop? hPop
    exact ih (hLater.fire cue)
  | wait hPop hRest ih => exact ih (hPunctual.clockTo hPop)
  | collect hRest ih => exact ih hPunctual

/-- The clock skips nothing. -/
theorem play_eq (h : Ticks talk timed last) : last.outcome .play = talk.outcome .play := by
  induction h with
  | refl talk => rfl
  | @fire talk rest last limit cue timed hPop hRest ih =>
    obtain ⟨agenda, -, rfl⟩ := taken_of_pop? hPop
    rw [ih, outcome_fire]
    cases cue <;> simp [outcome_with_agenda]
  | wait hPop hRest ih => exact ih
  | collect hRest ih => exact ih

/-- Nothing happens before the first cue is due. -/
theorem le_of_due (h : Ticks talk timed last) {time : Millis}
    (hDue : ∀ x ∈ talk.agenda.pending, time ≤ x.due) : ∀ x ∈ timed, time ≤ x.1 := by
  induction h with
  | refl talk => exact fun x hMem => by cases hMem
  | @fire talk rest last limit cue timed hPop hRest ih =>
    obtain ⟨next, agenda, hPending, -, hNow, -, rfl⟩ := pop?_eq_some hPop
    rw [hPending] at hDue
    have hNext := hDue next (List.mem_cons_self ..)
    -- the clock has reached the cue, and what the cue puts on the agenda is due no earlier
    have hLe : time ≤ now { talk with agenda } := by
      show time ≤ agenda.now
      rw [hNow, Millis.le_def, Millis.toNat_max]
      rw [Millis.le_def] at hNext
      omega
    have hRestDue : ∀ x ∈ ({ talk with agenda }.fire cue).agenda.pending, time ≤ x.due := by
      intro x hMem
      rcases due_of_mem_pending_fire hMem with hOld | hNew
      · exact hDue x (List.mem_cons_of_mem _ hOld)
      · exact Millis.le_trans hLe hNew
    intro x hMem
    rcases List.mem_append.mp hMem with hMem | hMem
    · obtain ⟨event, -, rfl⟩ := List.mem_map.mp hMem
      exact hLe
    · exact ih hRestDue x hMem
  -- a move of the clock raises nothing
  | wait hPop hRest ih => exact ih hDue
  | collect hRest ih => exact ih hDue

/-- On time, the clock shows the due time of each entry when it reveals the entry. -/
theorem shown_time (h : Ticks talk timed last) {raised : List Event}
    (hIdle : first.agenda.pending = []) (hUnderway : Underway first raised talk)
    (hPunctual : Punctual talk) {time : Millis} {i : Nat} {glyph : Option Char}
    (hMem : (time, .shown i glyph) ∈ timed) : time = first.dueAt i := by
  -- on the way the talk stays underway and on time
  induction h generalizing raised with
  | refl talk => cases hMem
  | @fire talk rest last limit cue timed hPop hRest ih =>
    obtain ⟨x, hx, hEvent, hNow, hLater⟩ := hPunctual.pop? hPop
    obtain ⟨agenda, hTaken, rfl⟩ := taken_of_pop? hPop
    rcases List.mem_append.mp hMem with hMem | hMem
    · -- the reveal of the entry stands at the time that was planned
      obtain ⟨event, hFired, hEq⟩ := List.mem_map.mp hMem
      cases hEq
      obtain ⟨last, rfl⟩ := reveal_of_shown_mem hFired
      rw [hNow, hUnderway.dues x hx i last hEvent]
    · exact ih (hUnderway.move hIdle (.fire hTaken)) (hLater.fire cue) hMem
  | @wait talk last time timed hPop hRest ih =>
    exact ih (hUnderway.move hIdle (.quiet (talk.alike_clockTo _))) (hPunctual.clockTo hPop) hMem
  | @collect talk last timed hRest ih =>
    exact ih (hUnderway.move hIdle (.quiet talk.alike_collectEvents)) hPunctual hMem

end Ticks

/-! ## What a host does in between -/

/-- What a host does to a talk that plays. -/
def commands : List Operation := [.start, .skip, .close, .finish]

/-- Revealing the rest takes no time. -/
theorem now_revealRest {talk : Talk} (hSkipped : talk.outcome .play ≠ none) :
    talk.revealRest.now = talk.now := by
  obtain ⟨raised, hStill⟩ := still_revealRest hSkipped
  unfold now
  rw [hStill.agenda]
  rfl

/-- Starting takes no time. -/
theorem now_start (talk : Talk) : talk.start.now = talk.now := by
  have hPlan : ∀ time, (talk.plan time).now = talk.now := fun time => now_scheduleAll ..
  -- a text that is planned may be complete at once, or shown at once
  unfold start
  split
  · rfl
  · cases hStart : talk.startTime with
    | some time => rfl
    | none =>
      simp only [startAt]
      split
      · unfold now
        rw [agenda_markPlayed]
        exact hPlan _
      · split
        · exact hPlan _
        · rename_i hPending
          rw [now_revealRest, hPlan]
          intro hNone
          rw [isPending_eq, hNone] at hPending
          exact hPending rfl

/-- A skip leaves the agenda as it is, or strikes out the reveals. -/
theorem agenda_skip (talk : Talk) :
    talk.skip.2.agenda = talk.agenda ∨ talk.skip.2.agenda = talk.agenda.cancel Cue.isReveal := by
  by_cases hPlay : talk.outcome .play = none
  · by_cases hStarted : talk.startTime = none
    · left
      unfold skip
      simp [isPending_eq, hPlay, hStarted, settle, report]
    · obtain ⟨-, raised, hStill⟩ := skip_still hPlay hStarted
      exact .inr hStill.agenda
  · left
    unfold skip
    simp [isPending_eq, hPlay]

/-- A skip takes no time. -/
theorem now_skip (talk : Talk) : talk.skip.2.now = talk.now := by
  unfold now
  rcases talk.agenda_skip with hSame | hStruck
  · rw [hSame]
  · rw [hStruck]
    rfl

/-- Closing leaves the agenda as it is, or makes it anew. -/
theorem agenda_beginClosing (talk : Talk) (outcome : Outcome) :
    (talk.beginClosing outcome).2.agenda = talk.agenda ∨
      talk.outcome .closing = none ∧
        (talk.beginClosing outcome).2.agenda = talk.closingAgenda := by
  by_cases hOpen : talk.outcome .closing = none
  · obtain ⟨registry, areas, outbox, hEq⟩ := beginClosing_eq hOpen outcome
    exact .inr ⟨hOpen, by rw [hEq]⟩
  · left
    unfold beginClosing
    simp [isPending_eq, hOpen]

/-- A request to close takes no time. -/
theorem now_beginClosing (talk : Talk) (outcome : Outcome) :
    (talk.beginClosing outcome).2.now = talk.now := by
  unfold now
  rcases talk.agenda_beginClosing outcome with hSame | ⟨-, hNew⟩
  · rw [hSame]
  · rw [hNew]
    exact now_scheduleAll ..

/-- After a skip nothing is late. -/
theorem Punctual.skip {talk : Talk} (h : Punctual talk) : Punctual talk.skip.2 := by
  intro x hMem
  rw [now_skip]
  rcases talk.agenda_skip with hSame | hStruck
  · rw [hSame] at hMem
    exact h x hMem
  · rw [hStruck] at hMem
    exact h x (List.mem_of_mem_filter hMem)

/-- After a request to close nothing is late. -/
theorem Punctual.beginClosing {talk : Talk} (h : Punctual talk) (hState : Open talk ∨ Ending talk)
    (outcome : Outcome) : Punctual (talk.beginClosing outcome).2 := by
  intro x hMem
  rw [now_beginClosing]
  rcases talk.agenda_beginClosing outcome with hSame | ⟨hClosing, hNew⟩
  · rw [hSame] at hMem
    exact h x hMem
  · -- all closing animations begin now
    rcases hState with hOpen | hEnding
    · rw [hNew, hOpen.pending_closingAgenda] at hMem
      obtain ⟨number, -, rfl⟩ := List.mem_map.mp hMem
      exact Millis.le_add_right _ _
    · exact absurd hClosing hEnding.closing

/-- Commands take no time, and hand nothing out. -/
theorem perform_command (talk : Talk) {operation : Operation} (hCommand : operation ∈ commands) :
    (talk.perform operation).2.now = talk.now ∧ (talk.perform operation).1.raised = [] := by
  simp only [commands, List.mem_cons, List.not_mem_nil, or_false] at hCommand
  rcases hCommand with rfl | rfl | rfl | rfl
  · exact ⟨talk.now_start, rfl⟩
  · exact ⟨talk.now_skip, rfl⟩
  · exact ⟨talk.now_beginClosing _, rfl⟩
  · exact ⟨talk.now_beginClosing _, rfl⟩

/-! ## Chronicles -/

/-- What the clock and a host do to a talk, one after the other, with all events that are raised and the
time that the clock shows then. -/
inductive Chronicle : Talk → List (Millis × Event) → Talk → Prop where
  | refl (talk : Talk) : Chronicle talk [] talk
  | tick {talk next last : Talk} {timed more : List (Millis × Event)}
      (hTicks : Ticks talk timed next) (hRest : Chronicle next more last) :
      Chronicle talk (timed ++ more) last
  | act {talk last : Talk} {operation : Operation} {raised : List Event}
      {timed : List (Millis × Event)} (hCommand : operation ∈ commands)
      (hRaised : (talk.perform operation).2.events = talk.events ++ raised)
      (hRest : Chronicle (talk.perform operation).2 timed last) :
      Chronicle talk (raised.map (talk.now, ·) ++ timed) last

namespace Chronicle

variable {first talk last : Talk} {timed more : List (Millis × Event)}

/-- One chronicle can follow another. -/
theorem trans (h : Chronicle first timed talk) (h' : Chronicle talk more last) :
    Chronicle first (timed ++ more) last := by
  induction h with
  | refl talk => exact h'
  | tick hTicks hRest ih =>
    rw [List.append_assoc]
    exact .tick hTicks (ih h')
  | act hCommand hRaised hRest ih =>
    rw [List.append_assoc]
    exact .act hCommand hRaised (ih h')

/-- The ticks of the clock make a chronicle. -/
theorem of_ticks (hTicks : Ticks talk timed last) : Chronicle talk timed last := by
  rw [← List.append_nil timed]
  exact .tick hTicks (.refl last)

/-- A host that has taken all events before sees what a command raises. -/
theorem of_command {operation : Operation} (hCommand : operation ∈ commands)
    (hTaken : talk.events = []) :
    Chronicle talk ((talk.perform operation).2.events.map (talk.now, ·))
      (talk.perform operation).2.collectEvents.2 := by
  have hRaised : (talk.perform operation).2.events =
      talk.events ++ (talk.perform operation).2.events := by rw [hTaken, List.nil_append]
  have hCollect : Chronicle (talk.perform operation).2 []
      (talk.perform operation).2.collectEvents.2 := .of_ticks (.collect (.refl _))
  have hAct := Chronicle.act hCommand hRaised hCollect
  rwa [List.append_nil] at hAct

/-- The clock does not run backwards. -/
theorem spans (h : Chronicle first timed last) :
    Spans first.now last.now (timed.map Prod.fst) := by
  induction h with
  | refl talk => exact .nil (Millis.le_refl _)
  | tick hTicks hRest ih =>
    rw [List.map_append]
    exact hTicks.spans.trans ih
  | @act talk last operation raised timed hCommand hRaised hRest ih =>
    rw [(talk.perform_command hCommand).1] at ih
    rw [List.map_append]
    -- a command raises its events at the time at which it is given
    exact (Spans.moment talk.now raised).trans ih

/-- What every operation keeps holds along a chronicle, of the events in it. -/
theorem keeps {Inv : List Event → Talk → Prop} (hInvariant : Invariant Inv)
    (h : Chronicle first timed last) {raised : List Event} (hFirst : Inv raised first) :
    Inv (raised ++ timed.map Prod.snd) last := by
  induction h generalizing raised with
  | refl talk => rwa [List.map_nil, List.append_nil]
  | tick hTicks hRest ih =>
    rw [List.map_append, ← List.append_assoc]
    exact ih (hTicks.plays.keeps hInvariant.move hFirst)
  | @act talk last operation news timed hCommand hRaised hRest ih =>
    -- a command hands nothing out, so that its effect is what it has raised
    obtain ⟨raised', hEffect, hEvents⟩ := talk.effect_perform operation
    rw [(talk.perform_command hCommand).2, List.nil_append, hRaised] at hEvents
    have hSame : raised' = news := List.append_cancel_left hEvents
    subst hSame
    rw [List.map_append, map_snd_moment, ← List.append_assoc]
    exact ih (hInvariant.effect hFirst hEffect)

end Chronicle

end Talk

end Dialogue
