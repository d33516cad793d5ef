import Dialogue.Proofs.Agenda.Queued

/-!
# What an agenda hands out

An agenda keeps its appointments in order and has no numbers. Over any steps it answers as a docket does,
which numbers its tickets and looks for the least one each time; and so does an agenda that leaves the order
to a priority queue, whatever the queue. What comes up first is thus always what is due first, and among
what is due at one time, what was scheduled first, however the steps are mixed.

Main results:

* `Agenda.perform_follows` — each step answers as a docket does, and the order stays the docket's.
* `Agenda.serves_in_order` — the answers of any steps, and what they leave.
-/

namespace Dialogue

variable {α : Type}

namespace Agenda

def perform (agenda : Agenda α) : Step α → Answer α × Agenda α
  | .schedule due event => (.done, agenda.schedule due event)
  | .pop limit =>
    match agenda.pop? limit with
    | some (next, rest) => (.next (some next), rest)
    | none => (.next none, agenda)
  | .moveTo time => (.done, agenda.moveTo time)
  | .cancel drops => (.struck (agenda.cancelled drops), agenda.cancel drops)

end Agenda

/-- The agenda on which the waiting tickets stand. -/
def Docket.agenda (docket : Docket α) : Agenda (Nat × α) where
  now := docket.now
  pending := docket.inOrder
  sorted := docket.pairwise_le_inOrder.imp Ticket.due_le_of_le

namespace Agenda

/-- An agenda on which the tickets of a docket stand without their numbers. -/
structure Follows (docket : Docket α) (agenda : Agenda α) : Prop where
  sound : docket.Sound
  numbered : agenda = docket.agenda.map Prod.snd

/-- An empty agenda follows a docket on which nothing has been issued. -/
theorem follows_empty (start : Millis) : Follows (.opened start) (empty start : Agenda α) :=
  ⟨Docket.sound_opened start,
    ext rfl (by simp [empty, map, Docket.agenda, Docket.inOrder, Docket.opened])⟩

namespace Follows

variable {docket : Docket α} {agenda : Agenda α}

/-- The appointments of the agenda are the tickets of the docket in order. -/
theorem pending_eq (h : Follows docket agenda) :
    agenda.pending = docket.inOrder.map Ticket.appointment := by
  rw [h.numbered]
  rfl

/-- What is due next is the first ticket. -/
theorem nextDue_eq (h : Follows docket agenda) :
    agenda.nextDue = docket.first?.map Appointment.due := by
  rw [nextDue, h.pending_eq, h.sound.first?_eq, List.head?_map, Option.map_map]
  rfl

theorem size_eq (h : Follows docket agenda) : agenda.size = docket.waiting.length := by
  rw [size, h.pending_eq, List.length_map, docket.perm_inOrder.length_eq]

/-- A new appointment stands where its ticket does. -/
theorem schedule (h : Follows docket agenda) (due : Millis) (event : α) :
    Follows (docket.perform (.schedule due event)).2 (agenda.schedule due event) := by
  refine ⟨docket.sound_perform _ h.sound, ?_⟩
  have hScheduled : docket.agenda.schedule due (docket.issued, event) =
      (docket.perform (.schedule due event)).2.agenda :=
    ext rfl (h.sound.inOrder_schedule due event).symm
  rw [h.numbered, ← hScheduled, ← schedule_map]

/-- The agenda takes what the docket hands out; if that is nothing, nothing changes. -/
theorem pop (h : Follows docket agenda) (limit : Millis) :
    (agenda.perform (.pop limit)).1 = Step.answer (.pop limit) (docket.perform (.pop limit)).1 ∧
      Follows (docket.perform (.pop limit)).2 (agenda.perform (.pop limit)).2 := by
  cases hPop : agenda.pop? limit with
  | none =>
    -- nothing is due, so that no ticket is handed out either
    have hPerform : agenda.perform (.pop limit) = (.next none, agenda) := by simp only [perform, hPop]
    have hNone : docket.perform (.pop limit) = ([], docket) := by
      refine h.sound.perform_pop_of_not_due limit fun next hNext => Nat.not_le.mpr ?_
      refine pop?_eq_none.mp hPop next.due ?_
      rw [h.nextDue_eq, h.sound.first?_eq, hNext]
      rfl
    rw [hPerform, hNone]
    exact ⟨rfl, h⟩
  | some taken =>
    obtain ⟨next, rest⟩ := taken
    have hPerform : agenda.perform (.pop limit) = (.next (some next), rest) := by
      simp only [perform, hPop]
    obtain ⟨hPending, hDue, hNow⟩ := pop?_eq_some hPop
    -- the appointment is the first one in order, and its ticket is handed out
    rw [h.pending_eq, List.map_eq_cons_iff] at hPending
    obtain ⟨ticket, others, hOrder, rfl, hOthers⟩ := hPending
    obtain ⟨hHanded, hLeft, hLater⟩ := h.sound.perform_pop_of_due hOrder hDue
    rw [hPerform]
    refine ⟨?_, docket.sound_perform _ h.sound, ext ?_ ?_⟩
    · rw [hHanded]
      rfl
    · show rest.now = (docket.perform (.pop limit)).2.now
      rw [hLater, hNow, h.numbered]
      rfl
    · show rest.pending = (docket.perform (.pop limit)).2.inOrder.map Ticket.appointment
      rw [hLeft, hOthers]

/-- The clocks go together. -/
theorem moveTo (h : Follows docket agenda) (time : Millis) :
    Follows (docket.perform (.moveTo time)).2 (agenda.moveTo time) := by
  refine ⟨docket.sound_perform _ h.sound, ?_⟩
  rw [h.numbered]
  rfl

/-- What is dropped from the agenda is what is struck out on the docket. -/
theorem cancel (h : Follows docket agenda) (drops : α → Bool) :
    agenda.cancelled drops = (docket.perform (.cancel drops)).1.map (fun x => x.event.2) ∧
      Follows (docket.perform (.cancel drops)).2 (agenda.cancel drops) := by
  refine ⟨?_, docket.sound_perform _ h.sound, ?_⟩
  · rw [cancelled, h.pending_eq, List.map_map, List.filter_map]
    rfl
  · have hKept : docket.agenda.cancel (fun event => drops event.2) =
        (docket.perform (.cancel drops)).2.agenda :=
      ext rfl (h.sound.inOrder_filter docket.now fun x => !drops x.event.2).symm
    rw [h.numbered, ← hKept]
    exact cancel_map Prod.snd (fun _ => rfl) docket.agenda

end Follows

/-- Each step answers as a docket does, and the tickets stand in the docket's order. -/
theorem perform_follows (docket : Docket α) (agenda : Agenda α) (step : Step α)
    (h : Follows docket agenda) :
    (agenda.perform step).1 = step.answer (docket.perform step).1 ∧
      Follows (docket.perform step).2 (agenda.perform step).2 := by
  cases step with
  | schedule due event => exact ⟨rfl, h.schedule due event⟩
  | pop limit => exact h.pop limit
  | moveTo time => exact ⟨rfl, h.moveTo time⟩
  | cancel drops =>
    obtain ⟨hStruck, hFollows⟩ := h.cancel drops
    exact ⟨congrArg Answer.struck hStruck, hFollows⟩

/-! ## All steps -/

/-- What a clock and a list of appointments show from outside. -/
structure Shows (docket : Docket α) (now : Millis) (nextDue : Option Millis) (size : Nat) : Prop where
  now : now = docket.now
  nextDue : nextDue = docket.first?.map Appointment.due
  size : size = docket.waiting.length

/-- Seen from outside, an agenda that follows a docket is as the docket says. -/
theorem Follows.shows {docket : Docket α} {agenda : Agenda α} (h : Follows docket agenda) :
    Shows docket agenda.now agenda.nextDue agenda.size :=
  ⟨by rw [h.numbered]; rfl, h.nextDue_eq, h.size_eq⟩

/-- An agenda follows its docket through any steps, and the answers are those of the docket. -/
theorem runAll_follows {docket : Docket α} {agenda : Agenda α} (h : Follows docket agenda)
    (steps : List (Step α)) :
    (runAll perform agenda steps).1 = steps.zipWith Step.answer (runAll Docket.perform docket steps).1 ∧
      Follows (runAll Docket.perform docket steps).2 (runAll perform agenda steps).2 :=
  runAll_simulates perform_follows h steps

/-- Taking all that is due: the answers are the appointments due, in order, and then nothing. -/
theorem Follows.runAll_pops {docket : Docket α} {agenda : Agenda α} (h : Follows docket agenda)
    (limit : Millis) :
    (runAll perform agenda (.replicate ((docket.dueBy limit).length + 1) (.pop limit))).1 =
        (docket.dueBy limit).map (fun x => .next (some x.appointment)) ++ [.next none] ∧
      (runAll perform agenda (.replicate ((docket.dueBy limit).length + 1) (.pop limit))).2.pending =
        (docket.dueAfter limit).map Ticket.appointment := by
  obtain ⟨hHanded, hLeft⟩ := h.sound.runAll_pops limit
  obtain ⟨hAnswers, hFollows⟩ :=
    runAll_follows h (.replicate ((docket.dueBy limit).length + 1) (.pop limit))
  rw [hAnswers, hFollows.pending_eq, hHanded, hLeft]
  refine ⟨?_, rfl⟩
  -- all the steps are the same
  have hLength : (docket.dueBy limit).length + 1 =
      ((docket.dueBy limit).map ([·]) ++ [[]]).length := by simp
  rw [hLength, ← List.map_const', List.zipWith_map_left, List.zipWith_self, List.map_append,
    List.map_map]
  rfl

/-- For any steps from any time on, there are the tickets that a docket hands out and those that wait on
it, and:

* an agenda answers with these tickets, without their numbers, and what waits stands on it in order;
* so does an agenda on any priority queue;
* the clock shows the start, or the latest of the times that it was moved to and of those at which
  appointments that were taken were due;
* each of the tickets, which are numbered as they are scheduled, is handed out once or it waits;
* to take what is due by some time, again and again, gives all that is due by then, in order, and leaves
  the rest. -/
theorem serves_in_order (start : Millis) (steps : List (Step α)) :
    ∃ handed docket, runAll Docket.perform (.opened start) steps = (handed, docket) ∧
      ∃ agenda, runAll perform (empty start) steps = (steps.zipWith Step.answer handed, agenda) ∧
        Shows docket agenda.now agenda.nextDue agenda.size ∧
        agenda.pending = docket.inOrder.map Ticket.appointment ∧
        docket.inOrder.Perm docket.waiting ∧ docket.inOrder.Pairwise Ticket.Before ∧
        docket.first? = docket.inOrder.head? ∧
        (∀ backing, ∃ queued,
          runAll Queued.perform (.opened backing start) steps =
              (steps.zipWith Step.answer handed, queued) ∧
            Shows docket queued.now queued.nextDue queued.size) ∧
        docket.now = (steps.zipWith Step.times handed).flatten.foldl max start ∧
        (handed.flatten ++ docket.waiting).Perm (Ticket.issue 0 (steps.flatMap Step.made)) ∧
        ∀ limit, ∃ later,
          runAll perform agenda (.replicate ((docket.dueBy limit).length + 1) (.pop limit)) =
              ((docket.dueBy limit).map (fun x => .next (some x.appointment)) ++ [.next none], later) ∧
            later.pending = (docket.dueAfter limit).map Ticket.appointment := by
  have hOpened : (Docket.opened start : Docket α).Sound := Docket.sound_opened start
  obtain ⟨hAnswers, hFollows⟩ := runAll_follows (follows_empty start) steps
  refine ⟨_, _, rfl, _, Prod.ext hAnswers rfl, hFollows.shows, hFollows.pending_eq,
    Docket.perm_inOrder _, hFollows.sound.pairwise_inOrder, hFollows.sound.first?_eq, ?_, ?_, ?_, ?_⟩
  · intro backing
    -- any queue does what the docket does, and the docket does what the agenda does
    obtain ⟨hQueued, hHolds⟩ :=
      runAll_simulates Queued.perform_holds (Queued.holds_opened backing start) steps
    exact ⟨_, Prod.ext hQueued rfl, hHolds.now, hHolds.nextDue_eq, hHolds.size_eq⟩
  · exact Docket.now_runAll _ steps
  · exact hOpened.perm_runAll steps
  · intro limit
    obtain ⟨hTaken, hLeft⟩ := hFollows.runAll_pops limit
    exact ⟨_, Prod.ext hTaken rfl, hLeft⟩

/-- Appointments at one time, a late one, and one that is cancelled among the others. -/
def busy : List (Step String) :=
  [.schedule 50 "wave", .schedule 50 "nod", .moveTo 60, .schedule 10 "wake", .pop 40,
    .cancel (· = "wave"), .schedule 50 "bow", .pop 50, .pop 50, .pop 50]

/-- On a priority queue, too, those due at 50 come up as they were scheduled. -/
theorem serves_in_order_busy :
    ∃ queued, runAll Queued.perform (.opened .ofTickets 0) busy =
        ([.done, .done, .done, .done, .next (some ⟨10, "wake"⟩), .struck ["wave"], .done,
          .next (some ⟨50, "nod"⟩), .next (some ⟨50, "bow"⟩), .next none], queued) ∧
      queued.now = 60 ∧ queued.nextDue = none := by
  obtain ⟨handed, docket, -, agenda, hAgenda, hShows, -, -, -, -, hQueues, -⟩ :=
    serves_in_order 0 busy
  obtain ⟨queued, hQueued, hShows'⟩ := hQueues .ofTickets
  have hAnswers : (runAll perform (empty 0) busy).1 =
      [.done, .done, .done, .done, .next (some ⟨10, "wake"⟩), .struck ["wave"], .done,
        .next (some ⟨50, "nod"⟩), .next (some ⟨50, "bow"⟩), .next none] := by decide
  have hLast : (runAll perform (empty 0) busy).2.now = 60 ∧
      (runAll perform (empty 0) busy).2.nextDue = none := by decide
  rw [hAgenda] at hAnswers hLast
  refine ⟨queued, ?_, ?_, ?_⟩
  · exact hQueued.trans (Prod.ext hAnswers rfl)
  · rw [hShows'.now, ← hShows.now, hLast.1]
  · rw [hShows'.nextDue, ← hShows.nextDue, hLast.2]

end Agenda

end Dialogue
