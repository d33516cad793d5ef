import Dialogue.Proofs.Talk.Ticking

/-!
# Running out

A talk of which nothing more is asked is moved to its next due time again and again, until nothing is
left on its agenda. Every such round fires something, and what fires weighs more than what it puts on the
agenda, so the rounds come to an end, however late or early the cues are due and whatever the clock shows.
Nothing is due after the last time that the clock can show; so they fire what one move to that time
fires.

Main results:

* `Talk.FiresInTurn.length_add_load_le` — no more cues fire than the agenda weighs.
* `Talk.FiresInTurn.now_eq` — the clock stands at the latest of its own time and the due times fired.
* `Talk.Rounds.advanceTo_last` — all rounds together are one move to the last time, but for the clock.
* `Talk.Rounds.firesInTurn` — every round fires at least one cue.
* `Talk.rounds_playOut` — playing out makes such rounds.
-/

namespace Dialogue.Talk

/-! ## Cues in turn -/

/-- Appointments fire one after the other, each of them the next one on the agenda in its turn. -/
inductive FiresInTurn : Talk → List (Appointment Cue) → Talk → Prop where
  | refl (talk : Talk) : FiresInTurn talk [] talk
  | fire {talk last : Talk} {next : Appointment Cue} {agenda : Agenda Cue} {limit : Millis}
      {fired : List (Appointment Cue)} (hNext : talk.agenda.pop? limit = some (next, agenda))
      (hRest : FiresInTurn ({ talk with agenda }.fire next.event) fired last) :
      FiresInTurn talk (next :: fired) last

/-- The latest of a time and the due times of appointments. -/
def latest (now : Millis) (fired : List (Appointment Cue)) : Millis :=
  (fired.map Appointment.due).foldl max now

namespace FiresInTurn

variable {first talk last : Talk} {fired more : List (Appointment Cue)}

/-- What fires in two stretches fires in turn. -/
theorem trans (h : FiresInTurn first fired talk) (h' : FiresInTurn talk more last) :
    FiresInTurn first (fired ++ more) last := by
  induction h with
  | refl talk => exact h'
  | fire hNext hRest ih => exact .fire hNext (ih h')

/-- Events that were raised before make no difference to what fires. -/
theorem withEarlier (h : FiresInTurn talk fired last) (earlier : List Event) :
    FiresInTurn (talk.withEarlier earlier) fired (last.withEarlier earlier) := by
  induction h with
  | refl talk => exact .refl _
  | @fire talk last next agenda limit fired hNext hRest ih =>
    have hAgenda : (talk.withEarlier earlier).agenda = talk.agenda := rfl
    refine .fire (hAgenda ▸ hNext) ?_
    rw [← fire_withEarlier] at ih
    exact ih

/-- What fires was on the agenda, or weighs less than what put it there. -/
theorem length_add_load_le (h : FiresInTurn talk fired last) :
    fired.length + last.load ≤ talk.load := by
  induction h with
  | refl talk => exact Nat.le_of_eq (Nat.zero_add _)
  | @fire talk last next agenda limit fired hNext hRest ih =>
    have hPop : talk.pop? limit = some (next.event, { talk with agenda }) := by
      rw [pop?, hNext]
      rfl
    -- a cue takes its load with it, and the fading that it may schedule weighs less
    have hTaken := load_pop? hPop
    have hFired := load_fire { talk with agenda } next.event
    rw [List.length_cons]
    omega

/-- The clock stops at the due time of each cue that it has not passed. -/
theorem now_eq (h : FiresInTurn talk fired last) : last.now = latest talk.now fired := by
  induction h with
  | refl talk => rfl
  | @fire talk last next agenda limit fired hNext hRest ih =>
    have hNow : (Talk.fire { talk with agenda } next.event).now = max talk.now next.due := by
      rw [now_fire]
      exact (Agenda.pop?_eq_some hNext).2.2
    rw [ih, hNow]
    rfl

end FiresInTurn

/-- The clock never goes back. -/
theorem le_latest (now : Millis) (fired : List (Appointment Cue)) : now ≤ latest now fired := by
  induction fired generalizing now with
  | nil => exact Millis.le_refl _
  | cons next rest ih => exact Millis.le_trans (Millis.le_max_left now next.due) (ih _)

/-- Firing what is due by a time fires it in turn. -/
theorem fireDue_firesInTurn (talk : Talk) (limit : Millis) :
    ∃ fired, FiresInTurn talk fired (talk.fireDue limit) := by
  fun_induction fireDue talk limit with
  | case1 talk hPop => exact ⟨[], .refl talk⟩
  | case2 talk cue rest hPop ih =>
    obtain ⟨⟨next, agenda⟩, hNext, hEq⟩ := Option.map_eq_some_iff.mp hPop
    simp only [Prod.mk.injEq] at hEq
    obtain ⟨rfl, rfl⟩ := hEq
    obtain ⟨fired, hFires⟩ := ih
    exact ⟨next :: fired, .fire hNext hFires⟩

/-! ## Rounds -/

/-- Rounds of the clock until nothing is left: each takes it to the next due time. For every round, its due
time and the events handed out. -/
inductive Rounds : Talk → List (Millis × List Event) → Talk → Prop where
  | done {talk : Talk} (hDone : talk.nextDue = none) : Rounds talk [] talk
  | round {talk last : Talk} {due : Millis} {rounds : List (Millis × List Event)}
      (hDue : talk.nextDue = some due) (hRest : Rounds (talk.advanceTo due).2 rounds last) :
      Rounds talk ((due, (talk.advanceTo due).1) :: rounds) last

/-- Events that wait to be taken are handed out first, and make no other difference. -/
theorem advanceTo_withEarlier (talk : Talk) (earlier : List Event) (time : Millis) :
    (talk.withEarlier earlier).advanceTo time =
      (earlier ++ (talk.advanceTo time).1, (talk.advanceTo time).2) := by
  rw [advanceTo_eq, passTo_withEarlier]
  rfl

/-- The events that were taken can be given back. -/
theorem withEarlier_collectEvents (talk : Talk) :
    talk.collectEvents.2.withEarlier talk.events = talk := by
  simp [withEarlier, collectEvents]

/-- A round fires at least one cue, and its end is where the clock stands then. -/
theorem round_firesInTurn {talk : Talk} {due : Millis} (hDue : talk.nextDue = some due) :
    ∃ fired, 1 ≤ fired.length ∧ FiresInTurn talk fired
      ((talk.advanceTo due).2.withEarlier (talk.advanceTo due).1) := by
  obtain ⟨fired, hFires⟩ := talk.fireDue_firesInTurn due
  -- the first one is what is due next, so the clock need not be moved behind it
  obtain ⟨next, rest, rfl, hNext⟩ : ∃ next rest, fired = next :: rest ∧ next.due = due := by
    generalize hLast : talk.fireDue due = last at hFires
    cases hFires with
    | refl =>
      have hNone := talk.pop?_fireDue due
      rw [hLast] at hNone
      have hLater := Agenda.pop?_eq_none.mp (pop?_eq_none.mp hNone) due hDue
      exact absurd hLater (Nat.lt_irrefl _)
    | @fire _ _ next agenda limit rest hPop hRest =>
      obtain ⟨hPending, -, -⟩ := Agenda.pop?_eq_some hPop
      have hHead : talk.agenda.nextDue = some next.due := by
        rw [Agenda.nextDue, hPending]
        rfl
      exact ⟨next, rest, rfl, Option.some.inj (hHead.symm.trans hDue)⟩
  refine ⟨next :: rest, Nat.succ_le_succ (Nat.zero_le _), ?_⟩
  have hPassed : due ≤ (talk.fireDue due).now := by
    rw [hFires.now_eq, ← hNext]
    have hMax : next.due ≤ max talk.now next.due := by
      rw [Millis.le_def, Millis.toNat_max]
      exact Nat.le_max_right _ _
    exact Millis.le_trans hMax (le_latest _ rest)
  have hStop : talk.passTo due = talk.fireDue due := by
    have hAgenda : (talk.fireDue due).agenda.moveTo due = (talk.fireDue due).agenda := by
      refine Agenda.ext ?_ rfl
      apply Millis.ext
      have hNat : due.toNat ≤ (talk.fireDue due).agenda.now.toNat := hPassed
      simp only [Agenda.moveTo, Millis.toNat_max]
      omega
    show { talk.fireDue due with agenda := (talk.fireDue due).agenda.moveTo due } = talk.fireDue due
    rw [hAgenda]
  rw [advanceTo_eq, hStop]
  simpa [Talk.withEarlier] using hFires

namespace Rounds

variable {talk last : Talk} {rounds : List (Millis × List Event)}

/-- There is one way only to run out. -/
theorem unique {last' : Talk} {rounds' : List (Millis × List Event)} (h : Rounds talk rounds last)
    (h' : Rounds talk rounds' last') : rounds' = rounds ∧ last' = last := by
  induction h generalizing rounds' last' with
  | done hDone =>
    cases h' with
    | done => exact ⟨rfl, rfl⟩
    | round hDue hRest =>
      -- either something is due next or nothing is, and not both
      rw [hDone] at hDue
      cases hDue
  | round hDue hRest ih =>
    cases h' with
    | done hDone =>
      rw [hDue] at hDone
      cases hDone
    | round hDue' hRest' =>
      obtain rfl := Option.some.inj (hDue.symm.trans hDue')
      obtain ⟨rfl, rfl⟩ := ih hRest'
      exact ⟨rfl, rfl⟩

/-- After the last round nothing is due. -/
theorem nextDue_eq (h : Rounds talk rounds last) : last.nextDue = none := by
  induction h with
  | done hDone => exact hDone
  | round hDue hRest ih => exact ih

/-- All rounds together are one move to the last time, but for the clock. -/
theorem advanceTo_last (h : Rounds talk rounds last) :
    talk.advanceTo .last =
      (rounds.flatMap Prod.snd ++ last.events,
        { last with agenda := last.agenda.moveTo .last, events := [] }) := by
  induction h with
  | @done talk hDone =>
    -- nothing fires
    have hNone : talk.pop? .last = none := by
      refine pop?_eq_none.mpr (Agenda.pop?_eq_none.mpr fun due hDue => ?_)
      rw [show talk.agenda.nextDue = none from hDone] at hDue
      cases hDue
    rw [advanceTo_eq, passTo, fireDue_of_none hNone]
    rfl
  | @round talk last due rounds hDue hRest ih =>
    -- the stop at the due time makes no difference
    have hTwice := talk.advanceTo_advanceTo due .last
    rw [Millis.max_eq_right (show due ≤ .last from due.toNat_le), ih] at hTwice
    rw [← hTwice, List.flatMap_cons, List.append_assoc]

/-- Every round fires at least one cue. -/
theorem firesInTurn (h : Rounds talk rounds last) :
    ∃ fired, rounds.length ≤ fired.length ∧
      FiresInTurn talk fired (last.withEarlier (rounds.flatMap Prod.snd)) := by
  induction h with
  | done hDone => exact ⟨[], Nat.le_refl _, .refl _⟩
  | @round talk last due rounds hDue hRest ih =>
    obtain ⟨fired, hSome, hFires⟩ := round_firesInTurn hDue
    obtain ⟨more, hLength, hMore⟩ := ih
    -- at least one cue fires in each round
    refine ⟨fired ++ more, ?_, hFires.trans ?_⟩
    · rw [List.length_append, List.length_cons]
      omega
    · have hEarlier := hMore.withEarlier (talk.advanceTo due).1
      simpa [Talk.withEarlier, List.append_assoc] using hEarlier

end Rounds

/-- Playing out hands out the events that wait to be taken, and then those of its rounds. -/
theorem rounds_playOut (talk : Talk) :
    ∃ rounds, Rounds talk.collectEvents.2 rounds talk.playOut.2 ∧
      talk.playOut.1 = talk.events ++ rounds.flatMap Prod.snd := by
  fun_induction playOut talk with
  | case1 talk hDue => exact ⟨[], .done hDue, by simp [collectEvents]⟩
  | case2 talk due hDue later last hRest ih =>
    rw [hRest] at ih
    obtain ⟨rounds, hRounds, hLater⟩ := ih
    -- the first round, with and without the events that wait to be taken
    have hFirst := talk.collectEvents.2.advanceTo_withEarlier talk.events due
    rw [withEarlier_collectEvents] at hFirst
    have hNext : (talk.advanceTo due).2.collectEvents.2 = (talk.collectEvents.2.advanceTo due).2 := by
      rw [hFirst]
      rfl
    rw [hNext] at hRounds
    refine ⟨_, .round hDue hRounds, ?_⟩
    have hTaken : (talk.advanceTo due).2.events = [] := rfl
    rw [hTaken, List.nil_append] at hLater
    show (talk.advanceTo due).1 ++ later = _
    have hLater : later = rounds.flatMap Prod.snd := hLater
    rw [hLater, hFirst, List.flatMap_cons, List.append_assoc]

end Dialogue.Talk
