import Dialogue.Proofs.Talk.Moves
import Dialogue.Proofs.Talk.Slicing

/-!
# The clock, step by step

`Ticks` is what the clock does to a talk, one cue after the other, with every event at the time that the
clock shows when it is raised. Between two cues the clock may wait until a time at which nothing is due
yet, and events may be taken. Unlike a `Move`, a step of the clock leaves nothing open: the cue that fires
is the next one.

Main results:

* `Talk.ticks_fireDue`, `Talk.ticks_advanceTo`, `Talk.ticks_playOut` — how the clock is moved.
* `Talk.Ticks.plays` — what the clock does are moves.
-/

namespace Dialogue.Talk

/-- What the clock does to a talk, with all events that are raised and their times. -/
inductive Ticks : Talk → List (Millis × Event) → Talk → Prop where
  | refl (talk : Talk) : Ticks talk [] talk
  | fire {talk rest last : Talk} {limit : Millis} {cue : Cue} {timed : List (Millis × Event)}
      (hPop : talk.pop? limit = some (cue, rest)) (hRest : Ticks (rest.fire cue) timed last) :
      Ticks talk ((rest.firedEvents cue).map (rest.now, ·) ++ timed) last
  | wait {talk last : Talk} {time : Millis} {timed : List (Millis × Event)}
      (hPop : talk.pop? time = none) (hRest : Ticks (talk.clockTo time) timed last) :
      Ticks talk timed last
  | collect {talk last : Talk} {timed : List (Millis × Event)}
      (hRest : Ticks talk.collectEvents.2 timed last) : Ticks talk timed last

/-- Events of one moment, without their time. -/
theorem map_snd_moment (time : Millis) (events : List Event) :
    (events.map fun event => (time, event)).map Prod.snd = events := by
  rw [List.map_map]
  exact List.map_id' _

/-- What comes up on an agenda, and the clock then. -/
theorem pop?_eq_some {talk rest : Talk} {limit : Millis} {cue : Cue}
    (hPop : talk.pop? limit = some (cue, rest)) :
    ∃ next agenda, talk.agenda.pending = next :: agenda.pending ∧ next.due ≤ limit ∧
      agenda.now = max talk.now next.due ∧ cue = next.event ∧ rest = { talk with agenda } := by
  obtain ⟨⟨next, agenda⟩, hNext, hEq⟩ := Option.map_eq_some_iff.mp hPop
  simp only [Prod.mk.injEq] at hEq
  obtain ⟨rfl, rfl⟩ := hEq
  obtain ⟨hPending, hDue, hNow⟩ := Agenda.pop?_eq_some hNext
  exact ⟨next, agenda, hPending, hDue, hNow, rfl, rfl⟩

theorem alike_clockTo (talk : Talk) (time : Millis) : Alike talk (talk.clockTo time) :=
  ⟨rfl, rfl, rfl, Millis.le_max_left _ _, rfl, rfl, fun _ => rfl, rfl, rfl⟩

theorem alike_collectEvents (talk : Talk) : Alike talk talk.collectEvents.2 :=
  ⟨rfl, rfl, rfl, Millis.le_refl _, rfl, rfl, fun _ => rfl, rfl, rfl⟩

namespace Ticks

variable {first talk last : Talk} {timed more : List (Millis × Event)}

/-- Two stretches of ticking make one, with the times in a row. -/
theorem trans (h : Ticks first timed talk) (h' : Ticks talk more last) :
    Ticks first (timed ++ more) last := by
  induction h with
  | refl talk => exact h'
  | fire hPop hRest ih =>
    rw [List.append_assoc]
    exact .fire hPop (ih h')
  | wait hPop hRest ih => exact .wait hPop (ih h')
  | collect hRest ih => exact .collect (ih h')

/-- What the clock does are moves. -/
theorem plays (h : Ticks talk timed last) : Plays talk (timed.map Prod.snd) last := by
  induction h with
  | refl talk => exact .refl talk
  | @fire talk rest last limit cue timed hPop hRest ih =>
    obtain ⟨agenda, hTaken, rfl⟩ := taken_of_pop? hPop
    have hEvents : firedEvents { talk with agenda } cue = talk.firedEvents cue := by
      cases cue <;> rfl
    rw [List.map_append, map_snd_moment, hEvents]
    exact .move (.fire hTaken) ih
  | @wait talk last time timed hPop hRest ih => exact .move (.quiet (talk.alike_clockTo time)) ih
  | @collect talk last timed hRest ih => exact .move (.quiet talk.alike_collectEvents) ih

end Ticks

/-! ## How the clock is moved -/

/-- Handing out all that is due is ticking, with each event at the time of its cue. -/
theorem ticks_fireDue (talk : Talk) (limit : Millis) :
    ∃ timed, Ticks talk timed (talk.fireDue limit) ∧
      (talk.fireDue limit).events = talk.events ++ timed.map Prod.snd := by
  fun_induction fireDue talk limit with
  | case1 talk hPop => exact ⟨[], .refl talk, by simp⟩
  | case2 talk cue rest hPop ih =>
    -- the cue fires first, and the ticking of the rest follows
    obtain ⟨timed, hTicks, hEvents⟩ := ih
    have hRest : rest.events = talk.events := by
      obtain ⟨agenda, -, rfl⟩ := taken_of_pop? hPop
      rfl
    refine ⟨_, .fire hPop hTicks, ?_⟩
    rw [hEvents, events_fire, hRest, List.map_append, map_snd_moment, List.append_assoc]

/-- Moving the clock is ticking, with the events that waited handed out in front. -/
theorem ticks_advanceTo (talk : Talk) (time : Millis) :
    ∃ timed, Ticks talk timed (talk.advanceTo time).2 ∧
      (talk.advanceTo time).1 = talk.events ++ timed.map Prod.snd := by
  obtain ⟨timed, hTicks, hEvents⟩ := talk.ticks_fireDue time
  have hStop : Ticks (talk.fireDue time) [] (talk.advanceTo time).2 :=
    .wait (talk.pop?_fireDue time) (.collect (.refl _))
  refine ⟨timed, ?_, hEvents⟩
  rw [← List.append_nil timed]
  exact hTicks.trans hStop

/-- Playing out comes to its end when nothing is left, and all events are handed out then. -/
theorem ticks_playOut (talk : Talk) :
    ∃ timed, Ticks talk timed talk.playOut.2 ∧
      talk.playOut.1 = talk.events ++ timed.map Prod.snd ∧ talk.playOut.2.events = [] ∧
      talk.playOut.2.agenda.pending = [] := by
  fun_induction playOut talk with
  | case1 talk hDue =>
    exact ⟨[], .collect (.refl _), by simp [collectEvents], rfl, Agenda.nextDue_eq_none.mp hDue⟩
  | case2 talk due hDue later last hRest ih =>
    -- up to the next due time, and on from there
    obtain ⟨timed, hTicks, hEvents⟩ := talk.ticks_advanceTo due
    rw [hRest] at ih
    obtain ⟨more, hMore, hLater, hTaken, hDone⟩ := ih
    refine ⟨timed ++ more, hTicks.trans hMore, ?_, hTaken, hDone⟩
    have hLater : later = more.map Prod.snd := hLater
    rw [hEvents, hLater, List.map_append, List.append_assoc]

end Dialogue.Talk
