import Dialogue.Proofs.Agenda.Order
import Dialogue.Proofs.Talk.Effects

/-!
# Slices of time

A host may move the clock of a talk in many small steps or in a few large ones. A stop in between moves
the clock without firing anything, and what fires afterwards is due later than the stop, so it sees the
clock at its own due time either way. Events that were taken at the stop are those that would have been
raised first.

Main results:

* `Talk.fire_withEarlier` — what a cue does has nothing to do with the events that wait to be taken.
* `Talk.fireDue_fireDue` — firing up to a time and on from there fires all in one order.
* `Talk.passTo_passTo` — a stop on the way makes no difference to the talk.
* `Talk.slicing_irrelevant` — so moving the clock twice is moving it once.
-/

namespace Dialogue.Talk

/-! ## Events that wait to be taken -/

/-- The talk, if `earlier` had been raised before all that waits to be taken. -/
def withEarlier (talk : Talk) (earlier : List Event) : Talk :=
  { talk with events := earlier ++ talk.events }

section Earlier

variable (talk : Talk) (earlier : List Event)

theorem raise_withEarlier (event : Event) :
    (talk.withEarlier earlier).raise event = (talk.raise event).withEarlier earlier := by
  simp [withEarlier, raise]

/-- To be played does not depend on the events that wait. -/
theorem markPlayed_withEarlier (outcome : Outcome) :
    (talk.withEarlier earlier).markPlayed outcome =
      (talk.markPlayed outcome).withEarlier earlier := by
  have hPending : (talk.withEarlier earlier).isPending .played = talk.isPending .played := rfl
  unfold markPlayed
  rw [hPending]
  split
  · exact raise_withEarlier (talk.settle .played outcome) earlier _
  · rfl

/-- Showing an entry does not depend on the events that wait. -/
theorem showEntry_withEarlier (entry : Nat) :
    (talk.withEarlier earlier).showEntry entry = (talk.showEntry entry).withEarlier earlier := by
  have hMarked : (talk.withEarlier earlier).marked? entry = talk.marked? entry := rfl
  unfold showEntry
  rw [hMarked]
  cases talk.marked? entry with
  | none => rfl
  | some found =>
    obtain ⟨place, e⟩ := found
    exact raise_withEarlier { talk with scrap := _ } earlier _

/-- Performing an emote does not depend on the events that wait. -/
theorem performAt_withEarlier (entry : Nat) :
    (talk.withEarlier earlier).performAt entry = (talk.performAt entry).withEarlier earlier := by
  have hMarked : (talk.withEarlier earlier).marked? entry = talk.marked? entry := rfl
  unfold performAt
  rw [hMarked]
  cases (talk.marked? entry).bind fun x => x.2.emote? with
  | none => rfl
  | some name => simp [performEmote, raise, withEarlier]

/-- A reveal does not depend on events that wait to be taken. -/
theorem reveal_withEarlier (entry : Nat) (last : Bool) :
    (talk.withEarlier earlier).reveal entry last =
      (talk.reveal entry last).withEarlier earlier := by
  have hAnimates : (talk.withEarlier earlier).animates = talk.animates := rfl
  have hFade : ∀ t : Talk, (t.withEarlier earlier).startFade entry =
      (t.startFade entry).withEarlier earlier := fun _ => rfl
  unfold reveal
  simp only [hAnimates, showEntry_withEarlier]
  -- with or without the animation, and with or without the end of the text
  split <;> split <;> simp only [performAt_withEarlier, hFade, markPlayed_withEarlier]

/-- The end of fading does not depend on the events that wait. -/
theorem endFade_withEarlier (entry : Nat) :
    (talk.withEarlier earlier).endFade entry = (talk.endFade entry).withEarlier earlier := by
  have hMarked : (talk.withEarlier earlier).marked? entry = talk.marked? entry := rfl
  unfold endFade
  rw [hMarked]
  cases talk.marked? entry with
  | none => exact raise_withEarlier talk earlier _
  | some found =>
    obtain ⟨place, e⟩ := found
    exact raise_withEarlier { talk with scrap := _ } earlier _

/-- The end of a talk does not depend on the events that wait. -/
theorem conclude_withEarlier :
    (talk.withEarlier earlier).conclude = talk.conclude.withEarlier earlier := by
  have hPending : (talk.withEarlier earlier).isPending .closed = talk.isPending .closed := rfl
  unfold conclude
  rw [hPending]
  split
  · simp [withEarlier, raise, settle, report]
  · rfl

/-- The end of a section does not depend on the events that wait. -/
theorem endClosing_withEarlier (number : Nat) :
    (talk.withEarlier earlier).endClosing number =
      (talk.endClosing number).withEarlier earlier := by
  have hRaise := raise_withEarlier
    { talk with
      areas := talk.areas.modify number AreaRecord.detach
      closesLeft := talk.closesLeft - 1 } earlier (.sectionClosed number)
  -- the last animation ends the talk
  have hLast : ∀ t : Talk,
      (if (t.withEarlier earlier).closesLeft = 0 then (t.withEarlier earlier).conclude
        else t.withEarlier earlier) =
      (if t.closesLeft = 0 then t.conclude else t).withEarlier earlier := by
    intro t
    rw [conclude_withEarlier]
    show (if t.closesLeft = 0 then _ else _) = _
    split <;> rfl
  exact (congrArg (fun t : Talk => if t.closesLeft = 0 then t.conclude else t) hRaise).trans
    (hLast _)

/-- What a cue does has nothing to do with the events that wait to be taken. -/
theorem fire_withEarlier (cue : Cue) :
    (talk.withEarlier earlier).fire cue = (talk.fire cue).withEarlier earlier := by
  cases cue with
  | reveal entry last => exact talk.reveal_withEarlier earlier entry last
  | fadeEnd entry => exact talk.endFade_withEarlier earlier entry
  | closeEnd number => exact talk.endClosing_withEarlier earlier number

end Earlier

/-! ## Firing in two parts -/

/-- Which cue is next does not depend on the events that wait. -/
theorem pop?_withEarlier {talk rest : Talk} {limit : Millis} {cue : Cue} (earlier : List Event)
    (hPop : talk.pop? limit = some (cue, rest)) :
    (talk.withEarlier earlier).pop? limit = some (cue, rest.withEarlier earlier) := by
  obtain ⟨⟨next, agenda⟩, hNext, hEq⟩ := Option.map_eq_some_iff.mp hPop
  simp only [Prod.mk.injEq] at hEq
  obtain ⟨rfl, rfl⟩ := hEq
  have hSame : (talk.withEarlier earlier).agenda = talk.agenda := rfl
  rw [pop?, hSame, hNext]
  rfl

/-- No cue pops up exactly if none is due. -/
theorem pop?_eq_none {talk : Talk} {limit : Millis} :
    talk.pop? limit = none ↔ talk.agenda.pop? limit = none := Option.map_eq_none_iff

/-- One cue fires, and then the others that are due. -/
theorem fireDue_of_pop? {talk rest : Talk} {limit : Millis} {cue : Cue}
    (hPop : talk.pop? limit = some (cue, rest)) :
    talk.fireDue limit = (rest.fire cue).fireDue limit := by
  rw [fireDue]
  split
  · rename_i hNone
    rw [hPop] at hNone
    cases hNone
  · rename_i hSome
    rw [hPop] at hSome
    cases hSome
    rfl

/-- Where nothing is due, nothing fires. -/
theorem fireDue_of_none {talk : Talk} {limit : Millis} (hPop : talk.pop? limit = none) :
    talk.fireDue limit = talk := by
  rw [fireDue]
  split
  · rfl
  · rename_i hSome
    rw [hPop] at hSome
    cases hSome

/-- What fires by a time does not depend on the events that wait. -/
theorem fireDue_withEarlier (talk : Talk) (earlier : List Event) (limit : Millis) :
    (talk.withEarlier earlier).fireDue limit = (talk.fireDue limit).withEarlier earlier := by
  fun_induction fireDue talk limit with
  | case1 talk hPop =>
    have hNone : (talk.withEarlier earlier).pop? limit = none := by
      rw [pop?_eq_none] at hPop ⊢
      exact hPop
    rw [fireDue_of_none hNone]
  | case2 talk cue rest hPop ih =>
    rw [fireDue_of_pop? (pop?_withEarlier earlier hPop), fire_withEarlier, ih]

/-- When the cues that are due have fired, nothing due is left. -/
theorem pop?_fireDue (talk : Talk) (limit : Millis) : (talk.fireDue limit).pop? limit = none := by
  fun_induction fireDue talk limit with
  | case1 talk hPop => exact hPop
  | case2 talk cue rest hPop ih => exact ih

/-- A cue that is due by one time is due by every later one. -/
theorem pop?_mono {talk rest : Talk} {limit later : Millis} {cue : Cue} (hLe : limit ≤ later)
    (hPop : talk.pop? limit = some (cue, rest)) : talk.pop? later = some (cue, rest) := by
  obtain ⟨⟨next, agenda⟩, hNext, hEq⟩ := Option.map_eq_some_iff.mp hPop
  rw [pop?, Agenda.pop?_mono hLe hNext, Option.map_some, hEq]

/-- Firing what is due by a time and then what is due by a later one fires all in one order. -/
theorem fireDue_fireDue (talk : Talk) {limit later : Millis} (hLe : limit ≤ later) :
    (talk.fireDue limit).fireDue later = talk.fireDue later := by
  fun_induction fireDue talk limit with
  | case1 talk hPop => rfl
  | case2 talk cue rest hPop ih =>
    -- the first cue to fire is the same one
    rw [ih, fireDue_of_pop? (pop?_mono hLe hPop)]

/-! ## Stops of the clock -/

/-- The talk with its clock moved forward to a time, and nothing fired. -/
def clockTo (talk : Talk) (time : Millis) : Talk :=
  { talk with agenda := talk.agenda.moveTo time }

/-- The talk after its clock has moved to a time, with all events still to be taken. -/
def passTo (talk : Talk) (time : Millis) : Talk := (talk.fireDue time).clockTo time

/-- Of two times at which the clock is stopped, the later counts. -/
theorem clockTo_clockTo (talk : Talk) (time later : Millis) :
    (talk.clockTo time).clockTo later = talk.clockTo (max time later) := by
  unfold clockTo
  rw [← Agenda.moveTo_moveTo]

/-- Stopping the clock makes nothing due. -/
theorem pop?_clockTo_eq_none {talk : Talk} {time limit : Millis} :
    (talk.clockTo time).pop? limit = none ↔ talk.pop? limit = none := by
  rw [pop?_eq_none, pop?_eq_none]
  exact Agenda.pop?_moveTo_eq_none

/-- To advance is to pass to the time, and to hand out the events. -/
theorem advanceTo_eq (talk : Talk) (time : Millis) :
    talk.advanceTo time = ((talk.passTo time).events, { talk.passTo time with events := [] }) := rfl

/-- Passing to a time does not depend on the events that wait. -/
theorem passTo_withEarlier (talk : Talk) (earlier : List Event) (time : Millis) :
    (talk.withEarlier earlier).passTo time = (talk.passTo time).withEarlier earlier := by
  unfold passTo
  rw [fireDue_withEarlier]
  rfl

/-- At a stop, nothing that is due by then is left. -/
theorem pop?_passTo (talk : Talk) (time : Millis) : (talk.passTo time).pop? time = none :=
  pop?_clockTo_eq_none.mpr (talk.pop?_fireDue time)

/-- What is left after passing to a time is due later. -/
theorem lt_due_passTo (talk : Talk) (time : Millis) :
    ∀ x ∈ (talk.passTo time).agenda.pending, time < x.due :=
  Agenda.lt_due_of_pop?_eq_none (pop?_eq_none.mp (talk.pop?_passTo time))

/-- A stop at which nothing is due does not change what fires next. -/
theorem pop?_clockTo {talk rest : Talk} {time later : Millis} {cue : Cue}
    (hStop : talk.pop? time = none) (hPop : talk.pop? later = some (cue, rest)) :
    (talk.clockTo time).pop? later = some (cue, rest) := by
  obtain ⟨⟨next, agenda⟩, hNext, hEq⟩ := Option.map_eq_some_iff.mp hPop
  -- the next cue is due after the stop
  have hMem : next ∈ talk.agenda.pending := by
    rw [(Agenda.pop?_eq_some hNext).1]
    exact List.mem_cons_self ..
  have hAfter : time < next.due := Agenda.lt_due_of_pop?_eq_none (pop?_eq_none.mp hStop) next hMem
  have hMoved := Agenda.pop?_moveTo (Nat.le_of_lt hAfter) hNext
  rw [← hEq]
  show ((talk.agenda.moveTo time).pop? later).map _ = _
  rw [hMoved]
  rfl

/-- A stop on the way to a later time makes no difference to the talk. -/
theorem passTo_passTo_of_le (talk : Talk) {time later : Millis} (hLe : time ≤ later) :
    (talk.passTo time).passTo later = talk.passTo later := by
  have hStop := talk.pop?_fireDue time
  have hAll := talk.fireDue_fireDue hLe
  cases hPop : (talk.fireDue time).pop? later with
  | none =>
    -- nothing fires after the stop, and the clock moves on
    have hNone : (talk.passTo time).pop? later = none := pop?_clockTo_eq_none.mpr hPop
    rw [fireDue_of_none hPop] at hAll
    calc (talk.passTo time).passTo later
        = (talk.passTo time).clockTo later := congrArg (·.clockTo later) (fireDue_of_none hNone)
      _ = (talk.fireDue time).clockTo (max time later) := clockTo_clockTo ..
      _ = talk.passTo later := by rw [Millis.max_eq_right hLe, hAll]; rfl
  | some found =>
    -- what fires first after the stop takes the clock to its own due time
    obtain ⟨cue, rest⟩ := found
    have hMoved : (talk.passTo time).pop? later = some (cue, rest) := pop?_clockTo hStop hPop
    have hSame : (talk.passTo time).fireDue later = talk.fireDue later := by
      rw [fireDue_of_pop? hMoved, ← fireDue_of_pop? hPop, hAll]
    exact congrArg (·.clockTo later) hSame

/-- Nothing happens where the clock has passed the time that it is moved to. -/
theorem passTo_passTo_of_lt (talk : Talk) {time later : Millis} (hLt : later < time) :
    (talk.passTo time).passTo later = talk.passTo time := by
  have hNat : later.toNat < time.toNat := hLt
  have hMax : max time later = time := by
    apply Millis.ext
    rw [Millis.toNat_max]
    omega
  have hNone : (talk.passTo time).pop? later = none := by
    cases hPop : (talk.passTo time).pop? later with
    | none => rfl
    | some found =>
      -- what is due by the earlier time would be due by the later one
      have hDue := pop?_mono (Nat.le_of_lt hLt) hPop
      rw [pop?_passTo] at hDue
      cases hDue
  calc (talk.passTo time).passTo later
      = (talk.passTo time).clockTo later := congrArg (·.clockTo later) (fireDue_of_none hNone)
    _ = (talk.fireDue time).clockTo (max time later) := clockTo_clockTo ..
    _ = talk.passTo time := by rw [hMax]; rfl

/-- Passing to one time and then to another is passing to the later one. -/
theorem passTo_passTo (talk : Talk) (time later : Millis) :
    (talk.passTo time).passTo later = talk.passTo (max time later) := by
  show _ = talk.passTo (if time ≤ later then later else time)
  split
  · rename_i hLe
    exact talk.passTo_passTo_of_le hLe
  · rename_i hNot
    exact talk.passTo_passTo_of_lt (Nat.lt_of_not_le hNot)

/-! ## The clock -/

/-- Firing does not move the clock. -/
theorem now_fire (talk : Talk) (cue : Cue) : (talk.fire cue).now = talk.now := by
  unfold now
  cases cue with
  | reveal entry last =>
    obtain ⟨outbox, hReveal⟩ := talk.reveal_eq entry last
    rw [fire, hReveal]
    -- with animation, the end of the fade is put on the agenda
    show (if talk.animates then _ else _ : Agenda Cue).now = _
    split <;> rfl
  | fadeEnd entry => rw [fire, agenda_endFade]
  | closeEnd number => rw [fire, agenda_endClosing]

/-- Firing takes the clock no further than the limit. -/
theorem now_fireDue_le (talk : Talk) (limit : Millis) :
    (talk.fireDue limit).now ≤ max talk.now limit := by
  fun_induction fireDue talk limit with
  | case1 talk hPop => exact Millis.le_max_left _ _
  | case2 talk cue rest hPop ih =>
    obtain ⟨⟨next, agenda⟩, hNext, hEq⟩ := Option.map_eq_some_iff.mp hPop
    simp only [Prod.mk.injEq] at hEq
    obtain ⟨rfl, rfl⟩ := hEq
    obtain ⟨-, hDue, hNow⟩ := Agenda.pop?_eq_some hNext
    -- the clock moved to a due time, which is within the limit
    have hRest : (Talk.fire { talk with agenda } next.event).now = max talk.now next.due := by
      rw [now_fire]
      exact hNow
    rw [hRest, Millis.le_def, Millis.toNat_max, Millis.toNat_max] at ih
    rw [Millis.le_def, Millis.toNat_max]
    rw [Millis.le_def] at hDue
    omega

/-- The clock reads the time that it was moved to, if that had not passed. -/
theorem now_passTo {talk : Talk} {time : Millis} (hAhead : talk.now ≤ time) :
    (talk.passTo time).now = time := by
  have hFired := talk.now_fireDue_le time
  rw [Millis.max_eq_right hAhead] at hFired
  exact Millis.max_eq_right hFired

/-! ## Playing out -/

/-- Where nothing is due, playing out is to take the events. -/
theorem playOut_of_none {talk : Talk} (hDue : talk.nextDue = none) :
    talk.playOut = talk.collectEvents := by
  rw [playOut]
  split
  · rfl
  · rename_i hSome
    rw [hDue] at hSome
    cases hSome

theorem playOut_of_due {talk : Talk} {due : Millis} (hDue : talk.nextDue = some due) :
    talk.playOut = ((talk.advanceTo due).1 ++ (talk.advanceTo due).2.playOut.1,
      (talk.advanceTo due).2.playOut.2) := by
  rw [playOut]
  split
  · -- something is due, so that this is not the case
    rename_i hNone
    rw [hDue] at hNone
    cases hNone
  · rename_i hSome
    rw [hDue] at hSome
    cases hSome
    rfl

/-! ## Moving the clock twice -/

/-- Moving the clock twice and taking the events both times is moving it once to the later time. -/
theorem advanceTo_advanceTo (talk : Talk) (time later : Millis) :
    ((talk.advanceTo time).1 ++ ((talk.advanceTo time).2.advanceTo later).1,
      ((talk.advanceTo time).2.advanceTo later).2) = talk.advanceTo (max time later) := by
  -- at the stop the events are taken, which those that come later do not notice
  have hTaken : talk.passTo time =
      ({ talk.passTo time with events := [] } : Talk).withEarlier (talk.passTo time).events := by
    simp [withEarlier]
  have hAll := talk.passTo_passTo time later
  rw [hTaken, passTo_withEarlier] at hAll
  rw [advanceTo_eq, advanceTo_eq, advanceTo_eq, ← hAll]
  rfl

theorem now_advanceBy (talk : Talk) (delta : Millis) :
    (talk.advanceBy delta).2.now = talk.now + delta :=
  now_passTo (Millis.le_add_right talk.now delta)

theorem advanceBy_advanceBy (talk : Talk) (delta more : Millis) :
    ((talk.advanceBy delta).1 ++ ((talk.advanceBy delta).2.advanceBy more).1,
      ((talk.advanceBy delta).2.advanceBy more).2) = talk.advanceBy (delta + more) := by
  have hTwice := talk.advanceTo_advanceTo (talk.now + delta) (talk.now + delta + more)
  rw [Millis.max_eq_right (Millis.le_add_right _ _), Millis.add_assoc] at hTwice
  rw [advanceBy.eq_def (talk.advanceBy delta).2, now_advanceBy, Millis.add_assoc]
  exact hTwice

/-- How the way to a time is cut into slices makes no difference, neither to the talk with all that it has
told the outside nor to the events that are raised on the way; and when the clock has moved to a time,
nothing is left that is due by then. This holds of any talk, whatever stands on its agenda. -/
theorem slicing_irrelevant (talk : Talk) :
    (∀ time later, ((talk.advanceTo time).1 ++ ((talk.advanceTo time).2.advanceTo later).1,
      ((talk.advanceTo time).2.advanceTo later).2) = talk.advanceTo (max time later)) ∧
    (∀ delta more, ((talk.advanceBy delta).1 ++ ((talk.advanceBy delta).2.advanceBy more).1,
      ((talk.advanceBy delta).2.advanceBy more).2) = talk.advanceBy (delta + more)) ∧
    ∀ time, ∀ x ∈ (talk.advanceTo time).2.agenda.pending, time < x.due :=
  ⟨talk.advanceTo_advanceTo, talk.advanceBy_advanceBy, talk.lt_due_passTo⟩

end Dialogue.Talk
