import Dialogue.Talk.Closing

/-!
# The clock of a talk

`advanceTo` moves the clock: cues fire one after the other, and what they set off fires with them
if it is due. `playOut` goes on until nothing is left. Both come to an end because every cue
weighs more than what it puts on the agenda (`load_fire`).
-/

namespace Dialogue.Talk

/-! ## Firing -/

/-- The fade of an entry ends. -/
def endFade (talk : Talk) (entry : Nat) : Talk :=
  (match talk.marked? entry with
    | some (place, _) =>
      { talk with scrap := talk.scrap.modifyAt place fun e => { e with fading := false } }
    | none => talk).raise (.faded entry)

/-- A cue fires. -/
def fire (talk : Talk) : Cue → Talk
  | .reveal entry last => talk.reveal entry last
  | .fadeEnd entry => talk.endFade entry
  | .closeEnd number => talk.endClosing number

/-! ## What firing puts on the agenda -/

@[simp] theorem agenda_markPlayed (talk : Talk) (outcome : Outcome) :
    (talk.markPlayed outcome).agenda = talk.agenda := by
  unfold markPlayed; split <;> rfl

@[simp] theorem agenda_conclude (talk : Talk) : talk.conclude.agenda = talk.agenda := by
  unfold conclude; split <;> rfl

@[simp] theorem agenda_showEntry (talk : Talk) (entry : Nat) :
    (talk.showEntry entry).agenda = talk.agenda := by
  unfold showEntry; split <;> rfl

@[simp] theorem agenda_endFade (talk : Talk) (entry : Nat) :
    (talk.endFade entry).agenda = talk.agenda := by
  unfold endFade raise; split <;> rfl

@[simp] theorem agenda_endClosing (talk : Talk) (number : Nat) :
    (talk.endClosing number).agenda = talk.agenda := by
  unfold endClosing
  simp only
  split
  · rw [agenda_conclude]; rfl
  · rfl

theorem weight_insertLast (x : Appointment Cue) (pending : List (Appointment Cue)) :
    total (fun y => y.event.weight) (Agenda.insertLast x pending) =
      x.event.weight + total (fun y => y.event.weight) pending := by
  induction pending with
  | nil => simp [Agenda.insertLast]
  | cons y rest ih =>
    unfold Agenda.insertLast
    split
    · simp only [total_cons, ih]; omega
    · simp

@[simp] theorem agenda_performAt (talk : Talk) (entry : Nat) :
    (talk.performAt entry).agenda = talk.agenda := by
  unfold performAt performEmote raise; split <;> rfl

theorem load_congr {a b : Talk} (h : a.agenda = b.agenda) : a.load = b.load := by
  simp only [load, h]

theorem load_startFade (talk : Talk) (entry : Nat) :
    (talk.startFade entry).load = talk.load + 1 := by
  simp only [startFade, load, Agenda.pending_schedule, weight_insertLast]
  rw [Nat.add_comm]; rfl

/-- A reveal puts at most one fade on the agenda, and nothing else puts anything there. -/
theorem load_fire (talk : Talk) (cue : Cue) :
    (talk.fire cue).load < talk.load + cue.weight := by
  cases cue with
  | reveal entry last =>
    have hShow : (talk.showEntry entry).load = talk.load := load_congr (by simp)
    have hPerform : ((talk.showEntry entry).performAt entry).load = talk.load :=
      load_congr (by simp)
    -- the fade is the only cue that a reveal adds
    have hFade := load_startFade ((talk.showEntry entry).performAt entry) entry
    have hPlayed : ∀ t : Talk, (t.markPlayed .resolved).load = t.load :=
      fun t => load_congr (by simp)
    simp only [fire, reveal, Cue.weight]
    -- with or without the fade, and with or without the end of the text
    by_cases hAnimates : talk.animates <;> by_cases hLast : last <;>
      simp only [hAnimates, hLast, if_true, if_false, hPlayed, Bool.false_eq_true] <;> omega
  | fadeEnd entry =>
    have : (talk.endFade entry).load = talk.load := load_congr (by simp)
    simp only [fire, Cue.weight]; omega
  | closeEnd number =>
    have : (talk.endClosing number).load = talk.load := load_congr (by simp)
    simp only [fire, Cue.weight]; omega

/-! ## Advancing -/

/-- Takes the next cue due by `limit`, and moves the clock to it. -/
def pop? (talk : Talk) (limit : Millis) : Option (Cue × Talk) :=
  (talk.agenda.pop? limit).map fun (next, agenda) => (next.event, { talk with agenda })

theorem load_pop? {talk rest : Talk} {limit : Millis} {cue : Cue}
    (h : talk.pop? limit = some (cue, rest)) : rest.load + cue.weight = talk.load := by
  obtain ⟨⟨next, agenda⟩, hPop, hEq⟩ := Option.map_eq_some_iff.mp h
  simp only [Prod.mk.injEq] at hEq
  obtain ⟨rfl, rfl⟩ := hEq
  have hPending := (Agenda.pop?_eq_some hPop).1
  simp only [load, hPending, total_cons]
  omega

/-- Fires every cue due by `limit`, together with those that come up on the way. -/
def fireDue (talk : Talk) (limit : Millis) : Talk :=
  match _hPop : talk.pop? limit with
  | none => talk
  | some (cue, rest) => fireDue (rest.fire cue) limit
termination_by talk.load
decreasing_by
  have := load_pop? _hPop
  have := load_fire rest cue
  omega

/-- Moves the clock forward to a time and gives the events raised until then. -/
def advanceTo (talk : Talk) (time : Millis) : List Event × Talk :=
  let talk := talk.fireDue time
  { talk with agenda := talk.agenda.moveTo time }.collectEvents

/-- Moves the clock forward by a time. -/
def advanceBy (talk : Talk) (delta : Millis) : List Event × Talk :=
  talk.advanceTo (talk.now + delta)

theorem load_fireDue_le (talk : Talk) (limit : Millis) : (talk.fireDue limit).load ≤ talk.load := by
  fun_induction fireDue talk limit with
  | case1 => exact Nat.le_refl _
  | case2 talk cue rest hPop ih =>
    have := load_pop? hPop
    have := load_fire rest cue
    omega

/-- Moving the clock to the next due time fires something. -/
theorem load_advanceTo {talk : Talk} {due : Millis} (h : talk.nextDue = some due) :
    (talk.advanceTo due).2.load < talk.load := by
  show (talk.fireDue due).load < talk.load
  rw [fireDue]
  split
  · -- impossible: a cue is due at this very time
    rename_i hPop
    have hNone : talk.agenda.pop? due = none := Option.map_eq_none_iff.mp hPop
    have := Agenda.pop?_eq_none.mp hNone due h
    rw [Millis.lt_def] at this
    omega
  · rename_i cue rest hPop
    have := load_pop? hPop
    have := load_fire rest cue
    have := load_fireDue_le (rest.fire cue) due
    omega

/-- Moves the clock until nothing is on the agenda, and gives all events not yet taken. -/
def playOut (talk : Talk) : List Event × Talk :=
  match _hDue : talk.nextDue with
  | none => talk.collectEvents
  | some due =>
    let (later, last) := playOut (talk.advanceTo due).2
    ((talk.advanceTo due).1 ++ later, last)
termination_by talk.load
decreasing_by exact load_advanceTo _hDue

end Dialogue.Talk
