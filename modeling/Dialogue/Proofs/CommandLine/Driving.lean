import Dialogue.CommandLine.Simulation
import Dialogue.Proofs.Talk.History
import Dialogue.Proofs.Talk.RunningOut

/-!
# Driving a talk until it runs out

Without a limit the driver does in its own loop what a talk does when it is played out: both make the same
rounds of the clock. The driver writes the due time of each round beside its events.

Main results:

* `CommandLine.rounds_drive` — the driver makes rounds of the clock until nothing is left.
* `CommandLine.runs_out` — playing out comes to an end, with the events and the state of one move to the
  last time, and so does the driver.
-/

namespace Dialogue.CommandLine

open Talk (Rounds FiresInTurn latest)

/-- The simulator goes through the due times in rounds, and stamps each with its time. -/
theorem rounds_drive (talk : Talk) :
    ∃ rounds, Rounds talk rounds (drive none talk).2 ∧
      (drive none talk).1 = rounds.flatMap fun round => stamp round.1 round.2 := by
  show ∃ rounds, Rounds talk rounds (driveDue none talk).2 ∧ (driveDue none talk).1 = _
  generalize hLimit : (none : Option Millis) = limit
  fun_induction driveDue limit talk with
  | case1 talk hDue => exact ⟨[], .done hDue, rfl⟩
  | case2 talk due hDue hOver =>
    -- without a limit nothing is ever too late
    subst hLimit
    cases hOver
  | case3 talk due hDue hWithin later last hRest ih =>
    obtain ⟨rounds, hRounds, hLater⟩ := ih
    rw [hRest] at hRounds hLater
    exact ⟨_, .round hDue hRounds, by rw [List.flatMap_cons, ← hLater]⟩

/-- A talk runs out, whatever stands on its agenda. The rounds of the clock are no more than the cues that
fire in them, and these are no more than the agenda weighs. The events and the talk after them are those of
one move to the last time, but that the clock stands at the latest due time that was fired, if it had not
passed it before. If no events wait to be taken, the driver makes the same rounds: it hands out the same
events, each with the due time of its round, and leaves the talk the same. -/
theorem runs_out (talk : Talk) :
    ∃ rounds fired,
      Rounds talk.collectEvents.2 rounds talk.playOut.2 ∧
      talk.playOut.1 = talk.events ++ rounds.flatMap Prod.snd ∧
      FiresInTurn talk fired { talk.playOut.2 with events := talk.playOut.1 } ∧
      rounds.length ≤ fired.length ∧ fired.length ≤ talk.load ∧
      talk.playOut.2.nextDue = none ∧
      talk.advanceTo .last =
        (talk.playOut.1,
          { talk.playOut.2 with agenda := talk.playOut.2.agenda.moveTo .last }) ∧
      talk.playOut.2.now = latest talk.now fired ∧
      (talk.events = [] →
        drive none talk =
            (rounds.flatMap fun round => stamp round.1 round.2, talk.playOut.2) ∧
          (drive none talk).1.map Prod.snd = talk.playOut.1) := by
  obtain ⟨rounds, hRounds, hRaised⟩ := talk.rounds_playOut
  -- a round takes its events, so that none are left over
  have hTaken : talk.playOut.2.events = [] := by
    obtain ⟨-, -, -, hTaken, -⟩ := talk.ticks_playOut
    exact hTaken
  obtain ⟨fired, hLength, hFires⟩ := hRounds.firesInTurn
  -- the same with the events that waited to be taken
  have hFires := hFires.withEarlier talk.events
  rw [Talk.withEarlier_collectEvents] at hFires
  have hLast : (talk.playOut.2.withEarlier (rounds.flatMap Prod.snd)).withEarlier talk.events =
      { talk.playOut.2 with events := talk.playOut.1 } := by
    simp [Talk.withEarlier, hTaken, hRaised]
  rw [hLast] at hFires
  have hMove := hRounds.advanceTo_last
  rw [hTaken, List.append_nil] at hMove
  refine ⟨rounds, fired, hRounds, hRaised, hFires, hLength, ?_, hRounds.nextDue_eq, ?_, hFires.now_eq,
    fun hNone => ?_⟩
  · -- each cue that fires takes one off the load
    have hLoad := hFires.length_add_load_le
    omega
  · have hAll := talk.collectEvents.2.advanceTo_withEarlier talk.events .last
    rw [Talk.withEarlier_collectEvents, hMove] at hAll
    rw [hAll, hRaised, ← hTaken]
  · -- nothing waited, so that the simulator's rounds are the same ones
    have hCollected : talk.collectEvents.2 = talk := by
      simp [Talk.collectEvents, ← hNone]
    obtain ⟨driven, hDriven, hStamped⟩ := rounds_drive talk
    rw [hCollected] at hRounds
    obtain ⟨rfl, hSame⟩ := hRounds.unique hDriven
    refine ⟨Prod.ext hStamped hSame, ?_⟩
    rw [hStamped, hRaised, hNone, List.nil_append, List.map_flatMap]
    congr
    funext round
    exact Talk.map_snd_moment round.1 round.2

/-- A word with an emote behind it, which has been started. -/
def started : List Operation :=
  [.direct (.speak "Hi"), .direct (.emote "wave"), .wrapUp, .start]

/-- Two letters, the emote and two pauses are left to reveal, and each of them may fade in. -/
theorem runs_out_started :
    ∃ first, Talk.create .empty .standard = .ok first ∧
      (first.after started).events = [] ∧ (first.after started).load = 10 ∧
      ∃ rounds, Rounds (first.after started) rounds (first.after started).playOut.2 ∧
        rounds.length ≤ 10 ∧
        (first.after started).playOut.1 = rounds.flatMap Prod.snd ∧
        ((first.after started).advanceTo .last).1 = rounds.flatMap Prod.snd ∧
        drive none (first.after started) =
          (rounds.flatMap fun round => stamp round.1 round.2, (first.after started).playOut.2) := by
  obtain ⟨first, hCreate⟩ : ∃ first, Talk.create .empty .standard = .ok first := ⟨_, rfl⟩
  have hState : (first.after started).events = [] ∧ (first.after started).load = 10 := by
    cases hCreate
    decide
  obtain ⟨hNone, hLoad⟩ := hState
  obtain ⟨rounds, fired, hRounds, hRaised, -, hLength, hFired, -, hMove, -, hDriven⟩ :=
    runs_out (first.after started)
  have hCollected : (first.after started).collectEvents.2 = first.after started := by
    simp [Talk.collectEvents, ← hNone]
  rw [hCollected] at hRounds
  rw [hNone, List.nil_append] at hRaised
  refine ⟨first, hCreate, hNone, hLoad, rounds, hRounds, by omega, hRaised, ?_, (hDriven hNone).1⟩
  rw [hMove, hRaised]

end Dialogue.CommandLine
