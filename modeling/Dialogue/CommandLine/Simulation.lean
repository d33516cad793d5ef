import Dialogue.CommandLine.Arguments
import Dialogue.Markup.Projection
import Dialogue.Script.Basic
import Dialogue.Talk.Operation
import Dialogue.Text.Aligned

/-!
# Simulation

A simulation plays a script from its start to its end, and writes down every event with its time.
The text may be skipped and the talk closed at given times; of two actions at one time the skip
comes first. A talk that is not closed is finished when nothing is left on its agenda.
-/

namespace Dialogue.CommandLine

/-- An event and its time. -/
abbrev Timed := Millis × Event

/-- The events of a moment. -/
def stamp (time : Millis) (events : List Event) : List Timed := events.map (time, ·)

/-! ## Driving the clock -/

/-- Fires what is on the agenda, one due time at a time, up to `limit` if there is one. -/
def driveDue (limit : Option Millis) (talk : Talk) : List Timed × Talk :=
  match _hDue : talk.nextDue with
  | none => ([], talk)
  | some due =>
    if limit.any (· < due) then ([], talk)
    else
      let (later, last) := driveDue limit (talk.advanceTo due).2
      (stamp due (talk.advanceTo due).1 ++ later, last)
termination_by talk.load
decreasing_by exact Talk.load_advanceTo _hDue

/-- Drives the clock to `limit`, or until nothing is left. -/
def drive (limit : Option Millis) (talk : Talk) : List Timed × Talk :=
  let (events, talk) := driveDue limit talk
  match limit with
  | none => (events, talk)
  | some time =>
    -- the clock stops at the limit itself, also if nothing is due there
    let (rest, talk) := talk.advanceTo time
    (events ++ stamp time rest, talk)

/-! ## Actions -/

/-- Something done to the talk while it plays. -/
inductive Action where
  | skip
  | close
deriving DecidableEq

/-- The actions that the command line asks for, in the order of their times. -/
def actions (skipAt closeAt : Option Millis) : List (Millis × Action) :=
  match skipAt, closeAt with
  | none, none => []
  | some time, none => [(time, .skip)]
  | none, some time => [(time, .close)]
  | some skip, some close =>
    if skip ≤ close then [(skip, .skip), (close, .close)] else [(close, .close), (skip, .skip)]

/-- Does one action. -/
def act (talk : Talk) : Action → Talk
  | .skip => talk.skip.2
  | .close => talk.close.2

/-- Takes the events of a moment. -/
def record (time : Millis) (talk : Talk) : List Timed × Talk :=
  (stamp time talk.collectEvents.1, talk.collectEvents.2)

/-- Drives the clock from action to action. -/
def performActions (talk : Talk) : List (Millis × Action) → List Timed × Talk
  | [] => ([], talk)
  | (time, action) :: rest =>
    let (driven, talk) := drive (some time) talk
    let (raised, talk) := record time (act talk action)
    let (later, talk) := performActions talk rest
    (driven ++ raised ++ later, talk)

/-- Plays a talk that has been paced, and gives all of its events. -/
def play (skipAt closeAt : Option Millis) (talk : Talk) : List Timed × Talk :=
  let talk := talk.start
  let (started, talk) := record talk.now talk
  let (acted, talk) := performActions talk (actions skipAt closeAt)
  let (driven, talk) := drive none talk
  let events := started ++ acted ++ driven
  match closeAt with
  | some _ => (events, talk)
  | none =>
    -- nobody has closed the talk on the way
    let talk := talk.finish.2
    let (finished, talk) := record talk.now talk
    let (closed, talk) := drive none talk
    (events ++ finished ++ closed, talk)

/-! ## Output -/

/-- An event on a line of its own, behind its time. -/
def timedLine (timed : Timed) : String :=
  Text.alignRight 8 (toString timed.1) ++ " " ++ timed.2.text

/-- The output of a simulation. -/
def render (format : Format) (timeline : List Timed) (talk : Talk) : String :=
  match format with
  | .timeline => String.join (timeline.map fun timed => timedLine timed ++ "\n")
  | .html => (Markup.ofScrap talk.areas talk.scrap).html ++ "\n"

/-- What is logged about a paced script. -/
def summary (talk : Talk) (total : Millis) : LogLine :=
  ⟨.info, .program, talk.scrap.name ++ ": " ++ toString talk.scrap.entryCount ++ " entries, " ++
    toString total ++ " ms"⟩

/-- Writes a script into a talk and paces it. -/
def prepare (talk : Talk) (script : List Script.Directive) : Talk :=
  let (total, talk) := (talk.follow script).wrapUp
  talk.reportLines [summary talk total]

end Dialogue.CommandLine
