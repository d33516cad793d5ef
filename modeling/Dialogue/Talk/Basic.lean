import Dialogue.Agenda
import Dialogue.Areas
import Dialogue.Options.Basic
import Dialogue.Registry
import Dialogue.Scrap.Place
import Dialogue.Scrap.Pacing
import Dialogue.Talk.Lifecycle

/-!
# Talks

A `Talk` is authored into its scrap, paced, and played on its own clock. It owns all of its state
but the registry, which it shares with other talks: the field holds the registry as the talk last
left it, and whoever plays several talks hands the current one in before each operation (see
`Stage`). What a talk tells the outside gathers in its `Outbox`.
-/

namespace Dialogue

/-- What a talk has told the outside, in order. -/
structure Outbox where
  log : List LogLine
  /-- What observers of the lifecycle noticed. -/
  notices : List Notice
  /-- The emotes performed: who performed, and the name of the emote. -/
  emotes : List (String × String)
deriving DecidableEq

namespace Outbox

def empty : Outbox := ⟨[], [], []⟩

end Outbox

/-- One dialogue: its text, its clock, and how far it has come. -/
structure Talk where
  registry : Registry
  options : Options
  scrap : Scrap
  areas : Areas
  /-- The number of the section that takes new text. -/
  currentSection : Option Nat
  agenda : Agenda Cue
  /-- When playback started. -/
  startTime : Option Millis
  /-- The places of the entries to reveal, as they were when playback started. -/
  marks : List Place
  lifecycle : Lifecycle
  /-- The numbers of the sections that have a closing animation. -/
  closingSections : List Nat
  /-- How many closing animations have not ended. -/
  closesLeft : Nat
  /-- Who performs emotes. -/
  performer : Option String
  /-- The events raised since they were last taken. -/
  events : List Event
  outbox : Outbox

namespace Talk

/-- Makes a talk on a registry: it takes the next number and attaches its scrap. The registry is
handed back either way; options that are not valid are refused before anything is taken from it. -/
def enroll (registry : Registry) (options : Options) : Except OptionsError Talk × Registry :=
  match options.validate with
  | .error error => (.error error, registry)
  | .ok () =>
    let (number, counted) := registry.nextTalk
    let scrap := Scrap.empty number
    let attached := counted.attach scrap.name
    (.ok {
      registry := attached
      options
      scrap
      areas := .ofRotation options.areas
      currentSection := none
      agenda := .empty 0
      startTime := none
      marks := []
      lifecycle := .fresh
      closingSections := []
      closesLeft := 0
      performer := none
      events := []
      outbox := { Outbox.empty with
        log := counted.attachLog ++ [⟨.debug, .talk, scrap.name ++ ": created"⟩] } }, attached)

/-- The talk that is made on a registry; it holds the registry as it is then. -/
def create (registry : Registry) (options : Options) : Except OptionsError Talk :=
  (enroll registry options).1

/-! ## Looking at a talk -/

def now (talk : Talk) : Millis := talk.agenda.now

def nextDue (talk : Talk) : Option Millis := talk.agenda.nextDue

def phase (talk : Talk) : Phase := talk.lifecycle.phase

/-- Whether a signal of the talk has not settled. -/
def isPending (talk : Talk) (milestone : Milestone) : Bool := talk.lifecycle.isPending milestone

/-- How a signal of the talk settled. -/
def outcome (talk : Talk) (milestone : Milestone) : Option Outcome :=
  (talk.lifecycle.get milestone).outcome

/-- The number of stops that the clock can still make. -/
def load (talk : Talk) : Nat := total (fun x => x.event.weight) talk.agenda.pending

/-- A short description. -/
def description (talk : Talk) : String :=
  let current := match talk.currentSection with
    | some number => "Some(" ++ toString number ++ ")"
    | none => "None"
  String.join ["Sequencer \x7b scrap_class: ", Text.Quoted.text talk.scrap.name, ", state: ",
    talk.phase.name, ", now: ", toString talk.now, ", current_section: ", current,
    ", close_animations: [", ", ".intercalate (talk.closingSections.map toString), "] \x7d"]

/-! ## Telling the outside -/

/-- Logs a line about the talk, under the name of its scrap. -/
def report (talk : Talk) (severity : Severity) (text : String) : Talk :=
  { talk with
    outbox := { talk.outbox with
      log := talk.outbox.log ++ [⟨severity, .talk, talk.scrap.name ++ ": " ++ text⟩] } }

/-- Logs lines of another topic. -/
def reportLines (talk : Talk) (lines : List LogLine) : Talk :=
  { talk with outbox := { talk.outbox with log := talk.outbox.log ++ lines } }

/-- Raises an event. -/
def raise (talk : Talk) (event : Event) : Talk :=
  { talk with events := talk.events ++ [event] }

/-- Settles a signal, if it is pending; its observers take notice. -/
def settle (talk : Talk) (milestone : Milestone) (outcome : Outcome) : Talk :=
  { talk with
    lifecycle := talk.lifecycle.settle milestone outcome
    outbox := { talk.outbox with
      notices := talk.outbox.notices ++ talk.lifecycle.settleNotices milestone outcome } }

/-- Lets an observer wait for a signal; if it has settled, the observer takes notice at once. -/
def observe (talk : Talk) (milestone : Milestone) (observer : Observer) : Talk :=
  { talk with
    lifecycle := talk.lifecycle.observe milestone observer
    outbox := { talk.outbox with
      notices := talk.outbox.notices ++ talk.lifecycle.observeNotices milestone observer } }

/-- Names who performs the emotes from now on. -/
def performWith (talk : Talk) (performer : String) : Talk :=
  { talk with performer := some performer }

/-- Takes the events raised since they were last taken. -/
def collectEvents (talk : Talk) : List Event × Talk := (talk.events, { talk with events := [] })

/-- Takes what the talk has told the outside. -/
def collectOutbox (talk : Talk) : Outbox × Talk := (talk.outbox, { talk with outbox := .empty })

end Talk

end Dialogue
