import Dialogue.Talk.Pacing

/-!
# Playing a talk

`start` puts the reveals of all entries on the agenda, each at its timestamp after the start.
`reveal` shows an entry: while the text is neither skipped nor the talk closing it fades in, and
an emote is performed. `skip` shows all that is still to come at once.
-/

namespace Dialogue.Talk

/-! ## Showing entries -/

/-- Settles `played`, and raises the event if that is news. -/
def markPlayed (talk : Talk) (outcome : Outcome) : Talk :=
  if talk.isPending .played then (talk.settle .played outcome).raise (.played outcome) else talk

/-- Whether entries fade in: neither was the text skipped nor is the talk closing. -/
def animates (talk : Talk) : Bool := talk.isPending .play && talk.isPending .closing

/-- The place of an entry and the entry itself. -/
def marked? (talk : Talk) (entry : Nat) : Option (Place × Entry) :=
  (talk.marks[entry]?).bind fun place => (talk.scrap.entryAt? place).map (place, ·)

/-- Makes an entry visible. -/
def showEntry (talk : Talk) (entry : Nat) : Talk :=
  match talk.marked? entry with
  | some (place, e) =>
    { talk with
      scrap := talk.scrap.modifyAt place fun e =>
        { e with visible := true, fading := talk.animates } }.raise (.shown entry e.glyph?)
  | none => talk

/-- Performs an emote. -/
def performEmote (talk : Talk) (entry : Nat) (name : String) : Talk :=
  let calls := talk.performer.toList.map fun performer => (performer, name)
  { talk with outbox := { talk.outbox with emotes := talk.outbox.emotes ++ calls } }.raise
    (.emote entry name)

/-- Performs the emote of an entry, if it is one. -/
def performAt (talk : Talk) (entry : Nat) : Talk :=
  match (talk.marked? entry).bind fun (_, e) => e.emote? with
  | some name => talk.performEmote entry name
  | none => talk

/-- Starts the fade of an entry. -/
def startFade (talk : Talk) (entry : Nat) : Talk :=
  { talk with
    agenda := talk.agenda.schedule (talk.now + talk.options.tempo.fade) (.fadeEnd entry) }

/-- Shows an entry, with its animation if the talk animates; the last one completes the text. -/
def reveal (talk : Talk) (entry : Nat) (last : Bool) : Talk :=
  let animates := talk.animates
  let talk := talk.showEntry entry
  let talk := if animates then (talk.performAt entry).startFade entry else talk
  if last then talk.markPlayed .resolved else talk

/-- Shows every entry still to come. -/
def revealRest (talk : Talk) : Talk :=
  -- struck out before they are carried out, so that none of them fires again
  let due := talk.agenda.cancelled Cue.isReveal
  let talk := { talk with agenda := talk.agenda.cancel Cue.isReveal }
  due.foldl (fun talk cue =>
    match cue with
    | .reveal entry last => talk.reveal entry last
    | .fadeEnd _ | .closeEnd _ => talk) talk

/-! ## Playing -/

/-- The reveals of the entries from number `first` on: each at its timestamp after `start`. -/
def reveals (start : Millis) (first : Nat) : List Entry → List (Millis × Cue)
  | [] => []
  | e :: rest => (start + e.timestamp, .reveal first rest.isEmpty) :: reveals start (first + 1) rest

/-- Puts cues on the agenda. -/
def scheduleAll (agenda : Agenda Cue) (cues : List (Millis × Cue)) : Agenda Cue :=
  cues.foldl (fun agenda (due, cue) => agenda.schedule due cue) agenda

/-- Makes the areas of all sections visible. -/
def showAreas (talk : Talk) : Talk :=
  { talk with
    areas := talk.scrap.sections.foldl
      (fun areas sect => areas.modify sect.number AreaRecord.makeVisible) talk.areas }

/-- Puts all entries on the agenda, each at its timestamp after `start`. -/
def plan (talk : Talk) (start : Millis) : Talk :=
  let entries := talk.scrap.entries
  { talk.showAreas with
    startTime := some start
    marks := talk.scrap.places
    agenda := scheduleAll talk.agenda (reveals start 0 entries) }.report .debug
    ("run at " ++ toString start ++ " with " ++ toString entries.length ++ " entries")

/-- Starts playback at a time. -/
def startAt (talk : Talk) (start : Millis) : Talk :=
  let planned := talk.plan start
  -- a text without entries is complete at once; one that was skipped before is shown at once
  if talk.scrap.entries.isEmpty then planned.markPlayed .resolved
  else if planned.isPending .play then planned else planned.revealRest

/-- Starts playback, once. -/
def start (talk : Talk) : Talk :=
  if talk.isClosing then talk.report .warn "run after close"
  else match talk.startTime with
    | some _ => talk
    | none => talk.startAt (talk.options.startTime.getD talk.now)

/-- Skips to the end of the text; says whether that is news. -/
def skip (talk : Talk) : Bool × Talk :=
  if talk.isPending .play then
    let talk := (talk.settle .play .resolved).report .debug "play resolved"
    (true, if talk.startTime.isSome then talk.revealRest else talk)
  else (false, talk)

end Dialogue.Talk
