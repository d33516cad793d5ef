import Dialogue.Talk.Playback

/-!
# Closing a talk

A talk closes once, whatever it is doing: what is still to be played is struck out, each section
gets its closing animation, and with the last of them the talk is over and its scrap is detached.
-/

namespace Dialogue.Talk

/-- Ends the talk. -/
def conclude (talk : Talk) : Talk :=
  if talk.isPending .closed then
    let talk := talk.settle .closed .resolved
    ({ talk with registry := talk.registry.detach talk.scrap.name }.raise .closed).report .debug
      "closed"
  else talk

/-- Abandons what is still pending of the play; whoever waits for `played` hears of it first. -/
def abandonPlay (talk : Talk) : Talk :=
  (talk.markPlayed .abandoned).settle .play .abandoned

/-- Strikes out what is still to be played, and stops all fades. -/
def stopPlayback (talk : Talk) : Talk :=
  { talk with
    agenda := talk.agenda.cancel Cue.isPlayback
    scrap := talk.scrap.map fun e => { e with fading := false } }

/-- Starts the closing animation of a section. -/
def startClosing (talk : Talk) (number : Nat) : Talk :=
  { talk with
    areas := talk.areas.modify number AreaRecord.close
    agenda := talk.agenda.schedule (talk.now + talk.options.tempo.sectionClose)
      (.closeEnd number) }.raise (.sectionClosing number)

/-- Starts the closing animations of all sections; without sections the talk ends at once. -/
def closeSections (talk : Talk) : Talk :=
  let talk := { talk with closesLeft := talk.closingSections.length }
  let talk := talk.closingSections.foldl startClosing talk
  if talk.closesLeft = 0 then talk.conclude else talk

/-- Asks the talk to close; says whether that is news. -/
def beginClosing (talk : Talk) (outcome : Outcome) : Bool × Talk :=
  if talk.isPending .closing then
    let talk := (talk.settle .closing outcome).report .debug ("closing (" ++ outcome.name ++ ")")
    (true, talk.abandonPlay.stopPlayback.closeSections)
  else (false, talk)

/-- Closes the talk before its end. -/
def close (talk : Talk) : Bool × Talk := talk.beginClosing .abandoned

/-- Closes the talk at its end. -/
def finish (talk : Talk) : Bool × Talk := talk.beginClosing .resolved

/-- The closing animation of a section ends; after the last one the talk is over. -/
def endClosing (talk : Talk) (number : Nat) : Talk :=
  let talk := { talk with
    areas := talk.areas.modify number AreaRecord.detach
    closesLeft := talk.closesLeft - 1 }.raise (.sectionClosed number)
  if talk.closesLeft = 0 then talk.conclude else talk

end Dialogue.Talk
