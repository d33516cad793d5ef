import Dialogue.Talk.Clock

/-!
# Operations on a talk

All that a host can do to a talk, as data: an `Operation` is performed on a talk and gives a
`Reply`. `Talk.performAll` performs a sequence of them.
-/

namespace Dialogue

/-- Something that a host does to a talk. -/
inductive Operation where
  | direct (direction : Direction)
  | pace (scope : PaceScope)
  | wrapUp
  | start
  | skip
  | close
  | finish
  | advanceTo (time : Millis)
  | advanceBy (delta : Millis)
  | playOut
  | collectEvents
  | observe (milestone : Milestone) (observer : Observer)
  | performWith (performer : String)
deriving DecidableEq

/-- What an operation gives back. -/
inductive Reply where
  | nothing
  | total (time : Millis)
  | refused (error : PacingError)
  /-- How the `play` signal stands. -/
  | play (outcome : Option Outcome)
  /-- Whether the operation changed anything. -/
  | changed (news : Bool)
  | events (events : List Event)
deriving DecidableEq

namespace Reply

/-- What pacing gives back. -/
def ofPacing : Except PacingError Millis → Reply
  | .ok time => total time
  | .error error => refused error

/-- The events in a reply. -/
def raised : Reply → List Event
  | events raised => raised
  | nothing | total _ | refused _ | play _ | changed _ => []

end Reply

namespace Talk

/-- Performs one operation. -/
def perform (talk : Talk) : Operation → Reply × Talk
  | .direct direction => (.nothing, talk.direct direction)
  | .pace scope => (.ofPacing (talk.pace scope).1, (talk.pace scope).2)
  | .wrapUp => (.total talk.wrapUp.1, talk.wrapUp.2)
  | .start => (.play (talk.start.outcome .play), talk.start)
  | .skip => (.changed talk.skip.1, talk.skip.2)
  | .close => (.changed talk.close.1, talk.close.2)
  | .finish => (.changed talk.finish.1, talk.finish.2)
  | .advanceTo time => (.events (talk.advanceTo time).1, (talk.advanceTo time).2)
  | .advanceBy delta => (.events (talk.advanceBy delta).1, (talk.advanceBy delta).2)
  | .playOut => (.events talk.playOut.1, talk.playOut.2)
  | .collectEvents => (.events talk.collectEvents.1, talk.collectEvents.2)
  | .observe milestone observer => (.nothing, talk.observe milestone observer)
  | .performWith performer => (.nothing, talk.performWith performer)

/-- Performs operations in order, and gives the replies. -/
def performAll (talk : Talk) : List Operation → List Reply × Talk
  | [] => ([], talk)
  | operation :: rest =>
    let (reply, next) := talk.perform operation
    let (replies, last) := performAll next rest
    (reply :: replies, last)

end Talk

end Dialogue
