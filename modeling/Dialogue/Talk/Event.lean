import Dialogue.Outcome
import Dialogue.Text.Quoted

/-!
# Events, cues and phases

A talk raises an `Event` whenever something happens that its host may want to show. What is still to
happen stands on the agenda as a `Cue`. The `Phase` says how far a talk has come.
-/

namespace Dialogue

/-- Something that happened in a talk. Entries are numbered in document order from zero. -/
inductive Event where
  /-- An entry became visible. -/
  | shown (entry : Nat) (glyph : Option Char)
  /-- An emote was reached. -/
  | emote (entry : Nat) (name : String)
  /-- An entry has faded in. -/
  | faded (entry : Nat)
  /-- The text was shown to its end, or never will be. -/
  | played (outcome : Outcome)
  /-- A section started to close. -/
  | sectionClosing (number : Nat)
  /-- A section has closed. -/
  | sectionClosed (number : Nat)
  /-- The talk is over. -/
  | closed
deriving DecidableEq

namespace Event

/-- An event as a line of text. -/
def text : Event → String
  | shown entry (some c) => "show #" ++ toString entry ++ " " ++ Text.Quoted.character c
  | shown entry none => "show #" ++ toString entry
  | emote entry name => "emote #" ++ toString entry ++ " " ++ name
  | faded entry => "faded #" ++ toString entry
  | played outcome => "played (" ++ outcome.name ++ ")"
  | sectionClosing number => "section " ++ toString number ++ " closing"
  | sectionClosed number => "section " ++ toString number ++ " closed"
  | closed => "closed"

end Event

/-- Something that is still to happen. -/
inductive Cue where
  /-- An entry is to be shown; `last` marks the last one of the text. -/
  | reveal (entry : Nat) (last : Bool)
  /-- The fade of an entry ends. -/
  | fadeEnd (entry : Nat)
  /-- The closing animation of a section ends. -/
  | closeEnd (number : Nat)
deriving DecidableEq

namespace Cue

def isReveal : Cue → Bool
  | reveal .. => true
  | fadeEnd _ | closeEnd _ => false

/-- Whether a cue belongs to playing the text, and not to closing the talk. -/
def isPlayback : Cue → Bool
  | reveal .. | fadeEnd _ => true
  | closeEnd _ => false

/-- The number of times that the clock can stop for a cue and what it sets off: a reveal may be
followed by a fade. -/
def weight : Cue → Nat
  | reveal .. => 2
  | fadeEnd _ | closeEnd _ => 1

end Cue

/-- How far a talk has come. It only moves forward. -/
inductive Phase where
  /-- The text is being shown, or will be. -/
  | play
  /-- All of the text is shown. -/
  | played
  /-- The sections are closing. -/
  | closing
  /-- The talk is over. -/
  | closed
deriving DecidableEq

namespace Phase

/-- The word for a phase. -/
def word : Phase → String
  | play => "play"
  | played => "played"
  | closing => "closing"
  | closed => "close"

/-- The name of a phase. -/
def name : Phase → String
  | play => "Play"
  | played => "Played"
  | closing => "Closing"
  | closed => "Closed"

end Phase

end Dialogue
