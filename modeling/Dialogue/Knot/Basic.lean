import Dialogue.Tags
import Dialogue.Talk.Authoring

/-!
# Knots

A dialogue can be logged as a sequence of knots. Some are spoken; a quantum is a branch point that
can be found by its tags; an entangle asks to go on at one. `Talk.replay` writes the spoken knots
into a talk, up to the next divider.
-/

namespace Dialogue

/-- What a knot records. -/
inductive KnotKind where
  /-- One spoken line. -/
  | sentence (actor emotion speech : String)
  | sectionBreak
  | talkBreak
  /-- A branch point. -/
  | quantum (tags : TagSet)
  /-- A request to go on at a branch point. -/
  | entangle (tags : TagSet)
  /-- A named vocabulary. -/
  | terms (name : String) (values : List String)
  /-- The end of what came before. -/
  | ending
deriving DecidableEq

namespace KnotKind

def name : KnotKind → String
  | sentence .. => "sentence"
  | sectionBreak => "sepSection"
  | talkBreak => "sepTalk"
  | quantum _ => "quantum"
  | entangle _ => "entangle"
  | terms .. => "terms"
  | ending => "end"

/-- Whether replaying stops behind a knot. -/
def stops : KnotKind → Bool
  | talkBreak | ending => true
  | sentence .. | sectionBreak | quantum _ | entangle _ | terms .. => false

/-- The authoring steps of a knot. -/
def directions : KnotKind → List Direction
  | sentence actor emotion speech =>
    .beginParagraph actor :: (if emotion.isEmpty then [] else [.emote emotion]) ++ [.speak speech]
  | sectionBreak => [.beginSection none]
  | talkBreak | quantum _ | entangle _ | terms .. | ending => []

end KnotKind

/-- A knot and its position in the log. -/
structure Knot where
  index : Nat
  kind : KnotKind
deriving DecidableEq

namespace Knot

/-- What replaying a knot logs, where it has nothing to say. -/
def replayLog (knot : Knot) : List LogLine :=
  match knot.kind with
  | .quantum _ | .entangle _ | .terms .. =>
    [⟨.debug, .knots, "Skipping " ++ knot.kind.name ++ " knot " ++ toString knot.index ++
      " while authoring"⟩]
  | .sentence .. | .sectionBreak | .talkBreak | .ending => []

end Knot

namespace Talk

/-- Writes knots into a talk, up to the first divider; gives how many were used, with the divider.
-/
def replay (talk : Talk) : List Knot → Nat × Talk
  | [] => (0, talk)
  | knot :: rest =>
    if knot.kind.stops then (1, talk)
    else
      let (used, last) :=
        replay ((talk.reportLines knot.replayLog).directAll knot.kind.directions) rest
      (used + 1, last)

end Talk

end Dialogue
