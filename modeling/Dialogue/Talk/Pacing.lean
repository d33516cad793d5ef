import Dialogue.Talk.Authoring

/-!
# Pacing a talk

`pace` gives their times to the entries of a talk, all of them or those of one section, as long as
the talk is not closing.
-/

namespace Dialogue

/-- The entries to be paced. -/
inductive PaceScope where
  /-- All of the scrap. -/
  | whole
  /-- The section with a number, from zero. -/
  | single (number : Nat)
deriving DecidableEq

/-- Why entries cannot be paced. -/
inductive PacingError where
  | talkClosed
  | invalidSection (number : Nat)
deriving DecidableEq

namespace PacingError

def message : PacingError → String
  | talkClosed => "Talk already closed"
  | invalidSection number => "Invalid section index: " ++ toString number

end PacingError

namespace Talk

/-- Gives the entries of a scope their times and hides them; the total is the last time. The talk is
handed back also if the scope is refused. -/
def pace (talk : Talk) (scope : PaceScope) : Except PacingError Millis × Talk :=
  if talk.isClosing then (.error .talkClosed, talk)
  else match scope with
    | .whole =>
      let (scrap, total) := talk.scrap.paced talk.options.tempo
      (.ok total, { talk with scrap })
    | .single number =>
      match talk.scrap.pacedSection? talk.options.tempo number with
      | some (scrap, total) => (.ok total, { talk with scrap })
      | none => (.error (.invalidSection number), talk)

/-- Ends the current section and paces all of the scrap. A talk that is closing takes no time. -/
def wrapUp (talk : Talk) : Millis × Talk :=
  let talk := talk.endSection
  match talk.pace .whole with
  | (.ok total, paced) => (total, paced)
  | (.error error, left) => (0, left.report .warn ("close_scrap: " ++ error.message))

end Talk

end Dialogue
