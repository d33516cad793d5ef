/-!
# Outcomes

A signal settles once, in one of two ways. Abandoning a branch of a dialogue is ordinary: it is
not a failure.
-/

namespace Dialogue

/-- How a signal settled. -/
inductive Outcome where
  | resolved
  | abandoned
deriving DecidableEq

namespace Outcome

/-- The word for an outcome in the text of an event. -/
def name : Outcome → String
  | resolved => "resolved"
  | abandoned => "abandoned"

end Outcome

end Dialogue
