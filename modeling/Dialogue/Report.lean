import Dialogue.Text.Aligned

/-!
# Reports of failure

A `Report` is a message with the chain of its causes, outermost first. It is shown on one line, or
on a page with the causes listed below the message.
-/

namespace Dialogue

/-- What went wrong, and why. -/
structure Report where
  message : String
  causes : List String
deriving DecidableEq

namespace Report

/-- A failure without a further cause. -/
def plain (message : String) : Report := ⟨message, []⟩

/-- The same failure, seen from outside. -/
def within (report : Report) (context : String) : Report :=
  ⟨context, report.message :: report.causes⟩

/-- The whole chain on one line. -/
def line (report : Report) : String := ": ".intercalate (report.message :: report.causes)

/-- The lines for the causes: a single cause has no number. -/
def causeLines : List String → List String
  | [] => []
  | [cause] => ["", "Caused by:", "    " ++ cause]
  | causes =>
    "" :: "Caused by:" ::
      causes.zipIdx.map fun (cause, i) => Text.alignRight 5 (toString i) ++ ": " ++ cause

/-- The message, and below it the causes. -/
def page (report : Report) : String :=
  String.join ((("Error: " ++ report.message) :: causeLines report.causes).map (· ++ "\n"))

end Report

end Dialogue
