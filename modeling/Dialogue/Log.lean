/-!
# The log

Operations report what they do as `LogLine`s, each with a `Severity` and the `Topic` it belongs to.
A `LogLevel` is the number that settings and the command line give; its `Filter` says which lines
are shown.
-/

namespace Dialogue

/-- Weight of one log line. -/
inductive Severity where
  | warn
  | info
  | debug
deriving DecidableEq

/-- The part of the library that a log line speaks for. -/
inductive Topic where
  | settings
  | talk
  | registry
  | areas
  | knots
  | program
deriving DecidableEq

/-- One message. -/
structure LogLine where
  severity : Severity
  topic : Topic
  text : String
deriving DecidableEq

/-- The lines that are shown: those of this weight and heavier ones. -/
inductive Filter where
  | off
  | error
  | warn
  | info
  | debug
  | trace
deriving DecidableEq

namespace Filter

def name : Filter → String
  | off => "OFF"
  | error => "ERROR"
  | warn => "WARN"
  | info => "INFO"
  | debug => "DEBUG"
  | trace => "TRACE"

def rank : Filter → Nat
  | off => 0
  | error => 1
  | warn => 2
  | info => 3
  | debug => 4
  | trace => 5

end Filter

namespace Severity

/-- The lowest filter that shows lines of this weight. -/
def filter : Severity → Filter
  | warn => .warn
  | info => .info
  | debug => .debug

def name (severity : Severity) : String := severity.filter.name

end Severity

/-- Whether `filter` shows lines of weight `severity`. -/
def Filter.shows (filter : Filter) (severity : Severity) : Bool :=
  severity.filter.rank ≤ filter.rank

/-- Log levels, numbered as settings and the command line spell them. -/
inductive LogLevel where
  | nothing
  | user
  | error
  | warning
  | info
  | debug
  | all
deriving DecidableEq

namespace LogLevel

/-- The level with a number; a number without a level stands for `info`. -/
def ofInt : Int → LogLevel
  | 0 => nothing
  | 1 => user
  | 2 => error
  | 3 => warning
  | 4 => info
  | 5 => debug
  | 6 => all
  | _ => info

def toInt : LogLevel → Int
  | nothing => 0
  | user => 1
  | error => 2
  | warning => 3
  | info => 4
  | debug => 5
  | all => 6

def name : LogLevel → String
  | nothing => "Nothing"
  | user => "User"
  | error => "Error"
  | warning => "Warning"
  | info => "Info"
  | debug => "Debug"
  | all => "All"

/-- The lines that a level shows. -/
def filter : LogLevel → Filter
  | nothing => .off
  | user | error => .error
  | warning => .warn
  | info => .info
  | debug => .debug
  | all => .trace

@[simp] theorem ofInt_toInt (level : LogLevel) : ofInt level.toInt = level := by
  cases level <;> rfl

end LogLevel

end Dialogue
