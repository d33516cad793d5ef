import Dialogue.CommandLine.Simulation

/-!
# The program

`Program.run` is all that the command line does, as a function of the arguments and of how files
are read: it gives an exit code and what is written to the two outputs. What is logged while the
settings are loaded is shown as the command line asks; later lines as the options ask.
-/

namespace Dialogue.CommandLine.Program

/-- What a run of the program leaves behind. -/
structure Result where
  code : Nat
  output : String
  errors : String
deriving DecidableEq

/-- The name and version of the program. -/
def version : String := "puttanesca 0.1.0\n"

/-- How the program is used. -/
def usage : String :=
  String.join (["Simulate the character-by-character reveal of a dialogue script",
    "",
    "Usage: puttanesca [OPTIONS] <SCRIPT>",
    "",
    "Arguments:",
    "  <SCRIPT>  Dialogue script to play",
    "",
    "Options:",
    "  -c, --config <FILE>      Configuration file (key = value)",
    "  -a, --areas <AREAS>      Comma separated section areas (e.g. area1,area2)",
    "  -n, --normal-ms <MS>     Base wait unit in milliseconds",
    "  -l, --log-level <LEVEL>  Log level (0-6)",
    "  -f, --format <FORMAT>    Output format [default: timeline] [possible values: timeline, html]",
    "      --skip-at <MS>       Skip to the end at this virtual time",
    "      --close-at <MS>      Close the talk at this virtual time",
    "  -h, --help               Print help",
    "  -V, --version            Print version"].map (· ++ "\n"))

/-! ## The log -/

/-- The part of the program that a line of a topic names. -/
def topicPath : Topic → String
  | .settings => "puttanesca::config"
  | .talk => "puttanesca::sequencer::talk"
  | .registry => "puttanesca::sequencer::registry"
  | .areas => "puttanesca::sequencer::area"
  | .knots => "puttanesca::aglio"
  | .program => "puttanesca"

/-- A line of the log; a debug line names where it comes from. -/
def logText (line : LogLine) : String :=
  match line.severity with
  | .warn | .info => "[" ++ line.severity.name ++ "] " ++ line.text ++ "\n"
  | .debug => "[DEBUG] (1) " ++ topicPath line.topic ++ ": " ++ line.text ++ "\n"

/-- The lines of a log that a level shows. -/
def shownLog (level : LogLevel) (log : List LogLine) : String :=
  String.join ((log.filter fun line => level.filter.shows line.severity).map logText)

/-! ## Running -/

/-- What a failure leaves behind, after what was logged before it. -/
def failure (log : String) (report : Report) : Result := ⟨1, "", log ++ report.page⟩

/-- Why a script is not played. -/
inductive ScriptError where
  | unreadable (file : String) (cause : FileError)
  | unparsable (file : String) (cause : Script.ParseError)
deriving DecidableEq

namespace ScriptError

def report : ScriptError → Report
  | unreadable file cause => (Report.plain cause.message).within ("Failed to read script " ++ file)
  | unparsable file cause =>
    (Report.plain cause.message).within ("Failed to parse script " ++ file)

end ScriptError

/-- Reads the script in a file. -/
def loadScript (file : String) (read : String → Except FileError String) :
    Except ScriptError (List Script.Directive) := do
  let text ← (read file).mapError (.unreadable file)
  (Script.parse text).mapError (.unparsable file)

/-- Plays a script with options. -/
def simulate (arguments : Arguments) (options : Options) (log : String)
    (script : List Script.Directive) : Result :=
  match Talk.create .empty options with
  | .error error => failure log error.report
  | .ok talk =>
    let (timeline, talk) := play arguments.skipAt arguments.closeAt (prepare talk script)
    ⟨0, render arguments.format timeline talk, log ++ shownLog options.logLevel talk.outbox.log⟩

/-- Carries out arguments that have been read. -/
def runArguments (arguments : Arguments) (read : String → Except FileError String) : Result :=
  let (loaded, loadLog) := Options.loadFile arguments.config read
  -- the options are not known yet, so that the command line alone sets the level
  let log := shownLog (arguments.logLevel.elim .warning LogLevel.ofInt) loadLog
  match loaded with
  | .error error => failure log error.report
  | .ok options =>
    match arguments.merge options with
    | .error error => failure log error.report
    | .ok options =>
      match loadScript arguments.script read with
      | .error error => failure log error.report
      | .ok script => simulate arguments options log script

/-- What arguments that are not carried out leave behind. -/
def refused (refusal : Refusal) : Result :=
  match refusal with
  | .displayHelp => ⟨0, usage, ""⟩
  | .displayVersion => ⟨0, version, ""⟩
  | refusal => ⟨refusal.exitCode, "", "error: " ++ refusal.name ++ "\n\n" ++ usage⟩

/-- Runs the program. -/
def run (arguments : List String) (read : String → Except FileError String) : Result :=
  match Arguments.parse arguments with
  | .error refusal => refused refusal
  | .ok arguments => runArguments arguments read

end Dialogue.CommandLine.Program
