import Dialogue.Options.Settings

/-!
# Arguments

The command line takes one script and options, short (`-n 5`, `-n5`, `-n=5`) or long (`--normal-ms
5`, `--normal-ms=5`); behind `--` there are no options. A value in an argument of its own may not
start with a dash, unless it is a dash alone.

What was read last stays open until the next argument shows that it is complete: an option may
still be waiting for its value. So a mistake in it is found when the next option or script is
read, or at the end, and it goes unseen if the next argument is wrong by itself.
-/

namespace Dialogue.CommandLine

/-- How a simulated talk is shown. -/
inductive Format where
  /-- One line for each event, with its time. -/
  | timeline
  /-- The markup at the end. -/
  | html
deriving DecidableEq

namespace Format

def name : Format → String
  | timeline => "timeline"
  | html => "html"

def ofName? : String → Option Format
  | "timeline" => some timeline
  | "html" => some html
  | _ => none

end Format

/-- What the command line says. -/
structure Arguments where
  script : String
  config : Option String
  areas : Option String
  normal : Option String
  logLevel : Option Int
  format : Format
  skipAt : Option Millis
  closeAt : Option Millis
deriving DecidableEq

/-- Why the command line is not carried out. -/
inductive Refusal where
  | displayHelp
  | displayVersion
  | missingRequiredArgument
  | unknownArgument
  | invalidValue
  | valueValidation
  | argumentConflict
  | tooManyValues
deriving DecidableEq

namespace Refusal

def name : Refusal → String
  | displayHelp => "DisplayHelp"
  | displayVersion => "DisplayVersion"
  | missingRequiredArgument => "MissingRequiredArgument"
  | unknownArgument => "UnknownArgument"
  | invalidValue => "InvalidValue"
  | valueValidation => "ValueValidation"
  | argumentConflict => "ArgumentConflict"
  | tooManyValues => "TooManyValues"

/-- Asking for help or for the version is no mistake. -/
def exitCode : Refusal → Nat
  | displayHelp | displayVersion => 0
  | _ => 2

end Refusal

/-! ## Options -/

/-- What takes a value: the script, or an option. -/
inductive Parameter where
  | script
  | config
  | areas
  | normal
  | logLevel
  | format
  | skipAt
  | closeAt
deriving DecidableEq

/-- What a name stands for. -/
inductive Switch where
  | help
  | version
  | value (parameter : Parameter)
deriving DecidableEq

namespace Switch

def ofLong? : String → Option Switch
  | "help" => some help
  | "version" => some version
  | "config" => some (value .config)
  | "areas" => some (value .areas)
  | "normal-ms" => some (value .normal)
  | "log-level" => some (value .logLevel)
  | "format" => some (value .format)
  | "skip-at" => some (value .skipAt)
  | "close-at" => some (value .closeAt)
  | _ => none

def ofShort? : Char → Option Switch
  | 'h' => some help
  | 'V' => some version
  | 'c' => some (value .config)
  | 'a' => some (value .areas)
  | 'n' => some (value .normal)
  | 'l' => some (value .logLevel)
  | 'f' => some (value .format)
  | _ => none

end Switch

/-! ## Values -/

/-- The values read so far; the script may still be missing. -/
structure Draft where
  script : Option String
  config : Option String
  areas : Option String
  normal : Option String
  logLevel : Option Int
  format : Option Format
  skipAt : Option Millis
  closeAt : Option Millis
deriving DecidableEq

namespace Draft

def empty : Draft := ⟨none, none, none, none, none, none, none, none⟩

/-- Whether a parameter has its value. -/
def isFilled (draft : Draft) : Parameter → Bool
  | .script => draft.script.isSome
  | .config => draft.config.isSome
  | .areas => draft.areas.isSome
  | .normal => draft.normal.isSome
  | .logLevel => draft.logLevel.isSome
  | .format => draft.format.isSome
  | .skipAt => draft.skipAt.isSome
  | .closeAt => draft.closeAt.isSome

/-- The name of a file, which cannot be empty. -/
def fileName (value : String) : Except Refusal String :=
  if value.isEmpty then .error .invalidValue else .ok value

/-- A time. -/
def time (value : String) : Except Refusal Millis :=
  (Text.readMillis value.toList).mapError fun _ => .valueValidation

/-- Reads the value of a parameter. -/
def read (draft : Draft) (parameter : Parameter) (value : String) : Except Refusal Draft :=
  match parameter with
  | .script => do return { draft with script := some (← fileName value) }
  | .config => do return { draft with config := some (← fileName value) }
  | .areas => .ok { draft with areas := some value }
  | .normal => .ok { draft with normal := some value }
  | .logLevel => do
    let level ← (Text.readInt32 value.toList).mapError fun _ => Refusal.valueValidation
    return { draft with logLevel := some level }
  | .format =>
    match Format.ofName? value with
    | some format => .ok { draft with format := some format }
    | none => .error .invalidValue
  | .skipAt => do return { draft with skipAt := some (← time value) }
  | .closeAt => do return { draft with closeAt := some (← time value) }

/-- Fills a parameter, once. The value must be there, then the parameter must be free, then the
value must be right. -/
def fill (draft : Draft) (parameter : Parameter) (value : Option String) : Except Refusal Draft :=
  match value with
  | none => .error .invalidValue
  | some value =>
    if draft.isFilled parameter then .error .argumentConflict else draft.read parameter value

/-- The arguments, once all are read. -/
def complete (draft : Draft) : Except Refusal Arguments :=
  match draft.script with
  | none => .error .missingRequiredArgument
  | some script =>
    .ok {
      script
      config := draft.config
      areas := draft.areas
      normal := draft.normal
      logLevel := draft.logLevel
      format := draft.format.getD .timeline
      skipAt := draft.skipAt
      closeAt := draft.closeAt }

end Draft

/-! ## Reading -/

/-- What has been read: the values, and the parameter read last with its value, if that has come. -/
structure Reading where
  draft : Draft
  last : Option (Parameter × Option String)
  /-- Whether a script has been read. -/
  hasScript : Bool
  /-- Whether `--` has been read. -/
  onlyScripts : Bool
deriving DecidableEq

namespace Reading

def start : Reading := ⟨.empty, none, false, false⟩

/-- Fills the parameter read last. -/
def settle (reading : Reading) : Except Refusal Reading :=
  match reading.last with
  | none => .ok reading
  | some (parameter, value) => do
    let draft ← reading.draft.fill parameter value
    return { reading with draft, last := none }

/-- The parameter that waits for its value. -/
def waiting? (reading : Reading) : Option Parameter :=
  match reading.last with
  | some (parameter, none) => some parameter
  | _ => none

/-- Reads an option whose value, if any, is attached to it. -/
def switch (reading : Reading) (switch : Switch) (attached : Option String) :
    Except Refusal Reading :=
  match switch, attached with
  | .value parameter, none => do
    let reading ← reading.settle
    return { reading with last := some (parameter, none) }
  | .value parameter, some value => do
    let reading ← reading.settle
    let draft ← reading.draft.fill parameter (some value)
    return { reading with draft }
  | .help, none => do
    let _ ← reading.settle
    .error .displayHelp
  | .version, none => do
    let _ ← reading.settle
    .error .displayVersion
  | .help, some _ | .version, some _ => .error .tooManyValues

/-- Reads what stands behind two dashes. -/
def long (reading : Reading) (text : List Char) : Except Refusal Reading :=
  let (name, attached) := match Text.cut? (· = '=') text with
    | some (name, value) => (name, some (String.ofList value))
    | none => (text, none)
  match Switch.ofLong? (String.ofList name) with
  | some found => reading.switch found attached
  | none => .error .unknownArgument

/-- The value attached to a short option. -/
def shortValue : List Char → Option String
  | [] => none
  | '=' :: value => some (String.ofList value)
  | value => some (String.ofList value)

/-- Reads what stands behind one dash: help and version take no value, so that letters behind them
are further options. -/
def short (reading : Reading) : List Char → Except Refusal Reading
  | [] => .ok reading
  | letter :: rest =>
    match Switch.ofShort? letter with
    | some (.value parameter) => reading.switch (.value parameter) (shortValue rest)
    | some found => reading.switch found none
    | none => .error .unknownArgument

/-- Reads a script; there is only one. -/
def script (reading : Reading) (text : List Char) : Except Refusal Reading :=
  if reading.hasScript then .error .unknownArgument
  else do
    let reading ← reading.settle
    return { reading with last := some (.script, some (String.ofList text)), hasScript := true }

/-- Reads one argument. -/
def step (reading : Reading) (argument : String) : Except Refusal Reading :=
  if reading.onlyScripts then reading.script argument.toList
  else match argument.toList with
    | ['-', '-'] => .ok { reading with onlyScripts := true }
    | '-' :: '-' :: text => reading.long text
    | '-' :: letter :: rest => reading.short (letter :: rest)
    -- a word without a dash, or a dash alone, goes to the option that waits for it
    | text =>
      match reading.waiting? with
      | some parameter => .ok { reading with last := some (parameter, some (String.ofList text)) }
      | none => reading.script text

end Reading

namespace Arguments

/-- Reads the arguments. -/
def parse (arguments : List String) : Except Refusal Arguments := do
  let reading ← arguments.foldlM Reading.step Reading.start
  (← reading.settle).draft.complete

/-- Why the options of the command line are refused. -/
inductive MergeError where
  | areas (cause : ValueError)
  | normal (cause : ValueError)
  | invalid (cause : OptionsError)
deriving DecidableEq

namespace MergeError

def report : MergeError → Report
  | areas cause => cause.report.within "Invalid section areas"
  | normal cause => cause.report
  | invalid cause => cause.report

end MergeError

/-- Options with what the command line says in place of what they said. -/
def merge (arguments : Arguments) (options : Options) : Except MergeError Options := do
  let areas ← match arguments.areas with
    | some text => (parseAreas text).mapError .areas
    | none => .ok options.areas
  let normal ← match arguments.normal with
    | some text => (parseMillis text).mapError .normal
    | none => .ok options.tempo.normal
  let logLevel := arguments.logLevel.elim options.logLevel LogLevel.ofInt
  let merged := { options with areas, logLevel, tempo := { options.tempo with normal } }
  match merged.validate with
  | .ok () => .ok merged
  | .error cause => .error (.invalid cause)

end Arguments

end Dialogue.CommandLine
