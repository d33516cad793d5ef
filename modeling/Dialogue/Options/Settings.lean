import Dialogue.Options.Basic
import Dialogue.Text.Blank
import Dialogue.Text.Numeral

/-!
# Settings

A settings file holds lines `key = value`. `settingLines` reads the lines; `Options.assign` changes
the one option that a key names; `Options.load` goes through a whole file. A value that cannot be
read is an error, and of several the first one counts; a key that does not exist, and a line without
a value, are only logged.
-/

namespace Dialogue

/-! ## Keys -/

/-- The options that can be set. -/
inductive OptionKey where
  | normal
  | fade
  | sectionClose
  | talkWait
  | areas
  | defaultActor
  | logLevel
deriving DecidableEq

namespace OptionKey

def name : OptionKey → String
  | normal => "normal_ms"
  | fade => "show_char_wait"
  | sectionClose => "section_close_wait"
  | talkWait => "talk_wait"
  | areas => "section_areas"
  | defaultActor => "default_actor"
  | logLevel => "log_level"

/-- Every key. -/
def all : List OptionKey :=
  [normal, fade, sectionClose, talkWait, areas, defaultActor, logLevel]

/-- The key with a name. -/
def ofName? (name : String) : Option OptionKey := all.find? (·.name = name)

@[simp] theorem ofName?_name (key : OptionKey) : ofName? key.name = some key := by
  cases key <;> rfl

end OptionKey

/-! ## Values -/

/-- Why a value is refused. -/
inductive ValueError where
  | millis (cause : Text.NumeralError)
  | logLevel (cause : Text.NumeralError)
  | noAreas
deriving DecidableEq

namespace ValueError

def report : ValueError → Report
  | millis cause => (Report.plain cause.message).within "Invalid millisecond value"
  | logLevel cause => (Report.plain cause.message).within "Invalid log level"
  | noAreas => .plain "At least one section area is required"

end ValueError

/-- Reads a duration; blank characters may stand around it. -/
def parseMillis (value : String) : Except ValueError Millis :=
  (Text.readMillis (Text.trim value.toList)).mapError .millis

/-- The names in a list with commas, trimmed; empty ones are left out. -/
def areaNames (value : String) : List String :=
  (((Text.fields ',' value.toList).map Text.trim).filter (!·.isEmpty)).map String.ofList

/-- Reads a list of areas, at least one. -/
def parseAreas (value : String) : Except ValueError (List String) :=
  if (areaNames value).isEmpty then .error .noAreas else .ok (areaNames value)

/-- Reads a log level. -/
def parseLogLevel (value : String) : Except ValueError LogLevel :=
  ((Text.readInt32 value.toList).map LogLevel.ofInt).mapError .logLevel

namespace Options

/-- Changes the options by what has been read; where nothing could be read they stay. -/
def change {α : Type} (options : Options) (reading : Except ValueError α) (put : α → Options) :
    Except ValueError Unit × Options :=
  match reading with
  | .ok held => (.ok (), put held)
  | .error cause => (.error cause, options)

/-- Sets the option with a key. -/
def set (options : Options) (key : OptionKey) (value : String) :
    Except ValueError Unit × Options :=
  match key with
  | .normal => options.change (parseMillis value) fun normal =>
      { options with tempo := { options.tempo with normal } }
  | .fade => options.change (parseMillis value) fun fade =>
      { options with tempo := { options.tempo with fade } }
  | .sectionClose => options.change (parseMillis value) fun sectionClose =>
      { options with tempo := { options.tempo with sectionClose } }
  | .talkWait => options.change (parseMillis value) fun talk =>
      { options with tempo := { options.tempo with talk } }
  | .areas => options.change (parseAreas value) fun areas => { options with areas }
  | .defaultActor => (.ok (), { options with defaultActor := value })
  | .logLevel => options.change (parseLogLevel value) fun logLevel => { options with logLevel }

/-- Sets the option with a name, and hands the options back either way; a name without an option
changes nothing. -/
def assign (options : Options) (name value : String) : Except ValueError Unit × Options :=
  match OptionKey.ofName? name with
  | some key => options.set key value
  | none => (.ok (), options)

/-- The options with one of them set, if its value can be read. -/
def apply (options : Options) (name value : String) : Except ValueError Options :=
  let (outcome, later) := options.assign name value
  outcome.map fun () => later

/-- What setting the option with a name logs. -/
def applyLog (name : String) : List LogLine :=
  match OptionKey.ofName? name with
  | some _ => []
  | none => [⟨.warn, .settings, "Ignoring unknown config key '" ++ name ++ "'"⟩]

end Options

/-! ## Lines -/

/-- A line of a settings file that says something. -/
inductive SettingLine where
  | pair (name value : String)
  | bare (word : String)
deriving DecidableEq

/-- Reads one line: what follows `#` is a comment, and the first `=` stands between name and value.
A line without text says nothing. -/
def SettingLine.read? (line : List Char) : Option SettingLine :=
  let text := Text.trim (line.takeWhile (· ≠ '#'))
  if text.isEmpty then none
  else match Text.cut? (· = '=') text with
    | some (name, value) =>
      some (.pair (String.ofList (Text.trimEnd name)) (String.ofList (Text.trimStart value)))
    | none => some (.bare (String.ofList text))

/-- The lines of a settings file that say something. -/
def settingLines (data : String) : List SettingLine :=
  (Text.lines data.toList).filterMap SettingLine.read?

/-- The name and value of a line, if it has both. -/
def SettingLine.pair? : SettingLine → Option (String × String)
  | pair name value => some (name, value)
  | bare _ => none

/-- What reading a line logs. -/
def SettingLine.readLog : SettingLine → List LogLine
  | pair .. => []
  | bare word => [⟨.warn, .settings, "Key without value: '" ++ word ++ "'"⟩]

/-! ## Files -/

/-- Why a file cannot be read as text. -/
inductive FileError where
  | notFound
  | isDirectory
  | notDirectory
  | nameTooLong
  | nullInName
  | notText
deriving DecidableEq

namespace FileError

def message : FileError → String
  | notFound => "No such file or directory (os error 2)"
  | isDirectory => "Is a directory (os error 21)"
  | notDirectory => "Not a directory (os error 20)"
  | nameTooLong => "File name too long (os error 36)"
  | nullInName => "file name contained an unexpected NUL byte"
  | notText => "stream did not contain valid UTF-8"

end FileError

/-- Why a settings file gives no options. -/
inductive SettingsError where
  | unreadable (file : String) (cause : FileError)
  | badValue (name : String) (cause : ValueError)
  | invalid (cause : OptionsError)
deriving DecidableEq

namespace SettingsError

def report : SettingsError → Report
  | unreadable file cause =>
    (Report.plain cause.message).within ("Failed to read config file " ++ file)
  | badValue name cause => cause.report.within ("Bad value for '" ++ name ++ "'")
  | invalid cause => cause.report

end SettingsError

/-- The options read so far, the first error, and the log. -/
structure Loading where
  options : Options
  firstError : Option SettingsError
  log : List LogLine

namespace Loading

def start : Loading := ⟨.standard, none, []⟩

/-- Goes on with one line. After an error the later lines still count, but no later error does. -/
def step (loading : Loading) : SettingLine → Loading
  | .bare word => { loading with log := loading.log ++ (SettingLine.bare word).readLog }
  | .pair name value =>
    let (outcome, options) := loading.options.assign name value
    let log := loading.log ++ Options.applyLog name
    match outcome with
    | .ok () => { loading with options, log }
    | .error cause =>
      { options, firstError := loading.firstError <|> some (.badValue name cause), log }

/-- The outcome after the last line. -/
def result (loading : Loading) : Except SettingsError Options :=
  match loading.firstError with
  | some error => .error error
  | none =>
    match loading.options.validate with
    | .ok () => .ok loading.options
    | .error cause => .error (.invalid cause)

end Loading

namespace Options

/-- The options that a settings file gives, and the log of reading it. -/
def load (data : String) : Except SettingsError Options × List LogLine :=
  let loading := (settingLines data).foldl Loading.step Loading.start
  (loading.result, loading.log)

/-- The options of a settings file that may be missing; without a file they are the standard ones.
-/
def loadFile (file : Option String) (read : String → Except FileError String) :
    Except SettingsError Options × List LogLine :=
  match file with
  | none => (.ok .standard, [])
  | some name =>
    match read name with
    | .ok data => load data
    | .error cause => (.error (.unreadable name cause), [])

end Options

end Dialogue
