import Dialogue.CommandLine.Program
import Dialogue.Proofs.Options.Loading
import Dialogue.Proofs.Talk.History

/-!
# Configuration

The options of a run come in three layers: the standard ones, those of a settings file, and those of the
command line. Each option is decided on its own, by the highest layer that says something about it, and in the
file by the last line with its key. The options are checked twice, once with and once without what the command
line says; what passes is good for a talk.

Main results:

* `Arguments.merge_eq_ok_iff` — what the command line puts in place of other options.
* `configured_eq_ok_iff` — when a configuration succeeds, and with what.
* `layers_decide` — all of it, with the first error, and with lines in another order.
-/

namespace Dialogue.CommandLine

/-- The options of a settings file, with what the command line says in place of what they say. -/
def configured (arguments : Arguments) (data : String) : Except Report Options :=
  match (Options.load data).1 with
  | .error error => .error error.report
  | .ok options => (arguments.merge options).mapError Arguments.MergeError.report

/-! ## The command line -/

/-- Renaming the error leaves what succeeds alone. -/
theorem mapError_eq_ok_iff {ε ε' α : Type} {result : Except ε α} {f : ε → ε'} {a : α} :
    result.mapError f = .ok a ↔ result = .ok a := by
  cases result <;> simp [Except.mapError]

namespace Arguments

/-- What the command line says about the option with a key. -/
def given? (arguments : Arguments) : (key : OptionKey) → Option (Except ValueError key.Held)
  | .normal => arguments.normal.map parseMillis
  | .areas => arguments.areas.map parseAreas
  | .logLevel => arguments.logLevel.map fun level => .ok (LogLevel.ofInt level)
  | .fade => none
  | .sectionClose => none
  | .talkWait => none
  | .defaultActor => none

/-- What is given on the command line can be read. -/
def Readable (arguments : Arguments) : Prop :=
  ∀ key reading, arguments.given? key = some reading → ∃ held, reading = .ok held

/-- What the option with a key holds once the command line has been taken into account. -/
def HeldOver (arguments : Arguments) (key : OptionKey) : (key.Held → Prop) → key.Held → Prop :=
  HeldUnder (arguments.given? key)

/-- A level that is given is always a level. -/
theorem heldOver_logLevel_iff {arguments : Arguments} {under held : LogLevel} :
    arguments.HeldOver .logLevel (· = under) held ↔
      held = arguments.logLevel.elim under LogLevel.ofInt := by
  change HeldUnder (arguments.logLevel.map fun level => .ok (LogLevel.ofInt level)) _ held ↔ _
  cases arguments.logLevel with
  | none => exact Iff.rfl
  | some level => simp [HeldUnder, eq_comm]

/-- What is read from the command line, or else what was there. -/
def overlay {α : Type} (given : Option String) (read : String → Except ValueError α)
    (refuse : ValueError → MergeError) (under : α) : Except MergeError α :=
  match given with
  | some text => (read text).mapError refuse
  | none => .ok under

/-- A value given on the command line holds if it reads, and else the one underneath. -/
theorem overlay_eq_ok_iff {α : Type} {given : Option String} {read : String → Except ValueError α}
    {refuse : ValueError → MergeError} {under held : α} :
    overlay given read refuse under = .ok held ↔ HeldUnder (given.map read) (· = under) held := by
  cases given with
  | none => simp [overlay, HeldUnder, eq_comm]
  | some text => cases hRead : read text <;> simp [overlay, HeldUnder, Except.mapError, hRead]

/-- A computation that succeeds has a first half that does, and a second half that goes on from it. -/
theorem bind_eq_ok_iff {ε α β : Type} {first : Except ε α} {rest : α → Except ε β} {b : β} :
    (first >>= rest) = .ok b ↔ ∃ a, first = .ok a ∧ rest a = .ok b := by
  cases first <;> simp [bind, Except.bind]

/-- The areas are read first, then the base unit; then the options are checked. -/
theorem merge_eq (arguments : Arguments) (options : Options) :
    arguments.merge options =
      overlay arguments.areas parseAreas .areas options.areas >>= fun areas =>
      overlay arguments.normal parseMillis .normal options.tempo.normal >>= fun normal =>
      let logLevel := arguments.logLevel.elim options.logLevel LogLevel.ofInt
      let merged := { options with areas, logLevel, tempo := { options.tempo with normal } }
      match merged.validate with
      | .ok () => .ok merged
      | .error cause => .error (.invalid cause) := by
  unfold merge
  cases arguments.areas <;> cases arguments.normal <;> rfl

/-- The option that is given can be read, and the one that is not given stays. -/
theorem merge_eq_ok_iff {arguments : Arguments} {options merged : Options} :
    arguments.merge options = .ok merged ↔ merged.Valid ∧ merged.startTime = options.startTime ∧
      ∀ key, arguments.HeldOver key (· = options.get key) (merged.get key) := by
  simp only [merge_eq, bind_eq_ok_iff, overlay_eq_ok_iff]
  constructor
  · rintro ⟨areas, hAreas, normal, hNormal, hMerge⟩
    split at hMerge
    · rename_i hValid
      cases hMerge
      refine ⟨Options.validate_eq_ok_iff.mp hValid, rfl, fun key => ?_⟩
      -- three keys can be given, and under the others the options stay as they are
      cases key with
      | areas => exact hAreas
      | normal => exact hNormal
      | logLevel => exact heldOver_logLevel_iff.mpr rfl
      | _ => rfl
    · cases hMerge
  · rintro ⟨hValid, hStart, hHeld⟩
    -- the two that are read are as merged
    refine ⟨merged.areas, hHeld .areas, merged.tempo.normal, hHeld .normal, ?_⟩
    -- what merging makes of these two and of the level holds the same under each key
    have hMerged : merged = { options with
        areas := merged.areas
        logLevel := arguments.logLevel.elim options.logLevel LogLevel.ofInt
        tempo := { options.tempo with normal := merged.tempo.normal } } := by
      refine Options.ext_get hStart fun key => ?_
      cases key with
      | areas => rfl
      | normal => rfl
      | logLevel => exact heldOver_logLevel_iff.mp (hHeld .logLevel)
      | fade => exact hHeld .fade
      | sectionClose => exact hHeld .sectionClose
      | talkWait => exact hHeld .talkWait
      | defaultActor => exact hHeld .defaultActor
    simp only [← hMerged, Options.validate_eq_ok_iff.mpr hValid]

/-- What is given on the command line can be put in place of any options. -/
theorem exists_heldOver {arguments : Arguments} (hReadable : arguments.Readable)
    (options : Options) : ∃ merged : Options, merged.startTime = options.startTime ∧
      ∀ key, arguments.HeldOver key (· = options.get key) (merged.get key) := by
  have hEach : ∀ key, ∃ held, arguments.HeldOver key (· = options.get key) held := by
    intro key
    unfold HeldOver
    cases hGiven : arguments.given? key with
    | none => exact ⟨options.get key, rfl⟩
    | some reading => exact hReadable key reading hGiven
  -- what is held under each key makes up the options
  choose held hHeld using hEach
  obtain ⟨merged, hStart, hGet⟩ := Options.exists_get options.startTime held
  refine ⟨merged, hStart, fun key => ?_⟩
  rw [hGet]
  exact hHeld key

/-- The options are as the lines of a settings file and then the command line set them. -/
structure SetOver (arguments : Arguments) (settings : List SettingLine) (options : Options) : Prop where
  startTime : options.startTime = none
  held : ∀ key, arguments.HeldOver key (HeldAfter settings key) (options.get key)

/-- Over options that the lines have set, what they say under a key is what the options hold. -/
theorem setOver_iff {arguments : Arguments} {settings : List SettingLine} {own merged : Options}
    (hOwn : Options.SetBy settings own) :
    arguments.SetOver settings merged ↔ merged.startTime = own.startTime ∧
      ∀ key, arguments.HeldOver key (· = own.get key) (merged.get key) := by
  have hHeld : ∀ key, arguments.HeldOver key (HeldAfter settings key) (merged.get key) ↔
      arguments.HeldOver key (· = own.get key) (merged.get key) :=
    fun key => HeldUnder.congr fun _ => hOwn.heldAfter_iff
  rw [hOwn.startTime]
  constructor
  · intro h
    exact ⟨h.startTime, fun key => (hHeld key).mp (h.held key)⟩
  · rintro ⟨hStart, h⟩
    exact ⟨hStart, fun key => (hHeld key).mpr (h key)⟩

end Arguments

/-! ## Configurations -/

/-- This is how the program comes by its options. -/
theorem runArguments_of_read {arguments : Arguments} {read : String → Except FileError String}
    {file data : String} (hConfig : arguments.config = some file) (hRead : read file = .ok data) :
    Program.runArguments arguments read =
      let log := Program.shownLog (arguments.logLevel.elim .warning LogLevel.ofInt) (Options.load data).2
      match configured arguments data with
      | .error report => Program.failure log report
      | .ok options =>
        match Program.loadScript arguments.script read with
        | .error error => Program.failure log error.report
        | .ok script => Program.simulate arguments options log script := by
  simp only [Program.runArguments, hConfig, Options.loadFile, hRead, configured]
  cases (Options.load data).1 with
  -- the file itself is refused
  | error error => rfl
  | ok own =>
    dsimp only
    cases arguments.merge own with
    | error error => rfl
    | ok options => cases Program.loadScript arguments.script read <;> rfl

/-- The file is checked before the command line is taken into account, and everything after. -/
theorem configured_eq_ok_iff {arguments : Arguments} {data : String} {options : Options} :
    configured arguments data = .ok options ↔ AllRead (settingLines data) ∧
      (∃ own, Options.SetBy (settingLines data) own ∧ own.Valid) ∧
      arguments.SetOver (settingLines data) options ∧ options.Valid := by
  unfold configured
  constructor
  · intro hConfigured
    cases hLoad : (Options.load data).1 with
    | error error => simp [hLoad] at hConfigured
    | ok own =>
      obtain ⟨hRead, hOwn, hValid⟩ := Options.load_eq_ok_iff.mp hLoad
      simp only [hLoad, mapError_eq_ok_iff, Arguments.merge_eq_ok_iff] at hConfigured
      exact ⟨hRead, ⟨own, hOwn, hValid⟩, (Arguments.setOver_iff hOwn).mpr hConfigured.2,
        hConfigured.1⟩
  · rintro ⟨hRead, ⟨own, hOwn, hValid⟩, hOver, hMerged⟩
    -- the file loads, and the arguments go over what it set
    rw [Options.load_eq_ok_iff.mpr ⟨hRead, hOwn, hValid⟩]
    simp only [mapError_eq_ok_iff, Arguments.merge_eq_ok_iff]
    exact ⟨hMerged, (Arguments.setOver_iff hOwn).mp hOver⟩

/-- The first value that does not read stops everything, and is named. -/
theorem configured_of_firstRefused (arguments : Arguments) {data name : String} {cause : ValueError}
    (hFirst : FirstRefused (settingLines data) name cause) :
    configured arguments data =
      .error (cause.report.within ("Bad value for '" ++ name ++ "'")) := by
  rw [configured, Options.load_of_firstRefused hFirst]
  rfl

/-- Only the values for each key count, in their order. -/
theorem configured_congr {arguments : Arguments} {data other : String} {options : Options}
    (hSame : ∀ key, valuesOf (settingLines other) key = valuesOf (settingLines data) key)
    (hConfigured : configured arguments data = .ok options) :
    configured arguments other = .ok options := by
  obtain ⟨hRead, ⟨own, hOwn, hValid⟩, hOver, hMerged⟩ := configured_eq_ok_iff.mp hConfigured
  have hHeld : ∀ key, HeldAfter (settingLines other) key = HeldAfter (settingLines data) key := by
    intro key
    rw [HeldAfter, HeldAfter, hSame]
  -- each condition asks for the values of one key, and never for the order of the lines
  refine configured_eq_ok_iff.mpr ⟨?_, ⟨own, ⟨hOwn.startTime, fun key => ?_⟩, hValid⟩,
    ⟨hOver.startTime, fun key => ?_⟩, hMerged⟩
  · rw [allRead_iff_values] at hRead ⊢
    intro key
    rw [hSame]
    exact hRead key
  · rw [hHeld]
    exact hOwn.held key
  · rw [hHeld]
    exact hOver.held key

/-- A value that is refused is an error, and of several the first one in the file counts, whatever options it
was to be set in. Otherwise, what the command line gives, what the last line with a key says and what is
standard make up the options, one by one, if they are valid with and without the command line. What the lines
for other keys say does not matter, nor where they stand. A line that is refused changes nothing, as the
options are handed back as they were, and one that is not changes the option with its name at most. With the
options that come of it, a talk can be made. -/
theorem layers_decide (arguments : Arguments) (data : String) :
    (∀ name cause, FirstRefused (settingLines data) name cause →
      configured arguments data =
        .error (cause.report.within ("Bad value for '" ++ name ++ "'"))) ∧
    ((∀ name cause, ¬ FirstRefused (settingLines data) name cause) → arguments.Readable →
      ∃ own merged, Options.SetBy (settingLines data) own ∧
        arguments.SetOver (settingLines data) merged) ∧
    (∀ options, configured arguments data = .ok options ↔
      (∀ name cause, ¬ FirstRefused (settingLines data) name cause) ∧
        (∃ own, Options.SetBy (settingLines data) own ∧ own.Valid) ∧
        arguments.SetOver (settingLines data) options ∧ options.Valid) ∧
    (∀ other options,
      (∀ key, valuesOf (settingLines other) key = valuesOf (settingLines data) key) →
        configured arguments data = .ok options → configured arguments other = .ok options) ∧
    (∀ options, configured arguments data = .ok options →
      ∀ registry, ∃ talk, Talk.create registry options = .ok talk) ∧
    (∀ options name value cause,
      Options.apply options name value = .error cause ↔ Options.Refused name value cause) ∧
    (∀ options left : Options, ∀ name value cause, options.assign name value = (.error cause, left) ↔
      Options.Refused name value cause ∧ left = options) ∧
    (∀ loading : Loading, ∀ name value cause, loading.options.apply name value = .error cause →
      (loading.step (.pair name value)).options = loading.options) ∧
    ∀ options changed : Options, ∀ name value, options.apply name value = .ok changed →
      changed.startTime = options.startTime ∧
        ∀ key : OptionKey, key.name ≠ name → changed.get key = options.get key := by
  refine ⟨fun name cause => configured_of_firstRefused arguments, fun hNone hReadable => ?_,
    fun options => ?_, fun other options => configured_congr, fun options hConfigured registry => ?_,
    fun options name value cause => Options.apply_eq_error_iff,
    fun options left name value cause => Options.assign_eq_error_iff,
    fun loading name value cause => Loading.options_step_of_error,
    fun options changed name value => Options.get_of_apply⟩
  · -- every line is read, and so is what the command line gives
    obtain ⟨own, hOwn⟩ := Options.exists_setBy (allRead_iff_not_firstRefused.mpr hNone)
    obtain ⟨merged, hMerged⟩ := Arguments.exists_heldOver hReadable own
    exact ⟨own, merged, hOwn, (Arguments.setOver_iff hOwn).mpr hMerged⟩
  · -- no line is the first refused one exactly if all are read
    rw [configured_eq_ok_iff, allRead_iff_not_firstRefused]
  · -- a talk checks its options in the same way
    obtain ⟨-, -, -, hValid⟩ := configured_eq_ok_iff.mp hConfigured
    obtain ⟨talk, hCreate, -⟩ := Talk.exists_create registry hValid
    exact ⟨talk, hCreate⟩

/-- A base unit that is not valid until the last line, an option that does not exist, and a word alone. -/
def wavering : String := "normal_ms = 0\nsection_areas = a\nvolume = 11\nnormal_ms = 50\nmute\n"

/-- Two areas, and a level without a name. -/
def leftAndRight : Arguments :=
  ⟨"script", some "settings", some "left, right", none, some 9, .timeline, none, none⟩

/-- A file that corrects itself, under a command line that names two areas. -/
theorem layers_decide_wavering :
    let options : Options :=
      { Options.standard with
        tempo := { Tempo.standard with normal := 50 }
        areas := ["left", "right"]
        logLevel := .info }
    configured leftAndRight wavering = .ok options ∧
      leftAndRight.SetOver (settingLines wavering) options ∧
      configured leftAndRight "section_areas = a\nnormal_ms = 0\nnormal_ms = 50\n" = .ok options ∧
      (∃ talk, Talk.create .empty options = .ok talk) ∧
      configured leftAndRight "mute\nlog_level=x\nnormal_ms=\n" =
        .error ⟨"Bad value for 'log_level'", ["Invalid log level", "invalid digit found in string"]⟩ := by
  intro options
  have hLines : settingLines wavering = [.pair "normal_ms" "0", .pair "section_areas" "a",
      .pair "volume" "11", .pair "normal_ms" "50", .bare "mute"] := by decide
  have hOtherLines : settingLines "section_areas = a\nnormal_ms = 0\nnormal_ms = 50\n" =
      [.pair "section_areas" "a", .pair "normal_ms" "0", .pair "normal_ms" "50"] := by decide
  have hBadLines : settingLines "mute\nlog_level=x\nnormal_ms=\n" =
      [.bare "mute", .pair "log_level" "x", .pair "normal_ms" ""] := by decide
  obtain ⟨-, -, hOk, hOther, hTalk, -⟩ := layers_decide leftAndRight wavering
  have hConfigured : configured leftAndRight wavering = .ok options := by
    rw [configured, Options.load, hLines]
    decide
  obtain ⟨-, -, hOver, -⟩ := (hOk options).mp hConfigured
  refine ⟨hConfigured, hOver, hOther _ options ?_ hConfigured, hTalk options hConfigured .empty, ?_⟩
  · intro key
    rw [hLines, hOtherLines]
    cases key <;> rfl
  · -- the level is refused before the empty number is looked at
    refine (layers_decide leftAndRight _).1 "log_level" (.logLevel .invalidDigit) ?_
    refine ⟨[.bare "mute"], "x", [.pair "normal_ms" ""], hBadLines, ⟨.logLevel, rfl, rfl⟩, ?_⟩
    exact allRead_iff.mpr rfl

end Dialogue.CommandLine
