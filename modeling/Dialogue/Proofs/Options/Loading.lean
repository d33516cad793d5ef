import Dialogue.Options.Settings
import Mathlib.Data.List.Induction

/-!
# Loading settings

A settings file is gone through line by line, and each line changes one option at most. So an option ends
up as the last line with its key has set it, whatever the lines for other keys say and wherever they stand.
Whether a value is refused depends on its key alone; after the first one that is, the other lines still
count, but the error stays.

The options are looked at one by one, by their keys: `Options.get` gives what an option holds, `Options.put`
changes it, and `Options.set` reads a value and puts it there.

Main results:

* `Options.assign_cases` — what one line can do, and that a line that is refused changes nothing.
* `Loading.loaded_all` — what a whole file does: the first error, and what each option holds.
* `Options.load_eq_ok_iff`, `Options.load_of_firstRefused` — when loading succeeds, and with what.
-/

namespace Dialogue

/-! ## Options by their keys -/

namespace OptionKey

/-- What the option with a key holds. -/
def Held : OptionKey → Type
  | normal | fade | sectionClose | talkWait => Millis
  | areas => List String
  | defaultActor => String
  | logLevel => LogLevel

/-- Reads a value of the option with a key. -/
def read : (key : OptionKey) → String → Except ValueError key.Held
  | normal, value => parseMillis value
  | fade, value => parseMillis value
  | sectionClose, value => parseMillis value
  | talkWait, value => parseMillis value
  | areas, value => parseAreas value
  | defaultActor, value => .ok value
  | logLevel, value => parseLogLevel value

/-- A name stands for the option that bears it. -/
theorem ofName?_eq_some_iff {name : String} {key : OptionKey} :
    ofName? name = some key ↔ key.name = name := by
  constructor
  · intro hKey
    simpa using List.find?_some hKey
  · rintro rfl
    exact ofName?_name key

/-- A name stands for no option exactly if none bears it. -/
theorem ofName?_eq_none_iff {name : String} :
    ofName? name = none ↔ ∀ key : OptionKey, key.name ≠ name := by
  rw [Option.eq_none_iff_forall_ne_some]
  exact forall_congr' fun key => not_congr ofName?_eq_some_iff

/-- No two options have the same name. -/
theorem name_inj {key other : OptionKey} (hName : key.name = other.name) : key = other := by
  have hKey := ofName?_eq_some_iff.mpr hName
  rw [ofName?_name, Option.some.injEq] at hKey
  exact hKey.symm

end OptionKey

namespace Options

/-- What the option with a key holds. -/
def get (options : Options) : (key : OptionKey) → key.Held
  | .normal => options.tempo.normal
  | .fade => options.tempo.fade
  | .sectionClose => options.tempo.sectionClose
  | .talkWait => options.tempo.talk
  | .areas => options.areas
  | .defaultActor => options.defaultActor
  | .logLevel => options.logLevel

/-- Changes what the option with a key holds. -/
def put (options : Options) : (key : OptionKey) → key.Held → Options
  | .normal, normal => { options with tempo := { options.tempo with normal } }
  | .fade, fade => { options with tempo := { options.tempo with fade } }
  | .sectionClose, sectionClose => { options with tempo := { options.tempo with sectionClose } }
  | .talkWait, talk => { options with tempo := { options.tempo with talk } }
  | .areas, areas => { options with areas }
  | .defaultActor, defaultActor => { options with defaultActor }
  | .logLevel, logLevel => { options with logLevel }

/-- What is put under a key is found there. -/
theorem get_put (options : Options) (key : OptionKey) (held : key.Held) :
    (options.put key held).get key = held := by
  cases key <;> rfl

theorem get_put_of_ne (options : Options) {key other : OptionKey} (hOther : other ≠ key)
    (held : key.Held) : (options.put key held).get other = options.get other := by
  cases key <;> cases other <;> grind [Options.get, Options.put]

theorem startTime_put (options : Options) (key : OptionKey) (held : key.Held) :
    (options.put key held).startTime = options.startTime := by
  cases key <;> rfl

/-- There are options that hold what one likes under each key. -/
theorem exists_get (startTime : Option Millis) (held : (key : OptionKey) → key.Held) :
    ∃ options : Options, options.startTime = startTime ∧ ∀ key, options.get key = held key := by
  refine ⟨⟨⟨held .normal, held .fade, held .sectionClose, held .talkWait⟩, held .areas,
    held .defaultActor, startTime, held .logLevel⟩, rfl, fun key => ?_⟩
  cases key <;> rfl

/-- Options are told by what they hold under each key, and by when they start. -/
theorem ext_get {a b : Options} (hStart : a.startTime = b.startTime)
    (hGet : ∀ key, a.get key = b.get key) : a = b := by
  obtain ⟨⟨normal, fade, sectionClose, talk⟩, areas, defaultActor, startTime, logLevel⟩ := a
  obtain rfl : normal = b.tempo.normal := hGet .normal
  obtain rfl : fade = b.tempo.fade := hGet .fade
  obtain rfl : sectionClose = b.tempo.sectionClose := hGet .sectionClose
  obtain rfl : talk = b.tempo.talk := hGet .talkWait
  obtain rfl : areas = b.areas := hGet .areas
  obtain rfl : defaultActor = b.defaultActor := hGet .defaultActor
  obtain rfl : logLevel = b.logLevel := hGet .logLevel
  obtain rfl : startTime = b.startTime := hStart
  rfl

/-- Setting an option reads a value, and puts it there if there is one. -/
theorem set_eq (options : Options) (key : OptionKey) (value : String) :
    options.set key value = options.change (key.read value) (options.put key) := by
  cases key <;> rfl

/-! ## One line -/

/-- There is an option with the name, and the value cannot be read as what it holds. -/
def Refused (name value : String) (cause : ValueError) : Prop :=
  ∃ key : OptionKey, key.name = name ∧ key.read value = .error cause

/-- What is read is not refused. -/
theorem not_refused_of_read {key : OptionKey} {value : String} {held : key.Held}
    (hRead : key.read value = .ok held) (cause : ValueError) : ¬ Refused key.name value cause := by
  rintro ⟨other, hName, hError⟩
  obtain rfl := OptionKey.name_inj hName
  rw [hRead] at hError
  cases hError

/-- The name tells the key, so that there is one reading only, with one error. -/
theorem Refused.cause_iff {name value : String} {found cause : ValueError}
    (hRefused : Refused name value found) : found = cause ↔ Refused name value cause := by
  constructor
  · rintro rfl
    exact hRefused
  · rintro ⟨key, rfl, hRead⟩
    obtain ⟨other, hName, hOther⟩ := hRefused
    obtain rfl := OptionKey.name_inj hName
    rw [hOther] at hRead
    exact Except.error.inj hRead

/-- Setting an option changes it, or is refused and leaves all as it is, or finds no option with the name. -/
theorem assign_cases (options : Options) (name value : String) :
    (∃ (key : OptionKey) (held : key.Held), key.name = name ∧ key.read value = .ok held ∧
      options.assign name value = (.ok (), options.put key held)) ∨
    (∃ cause, Refused name value cause ∧ options.assign name value = (.error cause, options)) ∨
    ((∀ key : OptionKey, key.name ≠ name) ∧ options.assign name value = (.ok (), options)) := by
  unfold assign
  cases hKey : OptionKey.ofName? name with
  | none => exact .inr (.inr ⟨OptionKey.ofName?_eq_none_iff.mp hKey, rfl⟩)
  | some key =>
    have hName := OptionKey.ofName?_eq_some_iff.mp hKey
    simp only [set_eq]
    cases hRead : key.read value with
    -- the value is refused, and the options are handed back
    | error cause => exact .inr (.inl ⟨cause, ⟨key, hName, hRead⟩, rfl⟩)
    | ok held => exact .inl ⟨key, held, hName, hRead, rfl⟩

/-- What is set in place is what is given back, unless it is refused. -/
theorem assign_eq (options : Options) (name value : String) :
    options.assign name value =
      match options.apply name value with
      | .ok changed => (.ok (), changed)
      | .error cause => (.error cause, options) := by
  obtain ⟨key, held, -, -, hAssign⟩ | ⟨cause, -, hAssign⟩ | ⟨-, hAssign⟩ :=
    options.assign_cases name value
  all_goals
    simp only [apply, hAssign]
    rfl

/-- What is refused is told, and the options are handed back as they were. -/
theorem assign_eq_error_iff {options left : Options} {name value : String} {cause : ValueError} :
    options.assign name value = (.error cause, left) ↔ Refused name value cause ∧ left = options := by
  obtain ⟨key, held, rfl, hRead, hAssign⟩ | ⟨found, hRefused, hAssign⟩ | ⟨hNone, hAssign⟩ :=
    options.assign_cases name value
  · rw [hAssign]
    exact iff_of_false (fun h => nomatch h) fun h => not_refused_of_read hRead cause h.1
  · rw [hAssign, Prod.mk.injEq, Except.error.injEq, hRefused.cause_iff]
    exact and_congr_right fun _ => eq_comm
  · -- nothing is read where no option has the name
    rw [hAssign]
    refine iff_of_false (fun h => nomatch h) ?_
    rintro ⟨⟨key, hName, -⟩, -⟩
    exact hNone key hName

/-- The options that are given back are those with one option changed, if there are any. -/
theorem apply_cases (options : Options) (name value : String) :
    (∃ (key : OptionKey) (held : key.Held), key.name = name ∧ key.read value = .ok held ∧
      options.apply name value = .ok (options.put key held)) ∨
    (∃ cause, Refused name value cause ∧ options.apply name value = .error cause) ∨
    ((∀ key : OptionKey, key.name ≠ name) ∧ options.apply name value = .ok options) := by
  unfold apply
  obtain ⟨key, held, hName, hRead, hAssign⟩ | ⟨cause, hRefused, hAssign⟩ | ⟨hNone, hAssign⟩ :=
    options.assign_cases name value
  all_goals simp only [hAssign]
  · exact .inl ⟨key, held, hName, hRead, rfl⟩
  · exact .inr (.inl ⟨cause, hRefused, rfl⟩)
  · exact .inr (.inr ⟨hNone, rfl⟩)

/-- Whether a value is refused does not depend on the options that are set. -/
theorem apply_eq_error_iff {options : Options} {name value : String} {cause : ValueError} :
    options.apply name value = .error cause ↔ Refused name value cause := by
  have hAssign : options.apply name value = .error cause ↔
      options.assign name value = (.error cause, options) := by
    rw [assign_eq]
    cases options.apply name value <;> simp
  rw [hAssign, assign_eq_error_iff, and_iff_left rfl]

/-- A name changes no option but its own. -/
theorem get_of_apply {options changed : Options} {name value : String}
    (hApply : options.apply name value = .ok changed) :
    changed.startTime = options.startTime ∧
      ∀ key : OptionKey, key.name ≠ name → changed.get key = options.get key := by
  obtain ⟨key, held, rfl, -, hPut⟩ | ⟨cause, -, hError⟩ | ⟨-, hSame⟩ :=
    options.apply_cases name value
  · rw [hPut, Except.ok.injEq] at hApply
    rw [← hApply]
    refine ⟨startTime_put .., fun other hOther => get_put_of_ne _ ?_ held⟩
    -- the name was that of another option
    rintro rfl
    exact hOther rfl
  · rw [hError] at hApply
    cases hApply
  · rw [hSame, Except.ok.injEq] at hApply
    rw [hApply]
    exact ⟨rfl, fun key _ => rfl⟩

end Options

/-! ## Many lines -/

namespace SettingLine

/-- The value that a line has for a key. -/
def value? : SettingLine → OptionKey → Option String
  | pair name value, key => if key.name = name then some value else none
  | bare _, _ => none

/-- The error that a line leads to. -/
def refusal? : SettingLine → Option SettingsError
  | pair name value =>
    match Options.standard.apply name value with
    | .error cause => some (.badValue name cause)
    | .ok _ => none
  | bare _ => none

/-- A pair is refused with the same error whatever the options are. -/
theorem refusal?_pair (options : Options) (name value : String) :
    (pair name value).refusal? =
      match options.apply name value with
      | .error cause => some (.badValue name cause)
      | .ok _ => none := by
  have hSame : ∀ cause, Options.standard.apply name value = .error cause ↔
      options.apply name value = .error cause := by
    intro cause
    rw [Options.apply_eq_error_iff, Options.apply_eq_error_iff]
  unfold refusal?
  cases hApply : options.apply name value with
  | error cause => simp only [(hSame cause).mpr hApply]
  | ok changed =>
    cases hStandard : Options.standard.apply name value with
    | error cause =>
      rw [(hSame cause).mp hStandard] at hApply
      cases hApply
    -- which options the value is applied to makes no difference
    | ok other => simp only [hStandard]

/-- A line is refused exactly if its value is refused under its name. -/
theorem refusal?_eq_some_iff {setting : SettingLine} {error : SettingsError} :
    setting.refusal? = some error ↔ ∃ name value cause, setting = .pair name value ∧
      error = .badValue name cause ∧ Options.Refused name value cause := by
  constructor
  · intro hRefusal
    unfold refusal? at hRefusal
    split at hRefusal
    · -- only a pair can be refused
      rename_i name value
      split at hRefusal
      · rename_i cause hApply
        cases hRefusal
        exact ⟨name, value, cause, rfl, rfl, Options.apply_eq_error_iff.mp hApply⟩
      · cases hRefusal
    · cases hRefusal
  · rintro ⟨name, value, cause, rfl, rfl, hRefused⟩
    have hApply : Options.standard.apply name value = .error cause :=
      Options.apply_eq_error_iff.mpr hRefused
    simp only [refusal?, hApply]

end SettingLine

/-- The values that some lines have for a key. -/
def valuesOf (settings : List SettingLine) (key : OptionKey) : List String :=
  settings.filterMap (·.value? key)

/-- What is held where a layer above may say something: what is read there, or else what lies under it. -/
def HeldUnder {α : Type} (above : Option (Except ValueError α)) (under : α → Prop) (held : α) : Prop :=
  match above with
  | some reading => reading = .ok held
  | none => under held

/-- If there is but one value underneath, then there is but one that holds. -/
theorem HeldUnder.unique {α : Type} {above : Option (Except ValueError α)} {under : α → Prop}
    {held other : α} (hHeld : HeldUnder above under held) (hOther : HeldUnder above under other)
    (hUnder : ∀ a b, under a → under b → a = b) : held = other := by
  cases above with
  | some reading => exact Except.ok.inj (Eq.trans (Eq.symm hHeld) hOther)
  | none => exact hUnder held other hHeld hOther

/-- What is held under a value that is set depends only on which values can lie underneath. -/
theorem HeldUnder.congr {α : Type} {above : Option (Except ValueError α)} {under other : α → Prop}
    (hSame : ∀ held, under held ↔ other held) {held : α} :
    HeldUnder above under held ↔ HeldUnder above other held := by
  cases above with
  | some reading => exact Iff.rfl
  | none => exact hSame held

/-- What an option holds after some lines: what the last line with its key says, or else what is
standard. -/
def HeldAfter (settings : List SettingLine) (key : OptionKey) : key.Held → Prop :=
  HeldUnder ((valuesOf settings key).getLast?.map key.read) (· = Options.standard.get key)

/-- No line has a value that is refused. -/
def AllRead (settings : List SettingLine) : Prop :=
  ∀ name value, .pair name value ∈ settings → ∀ cause, ¬ Options.Refused name value cause

/-- The first of the lines with a value that is refused. -/
def FirstRefused (settings : List SettingLine) (name : String) (cause : ValueError) : Prop :=
  ∃ before value after, settings = before ++ .pair name value :: after ∧
    Options.Refused name value cause ∧ AllRead before

/-- The values of one more line stand behind all others. -/
theorem valuesOf_append_singleton (settings : List SettingLine) (setting : SettingLine)
    (key : OptionKey) :
    valuesOf (settings ++ [setting]) key = valuesOf settings key ++ (setting.value? key).toList := by
  rw [valuesOf, List.filterMap_append, List.filterMap_cons, List.filterMap_nil]
  cases setting.value? key <;> rfl

/-- Every line is read exactly if none of them is refused. -/
theorem allRead_iff {settings : List SettingLine} :
    AllRead settings ↔ settings.findSome? SettingLine.refusal? = none := by
  rw [List.findSome?_eq_none_iff]
  constructor
  · intro hRead setting hMem
    rw [Option.eq_none_iff_forall_ne_some]
    intro error hRefusal
    obtain ⟨name, value, cause, rfl, -, hRefused⟩ := SettingLine.refusal?_eq_some_iff.mp hRefusal
    exact hRead name value hMem cause hRefused
  · intro hNone name value hMem cause hRefused
    have hRefusal := SettingLine.refusal?_eq_some_iff.mpr ⟨name, value, cause, rfl, rfl, hRefused⟩
    rw [hNone _ hMem] at hRefusal
    cases hRefusal

/-- The first refused line is the first one with a refusal. -/
theorem firstRefused_iff {settings : List SettingLine} {name : String} {cause : ValueError} :
    FirstRefused settings name cause ↔
      settings.findSome? SettingLine.refusal? = some (.badValue name cause) := by
  rw [List.findSome?_eq_some_iff]
  constructor
  · rintro ⟨before, value, after, rfl, hRefused, hBefore⟩
    refine ⟨before, _, after, rfl,
      SettingLine.refusal?_eq_some_iff.mpr ⟨name, value, cause, rfl, rfl, hRefused⟩, ?_⟩
    rwa [allRead_iff, List.findSome?_eq_none_iff] at hBefore
  · rintro ⟨before, setting, after, rfl, hRefusal, hBefore⟩
    obtain ⟨_, value, _, rfl, hError, hRefused⟩ := SettingLine.refusal?_eq_some_iff.mp hRefusal
    cases hError
    exact ⟨before, value, after, rfl, hRefused,
      allRead_iff.mpr (List.findSome?_eq_none_iff.mpr hBefore)⟩

/-- Whether all lines are read shows in the values for each key. -/
theorem allRead_iff_values {settings : List SettingLine} :
    AllRead settings ↔
      ∀ key, ∀ value ∈ valuesOf settings key, ∀ cause, key.read value ≠ .error cause := by
  constructor
  · intro hRead key value hValue cause hError
    obtain ⟨setting, hMem, hPair⟩ := List.mem_filterMap.mp hValue
    -- only a pair has a value under a key
    cases setting with
    | bare word => cases hPair
    | pair name text =>
      obtain ⟨hName, hText⟩ := Option.ite_none_right_eq_some.mp hPair
      obtain rfl := Option.some.inj hText
      exact hRead name text hMem cause ⟨key, hName, hError⟩
  · rintro hRead name value hMem cause ⟨key, rfl, hError⟩
    have hValue : value ∈ valuesOf settings key := List.mem_filterMap.mpr ⟨_, hMem, if_pos rfl⟩
    exact hRead key value hValue cause hError

/-- Where nothing is refused first, nothing is refused. -/
theorem allRead_iff_not_firstRefused {settings : List SettingLine} :
    AllRead settings ↔ ∀ name cause, ¬ FirstRefused settings name cause := by
  constructor
  · rintro hRead name cause ⟨before, value, after, rfl, hRefused, -⟩
    exact hRead name value (by simp) cause hRefused
  · intro hNone
    rw [allRead_iff]
    -- an error would come from some line, and the first such line is refused first
    cases hFirst : settings.findSome? SettingLine.refusal? with
    | none => rfl
    | some error =>
      obtain ⟨setting, -, hRefusal⟩ := List.exists_of_findSome?_eq_some hFirst
      obtain ⟨name, -, cause, -, rfl, -⟩ := SettingLine.refusal?_eq_some_iff.mp hRefusal
      exact absurd (firstRefused_iff.mpr hFirst) (hNone name cause)

/-- A line without a value for a key leaves what the option holds. -/
theorem HeldAfter.leave {settings : List SettingLine} {setting : SettingLine} {key : OptionKey}
    {held : key.Held} (hHeld : HeldAfter settings key held) (hNone : setting.value? key = none) :
    HeldAfter (settings ++ [setting]) key held := by
  rw [HeldAfter, valuesOf_append_singleton, hNone, Option.toList_none, List.append_nil]
  exact hHeld

/-- A line that is read decides what its key holds from then on. -/
theorem heldAfter_of_read {settings : List SettingLine} {setting : SettingLine} {key : OptionKey}
    {value : String} {held : key.Held} (hValue : setting.value? key = some value)
    (hRead : key.read value = .ok held) : HeldAfter (settings ++ [setting]) key held := by
  rw [HeldAfter, valuesOf_append_singleton, hValue, Option.toList_some, List.getLast?_concat]
  exact hRead

namespace Loading

/-! ## Going through the lines -/

variable {loading : Loading}

/-- A value that is read changes the options. -/
theorem options_step_of_ok {name value : String} {changed : Options}
    (hApply : loading.options.apply name value = .ok changed) :
    (loading.step (.pair name value)).options = changed := by
  simp only [step, Options.assign_eq, hApply]

/-- A value that is refused leaves the options as they were. -/
theorem options_step_of_error {name value : String} {cause : ValueError}
    (hApply : loading.options.apply name value = .error cause) :
    (loading.step (.pair name value)).options = loading.options := by
  simp only [step, Options.assign_eq, hApply]

/-- The error of an earlier line stands, and else that of this one. -/
theorem firstError_step (loading : Loading) (setting : SettingLine) :
    (loading.step setting).firstError = loading.firstError.or setting.refusal? := by
  cases setting with
  | bare word => exact Option.or_none.symm
  | pair name value =>
    rw [SettingLine.refusal?_pair loading.options, step, Options.assign_eq]
    cases loading.options.apply name value with
    | error cause => exact Option.orElse_eq_or
    | ok changed => exact Option.or_none.symm

/-- No line sets the start time. -/
theorem startTime_step (loading : Loading) (setting : SettingLine) :
    (loading.step setting).options.startTime = loading.options.startTime := by
  cases setting with
  | bare word => rfl
  | pair name value =>
    cases hApply : loading.options.apply name value with
    | error cause => rw [options_step_of_error hApply]
    | ok changed =>
      rw [options_step_of_ok hApply]
      exact (Options.get_of_apply hApply).1

/-- A line that is read changes the option with its key, if there is one, and leaves the others. -/
theorem heldAfter_step {settings : List SettingLine} {setting : SettingLine}
    (hRead : AllRead (settings ++ [setting])) {key : OptionKey}
    (hHeld : HeldAfter settings key (loading.options.get key)) :
    HeldAfter (settings ++ [setting]) key ((loading.step setting).options.get key) := by
  cases setting with
  | bare word => exact hHeld.leave rfl
  | pair name value =>
    obtain ⟨other, held, rfl, hOther, hApply⟩ | ⟨cause, hRefused, -⟩ | ⟨hNone, hApply⟩ :=
      loading.options.apply_cases name value
    · rw [options_step_of_ok hApply]
      by_cases hSame : other = key
      · subst hSame
        rw [Options.get_put]
        exact heldAfter_of_read (if_pos rfl) hOther
      · -- the line is about another option
        rw [Options.get_put_of_ne _ (Ne.symm hSame)]
        exact hHeld.leave (if_neg fun hName => hSame (OptionKey.name_inj hName).symm)
    · -- no value of these lines is refused
      exact absurd hRefused (hRead name value (by simp) cause)
    · rw [options_step_of_ok hApply]
      exact hHeld.leave (if_neg (hNone key))

/-- What has been loaded after some lines. After an error, what the options hold does not count. -/
structure Loaded (settings : List SettingLine) (loading : Loading) : Prop where
  firstError : loading.firstError = settings.findSome? SettingLine.refusal?
  startTime : loading.options.startTime = none
  held : AllRead settings → ∀ key, HeldAfter settings key (loading.options.get key)

/-- Before the first line all options are standard. -/
theorem loaded_start : Loaded [] start where
  firstError := rfl
  startTime := rfl
  held _ _ := rfl

/-- Each line keeps it so that the options hold what the lines have said. -/
theorem Loaded.step {settings : List SettingLine} (h : Loaded settings loading)
    (setting : SettingLine) : Loaded (settings ++ [setting]) (loading.step setting) where
  firstError := by
    rw [firstError_step, h.firstError, List.findSome?_append, List.findSome?_singleton]
  startTime := (startTime_step loading setting).trans h.startTime
  held hAll key := by
    -- where all lines are read, so are all but the last
    have hBefore : AllRead settings :=
      fun name value hMem => hAll name value (List.mem_append_left _ hMem)
    exact heldAfter_step hAll (h.held hBefore key)

/-- After all lines the options are the ones that the lines describe. -/
theorem loaded_all (settings : List SettingLine) : Loaded settings (settings.foldl step start) := by
  induction settings using List.reverseRecOn with
  | nil => exact loaded_start
  | append_singleton settings setting ih =>
    rw [List.foldl_append]
    exact ih.step setting

end Loading

namespace Options

/-! ## Whole files -/

/-- The options are as the lines of a settings file set them. -/
structure SetBy (settings : List SettingLine) (options : Options) : Prop where
  startTime : options.startTime = none
  held : ∀ key, HeldAfter settings key (options.get key)

/-- Two things that an option may hold after the same lines are one. -/
theorem heldAfter_unique {settings : List SettingLine} {key : OptionKey} {held other : key.Held}
    (hHeld : HeldAfter settings key held) (hOther : HeldAfter settings key other) : held = other :=
  HeldUnder.unique hHeld hOther fun _ _ hA hB => hA.trans hB.symm

/-- What the lines say under a key is what the options hold there. -/
theorem SetBy.heldAfter_iff {settings : List SettingLine} {options : Options}
    (h : SetBy settings options) {key : OptionKey} {held : key.Held} :
    HeldAfter settings key held ↔ held = options.get key := by
  constructor
  · intro hHeld
    exact heldAfter_unique hHeld (h.held key)
  · rintro rfl
    exact h.held key

/-- The lines set no more than one set of options. -/
theorem SetBy.unique {settings : List SettingLine} {options other : Options}
    (h : SetBy settings options) (hOther : SetBy settings other) : options = other := by
  refine ext_get (h.startTime.trans hOther.startTime.symm) fun key => ?_
  exact heldAfter_unique (h.held key) (hOther.held key)

/-- Lines that are all read set some options. -/
theorem exists_setBy {settings : List SettingLine} (hRead : AllRead settings) :
    ∃ options, SetBy settings options :=
  have h := Loading.loaded_all settings
  ⟨_, h.startTime, h.held hRead⟩

/-- Loading stops at the first refused line, with its error. -/
theorem load_of_firstRefused {data name : String} {cause : ValueError}
    (hFirst : FirstRefused (settingLines data) name cause) :
    (load data).1 = .error (.badValue name cause) := by
  have h := Loading.loaded_all (settingLines data)
  rw [firstRefused_iff, ← h.firstError] at hFirst
  simp only [load, Loading.result, hFirst]

/-- Where every line is read, loading checks what the lines set. -/
theorem load_of_setBy {data : String} {options : Options} (hRead : AllRead (settingLines data))
    (hSet : SetBy (settingLines data) options) :
    (load data).1 = match options.validate with
      | .ok () => .ok options
      | .error cause => .error (.invalid cause) := by
  have h := Loading.loaded_all (settingLines data)
  have hNone := h.firstError.trans (allRead_iff.mp hRead)
  have hOptions := SetBy.unique ⟨h.startTime, h.held hRead⟩ hSet
  cases hCheck : options.validate <;> simp only [load, Loading.result, hNone, hOptions, hCheck]

/-- Loading succeeds with just the valid options that lines without a refusal set. -/
theorem load_eq_ok_iff {data : String} {options : Options} :
    (load data).1 = .ok options ↔
      AllRead (settingLines data) ∧ SetBy (settingLines data) options ∧ options.Valid := by
  constructor
  · intro hLoad
    have hRead : AllRead (settingLines data) := by
      refine allRead_iff_not_firstRefused.mpr fun name cause hFirst => ?_
      rw [load_of_firstRefused hFirst] at hLoad
      cases hLoad
    obtain ⟨own, hOwn⟩ := exists_setBy hRead
    -- what the lines set is what is checked
    rw [load_of_setBy hRead hOwn] at hLoad
    split at hLoad
    · rename_i hValid
      cases hLoad
      exact ⟨hRead, hOwn, validate_eq_ok_iff.mp hValid⟩
    · cases hLoad
  · rintro ⟨hRead, hSet, hValid⟩
    rw [load_of_setBy hRead hSet, validate_eq_ok_iff.mpr hValid]

end Options

end Dialogue
