import Dialogue.Options.Writer
import Dialogue.Proofs.Options.Format
import Dialogue.Proofs.Options.Loading
import Dialogue.Proofs.Text.Numerals

/-!
# Settings, written and read

Options can be written as a settings file if the names in them can stand there: an area in a list with commas,
the default actor on a line. Then the file has one plain value for each key, and each is read as it was
written, so that loading the file gives the options back, whatever the order of the lines is.

Main results:

* `areaNames_intercalate` — a list of areas is read as it was written.
* `Options.Writable.read_value` — and so is every option.
* `Options.Writable.settingLines_write` — what the lines of the file say.
* `Options.load_write` — the options that a file was written from are those that are loaded.
-/

namespace Dialogue

/-! ## Lists of areas -/

/-- A name that can stand in a list of areas. -/
def IsAreaName (area : String) : Prop :=
  area ≠ "" ∧ Text.trim area.toList = area.toList ∧ ',' ∉ area.toList

instance (area : String) : Decidable (IsAreaName area) := inferInstanceAs (Decidable (_ ∧ _))

/-- Whatever is read as a list of areas, the names in it can stand there. -/
theorem isAreaName_of_mem_areaNames {value area : String} (hMem : area ∈ areaNames value) :
    IsAreaName area := by
  obtain ⟨name, hName, rfl⟩ := List.mem_map.mp hMem
  obtain ⟨hTrimmed, hSome⟩ := List.mem_filter.mp hName
  obtain ⟨field, hField, rfl⟩ := List.mem_map.mp hTrimmed
  rw [IsAreaName, String.toList_ofList]
  refine ⟨by simpa using hSome, Text.trim_trim field, fun hComma => ?_⟩
  exact Text.separator_not_mem_fields hField ((Text.trim_sublist field).subset hComma)

/-- A list of areas is read as it was written. -/
theorem areaNames_intercalate {areas : List String} (hSome : areas ≠ [])
    (hAreas : ∀ area ∈ areas, IsAreaName area) : areaNames (",".intercalate areas) = areas := by
  -- cut at the commas, the list has its names back, and none of them is changed or left out
  have hFields : Text.fields ',' (",".intercalate areas).toList = areas.map String.toList := by
    rw [String.toList_intercalate]
    refine Text.fields_intercalate (fun part hPart => ?_) (by simpa using hSome)
    obtain ⟨area, hMem, rfl⟩ := List.mem_map.mp hPart
    exact (hAreas area hMem).2.2
  have hTrim : (areas.map String.toList).map Text.trim = areas.map String.toList := by
    rw [List.map_map]
    exact List.map_congr_left fun area hMem => (hAreas area hMem).2.1
  -- none of them is empty
  have hFilter : (areas.map String.toList).filter (!·.isEmpty) = areas.map String.toList := by
    rw [List.filter_eq_self]
    intro part hPart
    obtain ⟨area, hMem, rfl⟩ := List.mem_map.mp hPart
    simpa using (hAreas area hMem).1
  rw [areaNames, hFields, hTrim, hFilter, List.map_map]
  simp

namespace Options

/-! ## Values -/

/-- Options whose names can stand in a settings file. -/
structure Writable (options : Options) : Prop where
  area : ∀ area ∈ options.areas, IsAreaName area ∧ IsPlain area
  defaultActor : IsPlain options.defaultActor

variable {options : Options}

/-- A time is written without gaps and signs. -/
theorem isPlain_toString (time : Millis) : IsPlain (toString time) := by
  rw [IsPlain, Text.toList_toString]
  refine ⟨Text.trim_of_solid fun c hMem => ?_, fun hMem => ?_, fun hMem => ?_⟩
  · exact Text.not_isBlank_of_isDigit (Text.isDigit_of_mem_toDigits hMem)
  · exact absurd (Text.isDigit_of_mem_toDigits hMem) (by decide)
  · exact absurd (Text.isDigit_of_mem_toDigits hMem) (by decide)

/-- Whatever is written for an option can be read back. -/
theorem Writable.isPlain_value (h : options.Writable) (key : OptionKey) :
    IsPlain (key.value options) := by
  cases key with
  | normal => exact isPlain_toString _
  | fade => exact isPlain_toString _
  | sectionClose => exact isPlain_toString _
  | talkWait => exact isPlain_toString _
  | defaultActor => exact h.defaultActor
  | logLevel =>
    change IsPlain (toString options.logLevel.toInt)
    cases options.logLevel <;> decide
  | areas =>
    change IsPlain (",".intercalate options.areas)
    -- the commas stand between names that are plain
    have hParts : ∀ part ∈ options.areas.map String.toList,
        Text.trim part = part ∧ '\n' ∉ part ∧ '#' ∉ part := by
      intro part hPart
      obtain ⟨area, hMem, rfl⟩ := List.mem_map.mp hPart
      exact (h.area area hMem).2
    rw [IsPlain, String.toList_intercalate]
    exact ⟨Text.trim_intercalate (by decide) fun part hPart => (hParts part hPart).1,
      Text.not_mem_intercalate (by decide) fun part hPart => (hParts part hPart).2.1,
      Text.not_mem_intercalate (by decide) fun part hPart => (hParts part hPart).2.2⟩

/-- Every option is read as it was written. -/
theorem Writable.read_value (h : options.Writable) (hSome : options.areas ≠ []) (key : OptionKey) :
    key.read (key.value options) = .ok (options.get key) := by
  have hMillis : ∀ time : Millis, parseMillis (toString time) = .ok time := by
    intro time
    rw [parseMillis, (isPlain_toString time).1, Text.readMillis_toString]
    rfl
  cases key with
  | normal => exact hMillis _
  | fade => exact hMillis _
  | sectionClose => exact hMillis _
  | talkWait => exact hMillis _
  | defaultActor => rfl
  | logLevel =>
    change parseLogLevel (toString options.logLevel.toInt) = .ok options.logLevel
    cases options.logLevel <;> decide
  | areas =>
    change parseAreas (",".intercalate options.areas) = .ok options.areas
    have hNames := areaNames_intercalate hSome fun area hMem => (h.area area hMem).1
    rw [parseAreas, hNames, if_neg (by simpa using hSome)]

/-! ## Lines -/

/-- The lines of a file say what it was written from. -/
theorem Writable.settingLines_write (h : options.Writable) (keys : List OptionKey) :
    settingLines (options.write keys) =
      keys.map fun key => .pair key.name (key.value options) := by
  refine SettingLine.filterMap_lines_of_spellsAll ?_
  induction keys with
  | nil => exact .nil
  | cons key rest ih =>
    have hName : IsPlain key.name ∧ '=' ∉ key.name.toList := by
      cases key <;> decide
    have hNone : SettingLine.Gap [] := List.forall_mem_nil _
    have hSpace : SettingLine.Gap [' '] := by decide
    -- a space on both sides of the equals sign, nothing at the ends, and no comment
    have hLine := SettingLine.Spells.pair ⟨hName.1, hName.2, h.isPlain_value key⟩ hNone hSpace hSpace
      hNone .nothing
    have hText : (options.write (key :: rest)).toList =
        ([] ++ key.name.toList ++ [' ']) ++ '=' :: ([' '] ++ (key.value options).toList ++ []) ++ [] ++
          '\n' :: (options.write rest).toList := by
      simp [write, OptionKey.line, String.join_cons]
    -- so the first line is one spelling of the pair, and the other lines follow it
    rw [hText]
    exact .line hLine ih

/-- Where each key is written once, what each option holds is the value that was written. -/
theorem Writable.setBy_write (h : options.Writable) (hSome : options.areas ≠ [])
    (hStart : options.startTime = none) {keys : List OptionKey} (hKeys : keys.Perm OptionKey.all) :
    SetBy (settingLines (options.write keys)) options := by
  refine ⟨hStart, fun key => ?_⟩
  have hValues : valuesOf (settingLines (options.write keys)) key = [key.value options] := by
    -- in any order, one value alone is the same list
    rw [h.settingLines_write, valuesOf, List.filterMap_map, ← List.perm_singleton]
    refine (hKeys.filterMap _).trans (List.Perm.of_eq ?_)
    cases key <;> rfl
  rw [HeldAfter, hValues]
  exact h.read_value hSome key

/-- No line that the options write is refused. -/
theorem Writable.allRead_write (h : options.Writable) (hSome : options.areas ≠ [])
    (keys : List OptionKey) : AllRead (settingLines (options.write keys)) := by
  rw [h.settingLines_write]
  intro name value hMem
  obtain ⟨key, -, hPair⟩ := List.mem_map.mp hMem
  cases hPair
  exact not_refused_of_read (h.read_value hSome key)

/-! ## Files -/

/-- Options that can be written are read back from the file, in whatever order their lines stand there, and
every list of areas that is read can be written in it. -/
theorem load_write :
    (∀ options : Options, options.Valid → options.startTime = none → options.Writable →
      ∀ keys, keys.Perm OptionKey.all → ∀ file read, read file = .ok (options.write keys) →
        (loadFile (some file) read).1 = .ok options) ∧
    ∀ value areas, parseAreas value = .ok areas → areas ≠ [] ∧ ∀ area ∈ areas, IsAreaName area := by
  constructor
  · intro options hValid hStart hWritable keys hKeys file read hRead
    have hFile : (loadFile (some file) read).1 = (load (options.write keys)).1 := by
      simp only [loadFile, hRead]
    rw [hFile, load_eq_ok_iff]
    exact ⟨hWritable.allRead_write hValid.1 keys, hWritable.setBy_write hValid.1 hStart hKeys, hValid⟩
  · intro value areas hParse
    unfold parseAreas at hParse
    split at hParse
    · cases hParse
    · -- the list is not empty, and each of its names comes from a field
      rename_i hSome
      cases hParse
      exact ⟨fun hNil => hSome (by rw [hNil]; rfl), fun area => isAreaName_of_mem_areaNames⟩

/-- The longest and the shortest durations, a name with an equals sign, one with spaces, and no actor. -/
def outermost : Options :=
  ⟨⟨.last, 0, .last, 0⟩, ["a=b", "right \u3000 side"], "", none, .all⟩

/-- A file with the lines in reverse order, and a list with odd names in it. -/
theorem load_write_outermost :
    (loadFile (some "settings") fun _ => .ok (outermost.write OptionKey.all.reverse)).1 =
        .ok outermost ∧
      parseAreas " a=b,, right \u3000 side ," = .ok outermost.areas ∧
      ∀ area ∈ outermost.areas, IsAreaName area := by
  have hWritable : outermost.Writable := ⟨by decide, by decide⟩
  have hParse : parseAreas " a=b,, right \u3000 side ," = .ok outermost.areas := by decide
  refine ⟨?_, hParse, (load_write.2 _ _ hParse).2⟩
  exact load_write.1 outermost (by decide) rfl hWritable _ (List.reverse_perm OptionKey.all) _ _ rfl

end Options

end Dialogue
