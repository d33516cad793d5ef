import Dialogue.Options.Settings
import Dialogue.Proofs.Text.Lines
import Dialogue.Proofs.Text.Trimming

/-!
# The format of settings files

One setting can be written in many ways: with blank characters around the name and around the value, with a
comment behind it, and with lines between the settings that say nothing. `Spells` describes all ways to write
one line, and `SpellsAll` all texts of such lines. Reading a text of whole lines is the other direction of
`SpellsAll`: it gives the settings that the text spells, and every such text spells some.

Main results:

* `SettingLine.read?_of_pair` — trimming at four places comes to trimming the name and the value.
* `SettingLine.spells_iff` — what a line spells is what is read from it.
* `SettingLine.filterMap_lines_of_spellsAll`, `SettingLine.spellsAll_filterMap_lines` — and so for whole
  texts.
* `settings_read_as_spelt` — both, with what is logged, and with what can be read from any text.
-/

namespace Dialogue

/-! ## What can be written -/

/-- A text that stands on one line, outside of comments, with no blank characters at its ends. -/
def IsPlain (text : String) : Prop :=
  Text.trim text.toList = text.toList ∧ '\n' ∉ text.toList ∧ '#' ∉ text.toList

instance (text : String) : Decidable (IsPlain text) := inferInstanceAs (Decidable (_ ∧ _))

namespace SettingLine

/-- The settings that a line can hold: a name ends before an equals sign, a value need not. -/
def Writable : SettingLine → Prop
  | pair name value => IsPlain name ∧ '=' ∉ name.toList ∧ IsPlain value
  | bare word => IsPlain word ∧ '=' ∉ word.toList ∧ word ≠ ""

instance (setting : SettingLine) : Decidable setting.Writable := by
  unfold Writable
  split <;> infer_instance

/-- The word that stands alone on a line. -/
def word? : SettingLine → Option String
  | pair .. => none
  | bare word => some word

/-- Blank characters that stay on the line. -/
def Gap (text : List Char) : Prop := ∀ c ∈ text, Text.isBlank c = true ∧ c ≠ '\n'

instance (text : List Char) : Decidable (Gap text) := text.decidableBAll _

/-- What may stand at the end of a line: nothing, or a comment. -/
inductive Remark : List Char → Prop where
  | nothing : Remark []
  | comment {text : List Char} (hLine : '\n' ∉ text) : Remark ('#' :: text)

/-- The ways to write a setting on a line, and the lines that hold no setting. -/
inductive Spells : Option SettingLine → List Char → Prop where
  | pair {name value : String} {before left right behind remark : List Char}
      (hWritable : (SettingLine.pair name value).Writable) (hBefore : Gap before) (hLeft : Gap left)
      (hRight : Gap right) (hBehind : Gap behind) (hRemark : Remark remark) :
      Spells (some (.pair name value))
        ((before ++ name.toList ++ left) ++ '=' :: (right ++ value.toList ++ behind) ++ remark)
  | bare {word : String} {before behind remark : List Char}
      (hWritable : (SettingLine.bare word).Writable) (hBefore : Gap before) (hBehind : Gap behind)
      (hRemark : Remark remark) :
      Spells (some (.bare word)) ((before ++ word.toList ++ behind) ++ remark)
  | nothing {gap remark : List Char} (hGap : Gap gap) (hRemark : Remark remark) :
      Spells none (gap ++ remark)

/-- The texts that hold some settings, one on a line, with any lines between them that hold none. -/
inductive SpellsAll : List SettingLine → List Char → Prop where
  | nil : SpellsAll [] []
  | line {setting : Option SettingLine} {settings : List SettingLine} {line rest : List Char}
      (hLine : Spells setting line) (hRest : SpellsAll settings rest) :
      SpellsAll (setting.toList ++ settings) (line ++ '\n' :: rest)

/-! ## Reading a line -/

/-- What stands before the comment. -/
def body (line : List Char) : List Char := line.takeWhile (· ≠ '#')

/-- The part that is read ends before the first hash sign. -/
theorem hash_not_mem_body (line : List Char) : '#' ∉ body line := by
  intro hMem
  have hOther := List.mem_takeWhile_imp hMem
  simp at hOther

/-- A remark is no part of what is read. -/
theorem body_append {text remark : List Char} (hText : '#' ∉ text) (hRemark : Remark remark) :
    body (text ++ remark) = text := by
  have hAll : ∀ c ∈ text, (c ≠ '#' : Bool) = true := by
    intro c hMem
    exact decide_eq_true fun hEq => hText (hEq ▸ hMem)
  rw [body, List.takeWhile_append_of_pos hAll]
  cases hRemark with
  | nothing => simp
  | comment => simp

/-- Where a line falls apart into what is read and what is not. -/
theorem exists_remark {line : List Char} (hLine : '\n' ∉ line) :
    ∃ remark, line = body line ++ remark ∧ Remark remark := by
  refine ⟨line.dropWhile (· ≠ '#'), List.takeWhile_append_dropWhile.symm, ?_⟩
  have hHead := List.head?_dropWhile_not (fun c => (c ≠ '#' : Bool)) line
  cases hDrop : line.dropWhile (· ≠ '#') with
  | nil => exact .nothing
  | cons c rest =>
    rw [hDrop, List.head?_cons] at hHead
    obtain rfl : c = '#' := by simpa using hHead
    refine .comment fun hMem => hLine ?_
    exact (List.dropWhile_sublist _).subset (hDrop ▸ List.mem_cons_of_mem _ hMem)

/-- A name and a value are trimmed at both of their ends, one with the line and one behind the cut. -/
theorem read?_of_pair {line front behind : List Char} (hBody : body line = front ++ '=' :: behind)
    (hFront : '=' ∉ front) :
    read? line =
      some (.pair (String.ofList (Text.trim front)) (String.ofList (Text.trim behind))) := by
  have hText : Text.trim (line.takeWhile (· ≠ '#')) =
      Text.trimStart front ++ '=' :: Text.trimEnd behind := by
    rw [← body, hBody, Text.trim_append_cons (by decide)]
  -- trimming adds no equals sign
  have hStart : ∀ c ∈ Text.trimStart front, (c = '=' : Bool) = false := by
    intro c hMem
    refine decide_eq_false fun hEq => hFront ?_
    rw [← hEq]
    exact (List.dropWhile_sublist _).subset hMem
  have hCut : Text.cut? (· = '=') (Text.trimStart front ++ '=' :: Text.trimEnd behind) =
      some (Text.trimStart front, Text.trimEnd behind) := Text.cut?_append hStart (by decide) _
  have hSome : (Text.trimStart front ++ '=' :: Text.trimEnd behind).isEmpty = false := by simp
  unfold read?
  simp only [hText, hCut, hSome, Text.trimStart_trimEnd]
  rfl

/-- A line without an equals sign is a bare word, or nothing. -/
theorem read?_of_not_mem {line : List Char} (hBody : '=' ∉ body line) :
    read? line = if Text.trim (body line) = [] then none
      else some (.bare (String.ofList (Text.trim (body line)))) := by
  have hCut : Text.cut? (· = '=') (Text.trim (body line)) = none := by
    refine Text.cut?_eq_none fun c hMem => decide_eq_false fun hEq => hBody ?_
    rw [← hEq]
    exact (Text.trim_sublist _).subset hMem
  unfold read?
  simp only [List.isEmpty_iff]
  rw [← body]
  simp only [hCut]

/-! ## Lines and settings -/

theorem Gap.blank {gap : List Char} (hGap : Gap gap) : ∀ c ∈ gap, Text.isBlank c = true :=
  fun c hMem => (hGap c hMem).1

/-- A gap holds none of the characters that mean something. -/
theorem Gap.not_mem {gap : List Char} (hGap : Gap gap) {c : Char}
    (hOther : Text.isBlank c = false ∨ c = '\n') : c ∉ gap := by
  intro hMem
  rcases hOther with hSolid | hNewline
  · exact Bool.false_ne_true (hSolid.symm.trans (hGap c hMem).1)
  · exact (hGap c hMem).2 hNewline

/-- No remark goes beyond its line. -/
theorem Remark.newline_not_mem {remark : List Char} (hRemark : Remark remark) : '\n' ∉ remark := by
  cases hRemark with
  | nothing => exact List.not_mem_nil
  | comment hLine => simp [hLine]

/-- A text in gaps is trimmed to what it is without them. -/
theorem trim_of_gaps {before behind : List Char} (hBefore : Gap before) (hBehind : Gap behind)
    {text : String} (hPlain : IsPlain text) :
    Text.trim (before ++ text.toList ++ behind) = text.toList := by
  rw [Text.trim_pad hBefore.blank hBehind.blank, hPlain.1]

/-- Gaps bring in no character that is not blank. -/
theorem not_mem_of_gaps {before text behind : List Char} {c : Char}
    (hOther : Text.isBlank c = false ∨ c = '\n') (hBefore : Gap before) (hText : c ∉ text)
    (hBehind : Gap behind) : c ∉ before ++ text ++ behind := by
  simp only [List.mem_append, not_or]
  exact ⟨⟨hBefore.not_mem hOther, hText⟩, hBehind.not_mem hOther⟩

/-- A character that is neither in front of a separator nor behind it, nor the separator, is not in the line.
-/
theorem not_mem_append_cons {front back : List Char} {c d : Char} (hFront : c ∉ front) (hOther : c ≠ d)
    (hBack : c ∉ back) : c ∉ front ++ d :: back := by
  rw [List.mem_append, List.mem_cons]
  exact not_or.mpr ⟨hFront, not_or.mpr ⟨hOther, hBack⟩⟩

/-- What a line spells is read from it. -/
theorem read?_of_spells {setting : Option SettingLine} {line : List Char}
    (hSpells : Spells setting line) : read? line = setting := by
  have hHash : Text.isBlank '#' = false ∨ '#' = '\n' := .inl (by decide)
  have hEquals : Text.isBlank '=' = false ∨ '=' = '\n' := .inl (by decide)
  cases hSpells with
  | pair hWritable hBefore hLeft hRight hBehind hRemark =>
    obtain ⟨hName, hNoEquals, hValue⟩ := hWritable
    have hFront := not_mem_of_gaps hHash hBefore hName.2.2 hLeft
    have hBack := not_mem_of_gaps hHash hRight hValue.2.2 hBehind
    -- no hash sign stands in front of the remark
    have hText := not_mem_append_cons hFront (d := '=') (by decide) hBack
    have hBody := body_append hText hRemark
    rw [read?_of_pair hBody (not_mem_of_gaps hEquals hBefore hNoEquals hLeft),
      trim_of_gaps hBefore hLeft hName, trim_of_gaps hRight hBehind hValue, String.ofList_toList,
      String.ofList_toList]
  | bare hWritable hBefore hBehind hRemark =>
    obtain ⟨hWord, hNoEquals, hSome⟩ := hWritable
    have hBody := body_append (not_mem_of_gaps hHash hBefore hWord.2.2 hBehind) hRemark
    rw [read?_of_not_mem (by rw [hBody]; exact not_mem_of_gaps hEquals hBefore hNoEquals hBehind),
      hBody, trim_of_gaps hBefore hBehind hWord, if_neg (by simpa using hSome), String.ofList_toList]
  | @nothing gap remark hGap hRemark =>
    have hBody := body_append (hGap.not_mem hHash) hRemark
    have hTrim : Text.trim gap = [] := by
      have hNothing := Text.trim_append hGap.blank []
      rwa [List.append_nil] at hNothing
    rw [read?_of_not_mem (by rw [hBody]; exact hGap.not_mem hEquals), hBody, if_pos hTrim]

/-- The blank characters around a part of a line are gaps, and what they leave is plain. -/
theorem exists_gaps {text : List Char} (hNewline : '\n' ∉ text) (hHash : '#' ∉ text) :
    ∃ before behind, text = before ++ (String.ofList (Text.trim text)).toList ++ behind ∧
      Gap before ∧ Gap behind ∧ IsPlain (String.ofList (Text.trim text)) := by
  obtain ⟨before, behind, hSplit, hBefore, hBehind⟩ := Text.exists_pads text
  have hFrom : ∀ c ∈ Text.trim text, c ∈ text := fun c hMem => (Text.trim_sublist text).subset hMem
  rw [IsPlain, String.toList_ofList]
  refine ⟨before, behind, hSplit, fun c hMem => ⟨hBefore c hMem, ?_⟩,
    fun c hMem => ⟨hBehind c hMem, ?_⟩, Text.trim_trim text, fun hMem => hNewline (hFrom _ hMem),
    fun hMem => hHash (hFrom _ hMem)⟩
  · rintro rfl
    refine hNewline ?_
    rw [hSplit]
    simp [hMem]
  · rintro rfl
    refine hNewline ?_
    -- nor does a gap contain what the text does not
    rw [hSplit]
    simp [hMem]

/-- Every line spells what is read from it. -/
theorem spells_read? {line : List Char} (hLine : '\n' ∉ line) : Spells (read? line) line := by
  obtain ⟨remark, hSplit, hRemark⟩ := exists_remark hLine
  have hNewline : '\n' ∉ body line := fun hMem => hLine ((List.takeWhile_sublist _).subset hMem)
  have hHash := hash_not_mem_body line
  by_cases hEquals : '=' ∈ body line
  · -- the first equals sign is where the line is cut
    obtain ⟨front, behind, hBody, hFront⟩ := List.eq_append_cons_of_mem hEquals
    rw [hBody] at hNewline hHash
    simp only [List.mem_append, List.mem_cons, not_or] at hNewline hHash
    obtain ⟨before, left, hName, hBefore, hLeft, hNamePlain⟩ := exists_gaps hNewline.1 hHash.1
    obtain ⟨right, after, hValue, hRight, hAfter, hValuePlain⟩ :=
      exists_gaps hNewline.2.2 hHash.2.2
    rw [read?_of_pair hBody hFront]
    have hNoEquals : '=' ∉ (String.ofList (Text.trim front)).toList := by
      rw [String.toList_ofList]
      exact fun hMem => hFront ((Text.trim_sublist front).subset hMem)
    have hSpells := Spells.pair ⟨hNamePlain, hNoEquals, hValuePlain⟩ hBefore hLeft hRight hAfter
      hRemark
    rwa [← hName, ← hValue, ← hBody, ← hSplit] at hSpells
  · -- a bare word, or nothing at all
    rw [read?_of_not_mem hEquals]
    obtain ⟨before, behind, hWord, hBefore, hBehind, hPlain⟩ := exists_gaps hNewline hHash
    split
    · rename_i hNil
      -- only gaps are left
      have hGap : Gap (body line) := by
        rw [hWord, hNil]
        intro c hMem
        rcases List.mem_append.mp hMem with hMem | hMem
        · exact hBefore c (by simpa using hMem)
        · exact hBehind c hMem
      have hSpells := Spells.nothing hGap hRemark
      rwa [← hSplit] at hSpells
    · rename_i hSome
      have hNoEquals : '=' ∉ (String.ofList (Text.trim (body line))).toList := by
        rw [String.toList_ofList]
        exact fun hMem => hEquals ((Text.trim_sublist _).subset hMem)
      have hSpells := Spells.bare ⟨hPlain, hNoEquals, by simpa using hSome⟩ hBefore hBehind hRemark
      rwa [← hWord, ← hSplit] at hSpells

/-- What spells a line is one line. -/
theorem newline_not_mem_of_spells {setting : Option SettingLine} {line : List Char}
    (hSpells : Spells setting line) : '\n' ∉ line := by
  cases hSpells with
  | pair hWritable hBefore hLeft hRight hBehind hRemark =>
    obtain ⟨hName, -, hValue⟩ := hWritable
    have hFront := not_mem_of_gaps (.inr rfl) hBefore hName.2.1 hLeft
    have hBack := not_mem_of_gaps (.inr rfl) hRight hValue.2.1 hBehind
    -- neither the name nor the value has a line feed, nor have the gaps around them
    have hText := not_mem_append_cons hFront (d := '=') (by decide) hBack
    exact fun hMem => (List.mem_append.mp hMem).elim hText hRemark.newline_not_mem
  | bare hWritable hBefore hBehind hRemark =>
    have hFront := not_mem_of_gaps (.inr rfl) hBefore hWritable.1.2.1 hBehind
    exact fun hMem => (List.mem_append.mp hMem).elim hFront hRemark.newline_not_mem
  | nothing hGap hRemark =>
    exact fun hMem => (List.mem_append.mp hMem).elim (hGap.not_mem (.inr rfl)) hRemark.newline_not_mem

/-- What is read off a line and what spells it are the same relation. -/
theorem spells_iff {setting : Option SettingLine} {line : List Char} :
    Spells setting line ↔ '\n' ∉ line ∧ read? line = setting := by
  constructor
  · intro hSpells
    exact ⟨newline_not_mem_of_spells hSpells, read?_of_spells hSpells⟩
  · rintro ⟨hLine, rfl⟩
    exact spells_read? hLine

/-- A carriage return at the end of a line is blank, or in a comment. -/
theorem read?_dropReturn (line : List Char) :
    read? (Text.dropReturn line.reverse).reverse = read? line := by
  unfold Text.dropReturn
  split
  · rename_i rest hRest
    have hLine : line = rest.reverse ++ ['\r'] := by
      rw [← List.reverse_reverse line, hRest, List.reverse_cons]
    have hTrim : Text.trim (body line) = Text.trim (body rest.reverse) := by
      rw [hLine, body, body, List.takeWhile_append]
      split
      · rename_i hAll
        -- no comment, so that the carriage return is trimmed away
        have hSame := (List.takeWhile_prefix (p := fun c => (c ≠ '#' : Bool))).eq_of_length hAll
        have hNone : ∀ b ∈ ([] : List Char), Text.isBlank b = true := by simp
        have hReturn : ∀ b ∈ ['\r'], Text.isBlank b = true := List.forall_mem_singleton.mpr (by decide)
        rw [hSame, List.takeWhile_cons_of_pos (by decide), List.takeWhile_nil]
        exact Text.trim_pad hNone hReturn rest.reverse
      · rfl
    unfold read?
    rw [← body, ← body, hTrim]
  · -- no carriage return, so nothing is dropped
    rw [List.reverse_reverse]

/-! ## Reading texts -/

/-- The first line is read by itself, and then the rest. -/
theorem filterMap_lines {line : List Char} (hLine : '\n' ∉ line) (rest : List Char) :
    (Text.lines (line ++ '\n' :: rest)).filterMap read? =
      (read? line).toList ++ (Text.lines rest).filterMap read? := by
  rw [Text.lines, Text.linesFrom_append hLine, List.append_nil, List.filterMap_cons,
    read?_dropReturn]
  cases read? line <;> rfl

/-- What a text spells is read from it. -/
theorem filterMap_lines_of_spellsAll {settings : List SettingLine} {text : List Char}
    (hSpells : SpellsAll settings text) : (Text.lines text).filterMap read? = settings := by
  induction hSpells with
  | nil => rfl
  | line hLine _ ih =>
    obtain ⟨hNewline, hRead⟩ := spells_iff.mp hLine
    rw [filterMap_lines hNewline, hRead, ih]

/-- Every text of whole lines spells what is read from it. -/
theorem spellsAll_filterMap_lines {text : List Char} (hEnded : Text.Ended text) :
    SpellsAll ((Text.lines text).filterMap read?) text := by
  induction hLength : text.length using Nat.strong_induction_on generalizing text with
  | _ length ih =>
    rcases hEnded.eq_nil_or_line with rfl | ⟨line, rest, rfl, hLine, hRest⟩
    · exact .nil
    · rw [filterMap_lines hLine]
      refine .line (spells_read? hLine) (ih rest.length ?_ hRest rfl)
      rw [← hLength, List.length_append, List.length_cons]
      omega

/-- The words that stand alone are logged, and nothing else. -/
theorem flatMap_readLog (settings : List SettingLine) :
    settings.flatMap readLog = (settings.filterMap word?).map fun word =>
      ⟨.warn, .settings, "Key without value: '" ++ word ++ "'"⟩ := by
  induction settings with
  | nil => rfl
  | cons setting rest ih =>
    rw [List.flatMap_cons, ih]
    cases setting <;> rfl

end SettingLine

/-! ## Settings files -/

/-- What can be read from a text can be written. -/
theorem writable_of_mem_settingLines {data : String} {setting : SettingLine}
    (hMem : setting ∈ settingLines data) : setting.Writable := by
  obtain ⟨line, hLine, hRead⟩ := List.mem_filterMap.mp hMem
  have hSpells := SettingLine.spells_read? (Text.newline_not_mem hLine)
  rw [hRead] at hSpells
  cases hSpells with
  | pair hWritable => exact hWritable
  | bare hWritable => exact hWritable

/-- However some settings are written, one on a line and with any other lines between them, exactly their
names and values are read, in order, and each word that stands alone is logged once. Every text of whole
lines is written in one of these ways, and what is read from any text at all can be written. -/
theorem settings_read_as_spelt :
    (∀ settings data, SettingLine.SpellsAll settings (String.toList data) →
      (settingLines data).filterMap SettingLine.pair? = settings.filterMap SettingLine.pair? ∧
        (settingLines data).flatMap SettingLine.readLog =
          (settings.filterMap SettingLine.word?).map fun word =>
            ⟨.warn, .settings, "Key without value: '" ++ word ++ "'"⟩) ∧
      (∀ data, Text.Ended (String.toList data) →
        SettingLine.SpellsAll (settingLines data) data.toList) ∧
      ∀ data, ∀ setting ∈ settingLines data, setting.Writable := by
  refine ⟨fun settings data hSpells => ?_,
    fun data => SettingLine.spellsAll_filterMap_lines, fun data setting => writable_of_mem_settingLines⟩
  have hRead : settingLines data = settings := SettingLine.filterMap_lines_of_spellsAll hSpells
  rw [hRead]
  exact ⟨rfl, SettingLine.flatMap_readLog settings⟩

/-- A pair whose value holds an equals sign, a comment, a word alone, and a pair without anything in it. -/
def scribbled : String := "\tnormal_ms =1=0\u3000 # ms\r\n#\n so far #=\n = \n"

/-- A text with gaps of all kinds, a comment, a bare word and a pair without name and value. -/
theorem settings_read_as_spelt_scribbled :
    SettingLine.SpellsAll [.pair "normal_ms" "1=0", .bare "so far", .pair "" ""] scribbled.toList ∧
      (settingLines scribbled).filterMap SettingLine.pair? = [("normal_ms", "1=0"), ("", "")] ∧
      (settingLines scribbled).flatMap SettingLine.readLog =
        [⟨.warn, .settings, "Key without value: 'so far'"⟩] ∧
      (SettingLine.pair "normal_ms" "1=0").Writable := by
  have hBlanks : ∀ gap ∈ [[], ['\t'], [' '], ['\u3000', ' ']], SettingLine.Gap gap := by
    decide
  have hNone := hBlanks [] (by decide)
  have hSpace := hBlanks [' '] (by decide)
  have hFirst := SettingLine.Spells.pair (show (SettingLine.pair "normal_ms" "1=0").Writable by decide)
    (hBlanks ['\t'] (by decide)) hSpace hNone (hBlanks ['\u3000', ' '] (by decide))
    (.comment (show '\n' ∉ " ms\r".toList by decide))
  have hSecond := SettingLine.Spells.nothing hNone (.comment (show '\n' ∉ [] by decide))
  have hThird := SettingLine.Spells.bare (show (SettingLine.bare "so far").Writable by decide) hSpace hSpace
    (.comment (show '\n' ∉ ['='] by decide))
  have hFourth := SettingLine.Spells.pair (show (SettingLine.pair "" "").Writable by decide) hSpace hNone
    hSpace hNone .nothing
  have hText : SettingLine.SpellsAll [.pair "normal_ms" "1=0", .bare "so far", .pair "" ""]
      scribbled.toList := by
    -- the spelling is put together first, and then compared with the text
    obtain ⟨text, hSame, hSpells⟩ : ∃ text, text = scribbled.toList ∧
        SettingLine.SpellsAll [.pair "normal_ms" "1=0", .bare "so far", .pair "" ""] text := by
      refine ⟨_, ?_, .line hFirst (.line hSecond (.line hThird (.line hFourth .nil)))⟩
      decide
    rwa [hSame] at hSpells
  obtain ⟨hPairs, hLog⟩ := settings_read_as_spelt.1 _ _ hText
  refine ⟨hText, hPairs, hLog, settings_read_as_spelt.2.2 scribbled _ ?_⟩
  decide

end Dialogue
