import Dialogue.Proofs.Text.Lines
import Dialogue.Proofs.Text.Trimming
import Dialogue.Script.Printer

/-!
# Scripts, written and read

A script is read line by line. A name or an area is trimmed when it is read, while a spoken line keeps its
blank characters and loses no more than the backslash of an escape. What reading gives can therefore be
written again, and what can be written is read as it was.

Main results:

* `Script.writable_of_readLine` — what a line gives can be written.
* `Script.readLine_line` — a line that was written is read as it was.
* `Script.parse_print` — both, for whole scripts.
-/

namespace Dialogue.Script

/-! ## Reading a line -/

/-- An argument is trimmed, and it is there only if something is left of it. -/
theorem isName_of_nameAndArgument {body : List Char} (hNewline : '\n' ∉ body) {name argument : String}
    (h : nameAndArgument body = (name, some argument)) : IsName argument := by
  unfold nameAndArgument at h
  split at h
  · cases h
  · rename_i front rest hCut
    simp only [Prod.mk.injEq, Option.ite_none_left_eq_some, Option.some.injEq] at h
    obtain ⟨-, hSome, rfl⟩ := h
    rw [IsName, String.toList_ofList]
    refine ⟨by simpa using hSome, fun hMem => ?_, Text.trim_trim rest⟩
    exact hNewline ((Text.suffix_of_cut? hCut).subset ((Text.trim_sublist rest).subset hMem))

/-- What is read by its name can be written again, if its argument can. -/
theorem writable_of_named {name : String} {argument : Option String} {directive : Directive}
    (hArgument : ∀ text, argument = some text → IsName text)
    (h : named name argument = .ok directive) : directive.Writable := by
  unfold named at h
  split at h
  · cases h
    cases argument with
    | none => trivial
    | some area => exact hArgument area rfl
  · cases h
    exact hArgument _ rfl
  · cases h
  · cases h
    exact hArgument _ rfl
  · cases h
  · cases h
    trivial
  · cases h
    trivial
  · cases h

/-- Without its backslash an escaped line starts with the `@`, which no other spoken line does. -/
theorem isSpeech_of_escape {line rest : List Char} (hNewline : '\n' ∉ line)
    (hTrim : Text.trim line = '\\' :: '@' :: rest) :
    IsSpeech (String.ofList
      (line.takeWhile Text.isBlank ++ (line.dropWhile Text.isBlank).drop 1)) := by
  obtain ⟨behind, hBehind, hPrefix, -⟩ := Text.dropWhile_of_trim hTrim
  obtain ⟨tail, rfl⟩ := hPrefix
  have hBlank : ∀ b ∈ line.takeWhile Text.isBlank, Text.isBlank b = true :=
    fun b hMem => List.mem_takeWhile_imp hMem
  have hStart : Text.trim (line.takeWhile Text.isBlank ++ '@' :: (rest ++ tail)) =
      '@' :: Text.trimEnd (rest ++ tail) := by
    rw [Text.trim_append hBlank, Text.trim_cons (by decide)]
  rw [IsSpeech, String.toList_ofList, hBehind]
  refine ⟨fun hMem => hNewline ?_, ?_⟩
  · -- all that is left of the line was in it before
    rw [← List.takeWhile_append_dropWhile (p := Text.isBlank) (l := line), hBehind]
    rcases List.mem_append.mp hMem with hMem | hMem
    · exact List.mem_append_left _ hMem
    · exact List.mem_append_right _ (List.mem_cons_of_mem _ hMem)
  · rw [List.cons_append, List.drop_one, List.tail_cons, hStart]
    simp

/-- What a line gives can be written. -/
theorem writable_of_readLine {line : List Char} (hNewline : '\n' ∉ line) {directive : Directive}
    (h : readLine line = .ok (some directive)) : directive.Writable := by
  unfold readLine at h
  split at h
  · cases h
  · cases h
  · rename_i rest hTrim
    cases h
    exact isSpeech_of_escape hNewline hTrim
  · rename_i body hTrim
    -- a directive, with an argument that comes from the line
    have hBody : '\n' ∉ body := by
      intro hMem
      have hIn : '\n' ∈ Text.trim line := by
        rw [hTrim]
        exact List.mem_cons_of_mem _ hMem
      exact hNewline ((Text.trim_sublist line).subset hIn)
    generalize hName : nameAndArgument body = pair at h
    obtain ⟨name, argument⟩ := pair
    simp only at h
    split at h
    · rename_i hNamed
      cases h
      refine writable_of_named (fun text hText => ?_) hNamed
      rw [hText] at hName
      exact isName_of_nameAndArgument hBody hName
    · cases h
  · rename_i hNotNil hNotComment hNotEscape hNotDirective
    cases h
    rw [Directive.Writable, IsSpeech, String.toList_ofList]
    refine ⟨hNewline, hNotNil, ?_, ?_⟩
    · rintro ⟨rest, hRest⟩
      exact hNotComment rest hRest.symm
    · rintro ⟨rest, hRest⟩
      exact hNotEscape rest hRest.symm

/-! ## Reading what was written -/

/-- A name starts and ends with characters that are not blank. -/
theorem trimEnd_of_isName {name : String} (hName : IsName name) :
    Text.trimEnd name.toList = name.toList := Text.trimEnd_of_trim hName.2.2

/-- A line with a directive and an argument behind it. -/
theorem readLine_named (keyword : List Char) (hSolid : keyword.any Text.isBlank = false)
    {argument : String} (hName : IsName argument) {directive : Directive}
    (hNamed : named (String.ofList keyword) (some argument) = .ok directive) :
    readLine ('@' :: keyword ++ ' ' :: argument.toList) = .ok (some directive) := by
  have hEnd := trimEnd_of_isName hName
  -- the line ends with the argument, of which nothing is blank at the end
  have hTrim : Text.trim ('@' :: keyword ++ ' ' :: argument.toList) =
      '@' :: (keyword ++ ' ' :: argument.toList) := by
    have hRest : keyword ++ ' ' :: argument.toList = (keyword ++ [' ']) ++ argument.toList := by
      simp
    rw [List.cons_append, Text.trim_cons (by decide), hRest,
      Text.trimEnd_append _ (by rw [hEnd]; exact hName.1), hEnd]
  -- the keyword has no blank in it, so that the line is cut behind it
  have hCut : Text.cut? Text.isBlank (keyword ++ ' ' :: argument.toList) =
      some (keyword, argument.toList) :=
    Text.cut?_append (fun c hMem => by simpa using List.any_eq_false.mp hSolid c hMem) (by decide) _
  have hArgument : nameAndArgument (keyword ++ ' ' :: argument.toList) =
      (String.ofList keyword, some argument) := by
    unfold nameAndArgument
    simp [hCut, hName.2.2, hName.1]
  unfold readLine
  simp only [hTrim, hArgument, hNamed]

/-- A spoken line that does not start with an `@` is written as it stands. -/
theorem readLine_plain {text : String} (hSpeech : IsSpeech text)
    (hPlain : ∀ rest, Text.trim text.toList ≠ '@' :: rest) :
    readLine text.toList = .ok (some (.speak text)) := by
  obtain ⟨-, hNotNil, hNotComment, hNotEscape⟩ := hSpeech
  unfold readLine
  split
  · contradiction
  · rename_i rest hTrim
    exact absurd ⟨rest, hTrim.symm⟩ hNotComment
  · rename_i rest hTrim
    exact absurd ⟨rest, hTrim.symm⟩ hNotEscape
  · rename_i body hTrim
    exact absurd hTrim (hPlain body)
  · rw [String.ofList_toList]

/-- The backslash that is written before an `@` is taken away again. -/
theorem readLine_escaped {text : String} {rest : List Char}
    (hRest : text.toList.dropWhile Text.isBlank = '@' :: rest) :
    readLine (text.toList.takeWhile Text.isBlank ++ '\\' :: '@' :: rest) =
      .ok (some (.speak text)) := by
  have hBlank : ∀ b ∈ text.toList.takeWhile Text.isBlank, Text.isBlank b = true :=
    fun b hMem => List.mem_takeWhile_imp hMem
  have hSolid : ¬ Text.isBlank '\\' = true := by decide
  have hTrim : Text.trim (text.toList.takeWhile Text.isBlank ++ '\\' :: '@' :: rest) =
      '\\' :: '@' :: Text.trimEnd rest := by
    rw [Text.trim_append hBlank, Text.trim_cons (by decide), Text.trimEnd_cons (by decide)]
  -- the line falls apart where the text did
  have hIndent : (text.toList.takeWhile Text.isBlank ++ '\\' :: '@' :: rest).takeWhile
      Text.isBlank = text.toList.takeWhile Text.isBlank := by
    rw [List.takeWhile_append_of_pos hBlank, List.takeWhile_cons_of_neg hSolid, List.append_nil]
  have hBehind : (text.toList.takeWhile Text.isBlank ++ '\\' :: '@' :: rest).dropWhile
      Text.isBlank = '\\' :: '@' :: rest := by
    rw [List.dropWhile_append_of_pos hBlank, List.dropWhile_cons_of_neg hSolid]
  unfold readLine
  simp only [hTrim, hIndent, hBehind, List.drop_one, List.tail_cons]
  -- without the backslash the text is whole again
  rw [← hRest, List.takeWhile_append_dropWhile, String.ofList_toList]

/-- Text that is written for speech is read back, escaped or not. -/
theorem readLine_speak {text : String} (hSpeech : IsSpeech text) :
    readLine (Directive.escaped text.toList) = .ok (some (.speak text)) := by
  unfold Directive.escaped
  split
  · rename_i rest hRest
    exact readLine_escaped hRest
  · rename_i hOther
    refine readLine_plain hSpeech fun rest hTrim => ?_
    obtain ⟨behind, hBehind, -, -⟩ := Text.dropWhile_of_trim hTrim
    exact hOther behind hBehind

/-- A line that was written is read as it was. -/
theorem readLine_line {directive : Directive} (hWritable : directive.Writable) :
    readLine directive.line = .ok (some directive) := by
  cases directive with
  | beginSection area =>
    cases area with
    | none => rfl
    | some area => exact readLine_named "section".toList rfl hWritable rfl
  | beginParagraph actor =>
    exact readLine_named "period".toList rfl hWritable rfl
  | emote name => exact readLine_named "emote".toList rfl hWritable rfl
  | lineBreak => rfl
  | endSection => rfl
  | speak text => exact readLine_speak hWritable

/-- Escaping adds nothing but a backslash. -/
theorem mem_of_mem_escaped {text : List Char} {c : Char} (hMem : c ∈ Directive.escaped text) :
    c = '\\' ∨ c ∈ text := by
  unfold Directive.escaped at hMem
  split at hMem
  · rename_i rest hRest
    rw [← List.takeWhile_append_dropWhile (p := Text.isBlank) (l := text), hRest]
    simp only [List.mem_append, List.mem_cons] at hMem ⊢
    tauto
  · exact .inr hMem

/-- A directive that can be written fits on a line. -/
theorem newline_not_mem_line {directive : Directive} (hWritable : directive.Writable) :
    '\n' ∉ directive.line := by
  have hNamed : ∀ {keyword : List Char} {name : String}, '\n' ∉ keyword → IsName name →
      '\n' ∉ keyword ++ name.toList := by
    intro keyword name hKeyword hName hMem
    rcases List.mem_append.mp hMem with hMem | hMem
    · exact hKeyword hMem
    · exact hName.2.1 hMem
  cases directive with
  | beginSection area =>
    cases area with
    | none => decide
    | some area => exact hNamed (by decide) hWritable
  | beginParagraph actor => exact hNamed (by decide) hWritable
  | emote name => exact hNamed (by decide) hWritable
  | lineBreak => decide
  | endSection => decide
  | speak text =>
    intro hMem
    -- escaping adds no line feed
    rcases mem_of_mem_escaped hMem with hEq | hMem
    · cases hEq
    · exact hWritable.1 hMem

/-! ## Scripts -/

/-- What is read comes from one of the lines. -/
theorem exists_line_of_readLines {number : Nat} {lines : List (List Char)} {script : List Directive}
    (h : readLines number lines = .ok script) {directive : Directive} (hMem : directive ∈ script) :
    ∃ line ∈ lines, readLine line = .ok (some directive) := by
  induction lines generalizing number script with
  | nil =>
    cases h
    cases hMem
  | cons line rest ih =>
    rw [readLines] at h
    split at h
    · cases h
    · rename_i first hFirst
      cases hRest : readLines (number + 1) rest with
      | error error =>
        rw [hRest] at h
        cases h
      | ok others =>
        rw [hRest] at h
        cases h
        rcases List.mem_append.mp hMem with hMem | hMem
        · rw [Option.mem_toList.mp hMem] at hFirst
          exact ⟨line, List.mem_cons_self .., hFirst⟩
        · obtain ⟨other, hOther, hRead⟩ := ih hRest hMem
          exact ⟨other, List.mem_cons_of_mem _ hOther, hRead⟩

/-- What reading gives can be written. -/
theorem writable_of_parse {text : String} {script : List Directive} (h : parse text = .ok script) :
    ∀ directive ∈ script, directive.Writable := by
  intro directive hMem
  obtain ⟨line, hLine, hRead⟩ := exists_line_of_readLines h hMem
  exact writable_of_readLine (Text.newline_not_mem hLine) hRead

/-- What is printed is read back line by line. -/
theorem readLines_print {script : List Directive}
    (hWritable : ∀ directive ∈ script, directive.Writable) (number : Nat) :
    readLines number
      (Text.lines (script.flatMap fun directive => directive.line ++ ['\r', '\n'])) = .ok script := by
  induction script generalizing number with
  | nil => rfl
  | cons directive rest ih =>
    have hFirst := hWritable directive (List.mem_cons_self ..)
    have hRest := ih (fun other hMem => hWritable other (List.mem_cons_of_mem _ hMem)) (number + 1)
    -- the carriage return goes with the line feed
    rw [List.flatMap_cons, Text.lines_append (newline_not_mem_line hFirst), readLines,
      readLine_line hFirst]
    simp only [hRest]
    rfl

/-- The scripts that reading gives are just those whose directives can all be written, and what is written
is read as it was. -/
theorem parse_print (script : List Directive) :
    (∀ text, parse text = .ok script → ∀ directive ∈ script, directive.Writable) ∧
      ((∀ directive ∈ script, directive.Writable) → parse (print script) = .ok script) := by
  refine ⟨fun text h => writable_of_parse h, fun hWritable => ?_⟩
  rw [parse, print, String.toList_ofList]
  exact readLines_print hWritable 1

/-- An area of two words, an indented line that starts with an `@`, a line that ends with a carriage return,
and names that look like something else. -/
def awkward : List Directive :=
  [.beginSection (some "left side"), .beginParagraph "A\u00a0b", .speak "\t@home ", .speak " so\r",
    .emote "#@", .lineBreak, .beginSection none, .speak "\u3000\\#", .endSection]

/-- Names with signs in them, and text that looks like directives. -/
theorem parse_print_awkward :
    (∀ directive ∈ awkward, directive.Writable) ∧ parse (print awkward) = .ok awkward ∧
      ∀ text, parse text = .ok awkward → ∀ directive ∈ awkward, directive.Writable :=
  ⟨by decide, (parse_print awkward).2 (by decide), (parse_print awkward).1⟩

end Dialogue.Script
