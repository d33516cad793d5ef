import Dialogue.Proofs.Text.Lines
import Dialogue.Proofs.Text.Trimming
import Dialogue.Script.Basic

/-!
# Faults of a script

A line of a script is at fault if it names a directive that there is none of, or one that needs an argument
without giving one. Whether it is so can be told from the line alone. A script with such a line is refused
with the first of them, and with its number among all lines, blank ones and comments too; so scripts of whole
lines can be put one behind the other, and only the numbers move on.

Main results:

* `Script.readLine_eq_error_iff` — which lines are refused.
* `Script.readLines_append`, `Script.readLines_eq_error_iff` — lines one behind the other, and the first one
  that is refused.
* `Script.parse_by_lines` — whole scripts.
-/

namespace Dialogue.Script

/-! ## Faulty lines -/

/-- The line names a directive; `behind` is what stands behind the name. -/
structure Names (line : List Char) (name : String) (behind : List Char) : Prop where
  trim_eq : Text.trim line = '@' :: (name.toList ++ behind)
  solid : ∀ c ∈ name.toList, Text.isBlank c = false
  apart : ∀ c rest, behind = c :: rest → Text.isBlank c = true

/-- The line is at fault, whatever the lines before and behind it. -/
inductive Faulty (line : List Char) : String → Fault → Prop where
  | unknown {name : String} {behind : List Char} (hNames : Names line name behind)
      (hUnknown : name ∉ ["section", "period", "emote", "br", "end"]) :
      Faulty line name .unknownDirective
  | bare {name : String} {behind : List Char} (hNames : Names line name behind)
      (hNeeds : name = "period" ∨ name = "emote") (hNothing : Text.trim behind = []) :
      Faulty line name .missingArgument

/-- The argument that stands behind a name. -/
def argument? (behind : List Char) : Option String :=
  if (Text.trim behind).isEmpty then none else some (String.ofList (Text.trim behind))

/-- The name ends at the first blank character. -/
theorem nameAndArgument_append {name : String} {behind : List Char}
    (hSolid : ∀ c ∈ name.toList, Text.isBlank c = false)
    (hApart : ∀ c rest, behind = c :: rest → Text.isBlank c = true) :
    nameAndArgument (name.toList ++ behind) = (name, argument? behind) := by
  unfold nameAndArgument argument?
  cases behind with
  | nil =>
    rw [List.append_nil, Text.cut?_eq_none hSolid, String.ofList_toList]
    rfl
  | cons c rest =>
    have hBlank := hApart c rest rfl
    -- the blank character that ends the name would be trimmed too
    have hBlanks : ∀ blank ∈ [c], Text.isBlank blank = true := by simpa using hBlank
    have hTrim : Text.trim (c :: rest) = Text.trim rest := Text.trim_append hBlanks rest
    rw [Text.cut?_append hSolid hBlank, hTrim]
    simp only [String.ofList_toList]

/-- Every line that starts with an `@` names something. -/
theorem exists_names {line body : List Char} (hTrim : Text.trim line = '@' :: body) :
    ∃ name behind, Names line name behind := by
  refine ⟨String.ofList (body.takeWhile fun c => !Text.isBlank c),
    body.dropWhile fun c => !Text.isBlank c, ?_, ?_, ?_⟩
  · rw [String.toList_ofList, List.takeWhile_append_dropWhile, hTrim]
  · intro c hMem
    rw [String.toList_ofList] at hMem
    simpa using List.mem_takeWhile_imp hMem
  · intro c rest hBehind
    have hHead := List.head?_dropWhile_not (fun c => !Text.isBlank c) body
    rw [hBehind] at hHead
    simpa using hHead

/-- A line with a name is read by the name and by what stands behind it. -/
theorem readLine_of_names {line : List Char} {name : String} {behind : List Char}
    (hNames : Names line name behind) :
    readLine line =
      match named name (argument? behind) with
      | .ok directive => .ok (some directive)
      | .error fault => .error (name, fault) := by
  have hSplit := nameAndArgument_append hNames.solid hNames.apart
  unfold readLine
  rw [hNames.trim_eq]
  cases hNamed : named name (argument? behind) <;> simp only [hSplit, hNamed]

/-- What a name and an argument are refused for. -/
theorem named_eq_error_iff {name : String} {argument : Option String} {fault : Fault} :
    named name argument = .error fault ↔
      (fault = .unknownDirective ∧ name ∉ ["section", "period", "emote", "br", "end"]) ∨
        (fault = .missingArgument ∧ (name = "period" ∨ name = "emote") ∧ argument = none) := by
  unfold named
  split
  · simp
  · simp
  · simp [eq_comm]
  · simp
  · simp [eq_comm]
  · simp
  · simp
  · rename_i hSection hBreak hEnd hActor hNoActor hEmotion hNoEmotion
    -- with an argument or without one, it is none of the names
    have hPeriod : name ≠ "period" := by
      intro hName
      cases argument with
      | none => exact hNoActor hName rfl
      | some actor => exact hActor actor hName rfl
    have hEmote : name ≠ "emote" := by
      intro hName
      cases argument with
      | none => exact hNoEmotion hName rfl
      | some emotion => exact hEmotion emotion hName rfl
    have hNone : name ∉ ["section", "period", "emote", "br", "end"] := by
      simpa using ⟨hSection, hPeriod, hEmote, hBreak, hEnd⟩
    simp [hNone, hPeriod, hEmote, eq_comm]

/-- There is no argument exactly if nothing but blanks follows the name. -/
theorem argument?_eq_none_iff {behind : List Char} :
    argument? behind = none ↔ Text.trim behind = [] := by
  unfold argument?
  simp

/-- A line is refused exactly if it is at fault, with the name that it gives and the fault. -/
theorem readLine_eq_error_iff {line : List Char} {name : String} {fault : Fault} :
    readLine line = .error (name, fault) ↔ Faulty line name fault := by
  have hRefused : ∀ {given behind}, Names line given behind → (readLine line = .error (name, fault) ↔
      given = name ∧ named given (argument? behind) = .error fault) := by
    intro given behind hNames
    rw [readLine_of_names hNames]
    cases named given (argument? behind) <;> simp
  constructor
  · intro hError
    obtain ⟨body, hTrim⟩ : ∃ body, Text.trim line = '@' :: body := by
      unfold readLine at hError
      split at hError
      · cases hError
      · cases hError
      · cases hError
      · -- only a line that starts with the sign can be faulty
        rename_i body hTrim
        exact ⟨body, hTrim⟩
      · cases hError
    obtain ⟨given, behind, hNames⟩ := exists_names hTrim
    obtain ⟨rfl, hNamed⟩ := (hRefused hNames).mp hError
    rcases named_eq_error_iff.mp hNamed with ⟨rfl, hUnknown⟩ | ⟨rfl, hNeeds, hNone⟩
    · exact .unknown hNames hUnknown
    · exact .bare hNames hNeeds (argument?_eq_none_iff.mp hNone)
  · intro hFaulty
    cases hFaulty with
    | unknown hNames hUnknown =>
      exact (hRefused hNames).mpr ⟨rfl, named_eq_error_iff.mpr (.inl ⟨rfl, hUnknown⟩)⟩
    | bare hNames hNeeds hNothing =>
      exact (hRefused hNames).mpr ⟨rfl, named_eq_error_iff.mpr
        (.inr ⟨rfl, hNeeds, argument?_eq_none_iff.mpr hNothing⟩)⟩

/-! ## Lines one behind the other -/

/-- The same error, so many lines further on. -/
def ParseError.later (error : ParseError) (lines : Nat) : ParseError :=
  { error with line := error.line + lines }

/-- The first line decides about an error, and so on. -/
theorem readLines_append (number : Nat) (first second : List (List Char)) :
    readLines number (first ++ second) =
      match readLines number first with
      | .error error => .error error
      | .ok script => (readLines (number + first.length) second).map (script ++ ·) := by
  induction first generalizing number with
  | nil =>
    show readLines number second = (readLines number second).map ([] ++ ·)
    cases readLines number second <;> rfl
  | cons line rest ih =>
    rw [List.cons_append, readLines, readLines]
    cases readLine line with
    -- the first list stops at this line, and so do both together
    | error refused => rfl
    | ok directive =>
      simp only [ih, List.length_cons]
      rw [show number + (rest.length + 1) = number + 1 + rest.length by omega]
      cases readLines (number + 1) rest with
      | error error => rfl
      | ok script =>
        simp only [Except.map]
        cases readLines (number + 1 + rest.length) second with
        | error error => rfl
        | ok more => simp only [List.append_assoc]

/-- Errors move on with the numbers of the lines. -/
theorem readLines_add (number more : Nat) (lines : List (List Char)) :
    readLines (number + more) lines = (readLines number lines).mapError (·.later more) := by
  induction lines generalizing number with
  | nil => rfl
  | cons line rest ih =>
    rw [readLines, readLines]
    cases readLine line with
    | error refused => rfl
    | ok directive =>
      simp only
      rw [show number + more + 1 = number + 1 + more by omega, ih]
      cases readLines (number + 1) rest <;> rfl

/-- The error is about the first of these lines that is at fault; their numbers start with the given one. -/
def FirstAt (number : Nat) (lines : List (List Char)) (error : ParseError) : Prop :=
  ∃ before line after, lines = before ++ line :: after ∧ error.line = number + before.length ∧
    Faulty line error.name error.fault ∧
    ∀ earlier ∈ before, ∀ name fault, ¬ Faulty earlier name fault

/-- No lines, no fault. -/
theorem firstAt_nil {number : Nat} {error : ParseError} : ¬ FirstAt number [] error := by
  rintro ⟨before, line, after, hSplit, -⟩
  simp at hSplit

/-- A faulty line in front is the first one. -/
theorem firstAt_cons_of_refused {number : Nat} {first : List Char} {rest : List (List Char)}
    {error : ParseError} {name : String} {fault : Fault}
    (hRefused : readLine first = .error (name, fault)) :
    FirstAt number (first :: rest) error ↔ error = ⟨number, name, fault⟩ := by
  have hFaulty := readLine_eq_error_iff.mp hRefused
  constructor
  · rintro ⟨before, line, after, hSplit, hLine, hAtFault, hEarlier⟩
    cases before with
    | nil =>
      cases hSplit
      -- a line is refused for one reason
      have hSame := readLine_eq_error_iff.mpr hAtFault
      rw [hRefused] at hSame
      obtain ⟨given, found, reason⟩ := error
      cases hSame
      rw [show given = number from hLine]
    | cons other others =>
      cases hSplit
      exact absurd hFaulty (hEarlier first (List.mem_cons_self ..) name fault)
  · rintro rfl
    exact ⟨[], first, rest, rfl, rfl, hFaulty, fun earlier hMem => by cases hMem⟩

/-- A line in front that is read is not, so that the fault is one of the others. -/
theorem firstAt_cons_of_read {number : Nat} {first : List Char} {rest : List (List Char)}
    {error : ParseError} {directive : Option Directive} (hRead : readLine first = .ok directive) :
    FirstAt number (first :: rest) error ↔ FirstAt (number + 1) rest error := by
  have hSound : ∀ name fault, ¬ Faulty first name fault := by
    intro name fault hFaulty
    rw [readLine_eq_error_iff.mpr hFaulty] at hRead
    cases hRead
  constructor
  · rintro ⟨before, line, after, hSplit, hLine, hFaulty, hEarlier⟩
    cases before with
    | nil =>
      cases hSplit
      exact absurd hFaulty (hSound _ _)
    | cons other others =>
      cases hSplit
      rw [List.length_cons] at hLine
      exact ⟨others, line, after, rfl, by omega, hFaulty, fun earlier hMem =>
        hEarlier earlier (List.mem_cons_of_mem _ hMem)⟩
  · rintro ⟨before, line, after, rfl, hLine, hFaulty, hEarlier⟩
    refine ⟨first :: before, line, after, rfl, ?_, hFaulty, fun earlier hMem => ?_⟩
    · rw [List.length_cons]
      omega
    · rcases List.mem_cons.mp hMem with rfl | hMem
      · exact hSound
      · exact hEarlier earlier hMem

/-- Lines are refused exactly if one of them is at fault, for the first such one. -/
theorem readLines_eq_error_iff {number : Nat} {lines : List (List Char)} {error : ParseError} :
    readLines number lines = .error error ↔ FirstAt number lines error := by
  induction lines generalizing number with
  | nil => exact iff_of_false (fun hError => nomatch hError) firstAt_nil
  | cons first rest ih =>
    rw [readLines]
    cases hFirst : readLine first with
    | error refused =>
      rw [firstAt_cons_of_refused hFirst, Except.error.injEq]
      exact eq_comm
    | ok directive =>
      rw [firstAt_cons_of_read hFirst, ← ih]
      cases readLines (number + 1) rest <;> simp [Except.map]

/-! ## Whole scripts -/

/-- The error is about the first line of a text that is at fault, with its number among all lines. -/
def FirstFault (text : String) (error : ParseError) : Prop :=
  ∃ before line after, Text.lines text.toList = before ++ line :: after ∧
    error.line = before.length + 1 ∧ Faulty line error.name error.fault ∧
    ∀ earlier ∈ before, ∀ name fault, ¬ Faulty earlier name fault

/-- Parsing fails with just the first fault of the text. -/
theorem parse_eq_error_iff {text : String} {error : ParseError} :
    parse text = .error error ↔ FirstFault text error := by
  rw [parse, readLines_eq_error_iff]
  simp only [FirstAt, FirstFault, Nat.add_comm 1]

/-- Where a line is at fault, there is a first one. -/
theorem exists_error_iff {text : String} :
    (∃ error, parse text = .error error) ↔
      ∃ line ∈ Text.lines text.toList, ∃ name fault, Faulty line name fault := by
  constructor
  · rintro ⟨error, hError⟩
    obtain ⟨before, line, after, hSplit, -, hFaulty, -⟩ := parse_eq_error_iff.mp hError
    exact ⟨line, by rw [hSplit]; simp, _, _, hFaulty⟩
  · rintro ⟨line, hMem, hFaulty⟩
    classical
    -- the first of the lines that are at fault
    have hSome : ((Text.lines text.toList).find? fun line =>
        decide (∃ name fault, Faulty line name fault)).isSome :=
      List.find?_isSome.mpr ⟨line, hMem, decide_eq_true hFaulty⟩
    obtain ⟨found, hFound⟩ := Option.isSome_iff_exists.mp hSome
    obtain ⟨hHere, before, after, hSplit, hBefore⟩ := List.find?_eq_some_iff_append.mp hFound
    obtain ⟨name, fault, hFirst⟩ := of_decide_eq_true hHere
    refine ⟨⟨before.length + 1, name, fault⟩, parse_eq_error_iff.mpr
      ⟨before, found, after, hSplit, rfl, hFirst, fun earlier hMem name fault hEarlier => ?_⟩⟩
    have hNot := hBefore earlier hMem
    rw [decide_eq_true (⟨name, fault, hEarlier⟩ : ∃ name fault, Faulty earlier name fault)] at hNot
    cases hNot

/-- Behind a text of whole lines, a text is read as it is on its own, with its lines counted on. -/
theorem parse_append {first : String} (hEnded : Text.Ended first.toList) (second : String) :
    parse (first ++ second) =
      match parse first, parse second with
      | .error error, _ => .error error
      | .ok script, .ok more => .ok (script ++ more)
      | .ok _, .error error => .error (error.later (Text.lines first.toList).length) := by
  rw [parse, String.toList_append, Text.lines_append_of_ended hEnded, readLines_append]
  simp only [parse]
  cases readLines 1 (Text.lines first.toList) with
  -- the second text is not looked at
  | error error => rfl
  | ok script =>
    simp only [readLines_add]
    cases readLines 1 (Text.lines second.toList) <;> rfl

/-- Scripts are read line by line. A text of whole lines is read first, and what is behind it as it would be
on its own, but for the numbers of its lines. A text is refused exactly if one of its lines is at fault, each
taken alone, and then for the first of them, with its number and the name in it. -/
theorem parse_by_lines :
    (∀ first second : String, Text.Ended first.toList →
      parse (first ++ second) =
        match parse first, parse second with
        | .error error, _ => .error error
        | .ok script, .ok more => .ok (script ++ more)
        | .ok _, .error error => .error (error.later (Text.lines first.toList).length)) ∧
      (∀ text, (∃ error, parse text = .error error) ↔
        ∃ line ∈ Text.lines text.toList, ∃ name fault, Faulty line name fault) ∧
      ∀ text error, parse text = .error error ↔ FirstFault text error :=
  ⟨fun _ second hEnded => parse_append hEnded second, fun _ => exists_error_iff,
    fun _ _ => parse_eq_error_iff⟩

/-- A comment, a line with nothing on it, a directive and an escaped line; carriage returns here and there. -/
def preface : String := "# note\r\n\n@section a\r\n\\@home\n"

/-- The third line names a directive that there is none of, and so does the fourth. -/
def misspelt : String := "@period bob\r\nHi\n@bogus x\n@nope"

/-- A text with an escaped line, and one with a misspelt directive. -/
theorem parse_by_lines_misspelt :
    Text.Ended preface.toList ∧ (Text.lines preface.toList).length = 4 ∧
      parse preface = .ok [.beginSection (some "a"), .speak "@home"] ∧
      parse misspelt = .error ⟨3, "bogus", .unknownDirective⟩ ∧
      parse (preface ++ misspelt) = .error ⟨7, "bogus", .unknownDirective⟩ := by
  have hEnded : Text.Ended preface.toList := .inr ⟨"# note\r\n\n@section a\r\n\\@home".toList, by decide⟩
  have hPreface : parse preface = .ok [.beginSection (some "a"), .speak "@home"] := by decide
  have hMisspelt : parse misspelt = .error ⟨3, "bogus", .unknownDirective⟩ := by decide
  refine ⟨hEnded, by decide, hPreface, hMisspelt, ?_⟩
  rw [parse_by_lines.1 preface misspelt hEnded, hPreface, hMisspelt]
  decide

end Dialogue.Script
