import Dialogue.Script.Basic

/-!
# Writing scripts

`print` writes directives as a script, each on a line of its own. Some directives cannot be
written: a name with blank characters at its ends, or a text that would read as a comment.
`Directive.Writable` says which ones can.
-/

namespace Dialogue.Script

/-! ## What can be written -/

/-- A name that reads back as it is: not empty, on one line, and without blank characters at its
ends. -/
def IsName (name : String) : Prop :=
  name.toList ≠ [] ∧ '\n' ∉ name.toList ∧ Text.trim name.toList = name.toList

instance (name : String) : Decidable (IsName name) := inferInstanceAs (Decidable (_ ∧ _))

/-- A text that can be spoken: on one line, not blank, and not to be taken for a comment or for a
line that starts with an escaped `@`. -/
def IsSpeech (text : String) : Prop :=
  '\n' ∉ text.toList ∧ Text.trim text.toList ≠ [] ∧
    ¬ ['#'] <+: Text.trim text.toList ∧ ¬ ['\\', '@'] <+: Text.trim text.toList

instance (text : String) : Decidable (IsSpeech text) := inferInstanceAs (Decidable (_ ∧ _))

namespace Directive

/-- The directives that a script can hold. -/
def Writable : Directive → Prop
  | beginSection none | lineBreak | endSection => True
  | beginSection (some area) => IsName area
  | beginParagraph actor => IsName actor
  | emote name => IsName name
  | speak text => IsSpeech text

instance (directive : Directive) : Decidable directive.Writable := by
  unfold Writable
  split <;> infer_instance

/-! ## Lines -/

/-- Puts a backslash before an `@` at the start of what is not blank. -/
def escaped (text : List Char) : List Char :=
  match text.dropWhile Text.isBlank with
  | '@' :: rest => text.takeWhile Text.isBlank ++ '\\' :: '@' :: rest
  | _ => text

/-- A directive as a line, without its end. -/
def line : Directive → List Char
  | beginSection none => "@section".toList
  | beginSection (some area) => "@section ".toList ++ area.toList
  | beginParagraph actor => "@period ".toList ++ actor.toList
  | emote name => "@emote ".toList ++ name.toList
  | lineBreak => "@br".toList
  | endSection => "@end".toList
  | speak text => escaped text.toList

end Directive

/-- Writes a script, with a carriage return and a newline behind each line. -/
def print (script : List Directive) : String :=
  String.ofList (script.flatMap fun directive => directive.line ++ ['\r', '\n'])

end Dialogue.Script
