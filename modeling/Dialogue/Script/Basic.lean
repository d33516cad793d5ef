import Dialogue.Talk.Authoring
import Dialogue.Text.Blank

/-!
# Dialogue scripts

A script has one `Directive` on each line. A line that starts with `@` names a directive, with an
argument behind the name; a line that starts with `#` is a comment; any other line that is not
blank is spoken as it stands. A line that starts with a backslash before an `@` is spoken without
the backslash. What stands first on a line may have blank characters before it.
-/

namespace Dialogue.Script

/-- One line of a script. -/
inductive Directive where
  | beginSection (area : Option String)
  | beginParagraph (actor : String)
  | emote (name : String)
  | lineBreak
  | endSection
  | speak (text : String)
deriving DecidableEq

namespace Directive

/-- The authoring step that a directive stands for. -/
def direction : Directive → Direction
  | beginSection area => .beginSection area
  | beginParagraph actor => .beginParagraph actor
  | emote name => .emote name
  | lineBreak => .lineBreak
  | endSection => .endSection
  | speak text => .speak text

end Directive

/-! ## Errors -/

/-- What is wrong with a line. -/
inductive Fault where
  | unknownDirective
  | missingArgument
deriving DecidableEq

/-- The first line that is wrong, counted from one, and the directive that it names. -/
structure ParseError where
  line : Nat
  name : String
  fault : Fault
deriving DecidableEq

namespace ParseError

def message (error : ParseError) : String :=
  match error.fault with
  | .unknownDirective =>
    "line " ++ toString error.line ++ ": unknown directive '@" ++ error.name ++ "'"
  | .missingArgument =>
    "line " ++ toString error.line ++ ": '@" ++ error.name ++ "' needs an argument"

end ParseError

/-! ## Lines -/

/-- A name with the argument behind it, if there is one. -/
def nameAndArgument (body : List Char) : String × Option String :=
  match Text.cut? Text.isBlank body with
  | none => (String.ofList body, none)
  | some (name, rest) =>
    let argument := Text.trim rest
    (String.ofList name, if argument.isEmpty then none else some (String.ofList argument))

/-- The directive with a name and an argument. -/
def named (name : String) (argument : Option String) : Except Fault Directive :=
  match name, argument with
  | "section", area => .ok (.beginSection area)
  | "period", some actor => .ok (.beginParagraph actor)
  | "period", none => .error .missingArgument
  | "emote", some emotion => .ok (.emote emotion)
  | "emote", none => .error .missingArgument
  | "br", _ => .ok .lineBreak
  | "end", _ => .ok .endSection
  | _, _ => .error .unknownDirective

/-- Reads one line; a line without a directive gives nothing. -/
def readLine (line : List Char) : Except (String × Fault) (Option Directive) :=
  match Text.trim line with
  | [] => .ok none
  | '#' :: _ => .ok none
  | '\\' :: '@' :: _ =>
    -- only the backslash goes: the blank characters before it are spoken too
    let indent := line.takeWhile Text.isBlank
    let rest := line.dropWhile Text.isBlank
    .ok (some (.speak (String.ofList (indent ++ rest.drop 1))))
  | '@' :: body =>
    let (name, argument) := nameAndArgument body
    match named name argument with
    | .ok directive => .ok (some directive)
    | .error fault => .error (name, fault)
  | _ => .ok (some (.speak (String.ofList line)))

/-- Reads lines, the first of which has the number `number`. -/
def readLines (number : Nat) : List (List Char) → Except ParseError (List Directive)
  | [] => .ok []
  | line :: rest =>
    match readLine line with
    | .error (name, fault) => .error ⟨number, name, fault⟩
    | .ok directive => (readLines (number + 1) rest).map (directive.toList ++ ·)

/-- Reads a script. -/
def parse (text : String) : Except ParseError (List Directive) :=
  readLines 1 (Text.lines text.toList)

end Dialogue.Script

namespace Dialogue.Talk

/-- Writes a script into a talk. -/
def follow (talk : Talk) (script : List Script.Directive) : Talk :=
  talk.directAll (script.map Script.Directive.direction)

end Dialogue.Talk
