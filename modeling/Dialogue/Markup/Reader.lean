import Dialogue.Markup.Node
import Dialogue.Text.Blank

/-!
# Reading markup

`Element.read?` reads HTML back: an element is a start tag with attributes, and unless it is a line
break, text and further elements up to its end tag. References stand for the four characters with a
meaning of their own, and nothing else is written with an `&`. The classes of an element come back
as one text, the value of the first attribute; `Node.joined` is the tree with this loss.

Whatever reads something from the front of a text gives the `Rest` that it leaves, which is shorter.
-/

namespace Dialogue.Markup

/-- An element as it was read. -/
structure Element where
  tag : String
  /-- The classes in one text, with spaces between them. -/
  classes : String
  attributes : List (String × String)
  text : Option String
  children : List Element

namespace Node

mutual

/-- A tree with the classes of each node in one text. -/
def joined : Node → Element
  | ⟨tag, classes, attributes, text, children⟩ =>
    ⟨tag, " ".intercalate classes, attributes, text, joinedForest children⟩

def joinedForest : List Node → List Element
  | [] => []
  | node :: rest => joined node :: joinedForest rest

end

end Node

namespace Element

/-- What is left of a text after something was read from its front. -/
abbrev Rest (text : List Char) : Type := { rest : List Char // rest.length < text.length }

/-! ## Characters -/

/-- Puts references back into the characters that they stand for. -/
def decode : List Char → Option (List Char)
  | [] => some []
  | '&' :: 'a' :: 'm' :: 'p' :: ';' :: rest => (decode rest).map ('&' :: ·)
  | '&' :: 'l' :: 't' :: ';' :: rest => (decode rest).map ('<' :: ·)
  | '&' :: 'g' :: 't' :: ';' :: rest => (decode rest).map ('>' :: ·)
  | '&' :: 'q' :: 'u' :: 'o' :: 't' :: ';' :: rest => (decode rest).map ('\"' :: ·)
  | c :: rest => if c = '&' then none else (decode rest).map (c :: ·)

/-- Reads up to a character, and the character. -/
def upTo (stop : Char) (text : List Char) : Option (List Char × Rest text) :=
  match hCut : Text.cut? (· = stop) text with
  | some (front, rest) => some (front, ⟨rest, Text.length_lt_of_cut? hCut⟩)
  | none => none

/-- Reads a given word. -/
def word : (expected text : List Char) → Option { rest : List Char // rest.length ≤ text.length }
  | [], text => some ⟨text, Nat.le_refl _⟩
  | _ :: _, [] => none
  | c :: expected, d :: rest =>
    if c = d then (word expected rest).map fun last => ⟨last.1, Nat.le_succ_of_le last.2⟩
    else none

/-- Reads text up to the next tag; where none stands there is none. -/
def readText (text : List Char) :
    Option (Option String × { rest : List Char // rest.length ≤ text.length }) := do
  let content ← decode (text.takeWhile (· ≠ '<'))
  return (if content.isEmpty then none else some (String.ofList content),
    ⟨text.dropWhile (· ≠ '<'), (List.dropWhile_sublist _).length_le⟩)

/-! ## Tags -/

/-- A character of a tag. -/
def isTagChar (c : Char) : Bool := c ≠ ' ' && c ≠ '>'

/-- Reads a tag up to its attributes or the end of the start tag. -/
def readTag (text : List Char) :
    Option (List Char × { rest : List Char // rest.length ≤ text.length }) :=
  if (text.takeWhile isTagChar).isEmpty then none
  else some (text.takeWhile isTagChar,
    ⟨text.dropWhile isTagChar, (List.dropWhile_sublist _).length_le⟩)

/-- Reads attributes, each with a space before it, and the end of the start tag. -/
def readAttributes (text : List Char) : Option (List (String × String) × Rest text) :=
  match text with
  | '>' :: rest => some ([], ⟨rest, Nat.lt_succ_self _⟩)
  | ' ' :: rest => do
    let (name, afterName) ← upTo '=' rest
    let quoted ← word ['\"'] afterName.1
    let (raw, afterValue) ← upTo '\"' quoted.1
    let value ← decode raw
    let (others, last) ← readAttributes afterValue.1
    return ((String.ofList name, String.ofList value) :: others, ⟨last.1, by
      have := afterName.2
      have := quoted.2
      have := afterValue.2
      have := last.2
      rw [List.length_cons]
      omega⟩)
  | _ => none
termination_by text.length
decreasing_by
  have := afterName.2
  have := quoted.2
  have := afterValue.2
  rw [List.length_cons]
  omega

/-- The classes come first among the attributes, if there are any. -/
def splitClasses : List (String × String) → String × List (String × String)
  | (name, value) :: others => if name = "class" then (value, others) else ("", (name, value) :: others)
  | [] => ("", [])

/-! ## Elements -/

mutual

/-- Reads an element. -/
def readElement (text : List Char) : Option (Element × Rest text) :=
  match text with
  | '<' :: inside => do
    let (tag, afterTag) ← readTag inside
    let (attributes, body) ← readAttributes afterTag.1
    let (classes, others) := splitClasses attributes
    if tag = "br".toList then
      return (⟨"br", classes, others, none, []⟩, ⟨body.1, by
        have := afterTag.2
        have := body.2
        rw [List.length_cons]
        omega⟩)
    else
      let (content, afterText) ← readText body.1
      let (children, behind) ← readForest afterText.1
      let last ← word ('<' :: '/' :: tag ++ ['>']) behind.1
      return (⟨String.ofList tag, classes, others, content, children⟩, ⟨last.1, by
        have := afterTag.2
        have := body.2
        have := afterText.2
        have := behind.2
        have := last.2
        rw [List.length_cons]
        omega⟩)
  | _ => none
termination_by 2 * text.length
decreasing_by
  have := afterTag.2
  have := body.2
  have := afterText.2
  rw [List.length_cons]
  omega

/-- Reads elements until an end tag comes. -/
def readForest (text : List Char) :
    Option (List Element × { rest : List Char // rest.length ≤ text.length }) :=
  match text with
  | '<' :: '/' :: rest => some ([], ⟨'<' :: '/' :: rest, Nat.le_refl _⟩)
  | text => do
    let (first, behind) ← readElement text
    let (others, last) ← readForest behind.1
    return (first :: others, ⟨last.1, Nat.le_trans last.2 (Nat.le_of_lt behind.2)⟩)
termination_by 2 * text.length + 1
decreasing_by
  · omega
  · have := behind.2
    omega

end

/-- Reads a text that is one element and nothing else. -/
def read? (html : String) : Option Element :=
  match readElement html.toList with
  | some (element, ⟨[], _⟩) => some element
  | _ => none

end Element

end Dialogue.Markup
