/-!
# Markup

A `Node` is an element of a markup tree. `Node.html` writes a tree as HTML: classes come first among
the attributes, a line break has neither content nor an end tag, and in texts and values the four
characters with a meaning of their own are written as references.
-/

namespace Dialogue.Markup

/-- An element with classes, further attributes, text, and child elements after the text. -/
structure Node where
  tag : String
  classes : List String
  attributes : List (String × String)
  text : Option String
  children : List Node

namespace Node

/-- An element without anything in it. -/
def empty (tag : String) : Node := ⟨tag, [], [], none, []⟩

/-- The value of the first attribute with a name. -/
def attribute? (node : Node) (name : String) : Option String :=
  (node.attributes.find? (·.1 = name)).map Prod.snd

def hasClass (node : Node) (name : String) : Bool := node.classes.contains name

/-! ## Descendants -/

mutual

/-- All nodes below a node, in document order. -/
def descendants : Node → List Node
  | ⟨_, _, _, _, children⟩ => forest children

/-- All nodes of a list of trees, in document order. -/
def forest : List Node → List Node
  | [] => []
  | node :: rest => node :: (descendants node ++ forest rest)

end

/-! ## HTML -/

/-- A character in a text or a value. -/
def escapedChar (c : Char) : List Char :=
  if c = '&' then "&amp;".toList
  else if c = '<' then "&lt;".toList
  else if c = '>' then "&gt;".toList
  else if c = '\"' then "&quot;".toList
  else [c]

def escaped (text : String) : List Char := text.toList.flatMap escapedChar

/-- One attribute, with the space before it. -/
def attributeHtml (name value : String) : List Char :=
  ' ' :: name.toList ++ "=\"".toList ++ escaped value ++ ['\"']

/-- The attributes as they are written: the classes, if there are any, are the first one. -/
def writtenAttributes (node : Node) : List (String × String) :=
  (if node.classes.isEmpty then [] else [("class", " ".intercalate node.classes)]) ++
    node.attributes

/-- The start tag. -/
def startTag (node : Node) : List Char :=
  '<' :: node.tag.toList ++
    node.writtenAttributes.flatMap (fun (name, value) => attributeHtml name value) ++ ['>']

mutual

/-- The characters of a tree as HTML. -/
def htmlChars : Node → List Char
  | ⟨tag, classes, attributes, text, children⟩ =>
    let start := startTag ⟨tag, classes, attributes, text, children⟩
    if tag = "br" then start
    else
      start ++ (text.elim [] escaped ++ (forestChars children ++
        ('<' :: '/' :: tag.toList ++ ['>'])))

/-- The characters of a list of trees as HTML. -/
def forestChars : List Node → List Char
  | [] => []
  | node :: rest => htmlChars node ++ forestChars rest

end

/-- A tree as HTML. -/
def html (node : Node) : String := String.ofList node.htmlChars

end Node

end Dialogue.Markup
