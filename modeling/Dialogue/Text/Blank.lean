/-!
# Blank characters, lines and fields

Texts are cut as lists of characters. `isBlank` is the property White_Space of Unicode; `trim`
drops blank characters at both ends; `lines`, `fields` and `cut?` split a text at newlines, at a
separator, and at the first character of a class.
-/

namespace Dialogue.Text

/-! ## Blank characters -/

/-- The code points with the property White_Space, as closed ranges in ascending order. -/
def blankRanges : List (Nat × Nat) :=
  [(0x09, 0x0D), (0x20, 0x20), (0x85, 0x85), (0xA0, 0xA0), (0x1680, 0x1680), (0x2000, 0x200A),
    (0x2028, 0x2029), (0x202F, 0x202F), (0x205F, 0x205F), (0x3000, 0x3000)]

def isBlank (c : Char) : Bool :=
  blankRanges.any fun (low, high) => low ≤ c.toNat && c.toNat ≤ high

def trimStart (text : List Char) : List Char := text.dropWhile isBlank

def trimEnd (text : List Char) : List Char := (text.reverse.dropWhile isBlank).reverse

/-- The text without the blank characters at its two ends. -/
def trim (text : List Char) : List Char := trimEnd (trimStart text)

/-! ## Cutting -/

/-- The parts before and after the first character of a class; nothing without such a character. -/
def cut? (isCut : Char → Bool) : List Char → Option (List Char × List Char)
  | [] => none
  | c :: rest =>
    if isCut c then some ([], rest) else (cut? isCut rest).map fun (a, b) => (c :: a, b)

/-- The part after the cut is shorter than the text. -/
theorem length_lt_of_cut? {isCut : Char → Bool} {text front rest : List Char}
    (hCut : cut? isCut text = some (front, rest)) : rest.length < text.length := by
  induction text generalizing front with
  | nil => cases hCut
  | cons c others ih =>
    rw [cut?] at hCut
    split at hCut
    · cases hCut
      exact Nat.lt_succ_self _
    · obtain ⟨⟨before, behind⟩, hOthers, hEq⟩ := Option.map_eq_some_iff.mp hCut
      cases hEq
      exact Nat.lt_succ_of_lt (ih hOthers)

/-- The parts between the separators; one more part than there are separators. -/
def fields (separator : Char) : List Char → List (List Char)
  | [] => [[]]
  | c :: rest =>
    if c = separator then [] :: fields separator rest
    else match fields separator rest with
      | [] => [[c]]
      | field :: others => (c :: field) :: others

/-- A line, given backwards, without a carriage return at its end. -/
def dropReturn : List Char → List Char
  | '\r' :: rest => rest
  | line => line

/-- The lines of a text that continues the line `backwards`, which is given backwards. -/
def linesFrom (backwards : List Char) : List Char → List (List Char)
  | [] => if backwards.isEmpty then [] else [backwards.reverse]
  | c :: rest =>
    if c = '\n' then (dropReturn backwards).reverse :: linesFrom [] rest
    else linesFrom (c :: backwards) rest

/-- The lines of a text. A newline ends a line, together with one carriage return directly before
it; after the last newline there is a line only if it has a character, and that one keeps a
carriage return at its end. -/
def lines (text : List Char) : List (List Char) := linesFrom [] text

end Dialogue.Text
