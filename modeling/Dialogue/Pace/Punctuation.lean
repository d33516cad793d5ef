import Dialogue.Pace.Tier

/-!
# Punctuation

Characters are sorted into classes of punctuation, in their narrow, wide and half-width forms; the
class picks the tier that paces a character.
-/

namespace Dialogue

/-- A class of punctuation. -/
inductive Punctuation where
  | space
  | opening
  | closing
  | comma
  | ellipsis
  | exclamation
  | stop
deriving DecidableEq

namespace Punctuation

/-! ## The sets -/

/-- Opening brackets and quotes. -/
def openingMarks : String := "「『（(［[｛\x7b〈《【〔“‘｢"

/-- Closing brackets and quotes, and every mark after which one pauses. -/
def closingMarks : String := "」』）)］]｝\x7d〉》】〕”’｣、，,､・…‥･！!。．.？?｡：:；;"

def commas : String := "、，,､"

/-- Middle dots and ellipses. -/
def ellipses : String := "・…‥･"

def exclamations : String := "！!"

/-- Full stops and question marks. -/
def stops : String := "。．.？?｡"

/-! ## Classes and tiers -/

/-- Whether a character is one of `marks`. -/
def isOneOf (marks : String) (c : Char) : Bool := marks.toList.contains c

/-- The class of a closing mark. -/
def ofClosing (c : Char) : Punctuation :=
  if isOneOf commas c then comma
  else if isOneOf ellipses c then ellipsis
  else if isOneOf exclamations c then exclamation
  else if isOneOf stops c then stop
  else closing

/-- The class of a character, if it has one. -/
def classify (c : Char) : Option Punctuation :=
  if c = ' ' then some space
  else if isOneOf openingMarks c then some opening
  else if isOneOf closingMarks c then some (ofClosing c)
  else none

/-- The tier of a class; a character without a class is paced like plain text. -/
def tier : Option Punctuation → Tier
  | some closing | some comma => .b
  | some ellipsis => .c
  | some exclamation => .d
  | some stop => .e
  | some space | some opening | none => .a

/-- The tier of a character. -/
def tierOf (c : Char) : Tier := tier (classify c)

/-- What a character asks for is a tier that characters can have. -/
theorem pacesGlyph_tierOf (c : Char) : (tierOf c).pacesGlyph := by
  unfold tierOf
  rcases classify c with _ | p
  · rfl
  · cases p <;> rfl

end Punctuation

end Dialogue
