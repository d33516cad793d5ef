import Dialogue.Text.Printable

/-!
# Quoted text

A character or a text is quoted so that every character in it can be seen: `character` puts single
quotes around a character, `text` double quotes around a text. Inside, the quote in use, the
backslash and the common controls are written with a backslash, and a character that could not be
seen alone is written as its code point.
-/

namespace Dialogue.Text.Quoted

/-- The digits of a code point, in lower case and without leading zeros. -/
def hexDigits (n : Nat) : String := String.ofList (Nat.toDigits 16 n)

/-- A code point between braces. -/
def codePoint (c : Char) : String := "\\u\x7b" ++ hexDigits c.toNat ++ "\x7d"

/-- How a character stands between two quotes of the kind `quote`. -/
def escaped (quote : Char) (c : Char) : String :=
  if c = '\x00' then "\\0"
  else if c = '\t' then "\\t"
  else if c = '\r' then "\\r"
  else if c = '\n' then "\\n"
  else if c = '\\' then "\\\\"
  else if c = quote then String.ofList ['\\', c]
  else if isExtending c || !isPrintable c then codePoint c
  else c.toString

/-- A character in single quotes. -/
def character (c : Char) : String := "\'" ++ escaped '\'' c ++ "\'"

/-- A text in double quotes. -/
def text (s : String) : String := "\"" ++ String.join (s.toList.map (escaped '\"')) ++ "\""

end Dialogue.Text.Quoted
