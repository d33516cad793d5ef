import Dialogue.Millis

/-!
# Numerals

Reading whole numbers within limits. A numeral is an optional sign and decimal digits of ASCII, read
from the left: a character that is no digit, or a digit that leads past the limit, stops the
reading, whichever comes first.
-/

namespace Dialogue.Text

/-- Why a text is no numeral within the limits. -/
inductive NumeralError where
  | empty
  | invalidDigit
  | tooLarge
  | tooSmall
deriving DecidableEq

namespace NumeralError

def message : NumeralError → String
  | empty => "cannot parse integer from empty string"
  | invalidDigit => "invalid digit found in string"
  | tooLarge => "number too large to fit in target type"
  | tooSmall => "number too small to fit in target type"

end NumeralError

/-- The value of a decimal digit. -/
def digit? (c : Char) : Option Nat :=
  if '0' ≤ c ∧ c ≤ '9' then some (c.toNat - '0'.toNat) else none

/-- The number whose first digits have the value `value`, at most `limit`; passing the limit is the
error `past`. -/
def readDigits (limit : Nat) (past : NumeralError) (value : Nat) :
    List Char → Except NumeralError Nat
  | [] => .ok value
  | c :: rest =>
    match digit? c with
    | none => .error .invalidDigit
    | some d =>
      if value * 10 + d ≤ limit then readDigits limit past (value * 10 + d) rest
      else .error past

/-- Like `readDigits` on a text that must have a character. -/
def readMagnitude (limit : Nat) (past : NumeralError) : List Char → Except NumeralError Nat
  | [] => .error .invalidDigit
  | digits => readDigits limit past 0 digits

/-- Reads a natural number of at most `limit`; one plus sign may stand first. -/
def readNat (limit : Nat) : List Char → Except NumeralError Nat
  | [] => .error .empty
  | '+' :: digits => readMagnitude limit .tooLarge digits
  | digits => readMagnitude limit .tooLarge digits

/-- Reads an integer from `-low` to `high`; one sign may stand first. -/
def readInt (low high : Nat) : List Char → Except NumeralError Int
  | [] => .error .empty
  | '+' :: digits => (readMagnitude high .tooLarge digits).map Int.ofNat
  | '-' :: digits => (readMagnitude low .tooSmall digits).map fun n => -Int.ofNat n
  | digits => (readMagnitude high .tooLarge digits).map Int.ofNat

/-- Reads an integer of 32 bits. -/
def readInt32 (text : List Char) : Except NumeralError Int :=
  readInt 0x80000000 0x7fffffff text

/-- Reads a count of milliseconds. -/
def readMillis (text : List Char) : Except NumeralError Millis :=
  (readNat Millis.limit text).map Millis.ofNat

end Dialogue.Text
