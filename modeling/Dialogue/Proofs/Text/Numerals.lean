import Dialogue.Text.Blank
import Dialogue.Text.Numeral

/-!
# Numerals, written and read

A numeral that was written has decimal digits only, none of which is blank. While it is read, the number grows
with each digit, so that it stays within the limits all the way if it does so in the end.

Main results:

* `Text.readNat_toDigits` — a number within the limit is read as it was written.
* `Text.readMillis_toString` — and so is every count of milliseconds.
-/

namespace Dialogue.Text

variable {digits : List Char}

theorem digit?_of_isDigit {c : Char} (hDigit : c.isDigit = true) :
    digit? c = some (c.toNat - '0'.toNat) := if_pos (Char.isDigit_iff_toNat.mp hDigit)

theorem not_isBlank_of_isDigit {c : Char} (hDigit : c.isDigit = true) : isBlank c = false := by
  obtain ⟨hLow, hHigh⟩ : 48 ≤ c.toNat ∧ c.toNat ≤ 57 := Char.isDigit_iff_toNat.mp hDigit
  rw [isBlank, List.any_eq_false]
  simp only [blankRanges, List.forall_mem_cons, List.not_mem_nil, false_imp_iff, implies_true,
    and_true, Bool.and_eq_true, decide_eq_true_eq]
  omega

/-- A number never gets smaller by further digits. -/
theorem le_ofDigitChars (digits : List Char) (value : Nat) :
    value ≤ Nat.ofDigitChars 10 digits value := by
  induction digits generalizing value with
  | nil => exact Nat.le_refl value
  | cons c rest ih =>
    rw [Nat.ofDigitChars_cons]
    have hRest := ih (10 * value + (c.toNat - '0'.toNat))
    omega

/-- Digits are read to the end if the number that they make is within the limit. -/
theorem readDigits_eq_ofDigitChars {limit : Nat} (past : NumeralError) {value : Nat}
    (hDigits : ∀ c ∈ digits, c.isDigit = true)
    (hLimit : Nat.ofDigitChars 10 digits value ≤ limit) :
    readDigits limit past value digits = .ok (Nat.ofDigitChars 10 digits value) := by
  induction digits generalizing value with
  | nil => rfl
  | cons c rest ih =>
    rw [Nat.ofDigitChars_cons, Nat.mul_comm 10 value] at hLimit ⊢
    -- what comes later only adds to the number
    have hBelow : value * 10 + (c.toNat - '0'.toNat) ≤ limit :=
      Nat.le_trans (le_ofDigitChars rest _) hLimit
    simp only [readDigits, digit?_of_isDigit (hDigits c List.mem_cons_self), if_pos hBelow]
    exact ih (fun d hMem => hDigits d (List.mem_cons_of_mem c hMem)) hLimit

theorem isDigit_of_mem_toDigits {n : Nat} {c : Char} (hMem : c ∈ Nat.toDigits 10 n) :
    c.isDigit = true := Nat.isDigit_of_mem_toDigits (by decide) (by decide) hMem

/-- The digits of a number are read as the number, if it is within the limit. -/
theorem readMagnitude_toDigits {limit n : Nat} (past : NumeralError) (hLimit : n ≤ limit) :
    readMagnitude limit past (Nat.toDigits 10 n) = .ok n := by
  have hNumber : Nat.ofDigitChars 10 (Nat.toDigits 10 n) 0 = n := Nat.ofDigitChars_ten_toDigits
  unfold readMagnitude
  split
  · rename_i hNil
    exact absurd hNil Nat.toDigits_ne_nil
  · rw [readDigits_eq_ofDigitChars past (fun c => isDigit_of_mem_toDigits), hNumber]
    rwa [hNumber]

/-- What is written without a sign is read back. -/
theorem readNat_toDigits {limit n : Nat} (hLimit : n ≤ limit) :
    readNat limit (Nat.toDigits 10 n) = .ok n := by
  unfold readNat
  split
  · rename_i hNil
    exact absurd hNil Nat.toDigits_ne_nil
  · -- no sign is written
    rename_i rest hSign
    have hPlus : '+' ∈ Nat.toDigits 10 n := by
      rw [hSign]
      exact List.mem_cons_self
    exact absurd (isDigit_of_mem_toDigits hPlus) (by decide)
  · exact readMagnitude_toDigits .tooLarge hLimit

theorem toList_toString (time : Millis) : (toString time).toList = Nat.toDigits 10 time.toNat :=
  Nat.toList_repr

/-- Every duration is read back from what is written of it. -/
theorem readMillis_toString (time : Millis) : readMillis (toString time).toList = .ok time := by
  rw [toList_toString, readMillis, readNat_toDigits time.toNat_le]
  have hTime : Millis.ofNat time.toNat = time := Millis.ext (Nat.min_eq_left time.toNat_le)
  exact congrArg Except.ok hTime

end Dialogue.Text
