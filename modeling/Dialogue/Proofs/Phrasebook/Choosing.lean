import Dialogue.Phrasebook

/-!
# Choosing

`Chooser.Lawful` says what may be expected of a choice: without candidates there is none, with candidates it is
one of them, and it can be any of them. The uniform choice keeps these laws for any number of candidates. That
none of them is out of reach is not plain to see, as some words are passed over: it is because the first of
the words that a candidate owns leaves a remainder below the number of candidates, and no such word is passed
over.

Main results:

* `Chooser.Lawful.canPick_iff`, `Chooser.Lawful.choose_eq_none_iff` — what a lawful choice can come to.
* `Pick.draw_lt`, `Pick.exists_draw_eq` — a word picks a candidate, and each candidate is picked by a word.
* `Pick.uniform_lawful` — the uniform choice is lawful.
-/

namespace Dialogue

/-- What a pick can come to, with one source of randomness or another. -/
def CanPick {α Source Use : Type} (pick : Source → Option α × Use) (a : α) : Prop :=
  ∃ source, (pick source).1 = some a

namespace Chooser

variable {Source Use : Type} {chooser : Chooser Source Use}

/-- There is a choice exactly if there are candidates. It is one of them, and it can be each of them. -/
structure Lawful (chooser : Chooser Source Use) : Prop where
  none_of_nil : ∀ {α : Type} (source : Source), (chooser.choose ([] : List α) source).1 = none
  some_of_ne_nil : ∀ {α : Type} {candidates : List α}, candidates ≠ [] → ∀ source : Source,
    ∃ a ∈ candidates, (chooser.choose candidates source).1 = some a
  possible : ∀ {α : Type} {candidates : List α} {a : α}, a ∈ candidates →
    ∃ source : Source, (chooser.choose candidates source).1 = some a

namespace Lawful

variable {α : Type} {candidates : List α}

/-- A choice can come to the candidates and to nothing else. -/
theorem canPick_iff (h : chooser.Lawful) {a : α} :
    CanPick (chooser.choose candidates) a ↔ a ∈ candidates := by
  constructor
  · rintro ⟨source, hChoice⟩
    -- from no candidates nothing is chosen
    by_cases hNil : candidates = []
    · rw [hNil, h.none_of_nil source] at hChoice
      cases hChoice
    · obtain ⟨b, hMem, hSome⟩ := h.some_of_ne_nil hNil source
      rw [hSome, Option.some.injEq] at hChoice
      rwa [← hChoice]
  · exact h.possible

/-- A lawful chooser comes back with nothing only from an empty list. -/
theorem choose_eq_none_iff (h : chooser.Lawful) {source : Source} :
    (chooser.choose candidates source).1 = none ↔ candidates = [] := by
  by_cases hNil : candidates = []
  · simp only [hNil, h.none_of_nil source]
  · obtain ⟨a, -, hSome⟩ := h.some_of_ne_nil hNil source
    simp only [hSome, hNil, reduceCtorEq]

end Lawful

end Chooser

/-! ## The uniform choice -/

namespace Pick

/-- A number has fewer binary places than bits are drawn for it. -/
theorem log2_lt_bits (n : Nat) : n.log2 < bits n := by
  unfold bits
  omega

/-- There are more words than candidates. -/
theorem lt_words (n : Nat) : n < words n :=
  calc n < 2 ^ (n.log2 + 1) := Nat.lt_log2_self
    _ ≤ 2 ^ bits n := Nat.pow_le_pow_right (by decide) (log2_lt_bits n)
    _ = words n := (Nat.one_shiftLeft _).symm

theorem words_pos (n : Nat) : 0 < words n := Nat.lt_of_le_of_lt (Nat.zero_le n) (lt_words n)

/-- Moving a number up to the first bit of a word does not move it out of the word. -/
theorem shiftLeft_lt_words {n : Nat} (hPos : 0 < n) : n <<< leadingZeros n < words n := by
  have hBits : n.log2 + 1 + leadingZeros n = bits n := by
    have hLt := log2_lt_bits n
    rw [leadingZeros, if_neg (by omega)]
    omega
  rw [Nat.shiftLeft_eq]
  calc n * 2 ^ leadingZeros n < 2 ^ (n.log2 + 1) * 2 ^ leadingZeros n :=
        Nat.mul_lt_mul_of_pos_right Nat.lt_log2_self (Nat.two_pow_pos _)
    _ = words n := by rw [← Nat.pow_add, hBits, words, Nat.one_shiftLeft]

/-- A word is taken if its remainder is below the number of candidates. -/
theorem le_zone {n remainder : Nat} (hLt : remainder < n) : remainder ≤ zone n := by
  have hShift : n ≤ n <<< leadingZeros n := by
    rw [Nat.shiftLeft_eq]
    exact Nat.le_mul_of_pos_right n (Nat.two_pow_pos _)
  rw [zone, Nat.mod_eq_of_lt (shiftLeft_lt_words (by omega))]
  omega

/-- What is drawn is an index into the candidates. -/
theorem draw_lt {n : Nat} (hPos : 0 < n) (random : List Nat) : (draw n random).1 < n := by
  induction random with
  | nil => exact hPos
  | cons number rest ih =>
    rw [draw]
    split
    · have hWord : number % words n < words n := Nat.mod_lt _ (words_pos n)
      exact Nat.div_lt_of_lt_mul (Nat.mul_lt_mul_of_pos_right hWord hPos)
    · exact ih

/-- Each candidate is picked by the first of the words that it owns. -/
theorem exists_draw_eq {n i : Nat} (hLt : i < n) : ∃ word, (draw n [word]).1 = i := by
  have hWords : n < words n := lt_words n
  have hStart : i * words n + words n ≤ n * words n := by
    rw [← Nat.succ_mul]
    exact Nat.mul_le_mul_right _ hLt
  obtain ⟨word, hWord⟩ : ∃ word, word = (i * words n + (n - 1)) / n := ⟨_, rfl⟩
  -- it is the first word that comes at or behind the start of what the candidate owns
  have hBefore : word * n ≤ i * words n + (n - 1) := by
    rw [hWord]
    exact Nat.div_mul_le_self _ _
  have hBehind : i * words n ≤ word * n := by
    have hNext : i * words n + (n - 1) < n * (word + 1) := by
      rw [hWord]
      exact Nat.lt_mul_div_succ _ (by omega)
    rw [Nat.mul_succ, Nat.mul_comm n] at hNext
    omega
  have hIsWord : word < words n :=
    Nat.lt_of_mul_lt_mul_right (a := n) (by rw [Nat.mul_comm (words n)]; omega)
  have hPicked : word * n / words n = i :=
    Nat.div_eq_of_lt_le hBehind (by rw [Nat.succ_mul]; omega)
  -- so the word is not one of those that are drawn again
  have hRemainder : word * n % words n < n := by
    have hParts := Nat.div_add_mod' (word * n) (words n)
    rw [hPicked] at hParts
    omega
  refine ⟨word, ?_⟩
  rw [draw, Nat.mod_eq_of_lt hIsWord, if_pos (le_zone hRemainder)]
  exact hPicked

/-- The choice takes the candidate whose index was drawn. -/
theorem choose_of_ne_nil {α : Type} {candidates : List α} (hSome : candidates ≠ [])
    (random : List Nat) :
    (choose candidates random).1 = candidates[(draw candidates.length random).1]? := by
  cases candidates with
  | nil => exact absurd rfl hSome
  | cons a rest => rfl

/-- The uniform choice is lawful, however many candidates there are. -/
theorem uniform_lawful : uniform.Lawful where
  none_of_nil _ := rfl
  some_of_ne_nil {α candidates} hSome random := by
    have hLt := draw_lt (List.length_pos_iff.mpr hSome) random
    refine ⟨_, List.getElem_mem hLt, ?_⟩
    show (choose candidates random).1 = _
    rw [choose_of_ne_nil hSome, List.getElem?_eq_getElem hLt]
  possible {α candidates a} hMem := by
    obtain ⟨i, hLt, hAt⟩ := List.mem_iff_getElem.mp hMem
    -- the index of the candidate is drawn by some word
    obtain ⟨word, hWord⟩ := exists_draw_eq hLt
    refine ⟨[word], ?_⟩
    show (choose candidates [word]).1 = _
    rw [choose_of_ne_nil (List.ne_nil_of_mem hMem), hWord, List.getElem?_eq_getElem hLt, hAt]

end Pick

end Dialogue
