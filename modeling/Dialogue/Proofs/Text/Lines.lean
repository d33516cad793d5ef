import Dialogue.Text.Blank

/-!
# Lines

A text is cut into lines at its newlines, so no line holds one, and a line that is written with a carriage
return and a newline behind it is read as it was written.

Main results:

* `Text.newline_not_mem` — there is no newline in a line.
* `Text.lines_append` — the line before a newline is read first, then the others.
* `Text.lines_append_of_ended` — behind a newline, the lines of a text are its lines on its own.
* `Text.Ended.eq_nil_or_line` — a text of whole lines is empty or starts with one.
-/

namespace Dialogue.Text

theorem mem_of_mem_dropReturn {line : List Char} {c : Char} (hMem : c ∈ dropReturn line) :
    c ∈ line := by
  unfold dropReturn at hMem
  split at hMem
  · exact List.mem_cons_of_mem _ hMem
  · exact hMem

/-- No line goes beyond a newline. -/
theorem newline_not_mem_linesFrom {backwards text line : List Char} (hBackwards : '\n' ∉ backwards)
    (hLine : line ∈ linesFrom backwards text) : '\n' ∉ line := by
  induction text generalizing backwards with
  | nil =>
    rw [linesFrom] at hLine
    split at hLine
    · cases hLine
    · rw [List.mem_singleton.mp hLine, List.mem_reverse]
      exact hBackwards
  | cons c rest ih =>
    rw [linesFrom] at hLine
    split at hLine
    · -- the line ends here, and another one starts
      rcases List.mem_cons.mp hLine with rfl | hLater
      · rw [List.mem_reverse]
        exact fun hMem => hBackwards (mem_of_mem_dropReturn hMem)
      · exact ih List.not_mem_nil hLater
    · rename_i hOther
      refine ih (fun hMem => ?_) hLine
      rcases List.mem_cons.mp hMem with hEq | hMem
      · exact hOther hEq.symm
      · exact hBackwards hMem

/-- A line has no line feed in it. -/
theorem newline_not_mem {text line : List Char} (hLine : line ∈ lines text) : '\n' ∉ line :=
  newline_not_mem_linesFrom List.not_mem_nil hLine

/-- A line that is ended by a line feed is the first one of the text. -/
theorem linesFrom_append {line : List Char} (hLine : '\n' ∉ line) (backwards rest : List Char) :
    linesFrom backwards (line ++ '\n' :: rest) =
      (dropReturn (line.reverse ++ backwards)).reverse :: lines rest := by
  induction line generalizing backwards with
  | nil => rfl
  | cons c others ih =>
    obtain ⟨hFirst, hOthers⟩ := not_or.mp (fun h => hLine (List.mem_cons.mpr h))
    rw [List.cons_append, linesFrom, if_neg (Ne.symm hFirst), ih hOthers]
    simp

/-- A line with a carriage return and a newline behind it is read as it was written. -/
theorem lines_append {line : List Char} (hLine : '\n' ∉ line) (rest : List Char) :
    lines (line ++ ['\r', '\n'] ++ rest) = line :: lines rest := by
  have hReturn : '\n' ∉ line ++ ['\r'] := by simp [hLine]
  have hSplit : line ++ ['\r', '\n'] ++ rest = (line ++ ['\r']) ++ '\n' :: rest := by simp
  rw [lines, hSplit, linesFrom_append hReturn]
  simp [dropReturn]

theorem linesFrom_append_newline (backwards text rest : List Char) :
    linesFrom backwards (text ++ '\n' :: rest) = linesFrom backwards (text ++ ['\n']) ++ lines rest := by
  induction text generalizing backwards with
  | nil => rfl
  | cons c others ih =>
    rw [List.cons_append, List.cons_append, linesFrom, linesFrom]
    split
    · rw [ih, List.cons_append]
    · rw [ih]

/-- A text whose last line has come to its end. -/
def Ended (text : List Char) : Prop := text = [] ∨ ∃ front, text = front ++ ['\n']

/-- What stands before an ended line does not change the lines behind it. -/
theorem lines_append_of_ended {first : List Char} (hEnded : Ended first) (rest : List Char) :
    lines (first ++ rest) = lines first ++ lines rest := by
  rcases hEnded with rfl | ⟨front, rfl⟩
  · rfl
  · rw [List.append_assoc, List.singleton_append]
    exact linesFrom_append_newline [] front rest

/-- The first newline of an ended text ends its first line, and what is behind it is ended too. -/
theorem Ended.eq_nil_or_line {text : List Char} (hEnded : Ended text) :
    text = [] ∨ ∃ line rest, text = line ++ '\n' :: rest ∧ '\n' ∉ line ∧ Ended rest := by
  rcases hEnded with rfl | ⟨front, rfl⟩
  · exact .inl rfl
  · have hNewline : '\n' ∈ front ++ ['\n'] := by simp
    obtain ⟨line, rest, hSplit, hLine⟩ := List.eq_append_cons_of_mem hNewline
    refine .inr ⟨line, rest, hSplit, hLine, ?_⟩
    rcases List.eq_nil_or_concat rest with rfl | ⟨others, c, rfl⟩
    · exact .inl rfl
    · -- the text ends as its rest does
      have hEnds : front ++ ['\n'] = (line ++ '\n' :: others) ++ [c] := by simpa using hSplit
      obtain ⟨-, hLast⟩ := List.append_inj' hEnds rfl
      rw [List.cons.injEq] at hLast
      exact .inr ⟨others, by rw [← hLast.1, List.concat_eq_append]⟩

end Dialogue.Text
