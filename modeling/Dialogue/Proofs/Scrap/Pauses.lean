import Dialogue.Proofs.Scrap.Bare
import Dialogue.Proofs.Scrap.Paragraphs

/-!
# The pauses of a text

A paragraph gets its pause when it is closed, and a section gets one when it is closed. A `Neat` paragraph
has no other pause, so that its pauses tell whether it is closed, and in a `Neat` section only the last
paragraph can be open. The ways to change a section keep it neat.

Main results:

* `Section.Neat.modifyOpen_append`, `Section.Neat.push_empty` — writing into a section.
* `Section.Neat.modifyOpen_close`, `Section.Neat.close` — ending a paragraph, and a section.
* `Section.neat_map_bare` — whether a section is neat is seen in its bare text.
-/

namespace Dialogue

/-! ## Items without a pause -/

/-- Whether an item is the pause of a paragraph. -/
def Item.isPause : Item → Bool
  | entry e => e.isPause
  | lineBreak => false

theorem Item.isPause_map_bare (item : Item) : (item.map Entry.bare).isPause = item.isPause := by
  cases item <;> rfl

/-- The pause that an entry is, of some tier. -/
def Entry.IsPauseOf (tier : Tier) (entry : Entry) : Prop :=
  entry.content = .pause ∧ entry.tier = some tier

/-- What is made for a tier is a pause of this tier. -/
theorem Entry.isPauseOf_ofPause (tier : Tier) : IsPauseOf tier (.ofPause tier) := ⟨rfl, rfl⟩

/-! ## Paragraphs -/

/-- A paragraph that is closed exactly if it has a pause. The pause is its last item then, and the only
one. -/
structure Paragraph.Neat (paragraph : Paragraph) : Prop where
  closed_iff : paragraph.closed = true ↔ ∃ item ∈ paragraph.items, item.isPause = true
  ended : paragraph.closed = true → ∃ text pause, paragraph.items = text ++ [.entry pause] ∧
    pause.IsPauseOf .paragraphEnd ∧ ∀ item ∈ text, item.isPause = false

namespace Paragraph

variable {paragraph : Paragraph}

/-- There is no pause in a neat paragraph that is open. -/
theorem Neat.isPause_of_open (h : paragraph.Neat) (hOpen : paragraph.closed = false) {item : Item}
    (hMem : item ∈ paragraph.items) : item.isPause = false := by
  cases hPause : item.isPause with
  | false => rfl
  | true =>
    have hClosed := h.closed_iff.mpr ⟨item, hMem, hPause⟩
    rw [hOpen] at hClosed
    cases hClosed

/-- An open paragraph is neat if it has no pause. -/
theorem neat_of_open (hOpen : paragraph.closed = false)
    (hText : ∀ item ∈ paragraph.items, item.isPause = false) : paragraph.Neat := by
  refine ⟨⟨fun hClosed => ?_, fun hPause => ?_⟩, fun hClosed => ?_⟩
  · rw [hOpen] at hClosed
    cases hClosed
  · obtain ⟨item, hMem, hPause⟩ := hPause
    rw [hText item hMem] at hPause
    cases hPause
  · rw [hOpen] at hClosed
    cases hClosed

/-- An empty paragraph is neat. -/
theorem neat_empty (actor : String) : (empty actor).Neat :=
  neat_of_open rfl fun _ hMem => absurd hMem List.not_mem_nil

/-- Text that is written to an open paragraph leaves it neat. -/
theorem Neat.append (h : paragraph.Neat) (hOpen : paragraph.closed = false) {items : List Item}
    (hText : ∀ item ∈ items, item.isPause = false) : (paragraph.append items).Neat := by
  refine neat_of_open hOpen fun item hMem => ?_
  rcases List.mem_append.mp hMem with hMem | hMem
  · exact h.isPause_of_open hOpen hMem
  · exact hText item hMem

/-- Closing it does so too. -/
theorem Neat.close (h : paragraph.Neat) : paragraph.close.Neat := by
  unfold Paragraph.close
  split
  · exact h
  · rename_i hOpen
    have hOpen : paragraph.closed = false := by simpa using hOpen
    -- the pause comes after all that was written
    exact ⟨⟨fun _ => ⟨_, List.mem_append_right _ (List.mem_singleton_self _), rfl⟩, fun _ => rfl⟩,
      fun _ => ⟨paragraph.items, _, rfl, Entry.isPauseOf_ofPause _,
        fun item hMem => h.isPause_of_open hOpen hMem⟩⟩

/-- Whether a paragraph is neat can be seen in the bare one. -/
theorem neat_map_bare : (paragraph.map Entry.bare).Neat ↔ paragraph.Neat := by
  -- a pause is one with or without its times
  have hPauses : (∃ item ∈ (paragraph.map Entry.bare).items, item.isPause = true) ↔
      ∃ item ∈ paragraph.items, item.isPause = true := by
    constructor
    · rintro ⟨_, hMem, hPause⟩
      obtain ⟨item, hItem, rfl⟩ := List.mem_map.mp hMem
      exact ⟨item, hItem, by rwa [item.isPause_map_bare] at hPause⟩
    · rintro ⟨item, hMem, hPause⟩
      exact ⟨_, List.mem_map_of_mem hMem, by rwa [item.isPause_map_bare]⟩
  constructor
  · intro h
    refine ⟨h.closed_iff.trans hPauses, fun hClosed => ?_⟩
    obtain ⟨bareText, barePause, hItems, hPause, hText⟩ := h.ended hClosed
    obtain ⟨text, ends, hAll, rfl, hEnds⟩ := List.map_eq_append_iff.mp hItems
    obtain ⟨item, rfl, hLast⟩ := List.map_eq_singleton_iff.mp hEnds
    cases item with
    | entry pause =>
      cases hLast
      refine ⟨text, pause, hAll, hPause, fun item hMem => ?_⟩
      rw [← item.isPause_map_bare]
      exact hText _ (List.mem_map_of_mem hMem)
    -- a break does not become an entry
    | lineBreak => cases hLast
  · intro h
    refine ⟨h.closed_iff.trans hPauses.symm, fun hClosed => ?_⟩
    obtain ⟨text, pause, hItems, hPause, hText⟩ := h.ended hClosed
    refine ⟨text.map (Item.map Entry.bare), pause.bare, ?_, hPause, fun item hMem => ?_⟩
    · simp [Paragraph.map, hItems, Item.map]
    · obtain ⟨item, hItem, rfl⟩ := List.mem_map.mp hMem
      rw [item.isPause_map_bare]
      exact hText item hItem

end Paragraph

/-! ## Sections -/

/-- A section in which only the last paragraph can be open, and no paragraph once the section has its
pause. -/
structure Section.Neat (sect : Section) : Prop where
  paragraphs : ∀ paragraph ∈ sect.paragraphs, paragraph.Neat
  earlier : ∀ paragraph ∈ sect.paragraphs.dropLast, paragraph.closed = true
  ended : sect.terminal ≠ none → ∀ paragraph ∈ sect.paragraphs, paragraph.closed = true
  pause : ∀ pause, sect.terminal = some pause → pause.IsPauseOf .sectionEnd

namespace Section

variable {sect : Section}

/-- A new section is neat. -/
theorem neat_empty (number : Nat) (area : String) : (empty number area).Neat where
  paragraphs _ hMem := absurd hMem List.not_mem_nil
  earlier _ hMem := absurd hMem List.not_mem_nil
  ended hTerminal := absurd rfl hTerminal
  pause _ hPause := by cases hPause

/-- The only paragraph of a neat section that can be open is the one that takes text. -/
theorem Neat.closed_of_none (h : sect.Neat) (hNone : sect.openParagraph? = none) :
    ∀ paragraph ∈ sect.paragraphs, paragraph.closed = true := by
  rcases List.eq_nil_or_concat sect.paragraphs with hNil | ⟨earlier, last, hSplit⟩
  · rw [hNil]
    simp
  · rw [List.concat_eq_append] at hSplit
    have hEarlier := h.earlier
    rw [hSplit, List.dropLast_concat] at hEarlier
    intro paragraph hMem
    -- all but the last are closed anyway, and the last one would be the open one
    rw [hSplit] at hMem
    rcases List.mem_append.mp hMem with hMem | hMem
    · exact hEarlier paragraph hMem
    · rw [List.mem_singleton.mp hMem]
      cases hClosed : last.closed with
      | true => rfl
      | false =>
        have hSome := openParagraph?_eq_some.mpr ⟨⟨earlier, hSplit⟩, hClosed⟩
        rw [hNone] at hSome
        cases hSome

/-- Changing the open paragraph keeps a section neat, as long as the paragraph stays neat. -/
theorem Neat.modifyOpen (h : sect.Neat) (hOpen : sect.terminal = none) {f : Paragraph → Paragraph}
    (hf : ∀ paragraph : Paragraph, paragraph.Neat → paragraph.closed = false → (f paragraph).Neat) :
    (sect.modifyOpen f).Neat := by
  cases hParagraph : sect.openParagraph? with
  | none =>
    rw [modifyOpen_of_none hParagraph]
    exact h
  | some paragraph =>
    obtain ⟨⟨earlier, hSplit⟩, hClosed⟩ := openParagraph?_eq_some.mp hParagraph
    rw [modifyOpen_of_split hSplit hClosed]
    have hParagraphs := h.paragraphs
    have hEarlier := h.earlier
    rw [hSplit] at hParagraphs hEarlier
    refine ⟨fun other hMem => ?_, fun other hMem => ?_, fun hTerminal => absurd hOpen hTerminal,
      h.pause⟩
    · rcases List.mem_append.mp hMem with hMem | hMem
      · exact hParagraphs other (List.mem_append_left _ hMem)
      · rw [List.mem_singleton.mp hMem]
        exact hf paragraph (hParagraphs paragraph (by simp)) hClosed
    · -- the earlier ones are as before
      rw [List.dropLast_concat] at hMem hEarlier
      exact hEarlier other hMem

theorem Neat.modifyOpen_append (h : sect.Neat) (hOpen : sect.terminal = none) {items : List Item}
    (hText : ∀ item ∈ items, item.isPause = false) : (sect.modifyOpen (·.append items)).Neat :=
  h.modifyOpen hOpen fun _ hNeat hClosed => hNeat.append hClosed hText

theorem Neat.modifyOpen_close (h : sect.Neat) (hOpen : sect.terminal = none) :
    (sect.modifyOpen Paragraph.close).Neat :=
  h.modifyOpen hOpen fun _ hNeat _ => hNeat.close

/-- The next paragraph starts when the one before has ended. -/
theorem Neat.push_empty (h : sect.Neat) (hOpen : sect.terminal = none)
    (hNone : sect.openParagraph? = none) (actor : String) : (sect.push (.empty actor)).Neat := by
  refine ⟨fun paragraph hMem => ?_, ?_, fun hTerminal => absurd hOpen hTerminal, h.pause⟩
  · rcases List.mem_append.mp hMem with hMem | hMem
    · exact h.paragraphs paragraph hMem
    · rw [List.mem_singleton.mp hMem]
      exact Paragraph.neat_empty actor
  · intro paragraph hMem
    have hMem : paragraph ∈ (sect.paragraphs ++ [Paragraph.empty actor]).dropLast := hMem
    -- in front of the new one all are closed, as none was open
    rw [List.dropLast_concat] at hMem
    exact h.closed_of_none hNone paragraph hMem

/-- A section stays neat when it is closed. -/
theorem Neat.close (h : sect.Neat) (hOpen : sect.terminal = none) : sect.close.Neat := by
  have hNot : sect.isClosed = false := by
    rw [isClosed, hOpen]
    rfl
  have hNeat := h.modifyOpen_close hOpen
  unfold Section.close
  rw [hNot]
  refine ⟨hNeat.paragraphs, hNeat.earlier,
    fun _ => hNeat.closed_of_none sect.openParagraph?_modifyOpen_close, fun pause hPause => ?_⟩
  cases hPause
  exact Entry.isPauseOf_ofPause _

/-- Whether a section is neat is seen in its bare text. -/
theorem neat_map_bare : (sect.map Entry.bare).Neat ↔ sect.Neat := by
  -- each condition is about what the bare section still has
  have hParagraphs : (∀ paragraph ∈ (sect.map Entry.bare).paragraphs, paragraph.Neat) ↔
      ∀ paragraph ∈ sect.paragraphs, paragraph.Neat := by
    simp [Section.map, Paragraph.neat_map_bare]
  have hEarlier : (∀ paragraph ∈ (sect.map Entry.bare).paragraphs.dropLast,
      paragraph.closed = true) ↔ ∀ paragraph ∈ sect.paragraphs.dropLast, paragraph.closed = true := by
    simp [Section.map, ← List.map_dropLast, Paragraph.map]
  have hEnded : ((sect.map Entry.bare).terminal ≠ none →
      ∀ paragraph ∈ (sect.map Entry.bare).paragraphs, paragraph.closed = true) ↔
      (sect.terminal ≠ none → ∀ paragraph ∈ sect.paragraphs, paragraph.closed = true) := by
    simp [Section.map, Paragraph.map]
  have hPause : (∀ pause, (sect.map Entry.bare).terminal = some pause →
      pause.IsPauseOf .sectionEnd) ↔
      ∀ pause, sect.terminal = some pause → pause.IsPauseOf .sectionEnd := by
    simp [Section.map, Entry.IsPauseOf, Entry.bare, Entry.unpaced]
  constructor
  · intro h
    exact ⟨hParagraphs.mp h.paragraphs, hEarlier.mp h.earlier, hEnded.mp h.ended,
      hPause.mp h.pause⟩
  · intro h
    exact ⟨hParagraphs.mpr h.paragraphs, hEarlier.mpr h.earlier, hEnded.mpr h.ended,
      hPause.mpr h.pause⟩

end Section

end Dialogue
