import Dialogue.Proofs.Talk.Reach

/-!
# What one operation takes from the registry

A talk takes a number from its registry for each section that it starts, and no operation starts more than
one. What else an operation does to the registry is that the scrap is detached when the talk comes to its
end.

Main results:

* `Talk.starts_direct` — a direction starts one section at most, and none once the talk is closing.
* `Talk.starts_perform` — and so does every operation; apart from that, the registry stays as it is until
  the talk is over.
-/

namespace Dialogue

/-- Scraps of one name have one number. -/
theorem Scrap.name_inj {scrap other : Scrap} (hName : scrap.name = other.name) :
    scrap.number = other.number := by
  rw [Scrap.name, Scrap.name, String.append_right_inj] at hName
  -- a number is read back from its digits
  have hDigits : Nat.toDigits 10 scrap.number = Nat.toDigits 10 other.number := by
    refine String.ofList_injective ?_
    rw [← Nat.repr_eq_ofList_toDigits, ← Nat.repr_eq_ofList_toDigits]
    exact hName
  rw [← Nat.ofDigitChars_ten_toDigits (n := scrap.number), hDigits, Nat.ofDigitChars_ten_toDigits]

/-- A scrap that is detached is struck out of the list. -/
theorem Registry.attached_detach (registry : Registry) (scrap : String) :
    (registry.detach scrap).attached.getD [] = (registry.attached.getD []).filter (· ≠ scrap) := by
  unfold detach
  cases registry.attached <;> rfl

namespace Talk

/-! ## New talks -/

/-- A new talk takes the next number, and attaches its scrap, which has no sections. -/
structure Enters (registry : Registry) (options : Options) (talk : Talk) : Prop where
  options : talk.options = options
  number : talk.scrap.number = registry.talks + 1
  numbers : talk.scrap.numbers = []
  outcome : talk.outcome .closed = none
  registry : talk.registry = { registry with talks := registry.talks + 1 }.attach talk.scrap.name

/-- A talk enters with the next number of the registry, and under a name of its own. -/
theorem enters_of_create {registry : Registry} {options : Options} {talk : Talk}
    (hCreate : Talk.create registry options = .ok talk) : Enters registry options talk := by
  obtain ⟨hValid, -⟩ := registry_of_create hCreate
  unfold Talk.create Talk.enroll at hCreate
  rw [Options.validate_eq_ok_iff.mpr hValid] at hCreate
  cases hCreate
  exact ⟨rfl, rfl, rfl, rfl, rfl⟩

/-! ## Sections -/

/-- Between `talk` and `later`, sections with the numbers `started` were started, and nothing else was
asked of the registry. -/
structure Starts (started : List Nat) (talk later : Talk) : Prop where
  number : later.scrap.number = talk.scrap.number
  numbers : later.scrap.numbers = talk.scrap.numbers ++ started
  registry : later.registry =
    { talk.registry with sections := talk.registry.sections + started.length }
  rising : started = List.range' (talk.registry.sections + 1) started.length

namespace Starts

variable {first second third : Talk} {started more : List Nat}

/-- No section was started if the labels and the count of the registry are the same. -/
theorem of_label (hNumber : second.scrap.number = first.scrap.number)
    (hLabel : second.scrap.sections.map Section.label = first.scrap.sections.map Section.label)
    (hRegistry : second.registry = first.registry) : Starts [] first second :=
  ⟨hNumber, by rw [Scrap.numbers_of_label hLabel, List.append_nil], hRegistry, rfl⟩

theorem refl (talk : Talk) : Starts [] talk talk := of_label rfl rfl rfl

/-- Sections that start one after the other start together. -/
theorem trans (h : Starts started first second) (h' : Starts more second third) :
    Starts (started ++ more) first third where
  number := h'.number.trans h.number
  numbers := by rw [h'.numbers, h.numbers, List.append_assoc]
  registry := by rw [h'.registry, h.registry, List.length_append, Nat.add_assoc]
  rising := by
    have hMore := h'.rising
    rw [h.registry] at hMore
    -- the numbers of the second part go on where those of the first one end
    rw [List.length_append, ← List.range'_append_1, Nat.add_right_comm, ← h.rising, ← hMore]

end Starts

/-! ## The steps of writing -/

/-- Ending a section starts none. -/
theorem starts_endSection (talk : Talk) : Starts [] talk talk.endSection := by
  refine .of_label talk.number_endSection ?_ talk.registry_endSection
  unfold endSection
  split
  · exact Scrap.map_modifyFirst_of_eq Section.label_close ..
  · rfl

/-- Changing the current section starts none, if the change keeps labels. -/
theorem starts_modifyCurrent (talk : Talk) {f : Section → Section}
    (hLabel : ∀ sect, (f sect).label = sect.label) : Starts [] talk (talk.modifyCurrent f) := by
  unfold modifyCurrent
  split
  · exact .of_label rfl (Scrap.map_modifyFirst_of_eq hLabel ..) rfl
  · exact .refl talk

/-- Changing the current section asks nothing of the registry. -/
@[simp] theorem registry_modifyCurrent (talk : Talk) (f : Section → Section) :
    (talk.modifyCurrent f).registry = talk.registry := by
  unfold modifyCurrent
  split <;> rfl

theorem starts_modifyOpen (talk : Talk) (f : Paragraph → Paragraph) :
    Starts [] talk (talk.modifyCurrent (Section.modifyOpen f)) :=
  talk.starts_modifyCurrent fun sect => sect.label_modifyOpen f

/-- A section takes the next number. -/
theorem starts_startSection (talk : Talk) (asked : Option String) :
    Starts [talk.registry.sections + 1] talk (talk.startSection asked) := by
  have hEnd := talk.starts_endSection
  have hPushed : Starts [talk.endSection.registry.sections + 1] talk.endSection
      (talk.startSection asked) := by
    refine ⟨rfl, ?_, rfl, rfl⟩
    show List.map Section.number (talk.endSection.scrap.sections ++ [_]) = _
    rw [List.map_append]
    rfl
  rw [registry_endSection] at hPushed
  exact hEnd.trans hPushed

/-! ## Directions -/

/-- One section was started at most. -/
def StartsOne (talk later : Talk) : Prop := ∃ started, started.length ≤ 1 ∧ Starts started talk later

/-- What happened before, and started no section, adds none. -/
theorem Starts.one {first second third : Talk} (h : Starts [] first second)
    (hOne : StartsOne second third) : StartsOne first third := by
  obtain ⟨started, hLength, hStarts⟩ := hOne
  exact ⟨started, hLength, h.trans hStarts⟩

/-- What happens behind, and starts no section, adds none. -/
theorem StartsOne.trans {first second third : Talk} (hOne : StartsOne first second)
    (h : Starts [] second third) : StartsOne first third := by
  obtain ⟨started, hLength, hStarts⟩ := hOne
  refine ⟨started, hLength, ?_⟩
  rw [← List.append_nil started]
  exact hStarts.trans h

theorem startsOne_startSection (talk : Talk) (asked : Option String) :
    StartsOne talk (talk.startSection asked) :=
  ⟨_, Nat.le_refl _, talk.starts_startSection asked⟩

/-- A paragraph without a section starts one. -/
theorem starts_startParagraph (talk : Talk) (actor : String) :
    Starts (if talk.currentSection.isNone then [talk.registry.sections + 1] else []) talk
      (talk.startParagraph actor) := by
  have hSection : Starts (if talk.currentSection.isNone then [talk.registry.sections + 1] else [])
      talk (if talk.currentSection.isNone then talk.startSection none else talk) := by
    split
    · exact talk.starts_startSection none
    · exact .refl talk
  have hWhole := (hSection.trans (starts_modifyOpen _ Paragraph.close)).trans
    (starts_modifyCurrent _ (f := (·.push (.empty actor))) fun _ => rfl)
  rwa [List.append_nil, List.append_nil] at hWhole

/-- A paragraph starts one section at most, if there was none. -/
theorem startsOne_startParagraph (talk : Talk) (actor : String) :
    StartsOne talk (talk.startParagraph actor) := by
  refine ⟨_, ?_, talk.starts_startParagraph actor⟩
  split
  · exact Nat.le_refl _
  · exact Nat.zero_le _

/-- Text without a paragraph starts at most one section. -/
theorem startsOne_withParagraph (talk : Talk) : StartsOne talk talk.withParagraph := by
  unfold withParagraph
  split
  · exact ⟨[], Nat.zero_le _, .refl talk⟩
  · have hReport : Starts [] talk (talk.report .debug
        ("no open paragraph, opening one for '" ++ talk.options.defaultActor ++ "'")) :=
      .of_label rfl rfl rfl
    exact hReport.one (startsOne_startParagraph _ _)

/-- No direction starts more than one section, and none starts one once the talk is closing. -/
theorem starts_direct (talk : Talk) (direction : Direction) :
    ∃ started, started.length ≤ 1 ∧ (talk.isClosing = true → started = []) ∧
      Starts started talk (talk.direct direction) := by
  have hUnlessClosing : ∀ write : Talk → Talk, StartsOne talk (write talk) →
      ∃ started, started.length ≤ 1 ∧ (talk.isClosing = true → started = []) ∧
        Starts started talk (talk.unlessClosing write) := by
    intro write hOne
    unfold unlessClosing
    split
    · exact ⟨[], Nat.zero_le _, fun _ => rfl, .of_label rfl rfl rfl⟩
    · rename_i hOpen
      obtain ⟨started, hLength, hStarts⟩ := hOne
      exact ⟨started, hLength, fun hClosing => absurd hClosing hOpen, hStarts⟩
  have hWrite : ∀ items, ∃ started, started.length ≤ 1 ∧ (talk.isClosing = true → started = []) ∧
      Starts started talk (talk.write items) := fun items =>
    hUnlessClosing _ (talk.startsOne_withParagraph.trans (starts_modifyOpen _ _))
  cases direction with
  | beginSection area => exact hUnlessClosing (·.startSection area) (talk.startsOne_startSection area)
  -- an end starts nothing, neither of a section nor of a paragraph
  | endSection => exact ⟨[], Nat.zero_le _, fun _ => rfl, talk.starts_endSection⟩
  | beginParagraph actor => exact hUnlessClosing (·.startParagraph actor) (talk.startsOne_startParagraph actor)
  | endParagraph => exact ⟨[], Nat.zero_le _, fun _ => rfl, talk.starts_modifyOpen _⟩
  | speak text => exact hWrite _
  | emote name => exact hWrite _
  | lineBreak => exact hWrite _

/-! ## Operations -/

/-- What an operation writes by itself starts one section at most. -/
theorem starts_authoredBy (talk : Talk) (operation : Operation) :
    ∃ started, started.length ≤ 1 ∧ (talk.isClosing = true → started = []) ∧
      Starts started talk (talk.authoredBy operation) :=
  keeps_authoredBy
    (fun later => ∃ started, started.length ≤ 1 ∧ (talk.isClosing = true → started = []) ∧
      Starts started talk later)
    ⟨[], Nat.zero_le _, fun _ => rfl, .refl talk⟩ fun direction _ => talk.starts_direct direction

/-- What an operation does to the sections of a talk and to its registry. -/
structure Enrolls (started : List Nat) (talk later : Talk) : Prop where
  options : later.options = talk.options
  number : later.scrap.number = talk.scrap.number
  numbers : later.scrap.numbers = talk.scrap.numbers ++ started
  rising : started = List.range' (talk.registry.sections + 1) started.length
  talks : later.registry.talks = talk.registry.talks
  sections : later.registry.sections = talk.registry.sections + started.length
  /-- The scrap is detached when the talk comes to its end. -/
  attached : (later.registry.attached = talk.registry.attached ∧
      later.outcome .closed = talk.outcome .closed) ∨
    (later.registry.attached = (talk.registry.detach talk.scrap.name).attached ∧
      talk.outcome .closed = none ∧ later.outcome .closed ≠ none)

/-- No operation starts more than one section, and none starts one once the talk is closing. -/
theorem starts_perform (talk : Talk) (operation : Operation) :
    ∃ started, started.length ≤ 1 ∧ (talk.isClosing = true → started = []) ∧
      Enrolls started talk (talk.perform operation).2 := by
  obtain ⟨started, hLength, hClosing, hStarts⟩ := talk.starts_authoredBy operation
  have hSame := talk.sameText_perform operation
  have hName : (talk.authoredBy operation).scrap.name = talk.scrap.name := by
    rw [Scrap.name, hStarts.number, Scrap.name]
  have hNumber : (talk.perform operation).2.scrap.number =
      (talk.authoredBy operation).scrap.number := by
    have hBare := congrArg Scrap.number hSame.scrap
    exact hBare
  have hWritten := talk.written_authoredBy operation
  have hOutcome := talk.outcome_authoredBy operation .closed
  refine ⟨started, hLength, hClosing, ?_⟩
  have hRising := hStarts.rising
  rcases hSame.registry with ⟨hRegistry, hClosed⟩ | ⟨hRegistry, hBefore, hAfter⟩
  · -- the talk goes on, and its scrap stays where it is
    rw [hStarts.registry] at hRegistry
    exact ⟨hSame.options.trans hWritten.options, hNumber.trans hStarts.number,
      hSame.numbers.trans hStarts.numbers, hRising, by rw [hRegistry], by rw [hRegistry],
      .inl ⟨by rw [hRegistry], hClosed.trans hOutcome⟩⟩
  · -- at its end the talk detaches its scrap
    rw [hStarts.registry, hName] at hRegistry
    exact ⟨hSame.options.trans hWritten.options, hNumber.trans hStarts.number,
      hSame.numbers.trans hStarts.numbers, hRising, by rw [hRegistry]; rfl, by rw [hRegistry]; rfl,
      .inr ⟨by rw [hRegistry]; rfl, hOutcome.symm.trans hBefore, hAfter⟩⟩

end Talk

end Dialogue
