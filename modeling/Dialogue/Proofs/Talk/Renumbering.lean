import Dialogue.Proofs.Agenda.Order
import Dialogue.Proofs.Scrap.Places
import Dialogue.Talk.Operation
import Mathlib.Logic.Function.Basic

/-!
# Other numbers for sections

The numbers of its sections stand in many places of a talk: in the scrap, in the records of the areas, in
cues and events, and in what is asked of the talk and given back. Each of these has a `renumber`, which
puts other numbers in; what a talk does with it commutes with that, as long as different sections keep
different numbers.

Main results:

* `Scrap.Renumbered.modifySection`, `Scrap.Renumbered.paced` — changes of a scrap under other numbers.
* `Areas.renumber_modify`, `Areas.renumber_start` — changes of the records.
-/

namespace Dialogue

variable {f : Nat → Nat}

/-! ## Scraps -/

def Section.renumber (f : Nat → Nat) (sect : Section) : Section :=
  { sect with number := f sect.number }

/-- The number of a section has no part in its open paragraph. -/
theorem Section.modifyOpen_renumber (change : Paragraph → Paragraph) (sect : Section) :
    (sect.renumber f).modifyOpen change = (sect.modifyOpen change).renumber f := by
  have hOpen : (sect.renumber f).hasOpenParagraph = sect.hasOpenParagraph := rfl
  unfold modifyOpen
  rw [hOpen]
  split <;> rfl

/-- The number of a section has no part in its closing. -/
theorem Section.close_renumber (sect : Section) :
    (sect.renumber f).close = sect.close.renumber f := by
  have hClosed : (sect.renumber f).isClosed = sect.isClosed := rfl
  unfold close
  rw [hClosed, modifyOpen_renumber]
  split <;> rfl

/-- A section that is found by its number is found by the other number too. -/
theorem Scrap.modifyFirst_renumber (hf : Function.Injective f) {change : Section → Section}
    (hChange : ∀ sect, change (sect.renumber f) = (change sect).renumber f) (number : Nat)
    (sections : List Section) :
    modifyFirst (f number) change (sections.map (Section.renumber f)) =
      (modifyFirst number change sections).map (Section.renumber f) := by
  induction sections with
  | nil => rfl
  | cons sect rest ih =>
    rw [List.map_cons, modifyFirst, modifyFirst]
    -- different sections keep different numbers
    have hSame : (sect.renumber f).number = f number ↔ sect.number = number := hf.eq_iff
    by_cases hNumber : sect.number = number
    · rw [if_pos hNumber, if_pos (hSame.mpr hNumber), hChange]
      rfl
    · rw [if_neg hNumber, if_neg (hSame.not.mpr hNumber), ih]
      rfl

/-- The number of a section has no part in its pacing. -/
theorem Section.paced_renumber (tempo : Tempo) (elapsed : Millis) (sect : Section) :
    (sect.renumber f).paced tempo elapsed =
      ((sect.paced tempo elapsed).1.renumber f, (sect.paced tempo elapsed).2) := by
  unfold paced renumber
  cases sect.terminal <;> rfl

/-- The numbers of the sections have no part in their pacing. -/
theorem Section.carry_paced_renumber (tempo : Tempo) (elapsed : Millis) (sections : List Section) :
    carry (Section.paced tempo) elapsed (sections.map (Section.renumber f)) =
      ((carry (Section.paced tempo) elapsed sections).1.map (Section.renumber f),
        (carry (Section.paced tempo) elapsed sections).2) := by
  induction sections generalizing elapsed with
  | nil => rfl
  | cons sect rest ih =>
    simp only [List.map_cons, carry, paced_renumber, ih]

/-- A scrap with the sections of another one, under the numbers that `f` gives them. -/
def Scrap.Renumbered (f : Nat → Nat) (scrap other : Scrap) : Prop :=
  other.sections = scrap.sections.map (Section.renumber f)

namespace Scrap.Renumbered

variable {scrap other : Scrap}

/-- The same entry stands at each place. -/
theorem entryAt? (h : Renumbered f scrap other) (place : Place) :
    other.entryAt? place = scrap.entryAt? place := by
  obtain ⟨sect, slot⟩ := place
  rw [Scrap.entryAt?, Scrap.entryAt?, h, List.getElem?_map]
  cases scrap.sections[sect]? with
  | none => rfl
  | some found => cases slot <;> rfl

/-- A renumbered scrap has the same entries. -/
theorem entries (h : Renumbered f scrap other) : other.entries = scrap.entries := by
  rw [Scrap.entries, Scrap.entries, h, List.flatMap_map]
  rfl

/-- A renumbered scrap has the same places. -/
theorem places (h : Renumbered f scrap other) : other.places = scrap.places := by
  rw [Scrap.places, Scrap.places, h, List.zipIdx_map, List.flatMap_map]
  rfl

/-- A renumbered scrap finds a section under its other number. -/
theorem section? (h : Renumbered f scrap other) (hf : Function.Injective f) (number : Nat) :
    other.section? (f number) = (scrap.section? number).map (Section.renumber f) := by
  have hSame : ((fun sect : Section => decide (sect.number = f number)) ∘ Section.renumber f) =
      fun sect => decide (sect.number = number) := by
    funext sect
    exact decide_eq_decide.mpr hf.eq_iff
  rw [Scrap.section?, Scrap.section?, h, List.find?_map, hSame]

/-- Both take a new section, each under its own number. -/
theorem push (h : Renumbered f scrap other) (number : Nat) (area : String) :
    Renumbered f (scrap.push (.empty number area)) (other.push (.empty (f number) area)) := by
  show other.sections ++ _ = (scrap.sections ++ _).map _
  rw [h, List.map_append]
  rfl

/-- Both change the section of the number. -/
theorem modifySection (h : Renumbered f scrap other) (hf : Function.Injective f)
    {change : Section → Section}
    (hChange : ∀ sect, change (sect.renumber f) = (change sect).renumber f) (number : Nat) :
    Renumbered f (scrap.modifySection number change)
      (other.modifySection (f number) change) := by
  show modifyFirst (f number) change other.sections = _
  rw [h]
  exact modifyFirst_renumber hf hChange ..

/-- Both change the entry at the place. -/
theorem modifyAt (h : Renumbered f scrap other) (place : Place) (change : Entry → Entry) :
    Renumbered f (scrap.modifyAt place change) (other.modifyAt place change) := by
  show other.sections.modify place.sect _ = (scrap.sections.modify place.sect _).map _
  rw [h]
  refine List.ext_getElem? fun i => ?_
  rw [List.getElem?_modify, List.getElem?_map, List.getElem?_map, List.getElem?_modify]
  cases scrap.sections[i]? with
  | none => rfl
  | some sect =>
    by_cases hHere : place.sect = i <;> cases hSlot : place.slot <;>
      simp [hHere, Section.modifyAt, Section.renumber]

/-- Both change all entries. -/
theorem map (h : Renumbered f scrap other) (change : Entry → Entry) :
    Renumbered f (scrap.map change) (other.map change) := by
  show other.sections.map _ = (scrap.sections.map _).map _
  rw [h, List.map_map, List.map_map]
  rfl

/-- The times of entries do not depend on the numbers of sections. -/
theorem paced (h : Renumbered f scrap other) (tempo : Tempo) :
    Renumbered f (scrap.paced tempo).1 (other.paced tempo).1 ∧
      (other.paced tempo).2 = (scrap.paced tempo).2 := by
  rw [Scrap.paced, Scrap.paced, h, Section.carry_paced_renumber]
  exact ⟨rfl, rfl⟩

theorem pacedSection? (h : Renumbered f scrap other) (hf : Function.Injective f) (tempo : Tempo)
    {number : Nat} {paced : Scrap} {total : Millis}
    (hPaced : scrap.pacedSection? tempo number = some (paced, total)) :
    ∃ paced', other.pacedSection? tempo (f number) = some (paced', total) ∧
      Renumbered f paced paced' := by
  obtain ⟨sect, hSect, hEq⟩ := Option.map_eq_some_iff.mp hPaced
  cases hEq
  have hOther : other.section? (f number) = some (sect.renumber f) := by
    rw [h.section? hf, hSect]
    rfl
  have hSame : ∀ sect : Section, ((sect.renumber f).paced tempo 0).1 =
      (sect.paced tempo 0).1.renumber f := fun sect => by rw [Section.paced_renumber]
  have hTotal : ((sect.renumber f).paced tempo 0).2 = (sect.paced tempo 0).2 := by
    rw [Section.paced_renumber]
  refine ⟨_, ?_, h.modifySection hf hSame number⟩
  rw [Scrap.pacedSection?, hOther, Option.map_some, hTotal]

/-- If the section is not found in the one, it is not found in the other. -/
theorem pacedSection?_of_none (h : Renumbered f scrap other) (hf : Function.Injective f)
    {tempo : Tempo} {number : Nat} (hNone : scrap.pacedSection? tempo number = none) :
    other.pacedSection? tempo (f number) = none := by
  rw [Scrap.pacedSection?, h.section? hf, Option.map_eq_none_iff.mp hNone]
  rfl

end Scrap.Renumbered

/-! ## Areas -/

def AreaRecord.renumber (f : Nat → Nat) (record : AreaRecord) : AreaRecord :=
  { record with number := f record.number }

namespace AreaRecord

theorem makeVisible_renumber (record : AreaRecord) :
    (record.renumber f).makeVisible = record.makeVisible.renumber f := rfl

theorem close_renumber (record : AreaRecord) :
    (record.renumber f).close = record.close.renumber f := rfl

theorem detach_renumber (record : AreaRecord) :
    (record.renumber f).detach = record.detach.renumber f := rfl

end AreaRecord

/-- The same areas, with the records under the numbers that `f` gives them. -/
def Areas.renumber (f : Nat → Nat) (areas : Areas) : Areas :=
  { areas with records := areas.records.map (AreaRecord.renumber f) }

namespace Areas

/-- The record of a number is found under the other number. -/
theorem modifyFirst_renumber (hf : Function.Injective f) {change : AreaRecord → AreaRecord}
    (hChange : ∀ record, change (record.renumber f) = (change record).renumber f) (number : Nat)
    (records : List AreaRecord) :
    modifyFirst (f number) change (records.map (AreaRecord.renumber f)) =
      (modifyFirst number change records).map (AreaRecord.renumber f) := by
  induction records with
  | nil => rfl
  | cons record rest ih =>
    rw [List.map_cons, modifyFirst, modifyFirst]
    have hSame : (record.renumber f).number = f number ↔ record.number = number := hf.eq_iff
    by_cases hNumber : record.number = number
    · rw [if_pos hNumber, if_pos (hSame.mpr hNumber), hChange]
      rfl
    · rw [if_neg hNumber, if_neg (hSame.not.mpr hNumber), ih]
      rfl

/-- Changing the area of a number goes with renumbering. -/
theorem renumber_modify (hf : Function.Injective f) {change : AreaRecord → AreaRecord}
    (hChange : ∀ record, change (record.renumber f) = (change record).renumber f) (number : Nat)
    (areas : Areas) :
    (areas.renumber f).modify (f number) change = (areas.modify number change).renumber f := by
  rw [modify, renumber, modifyFirst_renumber hf hChange]
  rfl

/-- Records that become visible, each under its number. -/
theorem renumber_foldl_makeVisible (hf : Function.Injective f) (sections : List Section)
    (areas : Areas) :
    (sections.map (Section.renumber f)).foldl
        (fun areas sect => areas.modify sect.number AreaRecord.makeVisible) (areas.renumber f) =
      (sections.foldl (fun areas sect => areas.modify sect.number AreaRecord.makeVisible)
        areas).renumber f := by
  induction sections generalizing areas with
  | nil => rfl
  | cons sect rest ih =>
    have hHere : (areas.renumber f).modify (f sect.number) AreaRecord.makeVisible =
        (areas.modify sect.number AreaRecord.makeVisible).renumber f :=
      renumber_modify hf AreaRecord.makeVisible_renumber ..
    rw [List.map_cons, List.foldl_cons, List.foldl_cons, ← ih, ← hHere]
    rfl

/-- The areas with the last record opening. -/
def openLast (areas : Areas) : Areas :=
  { areas with records := modifyLast AreaRecord.opening areas.records }

/-- The record of a new section, which opens at once. -/
theorem renumber_start (areas : Areas) (asked : Option String) (number : Nat) :
    ((areas.renumber f).start asked (f number)).openLast =
      (areas.start asked number).openLast.renumber f := by
  have hRecords : ((areas.renumber f).start asked (f number)).records =
      (areas.renumber f).records ++ [.fresh (f number) (areas.areaFor asked)] := rfl
  have hRecords' : (areas.start asked number).records =
      areas.records ++ [.fresh number (areas.areaFor asked)] := rfl
  rw [openLast, openLast, hRecords, hRecords', modifyLast_append_singleton,
    modifyLast_append_singleton, renumber, renumber, List.map_append]
  rfl

end Areas

/-! ## Cues, events, operations and replies -/

def Cue.renumber (f : Nat → Nat) : Cue → Cue
  | .reveal entry last => .reveal entry last
  | .fadeEnd entry => .fadeEnd entry
  | .closeEnd number => .closeEnd (f number)

theorem Cue.isReveal_renumber (cue : Cue) : (cue.renumber f).isReveal = cue.isReveal := by
  cases cue <;> rfl

theorem Cue.isPlayback_renumber (cue : Cue) : (cue.renumber f).isPlayback = cue.isPlayback := by
  cases cue <;> rfl

def Event.renumber (f : Nat → Nat) : Event → Event
  | .shown entry glyph => .shown entry glyph
  | .emote entry name => .emote entry name
  | .faded entry => .faded entry
  | .played outcome => .played outcome
  | .sectionClosing number => .sectionClosing (f number)
  | .sectionClosed number => .sectionClosed (f number)
  | .closed => .closed

def PaceScope.renumber (f : Nat → Nat) : PaceScope → PaceScope
  | .whole => .whole
  | .single number => .single (f number)

/-- Only pacing names a section. -/
def Operation.renumber (f : Nat → Nat) : Operation → Operation
  | .pace scope => .pace (scope.renumber f)
  | operation => operation

def PacingError.renumber (f : Nat → Nat) : PacingError → PacingError
  | .talkClosed => .talkClosed
  | .invalidSection number => .invalidSection (f number)

def Reply.renumber (f : Nat → Nat) : Reply → Reply
  | .nothing => .nothing
  | .total time => .total time
  | .refused error => .refused (error.renumber f)
  | .play outcome => .play outcome
  | .changed news => .changed news
  | .events raised => .events (raised.map (Event.renumber f))

end Dialogue
