import Dialogue.Proofs.Scrap.Growth
import Dialogue.Scrap.Pacing

/-!
# The times that pacing gives

Pacing walks through the tree of a scrap. Seen from outside it walks through the list of entries in
document order, and the time it has reached before an entry is the capped sum of the delays so far.

Main results:

* `Scrap.entries_paced` — pacing a scrap paces its list of entries.
* `Scrap.getElem?_entries_paced` — the entry in position `i` gets its tier's delay and the sum of the
  delays up to it as its timestamp, and is hidden.
* `Scrap.entryAt?_paced`, `Scrap.entryAt?_pacedSection?` — the same by places, for all of the scrap
  and for one section of it.
-/

namespace Dialogue

/-! ## Handing a value on -/

section Carry

variable {α β σ : Type}

/-- A run over two lists goes on in the second where it stopped in the first. -/
theorem carry_append (f : σ → α → α × σ) (s : σ) (l l' : List α) :
    carry f s (l ++ l') =
      ((carry f s l).1 ++ (carry f (carry f s l).2 l').1, (carry f (carry f s l).2 l').2) := by
  induction l generalizing s with
  | nil => rfl
  | cons a rest ih => simp [carry, ih]

/-- What is made of one element depends on the state that those before it have left. -/
theorem getElem?_carry (f : σ → α → α × σ) (s : σ) (l : List α) (i : Nat) :
    (carry f s l).1[i]? = l[i]?.map fun a => (f (carry f s (l.take i)).2 a).1 := by
  induction l generalizing s i with
  | nil => simp [carry]
  | cons a rest ih =>
    cases i with
    | zero => simp [carry]
    | succ i => simp [carry, ih]

/-- Where each step on a block is a walk through the elements in it, the walk through the blocks is a
walk through all elements. -/
theorem carry_flatMap {f : σ → α → α × σ} {g : σ → β → β × σ} {inner : β → List α}
    (hStep : ∀ s b, (inner (g s b).1, (g s b).2) = carry f s (inner b)) (s : σ) (l : List β) :
    ((carry g s l).1.flatMap inner, (carry g s l).2) = carry f s (l.flatMap inner) := by
  -- block by block, from the value that the blocks before have handed on
  induction l generalizing s with
  | nil => rfl
  | cons b rest ih =>
    have hHead := hStep s b
    have hTail := ih (g s b).2
    simp only [Prod.ext_iff] at hHead hTail
    simp only [carry, List.flatMap_cons, carry_append, ← hHead.1, ← hHead.2, ← hTail.1,
      ← hTail.2]

end Carry

/-! ## Sums of delays -/

namespace Millis

theorem ofNat_add_ofNat (m n : Nat) : ofNat m + ofNat n = ofNat (m + n) := by
  ext; simp only [toNat_add, toNat_ofNat]; omega

/-- A time is no more than the limit. -/
theorem ofNat_toNat (a : Millis) : ofNat a.toNat = a := by
  have := a.toNat_le
  ext; simp only [toNat_ofNat]; omega

end Millis

/-- How long entries take one after the other: the sum of the delays of their tiers, capped. -/
def Tempo.elapsed (tempo : Tempo) (entries : List Entry) : Millis :=
  .ofNat (total (fun e => (tempo.delay e.tier).toNat) entries)

namespace Tempo

@[simp] theorem elapsed_nil (tempo : Tempo) : tempo.elapsed [] = 0 := rfl

/-- One stretch of entries takes its time after the other. -/
theorem elapsed_append (tempo : Tempo) (entries more : List Entry) :
    tempo.elapsed (entries ++ more) = tempo.elapsed entries + tempo.elapsed more := by
  simp only [elapsed, total_append, Millis.ofNat_add_ofNat]

theorem elapsed_singleton (tempo : Tempo) (entry : Entry) :
    tempo.elapsed [entry] = tempo.delay entry.tier := by
  simp [elapsed, Millis.ofNat_toNat]

theorem elapsed_cons (tempo : Tempo) (entry : Entry) (rest : List Entry) :
    tempo.elapsed (entry :: rest) = tempo.delay entry.tier + tempo.elapsed rest := by
  rw [← elapsed_singleton, ← elapsed_append, List.singleton_append]

/-- How long entries take depends on their tiers alone. -/
theorem elapsed_congr (tempo : Tempo) {entries others : List Entry}
    (hTiers : entries.map Entry.tier = others.map Entry.tier) :
    tempo.elapsed entries = tempo.elapsed others := by
  have hDelays : ∀ l : List Entry, total (fun e => (tempo.delay e.tier).toNat) l =
      total (fun tier => (tempo.delay tier).toNat) (l.map Entry.tier) := by
    intro l
    rw [total_map]
  rw [elapsed, elapsed, hDelays, hDelays, hTiers]

/-- A longer stretch takes no less time. -/
theorem elapsed_take_mono (tempo : Tempo) (entries : List Entry) {i j : Nat} (hLe : i ≤ j) :
    tempo.elapsed (entries.take i) ≤ tempo.elapsed (entries.take j) := by
  obtain ⟨k, rfl⟩ := Nat.exists_eq_add_of_le hLe
  rw [List.take_add, elapsed_append]
  exact Millis.le_add_right _ _

end Tempo

/-- The clock of a run of entries moves on by all their delays. -/
theorem Entry.carry_paced_snd (tempo : Tempo) (start : Millis) (entries : List Entry) :
    (carry (Entry.paced tempo) start entries).2 = start + tempo.elapsed entries := by
  induction entries generalizing start with
  | nil => simp [carry]
  | cons e rest ih =>
    simp only [carry, Entry.paced, ih, Tempo.elapsed_cons, Millis.add_assoc]

/-! ## In document order -/

/-- Pacing a paragraph is pacing the entries in it. -/
theorem Paragraph.entries_paced (tempo : Tempo) (start : Millis) (paragraph : Paragraph) :
    ((paragraph.paced tempo start).1.entries, (paragraph.paced tempo start).2) =
      carry (Entry.paced tempo) start paragraph.entries := by
  -- a line break takes no time
  have hItem : ∀ (s : Millis) (item : Item),
      ((Item.entry? (item.paced tempo s).1).toList, (item.paced tempo s).2) =
        carry (Entry.paced tempo) s (Item.entry? item).toList := by
    intro s item
    cases item <;> rfl
  have hItems := @carry_flatMap _ _ _ (Entry.paced tempo) (Item.paced tempo)
    (fun item => (Item.entry? item).toList) hItem start paragraph.items
  simp only [Paragraph.entries, Paragraph.paced, List.filterMap_eq_flatMap_toList]
  exact hItems

/-- Pacing a section is pacing the entries of its paragraphs, and the terminal. -/
theorem Section.entries_paced (tempo : Tempo) (start : Millis) (sect : Section) :
    ((sect.paced tempo start).1.entries, (sect.paced tempo start).2) =
      carry (Entry.paced tempo) start sect.entries := by
  have hParagraphs :=
    carry_flatMap (Paragraph.entries_paced tempo) start sect.paragraphs
  -- the pause of a section comes after its paragraphs
  show _ = carry (Entry.paced tempo) start
    (sect.paragraphs.flatMap Paragraph.entries ++ sect.terminal.toList)
  rw [carry_append, ← hParagraphs]
  unfold Section.paced
  cases hTerminal : sect.terminal <;> simp [Section.entries, carry]

/-- Pacing a scrap paces the list of its entries. -/
theorem Scrap.entries_paced (tempo : Tempo) (scrap : Scrap) :
    ((scrap.paced tempo).1.entries, (scrap.paced tempo).2) =
      carry (Entry.paced tempo) 0 scrap.entries :=
  carry_flatMap (Section.entries_paced tempo) 0 scrap.sections

/-- An entry that has been paced, and was not revealed since. -/
def Entry.timed (tempo : Tempo) (timestamp : Millis) (entry : Entry) : Entry :=
  { entry with delay := tempo.delay entry.tier, timestamp, visible := false, fading := false }

/-- Each entry gets the delay of its tier, and the delays up to it as its timestamp. -/
theorem Entry.getElem?_carry_paced (tempo : Tempo) (entries : List Entry) (i : Nat) :
    (carry (Entry.paced tempo) 0 entries).1[i]? =
      entries[i]?.map (Entry.timed tempo (tempo.elapsed (entries.take (i + 1)))) := by
  rw [getElem?_carry]
  cases hAt : entries[i]? with
  | none => rfl
  | some e =>
    rw [List.take_add_one, hAt, Tempo.elapsed_append, Entry.carry_paced_snd]
    simp [Entry.paced, Entry.timed, Tempo.elapsed_singleton]

/-- An entry of the paced scrap is timed with the delays up to its own. -/
theorem Scrap.getElem?_entries_paced (tempo : Tempo) (scrap : Scrap) (i : Nat) :
    (scrap.paced tempo).1.entries[i]? =
      scrap.entries[i]?.map (Entry.timed tempo (tempo.elapsed (scrap.entries.take (i + 1)))) := by
  have hEntries := congrArg Prod.fst (scrap.entries_paced tempo)
  simp only at hEntries
  rw [hEntries, Entry.getElem?_carry_paced]

/-- Pacing leaves the tiers as they are. -/
theorem Scrap.map_tier_entries_paced (tempo : Tempo) (scrap : Scrap) :
    (scrap.paced tempo).1.entries.map Entry.tier = scrap.entries.map Entry.tier := by
  refine List.ext_getElem? ?_
  intro i
  rw [List.getElem?_map, List.getElem?_map, getElem?_entries_paced, Option.map_map]
  rfl

/-! ## By places -/

/-- Pacing a paragraph gives a time to each of its entries, and nothing else. -/
theorem Paragraph.entryAt?_paced (tempo : Tempo) (start : Millis) (paragraph : Paragraph) (i : Nat) :
    ∃ timestamp, (paragraph.paced tempo start).1.entryAt? i =
      (paragraph.entryAt? i).map (Entry.timed tempo timestamp) := by
  simp only [Paragraph.entryAt?, Paragraph.paced, getElem?_carry]
  cases paragraph.items[i]? with
  | none => exact ⟨0, rfl⟩
  | some item =>
    cases item with
    | entry e => exact ⟨_, rfl⟩
    | lineBreak => exact ⟨0, rfl⟩

/-- Pacing a section sets the times of the entry in each slot, and nothing else. -/
theorem Section.entryAt?_paced (tempo : Tempo) (start : Millis) (sect : Section) (slot : Slot) :
    ∃ timestamp, (sect.paced tempo start).1.entryAt? slot =
      (sect.entryAt? slot).map (Entry.timed tempo timestamp) := by
  cases slot with
  | item i j =>
    have hParagraphs : (sect.paced tempo start).1.paragraphs =
        (carry (Paragraph.paced tempo) start sect.paragraphs).1 := by
      unfold Section.paced; cases sect.terminal <;> rfl
    simp only [Section.entryAt?_item, hParagraphs, getElem?_carry]
    cases sect.paragraphs[i]? with
    | none => exact ⟨0, rfl⟩
    | some paragraph => exact paragraph.entryAt?_paced tempo _ j
  | terminal =>
    unfold Section.paced
    cases hTerminal : sect.terminal with
    -- a section that is not closed has no entry there
    | none => exact ⟨0, by simp [Section.entryAt?, hTerminal]⟩
    | some pause => exact ⟨_, by simp only [Section.entryAt?, hTerminal]; rfl⟩

/-- Pacing a scrap times the entry at each place. -/
theorem Scrap.entryAt?_paced (tempo : Tempo) (scrap : Scrap) (place : Place) :
    ∃ timestamp, (scrap.paced tempo).1.entryAt? place =
      (scrap.entryAt? place).map (Entry.timed tempo timestamp) := by
  simp only [Scrap.entryAt?, Scrap.paced, getElem?_carry]
  cases scrap.sections[place.sect]? with
  | none => exact ⟨0, rfl⟩
  | some sect => exact sect.entryAt?_paced tempo _ place.slot

/-- The position of the section that a number stands for. -/
def Scrap.position (scrap : Scrap) (number : Nat) : Nat :=
  scrap.sections.findIdx (·.number = number)

/-- Pacing a section times the entries in it, and leaves the others as they are. -/
theorem Scrap.entryAt?_pacedSection? {tempo : Tempo} {scrap paced : Scrap} {number : Nat}
    {total : Millis} (h : scrap.pacedSection? tempo number = some (paced, total)) (place : Place) :
    if scrap.position number = place.sect then
      ∃ timestamp, paced.entryAt? place =
        (scrap.entryAt? place).map (Entry.timed tempo timestamp)
    else paced.entryAt? place = scrap.entryAt? place := by
  obtain ⟨found, -, hEq⟩ := Option.map_eq_some_iff.mp h
  simp only [Prod.mk.injEq] at hEq
  obtain ⟨rfl, -⟩ := hEq
  simp only [Scrap.entryAt?, Scrap.modifySection, modifyFirst_eq_modify, List.getElem?_modify,
    Scrap.position]
  cases scrap.sections[place.sect]? with
  | none =>
    split
    · exact ⟨0, rfl⟩
    · rfl
  | some sect =>
    by_cases hEq : scrap.sections.findIdx (·.number = number) = place.sect
    · simpa [hEq] using sect.entryAt?_paced tempo 0 place.slot
    · -- a section with another number
      simp [hEq]

end Dialogue
