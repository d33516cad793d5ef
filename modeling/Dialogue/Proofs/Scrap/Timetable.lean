import Dialogue.Proofs.Scrap.Timing
import Mathlib.Algebra.BigOperators.Group.List.Basic

/-!
# Timetables

A `Timetable` says in plain numbers what pacing makes of a list of entries: the delay of a tier is so many
tenths of the base unit, rounded down and capped, and the time of an entry is the capped sum of all delays up
to it. Entries that have their times get the same ones when they are paced once more.

Main results:

* `Tempo.toNat_delay` — the delays in plain numbers.
* `timetable_paced` — pacing entries from zero gives them a timetable.
* `Scrap.paced_paced`, `Scrap.pacedSection?_paced` — pacing twice is pacing once.
-/

namespace Dialogue

/-- How many tenths of the base unit a tier waits. The wait of the talk tier is no part of the unit. -/
def Tier.tenths? : Tier → Option Nat
  | .a => some 10
  | .c => some 15
  | .b => some 30
  | .d => some 35
  | .e => some 45
  | .paragraphEnd | .sectionEnd => some 50
  | .talkEnd => none

/-- The milliseconds of a tier: tenths of the base unit, rounded down and at most the limit. -/
def Tempo.milliseconds (tempo : Tempo) : Option Tier → Nat
  | none => 0
  | some tier =>
    match tier.tenths? with
    | some tenths => min Millis.limit (tempo.normal.toNat * tenths / 10)
    | none => tempo.talk.toNat

/-- A delay is as many milliseconds as the tempo says. -/
theorem Tempo.toNat_delay (tempo : Tempo) (tier : Option Tier) :
    (tempo.delay tier).toNat = tempo.milliseconds tier := by
  cases tier with
  | none => rfl
  | some tier =>
    rw [delay_some]
    cases tier with
    | talkEnd => rfl
    | a | b | c | d | e | paragraphEnd | sectionEnd => exact Nat.min_comm ..

/-- `paced` are the entries `entries` with their times: each has the delay of its tier, and as its timestamp
the sum of the delays up to it, both at most the limit; so the times never go back, and the last of them is
the total. All are hidden, and none is fading in. -/
structure Timetable (tempo : Tempo) (entries paced : List Entry) (total : Millis) : Prop where
  content : paced.map Entry.content = entries.map Entry.content
  tier : paced.map Entry.tier = entries.map Entry.tier
  delay : ∀ e ∈ paced, e.delay.toNat = tempo.milliseconds e.tier
  timestamp : ∀ {i e}, paced[i]? = some e →
    e.timestamp.toNat =
      min Millis.limit (Dialogue.total (fun e => e.delay.toNat) (paced.take (i + 1)))
  rising : paced.Pairwise fun e later => e.timestamp ≤ later.timestamp
  total : total = (paced.getLast?.map Entry.timestamp).getD 0
  hidden : ∀ e ∈ paced, e.visible = false ∧ e.fading = false

/-! ## Pacing from zero -/

section Paced

variable (tempo : Tempo) (entries : List Entry)

/-- Pacing does not change what a view shows that knows no times. -/
theorem map_paced {α : Type} {view : Entry → α}
    (hView : ∀ timestamp e, view (Entry.timed tempo timestamp e) = view e) :
    (carry (Entry.paced tempo) 0 entries).1.map view = entries.map view := by
  apply List.ext_getElem?
  intro i
  rw [List.getElem?_map, List.getElem?_map, Entry.getElem?_carry_paced, Option.map_map]
  cases entries[i]? with
  | none => rfl
  | some e => exact congrArg some (hView _ e)

/-- Every paced entry is one of the entries, with its times. -/
theorem eq_timed_of_mem_paced {e : Entry} (hMem : e ∈ (carry (Entry.paced tempo) 0 entries).1) :
    ∃ timestamp unpaced, e = Entry.timed tempo timestamp unpaced := by
  obtain ⟨i, hAt⟩ := List.mem_iff_getElem?.mp hMem
  rw [Entry.getElem?_carry_paced] at hAt
  obtain ⟨unpaced, -, rfl⟩ := Option.map_eq_some_iff.mp hAt
  exact ⟨_, unpaced, rfl⟩

/-- The capped sum of delays is the time that passes. -/
theorem toNat_elapsed_take (n : Nat) :
    (tempo.elapsed (entries.take n)).toNat =
      min Millis.limit
        (total (fun e => e.delay.toNat) ((carry (Entry.paced tempo) 0 entries).1.take n)) := by
  have hDelays : ((carry (Entry.paced tempo) 0 entries).1.map fun e => e.delay.toNat) =
      entries.map fun e => (tempo.delay e.tier).toNat := by
    apply List.ext_getElem?
    intro i
    rw [List.getElem?_map, List.getElem?_map, Entry.getElem?_carry_paced, Option.map_map]
    rfl
  have hTaken := congrArg (fun delays => total id (delays.take n)) hDelays
  simp only [← List.map_take, total_map, id_eq] at hTaken
  rw [Tempo.elapsed, Millis.toNat_ofNat, hTaken, Nat.min_comm]

/-- Pacing a run of entries makes its timetable. -/
theorem timetable_paced :
    Timetable tempo entries (carry (Entry.paced tempo) 0 entries).1
      (carry (Entry.paced tempo) 0 entries).2 where
  content := map_paced tempo entries fun _ _ => rfl
  tier := map_paced tempo entries fun _ _ => rfl
  delay e hMem := by
    obtain ⟨timestamp, unpaced, rfl⟩ := eq_timed_of_mem_paced tempo entries hMem
    exact tempo.toNat_delay unpaced.tier
  timestamp {i e} hAt := by
    rw [← toNat_elapsed_take]
    rw [Entry.getElem?_carry_paced] at hAt
    obtain ⟨unpaced, -, rfl⟩ := Option.map_eq_some_iff.mp hAt
    rfl
  rising := by
    rw [List.pairwise_iff_getElem]
    intro i j hi hj hLt
    -- both times are sums, and the later one is over more delays
    have hEarly := Entry.getElem?_carry_paced tempo entries i
    have hLate := Entry.getElem?_carry_paced tempo entries j
    rw [List.getElem?_eq_getElem hi] at hEarly
    rw [List.getElem?_eq_getElem hj] at hLate
    obtain ⟨e, -, hEarly⟩ := Option.map_eq_some_iff.mp hEarly.symm
    obtain ⟨e', -, hLate⟩ := Option.map_eq_some_iff.mp hLate.symm
    rw [← hEarly, ← hLate]
    exact tempo.elapsed_take_mono entries (Nat.succ_le_succ (Nat.le_of_lt hLt))
  total := by
    rw [Entry.carry_paced_snd, Millis.zero_add, List.getLast?_eq_getElem?,
      Entry.getElem?_carry_paced]
    have hTier : (carry (Entry.paced tempo) 0 entries).1.map Entry.tier = entries.map Entry.tier :=
      map_paced tempo entries fun _ _ => rfl
    have hLength : (carry (Entry.paced tempo) 0 entries).1.length = entries.length := by
      simpa using congrArg List.length hTier
    rw [hLength]
    cases entries with
    | nil => rfl
    | cons e rest =>
      -- the last entry is over when all delays are
      have hLast : (e :: rest).length - 1 < (e :: rest).length := by simp
      rw [List.getElem?_eq_getElem hLast, Option.map_some, Option.map_some, Option.getD_some]
      show _ = tempo.elapsed _
      rw [List.take_of_length_le (by simp)]
  hidden e hMem := by
    obtain ⟨timestamp, unpaced, rfl⟩ := eq_timed_of_mem_paced tempo entries hMem
    exact ⟨rfl, rfl⟩

end Paced

/-! ## Pacing twice -/

/-- A walk through what a walk has left changes nothing more, if no step does. -/
theorem carry_carry {α σ : Type} {step : σ → α → α × σ}
    (hStep : ∀ s a, step s (step s a).1 = step s a) (s : σ) (l : List α) :
    carry step s (carry step s l).1 = carry step s l := by
  induction l generalizing s with
  | nil => rfl
  | cons a rest ih => simp only [carry, hStep, ih]

theorem Item.paced_paced (tempo : Tempo) (elapsed : Millis) (item : Item) :
    (item.paced tempo elapsed).1.paced tempo elapsed = item.paced tempo elapsed := by
  cases item <;> rfl

theorem Paragraph.paced_paced (tempo : Tempo) (elapsed : Millis) (paragraph : Paragraph) :
    (paragraph.paced tempo elapsed).1.paced tempo elapsed = paragraph.paced tempo elapsed := by
  simp only [Paragraph.paced, carry_carry (Item.paced_paced tempo)]

theorem Section.paced_paced (tempo : Tempo) (elapsed : Millis) (sect : Section) :
    (sect.paced tempo elapsed).1.paced tempo elapsed = sect.paced tempo elapsed := by
  have hParagraphs := carry_carry (Paragraph.paced_paced tempo) elapsed sect.paragraphs
  unfold Section.paced
  cases hTerminal : sect.terminal with
  | none => simp only [hParagraphs]
  | some pause =>
    simp only [hParagraphs]
    rfl

/-- Pacing leaves the number of a section as it is. -/
theorem Section.number_paced (tempo : Tempo) (elapsed : Millis) (sect : Section) :
    (sect.paced tempo elapsed).1.number = sect.number := by
  unfold Section.paced
  cases sect.terminal <;> rfl

/-- Pacing the whole scrap twice is as good as pacing it once. -/
theorem Scrap.paced_paced (tempo : Tempo) (scrap : Scrap) :
    (scrap.paced tempo).1.paced tempo = scrap.paced tempo := by
  simp only [Scrap.paced, carry_carry (Section.paced_paced tempo)]

/-- The first section with a number is the one that changes. -/
theorem Scrap.section?_modifySection {f : Section → Section}
    (hNumber : ∀ sect, (f sect).number = sect.number) (scrap : Scrap) (number : Nat) :
    (scrap.modifySection number f).section? number = (scrap.section? number).map f := by
  have hFirst : ∀ sections : List Section,
      (modifyFirst number f sections).find? (·.number = number) =
        (sections.find? (·.number = number)).map f := by
    intro sections
    induction sections with
    | nil => rfl
    | cons sect rest ih =>
      by_cases hSame : sect.number = number
      · simp [modifyFirst, hSame, hNumber]
      · simp [modifyFirst, hSame, ih]
  exact hFirst scrap.sections

/-- Pacing the section that was paced gives the same scrap and the same total. -/
theorem Scrap.pacedSection?_paced {tempo : Tempo} {scrap paced : Scrap} {number : Nat}
    {total : Millis} (hPaced : scrap.pacedSection? tempo number = some (paced, total)) :
    paced.pacedSection? tempo number = some (paced, total) := by
  obtain ⟨sect, hFound, hEq⟩ := Option.map_eq_some_iff.mp hPaced
  simp only [Prod.mk.injEq] at hEq
  obtain ⟨rfl, rfl⟩ := hEq
  have hNumber := fun sect : Section => sect.number_paced tempo 0
  rw [Scrap.pacedSection?, section?_modifySection hNumber, hFound,
    modifySection_modifySection hNumber]
  simp only [Option.map_some, Section.paced_paced]

end Dialogue
