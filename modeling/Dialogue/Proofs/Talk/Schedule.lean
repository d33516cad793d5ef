import Dialogue.Proofs.Talk.Effects

/-!
# The schedule of a text

When a talk starts, all its entries go on the agenda: they come up in the order of their times, and
those due at one time in document order.

Main results:

* `Talk.mem_reveals` — the reveals, one for each entry.
* `Talk.inOrder_scheduleAll` — how they stand on the agenda.
* `Talk.mem_order`, `Talk.pairwise_order` — which entries come up, and in which order.
-/

namespace Dialogue

/-- The number of the entry that a cue reveals. -/
def Cue.revealed? : Cue → Option Nat
  | reveal entry _ => some entry
  | fadeEnd _ | closeEnd _ => none

/-- Whether a cue reveals an earlier entry than another one. -/
def Cue.Earlier (cue other : Cue) : Prop :=
  ∀ i, cue.revealed? = some i → ∀ j, other.revealed? = some j → i < j

namespace Talk

/-! ## The order in which entries come up -/

/-- When the entry in position `i` is due if playback starts now. -/
def dueAt (talk : Talk) (i : Nat) : Millis :=
  talk.startsAt + (talk.scrap.entries[i]?).elim 0 Entry.timestamp

/-- The entries still to be revealed, in the order in which they come up. -/
def revealsLeft (talk : Talk) : List Nat :=
  talk.agenda.pending.filterMap fun x => x.event.revealed?

/-- The order in which the entries come up if playback starts now. -/
def order (talk : Talk) : List Nat := (talk.plan talk.startsAt).revealsLeft

/-- Each entry has its reveal, and the reveals have their entries. -/
theorem mem_reveals {start due : Millis} {first : Nat} {entries : List Entry} {cue : Cue} :
    (due, cue) ∈ reveals start first entries ↔
      ∃ i e, entries[i]? = some e ∧ due = start + e.timestamp ∧
        cue = .reveal (first + i) (decide (i + 1 = entries.length)) := by
  -- an entry at the head has the number `first`; the others are counted from the next one
  induction entries generalizing first with
  | nil => simp [reveals]
  | cons e rest ih =>
    rw [reveals, List.mem_cons, ih]
    constructor
    · rintro (hHead | ⟨i, e', hAt, rfl, rfl⟩)
      · simp only [Prod.mk.injEq] at hHead
        obtain ⟨rfl, rfl⟩ := hHead
        exact ⟨0, e, rfl, rfl, by cases rest <;> simp⟩
      · exact ⟨i + 1, e', hAt, rfl, by simp; omega⟩
    · rintro ⟨i, e', hAt, rfl, rfl⟩
      cases i with
      | zero =>
        cases hAt
        exact .inl (by cases rest <;> simp)
      | succ i => exact .inr ⟨i, e', hAt, rfl, by simp; omega⟩

/-- Reveals put on an agenda stand by due time, and among those due at one time in document order. -/
theorem inOrder_scheduleAll {agenda : Agenda Cue} (start : Millis) {first : Nat}
    (entries : List Entry) (hOrder : agenda.pending.Pairwise (Agenda.InOrder Cue.Earlier))
    (hFirst : ∀ x ∈ agenda.pending, ∀ i, x.event.revealed? = some i → i < first) :
    (scheduleAll agenda (reveals start first entries)).pending.Pairwise
      (Agenda.InOrder Cue.Earlier) := by
  induction entries generalizing agenda first with
  | nil => exact hOrder
  | cons e rest ih =>
    -- the reveal goes behind what is due by then, and the next entry has a larger number
    refine @ih (agenda.schedule _ _) (first + 1) ?_ ?_
    · refine Agenda.inOrder_insertLast hOrder ?_
      intro x hMem i hi j hj
      cases hj
      exact hFirst x hMem i hi
    · intro x hMem i hi
      rcases Agenda.mem_insertLast.mp hMem with rfl | hMem
      · cases hi
        exact Nat.lt_succ_self _
      · exact Nat.lt_succ_of_lt (hFirst x hMem i hi)

/-- Whatever else is on the agenda, the reveal of every entry is put there. -/
theorem exists_mem_pending_plan (talk : Talk) (start : Millis) {i : Nat}
    (hi : i < talk.scrap.entries.length) :
    ∃ x ∈ (talk.plan start).agenda.pending, ∃ last, x.event = .reveal i last := by
  have hPerm := perm_scheduleAll talk.agenda (reveals start 0 talk.scrap.entries)
  have hCue : (start + talk.scrap.entries[i].timestamp,
      Cue.reveal i (decide (i + 1 = talk.scrap.entries.length))) ∈
        reveals start 0 talk.scrap.entries :=
    mem_reveals.mpr ⟨i, _, List.getElem?_eq_getElem hi, rfl, by rw [Nat.zero_add]⟩
  refine ⟨⟨start + talk.scrap.entries[i].timestamp,
    .reveal i (decide (i + 1 = talk.scrap.entries.length))⟩, ?_, _, rfl⟩
  exact hPerm.mem_iff.mpr (List.mem_append_left _ (List.mem_map.mpr ⟨_, hCue, rfl⟩))

section Order

variable {talk : Talk} (hIdle : talk.agenda.pending = [])

include hIdle

/-- What starting puts on an empty agenda. -/
theorem mem_pending_plan_iff {x : Appointment Cue} :
    x ∈ (talk.plan talk.startsAt).agenda.pending ↔
      ∃ i, i < talk.scrap.entries.length ∧ x.due = talk.dueAt i ∧
        x.event = .reveal i (decide (i + 1 = talk.scrap.entries.length)) := by
  have hPerm := perm_scheduleAll talk.agenda (reveals talk.startsAt 0 talk.scrap.entries)
  rw [hIdle, List.append_nil] at hPerm
  show x ∈ (scheduleAll talk.agenda (reveals talk.startsAt 0 talk.scrap.entries)).pending ↔ _
  rw [hPerm.mem_iff, List.mem_map]
  constructor
  · rintro ⟨⟨due, cue⟩, hCue, rfl⟩
    -- nothing was on the agenda before, so that each appointment is a reveal of the plan
    obtain ⟨i, e, hAt, rfl, rfl⟩ := mem_reveals.mp hCue
    refine ⟨i, (List.getElem?_eq_some_iff.mp hAt).1, ?_, by simp⟩
    rw [dueAt, hAt]
    rfl
  · rintro ⟨i, hLt, hDue, hEvent⟩
    refine ⟨(x.due, x.event), mem_reveals.mpr ⟨i, talk.scrap.entries[i], by simp [hLt], ?_, ?_⟩, rfl⟩
    · rw [hDue, dueAt, List.getElem?_eq_getElem hLt]
      rfl
    · rw [hEvent, Nat.zero_add]

/-- Every entry comes up. -/
theorem mem_order {i : Nat} : i ∈ talk.order ↔ i < talk.scrap.entries.length := by
  rw [order, revealsLeft, List.mem_filterMap]
  constructor
  · rintro ⟨x, hMem, hReveal⟩
    obtain ⟨j, hLt, -, hEvent⟩ := (mem_pending_plan_iff hIdle).mp hMem
    rw [hEvent] at hReveal
    cases hReveal
    exact hLt
  · intro hLt
    exact ⟨⟨talk.dueAt i, _⟩, (mem_pending_plan_iff hIdle).mpr ⟨i, hLt, rfl, rfl⟩, rfl⟩

/-- Entries come up by their times, and those due at one time in document order. -/
theorem pairwise_order :
    talk.order.Pairwise fun i j =>
      talk.dueAt i < talk.dueAt j ∨ talk.dueAt i = talk.dueAt j ∧ i < j := by
  -- nothing stands on the agenda before, so all that stands are the reveals
  have hOrder : (talk.plan talk.startsAt).agenda.pending.Pairwise
      (Agenda.InOrder Cue.Earlier) :=
    inOrder_scheduleAll talk.startsAt talk.scrap.entries (by rw [hIdle]; exact .nil)
      (by rw [hIdle]; simp)
  rw [order, revealsLeft, List.pairwise_filterMap]
  -- of two reveals that are due at one time, the earlier entry comes first
  refine hOrder.imp_of_mem fun {x y} hx hy hInOrder i hi j hj => ?_
  obtain ⟨k, -, hxDue, hxEvent⟩ := (mem_pending_plan_iff hIdle).mp hx
  obtain ⟨l, -, hyDue, hyEvent⟩ := (mem_pending_plan_iff hIdle).mp hy
  have hik : k = i := by simpa [hxEvent, Cue.revealed?] using hi
  have hjl : l = j := by simpa [hyEvent, Cue.revealed?] using hj
  subst hik hjl
  rw [← hxDue, ← hyDue]
  rcases hInOrder with hLt | ⟨hEq, hEarlier⟩
  · exact .inl hLt
  · exact .inr ⟨hEq, hEarlier _ hi _ hj⟩

end Order

end Talk

end Dialogue
