import Dialogue.Agenda
import Mathlib.Data.List.Basic

/-!
# The order of appointments

What making an appointment does to the list of those that stand: the new one goes behind all that are
due no later. Appointments made one after the other on an empty agenda therefore stand by due time
first and by the order in which they were made second.

Main results:

* `Agenda.perm_insertLast`, `Agenda.filter_insertLast` — nothing is lost, and each kind of appointment
  keeps its own order.
* `Agenda.inOrder_insertLast` — the list stays ordered by due time, then by any relation that the new
  appointment has to the earlier ones.
* `Agenda.insertLast_eq_append` — an appointment due no earlier than the others goes to the end.
* `Agenda.pop?_moveTo` — a stop of the clock before the next appointment makes no difference to it.
* `Agenda.pop?_map`, `Agenda.schedule_map` — an agenda does not look at what is on it.
-/

namespace Dialogue.Agenda

variable {α : Type}

/-- Where it is put in does not matter to what is on the agenda. -/
theorem perm_insertLast (x : Appointment α) (pending : List (Appointment α)) :
    (insertLast x pending).Perm (x :: pending) := by
  induction pending with
  | nil => exact .refl _
  | cons y rest ih =>
    unfold insertLast
    split
    · exact (ih.cons y).trans (.swap x y rest)
    · exact .refl _

/-- What is due no earlier than all others goes to the end. -/
theorem insertLast_eq_append {x : Appointment α} {pending : List (Appointment α)}
    (hLast : ∀ y ∈ pending, y.due ≤ x.due) : insertLast x pending = pending ++ [x] := by
  induction pending with
  | nil => rfl
  | cons y rest ih =>
    rw [insertLast, if_pos (hLast y (List.mem_cons_self ..)),
      ih fun z hz => hLast z (List.mem_cons_of_mem _ hz), List.cons_append]

/-- An appointment goes to the front of what is due later. -/
theorem insertLast_eq_cons {x : Appointment α} {pending : List (Appointment α)}
    (hLater : ∀ y ∈ pending, x.due < y.due) : insertLast x pending = x :: pending := by
  cases pending with
  | nil => rfl
  | cons y rest =>
    have hLt := hLater y (List.mem_cons_self ..)
    -- due before the first of them, so it goes no further
    rw [insertLast, if_neg]
    rw [Millis.le_def]
    rw [Millis.lt_def] at hLt
    omega

/-- A new appointment is seen among those that `p` picks exactly if `p` picks it. -/
theorem filter_insertLast (p : Appointment α → Bool) (x : Appointment α)
    {pending : List (Appointment α)}
    (hSorted : pending.Pairwise fun x y => x.due ≤ y.due) :
    (insertLast x pending).filter p =
      if p x then insertLast x (pending.filter p) else pending.filter p := by
  induction pending with
  | nil => simp [insertLast, List.filter_cons]
  | cons y rest ih =>
    rw [List.pairwise_cons] at hSorted
    by_cases hDue : y.due ≤ x.due
    · -- the new one goes behind `y`
      rw [insertLast, if_pos hDue, List.filter_cons, ih hSorted.2, List.filter_cons]
      by_cases hy : p y <;> by_cases hx : p x <;> simp [hx, hy, insertLast, hDue]
    · -- all that follow are due later, so the new one is the first of any of them
      rw [insertLast, if_neg hDue, List.filter_cons]
      by_cases hx : p x
      · rw [if_pos hx, if_pos hx, insertLast_eq_cons]
        intro z hz
        rw [Millis.lt_def]
        rw [Millis.le_def] at hDue
        rcases List.mem_cons.mp (List.mem_of_mem_filter hz) with rfl | hz
        · omega
        · have := hSorted.1 z hz
          rw [Millis.le_def] at this
          omega
      · simp [hx]

/-! ## Due time first, then another relation -/

/-- `x` is due before `y`, or at the same time and `R` puts it first. -/
def InOrder (R : α → α → Prop) (x y : Appointment α) : Prop :=
  x.due < y.due ∨ x.due = y.due ∧ R x.event y.event

/-- What is put in after all that is due at the same time keeps the order of those. -/
theorem inOrder_insertLast {R : α → α → Prop} {x : Appointment α}
    {pending : List (Appointment α)} (hOrder : pending.Pairwise (InOrder R))
    (hLast : ∀ y ∈ pending, R y.event x.event) :
    (insertLast x pending).Pairwise (InOrder R) := by
  induction pending with
  | nil => simp [insertLast]
  | cons y rest ih =>
    rw [List.pairwise_cons] at hOrder
    have hRest := ih hOrder.2 fun z hz => hLast z (List.mem_cons_of_mem _ hz)
    unfold insertLast
    split
    · rename_i hDue
      refine List.pairwise_cons.mpr ⟨fun z hz => ?_, hRest⟩
      rcases mem_insertLast.mp hz with rfl | hz
      · -- the new one comes after `y`: later, or at the same time
        by_cases hEq : y.due = z.due
        · exact .inr ⟨hEq, hLast y (List.mem_cons_self ..)⟩
        · left
          rw [Millis.lt_def]
          rw [Millis.le_def] at hDue
          have hNe : y.due.toNat ≠ z.due.toNat := fun h => hEq (Millis.ext h)
          omega
      · exact hOrder.1 z hz
    · rename_i hDue
      have hLt : x.due < y.due := by
        rw [Millis.le_def] at hDue
        rw [Millis.lt_def]
        omega
      -- the new one stands in front of `y`, and so of all that follow
      refine List.pairwise_cons.mpr ⟨fun z hz => ?_, List.pairwise_cons.mpr hOrder⟩
      rcases List.mem_cons.mp hz with rfl | hz
      · exact .inl hLt
      · left
        rw [Millis.lt_def] at hLt ⊢
        rcases hOrder.1 z hz with hLater | ⟨hSame, -⟩
        · rw [Millis.lt_def] at hLater
          omega
        · rw [← hSame]
          exact hLt

/-! ## Taking the next one -/

/-- The next appointment is due no later than the others. -/
theorem due_le_of_pending_eq {agenda : Agenda α} {next : Appointment α}
    {rest : List (Appointment α)} (hPending : agenda.pending = next :: rest) :
    ∀ x ∈ rest, next.due ≤ x.due := by
  have hSorted := agenda.sorted
  rw [hPending, List.pairwise_cons] at hSorted
  exact hSorted.1

/-- When nothing is taken, all that stands is due later. -/
theorem lt_due_of_pop?_eq_none {agenda : Agenda α} {limit : Millis}
    (hPop : agenda.pop? limit = none) : ∀ x ∈ agenda.pending, limit < x.due := by
  intro x hMem
  cases hPending : agenda.pending with
  | nil =>
    rw [hPending] at hMem
    cases hMem
  | cons next rest =>
    -- the first one is due too late, and none of the others is due before it
    have hNext : limit < next.due := by
      refine pop?_eq_none.mp hPop next.due ?_
      rw [nextDue, hPending]
      rfl
    rw [hPending] at hMem
    rcases List.mem_cons.mp hMem with rfl | hRest
    · exact hNext
    · exact Nat.lt_of_lt_of_le hNext (due_le_of_pending_eq hPending x hRest)

/-- Nothing is due next exactly if nothing is pending. -/
theorem nextDue_eq_none {agenda : Agenda α} : agenda.nextDue = none ↔ agenda.pending = [] := by
  unfold nextDue
  cases agenda.pending <;> simp

/-- Nothing is due before the next appointment. -/
theorem nextDue_eq_some {agenda : Agenda α} {due : Millis} (hNext : agenda.nextDue = some due) :
    (∃ x ∈ agenda.pending, x.due = due) ∧ ∀ x ∈ agenda.pending, due ≤ x.due := by
  unfold nextDue at hNext
  cases hPending : agenda.pending with
  | nil =>
    rw [hPending] at hNext
    cases hNext
  | cons next rest =>
    rw [hPending] at hNext
    cases hNext
    refine ⟨⟨next, List.mem_cons_self .., rfl⟩, fun x hMem => ?_⟩
    rcases List.mem_cons.mp hMem with rfl | hRest
    · exact Millis.le_refl _
    · exact due_le_of_pending_eq hPending x hRest

/-- What is due by a time is due by any later one. -/
theorem pop?_mono {agenda rest : Agenda α} {limit later : Millis} {next : Appointment α}
    (hLe : limit ≤ later) (hPop : agenda.pop? limit = some (next, rest)) :
    agenda.pop? later = some (next, rest) := by
  obtain ⟨now, pending, hSorted⟩ := agenda
  cases pending with
  | nil => cases hPop
  | cons first others =>
    simp only [pop?] at hPop ⊢
    split at hPop
    · -- the first one was due by the earlier limit already
      rename_i hDue
      rw [if_pos (Millis.le_trans hDue hLe)]
      exact hPop
    · cases hPop

/-! ## Moving the clock -/

/-- Of two stops of the clock the later one counts. -/
theorem moveTo_moveTo (agenda : Agenda α) (time later : Millis) :
    (agenda.moveTo time).moveTo later = agenda.moveTo (max time later) := by
  refine ext ?_ rfl
  apply Millis.ext
  simp only [moveTo, Millis.toNat_max]
  omega

/-- Moving the clock makes nothing due, and takes nothing away. -/
theorem pop?_moveTo_eq_none {agenda : Agenda α} {time limit : Millis} :
    (agenda.moveTo time).pop? limit = none ↔ agenda.pop? limit = none := by
  rw [pop?_eq_none, pop?_eq_none]
  rfl

/-- Whether the clock was moved before it reached the next appointment makes no difference. -/
theorem pop?_moveTo {agenda rest : Agenda α} {time limit : Millis} {next : Appointment α}
    (hBefore : time ≤ next.due) (hPop : agenda.pop? limit = some (next, rest)) :
    (agenda.moveTo time).pop? limit = some (next, rest) := by
  obtain ⟨now, pending, hSorted⟩ := agenda
  cases pending with
  | nil => cases hPop
  | cons first others =>
    simp only [pop?, moveTo] at hPop ⊢
    split at hPop
    · rename_i hDue
      simp only [Option.some.injEq, Prod.mk.injEq] at hPop
      obtain ⟨rfl, rfl⟩ := hPop
      rw [if_pos hDue, Option.some.injEq, Prod.mk.injEq]
      refine ⟨rfl, ext ?_ rfl⟩
      -- the due time is later than the stop
      have hNat : time.toNat ≤ first.due.toNat := hBefore
      apply Millis.ext
      simp only [Millis.toNat_max]
      omega
    · cases hPop

/-! ## Other things to do -/

section Map

variable {β : Type} (g : α → β)

/-- The same agenda, with other things on it. -/
def map (agenda : Agenda α) : Agenda β where
  now := agenda.now
  pending := agenda.pending.map fun x => ⟨x.due, g x.event⟩
  sorted := agenda.sorted.map _ fun _ _ hLe => hLe

/-- Inserting does not look at the events. -/
theorem insertLast_map (x : Appointment α) (pending : List (Appointment α)) :
    insertLast ⟨x.due, g x.event⟩ (pending.map fun y => ⟨y.due, g y.event⟩) =
      (insertLast x pending).map fun y => ⟨y.due, g y.event⟩ := by
  induction pending with
  | nil => rfl
  | cons y rest ih =>
    rw [List.map_cons, insertLast, insertLast]
    split
    · rw [List.map_cons, ih]
    · rfl

theorem schedule_map (agenda : Agenda α) (due : Millis) (event : α) :
    (agenda.map g).schedule due (g event) = (agenda.schedule due event).map g :=
  ext rfl (insertLast_map g ⟨due, event⟩ agenda.pending)

theorem pop?_map (agenda : Agenda α) (limit : Millis) :
    (agenda.map g).pop? limit =
      (agenda.pop? limit).map fun (next, rest) => (⟨next.due, g next.event⟩, rest.map g) := by
  rcases agenda with ⟨now, _ | ⟨next, rest⟩, hSorted⟩
  · rfl
  · simp only [map, pop?, List.map_cons]
    split <;> rfl

theorem nextDue_map (agenda : Agenda α) : (agenda.map g).nextDue = agenda.nextDue := by
  rw [nextDue, nextDue, map, List.head?_map, Option.map_map]
  rfl

/-- Striking out commutes with renaming the events, if the ones to be dropped are the same. -/
theorem cancel_map {drops : α → Bool} {drops' : β → Bool} (hDrops : ∀ event, drops' (g event) = drops event)
    (agenda : Agenda α) : (agenda.map g).cancel drops' = (agenda.cancel drops).map g := by
  refine ext rfl ?_
  show (agenda.pending.map _).filter _ = (agenda.pending.filter _).map _
  rw [List.filter_map]
  simp only [Function.comp_def, hDrops]

theorem cancelled_map {drops : α → Bool} {drops' : β → Bool}
    (hDrops : ∀ event, drops' (g event) = drops event) (agenda : Agenda α) :
    (agenda.map g).cancelled drops' = (agenda.cancelled drops).map g := by
  show ((agenda.pending.map _).map _).filter _ = ((agenda.pending.map _).filter _).map _
  rw [List.map_map, List.filter_map, List.filter_map, List.map_map]
  simp only [Function.comp_def, hDrops]

end Map

end Dialogue.Agenda
