import Dialogue.Millis

/-!
# The agenda

An `Agenda` is a clock with appointments. The appointments stand in the order in which they come
up: by due time, and among those due at one time in the order in which they were made. The clock
moves only when its owner moves it, and never back.
-/

namespace Dialogue

/-- Something to be done, and the time at which it is due. -/
structure Appointment (α : Type) where
  due : Millis
  event : α
deriving DecidableEq

/-- A clock and the appointments still to come, earliest first. -/
structure Agenda (α : Type) where
  now : Millis
  pending : List (Appointment α)
  sorted : pending.Pairwise fun x y => x.due ≤ y.due

namespace Agenda

variable {α : Type}

/-- Nothing to do, at time `now`. -/
def empty (now : Millis) : Agenda α := ⟨now, [], List.Pairwise.nil⟩

/-! ## Making appointments -/

/-- Puts an appointment behind every one that is due no later. -/
def insertLast (x : Appointment α) : List (Appointment α) → List (Appointment α)
  | [] => [x]
  | y :: rest => if y.due ≤ x.due then y :: insertLast x rest else x :: y :: rest

/-- What is put in is there, with all that was there before. -/
theorem mem_insertLast {x z : Appointment α} {pending : List (Appointment α)} :
    z ∈ insertLast x pending ↔ z = x ∨ z ∈ pending := by
  induction pending with
  | nil => simp [insertLast]
  | cons y rest ih =>
    unfold insertLast
    split
    · simp [ih, or_left_comm]
    · simp

/-- The agenda stays in order of the due times. -/
theorem sorted_insertLast (x : Appointment α) {pending : List (Appointment α)}
    (hSorted : pending.Pairwise fun x y => x.due ≤ y.due) :
    (insertLast x pending).Pairwise fun x y => x.due ≤ y.due := by
  induction pending with
  | nil => simp [insertLast]
  | cons y rest ih =>
    rw [List.pairwise_cons] at hSorted
    unfold insertLast
    split
    · rename_i hLe
      refine List.pairwise_cons.mpr ⟨fun z hz => ?_, ih hSorted.2⟩
      -- what stands behind `y` is due no earlier than `y`, and so is `x`
      rcases mem_insertLast.mp hz with rfl | hz
      · exact hLe
      · exact hSorted.1 z hz
    · rename_i hLt
      -- `x` goes in front of `y`, and all that stands behind `y` is due later still
      have hLe : x.due ≤ y.due := by
        rw [Millis.le_def] at hLt ⊢; omega
      refine List.pairwise_cons.mpr ⟨fun z hz => ?_, List.pairwise_cons.mpr hSorted⟩
      rcases List.mem_cons.mp hz with rfl | hz
      · exact hLe
      · have := hSorted.1 z hz
        rw [Millis.le_def] at hLe this ⊢; omega

/-- Makes an appointment. One that is already past comes up next after those due before it. -/
def schedule (agenda : Agenda α) (due : Millis) (event : α) : Agenda α where
  now := agenda.now
  pending := insertLast ⟨due, event⟩ agenda.pending
  sorted := sorted_insertLast _ agenda.sorted

/-! ## The clock -/

/-- When the next appointment is due. -/
def nextDue (agenda : Agenda α) : Option Millis := agenda.pending.head?.map Appointment.due

/-- Moves the clock forward to `time`, or leaves it where it is if that has passed. -/
def moveTo (agenda : Agenda α) (time : Millis) : Agenda α :=
  { agenda with now := max agenda.now time }

/-- Takes the next appointment if it is due by `limit`, and moves the clock forward to it. -/
def pop? (agenda : Agenda α) (limit : Millis) : Option (Appointment α × Agenda α) :=
  match agenda with
  | ⟨_, [], _⟩ => none
  | ⟨now, next :: rest, hSorted⟩ =>
    if next.due ≤ limit then
      some (next, ⟨max now next.due, rest, (List.pairwise_cons.mp hSorted).2⟩)
    else none

/-- Takes every appointment due by `limit`, in order. -/
def drain (agenda : Agenda α) (limit : Millis) : List (Appointment α) × Agenda α :=
  match agenda with
  | ⟨now, pending, hSorted⟩ => go now pending hSorted
where
  /-- Takes from the front of `pending`, at time `now`. -/
  go (now : Millis) : (pending : List (Appointment α)) →
      (pending.Pairwise fun x y => x.due ≤ y.due) → List (Appointment α) × Agenda α
    | [], _ => ([], empty now)
    | next :: rest, hSorted =>
      if next.due ≤ limit then
        let (taken, left) := go (max now next.due) rest (List.pairwise_cons.mp hSorted).2
        (next :: taken, left)
      else ([], ⟨now, next :: rest, hSorted⟩)

/-! ## Cancelling -/

/-- Strikes out the appointments that `drops` picks. -/
def cancel (agenda : Agenda α) (drops : α → Bool) : Agenda α where
  now := agenda.now
  pending := agenda.pending.filter fun x => !drops x.event
  sorted := agenda.sorted.filter _

/-- What `cancel` strikes out, in the order in which it would have come up. -/
def cancelled (agenda : Agenda α) (drops : α → Bool) : List α :=
  (agenda.pending.map Appointment.event).filter drops

/-! ## Views -/

def size (agenda : Agenda α) : Nat := agenda.pending.length

def isEmpty (agenda : Agenda α) : Bool := agenda.pending.isEmpty

@[ext] theorem ext {a b : Agenda α} (hNow : a.now = b.now) (hPending : a.pending = b.pending) :
    a = b := by
  cases a; cases b; simp_all

@[simp] theorem pending_schedule (agenda : Agenda α) (due : Millis) (event : α) :
    (agenda.schedule due event).pending = insertLast ⟨due, event⟩ agenda.pending := rfl

@[simp] theorem now_schedule (agenda : Agenda α) (due : Millis) (event : α) :
    (agenda.schedule due event).now = agenda.now := rfl

/-- What `pop?` takes stood first, was due, and is gone. -/
theorem pop?_eq_some {agenda rest : Agenda α} {limit : Millis} {next : Appointment α}
    (h : agenda.pop? limit = some (next, rest)) :
    agenda.pending = next :: rest.pending ∧ next.due ≤ limit ∧
      rest.now = max agenda.now next.due := by
  rcases agenda with ⟨now, _ | ⟨first, others⟩, hSorted⟩
  · simp [pop?] at h
  · simp only [pop?] at h
    split at h
    · rename_i hDue
      simp only [Option.some.injEq, Prod.mk.injEq] at h
      obtain ⟨rfl, rfl⟩ := h
      exact ⟨rfl, hDue, rfl⟩
    · simp at h

/-- `pop?` takes nothing exactly when nothing is due. -/
theorem pop?_eq_none {agenda : Agenda α} {limit : Millis} :
    agenda.pop? limit = none ↔ ∀ due, agenda.nextDue = some due → limit < due := by
  rcases agenda with ⟨now, _ | ⟨first, others⟩, hSorted⟩
  · simp [pop?, nextDue]
  · simp only [pop?, nextDue, List.head?_cons, Option.map_some, Option.some.injEq]
    split
    · rename_i hDue
      -- what comes first is due by the limit, so that nothing keeps it back
      constructor
      · simp
      · intro h
        have := h _ rfl
        rw [Millis.le_def] at hDue
        rw [Millis.lt_def] at this
        omega
    · rename_i hDue
      simp only [true_iff]
      rintro due rfl
      rw [Millis.lt_def]
      rw [Millis.le_def] at hDue
      omega

end Agenda

end Dialogue
