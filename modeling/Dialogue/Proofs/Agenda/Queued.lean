import Dialogue.Proofs.Agenda.Docket

/-!
# Agendas on a priority queue

An agenda need not be kept in order: it can leave that to a priority queue. Such a queue gives back what is
greatest, and so the tickets go into it in the reverse of their order. The queue knows nothing of the
order in which it was filled; it is the numbers of the tickets that keep appointments due at one time
apart. Cancelling takes everything out and puts back what stays, under the old numbers.

`PriorityQueue` says what is asked of a queue, and no more than that is used. How it works inside does not
matter: whatever the queue, `Queued` does what a docket does.

Main results:

* `Queued.Holds.peek?_eq`, `Queued.Holds.ordered_eq` — what a queue gives back is what a docket looks for.
* `Queued.perform_holds` — each step answers as a docket does, and what is held stays the same.
-/

namespace Dialogue

/-- A priority queue: `le` says which of two elements is greater. -/
structure PriorityQueue (β : Type) (le : β → β → Bool) where
  Queue : Type
  empty : Queue
  push : β → Queue → Queue
  /-- The greatest element. -/
  peek? : Queue → Option β
  /-- Takes the greatest element out. -/
  pop? : Queue → Option (β × Queue)
  /-- All elements, the greatest one last. -/
  ascending : Queue → List β
  size : Queue → Nat
  /-- What is in a queue, in no order that would matter. -/
  elements : Queue → List β
  elements_empty : elements empty = []
  elements_push : ∀ x queue, (elements (push x queue)).Perm (x :: elements queue)
  peek?_none : ∀ queue, peek? queue = none → elements queue = []
  peek?_some : ∀ queue x, peek? queue = some x →
    x ∈ elements queue ∧ ∀ y ∈ elements queue, le y x = true
  pop?_none : ∀ queue, pop? queue = none → elements queue = []
  pop?_some : ∀ queue x rest, pop? queue = some (x, rest) →
    (elements queue).Perm (x :: elements rest) ∧ ∀ y ∈ elements queue, le y x = true
  perm_ascending : ∀ queue, (ascending queue).Perm (elements queue)
  pairwise_ascending : ∀ queue, (ascending queue).Pairwise fun x y => le x y = true
  size_eq : ∀ queue, size queue = (elements queue).length

namespace PriorityQueue

variable {β : Type} (le : β → β → Bool)

/-- The elements of a list, the greatest one first. -/
def descending (queue : List β) : List β := (queue.mergeSort le).reverse

theorem perm_descending (queue : List β) : (descending le queue).Perm queue :=
  (List.reverse_perm _).trans (queue.mergeSort_perm le)

variable {le}

theorem eq_nil_of_descending {queue : List β} (hNil : descending le queue = []) : queue = [] :=
  (hNil ▸ perm_descending le queue).nil_eq.symm

/-- What comes first when a queue is sorted is its greatest element. -/
theorem greatest_of_descending (hTrans : ∀ x y z, le x y = true → le y z = true → le x z = true)
    (hTotal : ∀ x y, (le x y || le y x) = true) {queue rest : List β} {x : β}
    (hCons : descending le queue = x :: rest) :
    queue.Perm (x :: rest) ∧ ∀ y ∈ queue, le y x = true := by
  have hPerm := hCons ▸ (perm_descending le queue).symm
  have hOrder := List.pairwise_reverse.mpr (List.pairwise_mergeSort hTrans hTotal queue)
  rw [← descending, hCons, List.pairwise_cons] at hOrder
  refine ⟨hPerm, fun y hMem => ?_⟩
  rcases List.mem_cons.mp (hPerm.mem_iff.mp hMem) with rfl | hRest
  · simpa using hTotal y y
  · exact hOrder.1 y hRest

/-- The queue that is a list, and is sorted whenever something is asked of it. -/
def unsorted (le : β → β → Bool) (hTrans : ∀ x y z, le x y = true → le y z = true → le x z = true)
    (hTotal : ∀ x y, (le x y || le y x) = true) : PriorityQueue β le where
  Queue := List β
  empty := []
  push := List.cons
  peek? queue := (descending le queue).head?
  pop? queue := (descending le queue).head?.map (·, (descending le queue).tail)
  ascending queue := queue.mergeSort le
  size := List.length
  elements queue := queue
  elements_empty := rfl
  elements_push _ _ := .refl _
  peek?_none _ hNone := eq_nil_of_descending (List.head?_eq_none_iff.mp hNone)
  peek?_some queue x hSome := by
    obtain ⟨rest, hCons⟩ := List.head?_eq_some_iff.mp hSome
    obtain ⟨hPerm, hGreatest⟩ := greatest_of_descending hTrans hTotal hCons
    exact ⟨hPerm.mem_iff.mpr (List.mem_cons_self ..), hGreatest⟩
  pop?_none _ hNone := by
    rw [Option.map_eq_none_iff] at hNone
    exact eq_nil_of_descending (List.head?_eq_none_iff.mp hNone)
  pop?_some queue x rest hSome := by
    obtain ⟨y, hHead, hTaken⟩ := Option.map_eq_some_iff.mp hSome
    obtain ⟨rfl, rfl⟩ := Prod.mk.inj hTaken
    obtain ⟨others, hCons⟩ := List.head?_eq_some_iff.mp hHead
    rw [hCons]
    exact greatest_of_descending hTrans hTotal hCons
  perm_ascending queue := queue.mergeSort_perm le
  pairwise_ascending queue := List.pairwise_mergeSort hTrans hTotal queue
  size_eq _ := rfl

end PriorityQueue

variable {α : Type}

/-- The order of tickets turned around: what is to come up next is the greatest. -/
def Ticket.reverseLe (x y : Ticket α) : Bool := y.le x

/-- Tickets on a list that is sorted whenever something is asked of it. -/
def PriorityQueue.ofTickets : PriorityQueue (Ticket α) Ticket.reverseLe :=
  unsorted _ (fun _ _ _ h h' => Ticket.le_trans h' h) fun x y => Ticket.le_total y x

/-- An agenda that keeps its tickets on a priority queue. -/
structure Queued (backing : PriorityQueue (Ticket α) Ticket.reverseLe) where
  now : Millis
  /-- How many tickets have been issued, without a bound, as on a docket. -/
  issued : Nat
  queue : backing.Queue

namespace Queued

variable {backing : PriorityQueue (Ticket α) Ticket.reverseLe}

def opened (backing : PriorityQueue (Ticket α) Ticket.reverseLe) (start : Millis) : Queued backing :=
  ⟨start, 0, backing.empty⟩

def schedule (agenda : Queued backing) (due : Millis) (event : α) : Queued backing :=
  { agenda with
    issued := agenda.issued + 1
    queue := backing.push ⟨due, (agenda.issued, event)⟩ agenda.queue }

def nextDue (agenda : Queued backing) : Option Millis :=
  (backing.peek? agenda.queue).map Appointment.due

/-- Takes the next appointment if it is due by `limit`, and moves the clock forward to it. -/
def pop (agenda : Queued backing) (limit : Millis) : Option (Appointment α) × Queued backing :=
  match agenda.nextDue with
  | none => (none, agenda)
  | some due =>
    if limit < due then (none, agenda)
    else
      match backing.pop? agenda.queue with
      | none => (none, agenda)
      | some (next, rest) =>
        (some next.appointment, { agenda with now := max agenda.now next.due, queue := rest })

def moveTo (agenda : Queued backing) (time : Millis) : Queued backing :=
  { agenda with now := max agenda.now time }

/-- Puts tickets on a queue one by one, but strikes out those that `drops` picks. -/
def sift (drops : α → Bool) (struck : List α) (queue : backing.Queue) :
    List (Ticket α) → List α × backing.Queue
  | [] => (struck, queue)
  | x :: rest =>
    if drops x.event.2 then sift drops (struck ++ [x.event.2]) queue rest
    else sift drops struck (backing.push x queue) rest

/-- Strikes out the appointments that `drops` picks: empties the queue and fills another one. -/
def cancel (agenda : Queued backing) (drops : α → Bool) : List α × Queued backing :=
  -- the queue lists its greatest element last, and that is the next ticket
  let sifted := sift drops [] backing.empty (backing.ascending agenda.queue).reverse
  (sifted.1, { agenda with queue := sifted.2 })

def size (agenda : Queued backing) : Nat := backing.size agenda.queue

def perform (agenda : Queued backing) : Agenda.Step α → Agenda.Answer α × Queued backing
  | .schedule due event => (.done, agenda.schedule due event)
  | .pop limit => (.next (agenda.pop limit).1, (agenda.pop limit).2)
  | .moveTo time => (.done, agenda.moveTo time)
  | .cancel drops => (.struck (agenda.cancel drops).1, (agenda.cancel drops).2)

/-! ## What is held -/

/-- The queue holds what waits on a docket. -/
structure Holds (docket : Docket α) (agenda : Queued backing) : Prop where
  sound : docket.Sound
  now : agenda.now = docket.now
  issued : agenda.issued = docket.issued
  elements : (backing.elements agenda.queue).Perm docket.waiting

theorem holds_opened (backing : PriorityQueue (Ticket α) Ticket.reverseLe) (start : Millis) :
    Holds (.opened start) (opened backing start) :=
  ⟨Docket.sound_opened start, rfl, rfl, by rw [opened, backing.elements_empty]; exact .refl _⟩

/-- Sifting keeps the order of what it strikes out, and loses nothing. -/
theorem sift_spec (drops : α → Bool) (struck : List α) (queue : backing.Queue)
    (tickets : List (Ticket α)) :
    (sift drops struck queue tickets).1 =
        struck ++ (tickets.filter fun x => drops x.event.2).map (fun x => x.event.2) ∧
      (backing.elements (sift drops struck queue tickets).2).Perm
        ((tickets.filter fun x => !drops x.event.2) ++ backing.elements queue) := by
  induction tickets generalizing struck queue with
  | nil => exact ⟨(List.append_nil _).symm, .refl _⟩
  | cons x rest ih =>
    unfold sift
    by_cases hDrops : drops x.event.2 = true
    · -- struck out behind the others: the list is in order, and so is what is struck out of it
      obtain ⟨hStruck, hKept⟩ := ih (struck ++ [x.event.2]) queue
      rw [if_pos hDrops, hStruck]
      refine ⟨?_, ?_⟩
      · simp [hDrops]
      · simpa [hDrops] using hKept
    · obtain ⟨hStruck, hKept⟩ := ih struck (backing.push x queue)
      rw [if_neg hDrops, hStruck]
      refine ⟨?_, ?_⟩
      · simp [hDrops]
      · rw [List.filter_cons_of_pos (by simpa using hDrops), List.cons_append]
        exact hKept.trans (((backing.elements_push x queue).append_left _).trans List.perm_middle)

namespace Holds

variable {docket : Docket α} {agenda : Queued backing}

/-- What is greatest in the queue is the ticket that a docket looks for. -/
theorem first?_of_greatest (h : Holds docket agenda) {x : Ticket α}
    (hMem : x ∈ backing.elements agenda.queue)
    (hGreatest : ∀ y ∈ backing.elements agenda.queue, Ticket.reverseLe y x = true) :
    docket.first? = some x :=
  h.sound.first?_eq_some_iff.mpr
    ⟨h.elements.mem_iff.mp hMem, fun y hy => hGreatest y (h.elements.mem_iff.mpr hy)⟩

/-- Where the queue is empty no ticket waits. -/
theorem first?_of_empty (h : Holds docket agenda) (hEmpty : backing.elements agenda.queue = []) :
    docket.first? = none := by
  have hNone : docket.waiting = [] := (hEmpty ▸ h.elements).nil_eq.symm
  rw [Docket.first?, hNone]
  rfl

/-- What comes up on the queue is the first ticket of the docket. -/
theorem peek?_eq (h : Holds docket agenda) : backing.peek? agenda.queue = docket.first? := by
  cases hPeek : backing.peek? agenda.queue with
  | none => exact (h.first?_of_empty (backing.peek?_none _ hPeek)).symm
  | some x =>
    obtain ⟨hMem, hGreatest⟩ := backing.peek?_some _ x hPeek
    exact (h.first?_of_greatest hMem hGreatest).symm

/-- The next due time is that of the first ticket. -/
theorem nextDue_eq (h : Holds docket agenda) : agenda.nextDue = docket.first?.map Appointment.due := by
  rw [nextDue, h.peek?_eq]

theorem size_eq (h : Holds docket agenda) : agenda.size = docket.waiting.length := by
  rw [size, backing.size_eq, h.elements.length_eq]

/-- The queue's own order, read backwards, is the order of the docket. -/
theorem ordered_eq (h : Holds docket agenda) :
    (backing.ascending agenda.queue).reverse = docket.inOrder := by
  have hPerm := ((backing.ascending agenda.queue).reverse_perm.trans
    (backing.perm_ascending agenda.queue)).trans h.elements
  have hLe := List.pairwise_reverse.mpr (backing.pairwise_ascending agenda.queue)
  exact (h.sound.inOrder_eq hPerm (h.sound.pairwise_before hPerm hLe)).symm

/-! ## The steps -/

/-- What is scheduled has the same number on both. -/
theorem schedule (h : Holds docket agenda) (due : Millis) (event : α) :
    Holds (docket.perform (.schedule due event)).2 (agenda.schedule due event) := by
  refine ⟨docket.sound_perform _ h.sound, h.now, congrArg (· + 1) h.issued, ?_⟩
  rw [Queued.schedule, h.issued]
  exact (backing.elements_push _ _).trans
    ((h.elements.cons _).trans (List.perm_append_singleton _ _).symm)

/-- What the queue takes out is the ticket that the docket hands out, and the rest is what waits on. -/
theorem pop?_eq (h : Holds docket agenda) {next : Ticket α} (hFirst : docket.first? = some next) :
    ∃ rest, backing.pop? agenda.queue = some (next, rest) ∧
      (backing.elements rest).Perm (docket.waiting.filter (Ticket.number · ≠ next.number)) := by
  cases hPop : backing.pop? agenda.queue with
  | none =>
    rw [h.first?_of_empty (backing.pop?_none _ hPop)] at hFirst
    cases hFirst
  | some taken =>
    obtain ⟨x, rest⟩ := taken
    obtain ⟨hElements, hGreatest⟩ := backing.pop?_some _ x rest hPop
    have hMem : x ∈ backing.elements agenda.queue := hElements.mem_iff.mpr (List.mem_cons_self ..)
    -- there is only one least ticket
    rw [h.first?_of_greatest hMem hGreatest] at hFirst
    cases hFirst
    have hWaiting := h.sound.perm_filter_number (h.first?_of_greatest hMem hGreatest)
    exact ⟨rest, rfl, (hElements.symm.trans (h.elements.trans hWaiting.symm)).cons_inv⟩

/-- Both hand out the same ticket, or none. -/
theorem pop (h : Holds docket agenda) (limit : Millis) :
    (agenda.pop limit).1 = ((docket.perform (.pop limit)).1.head?).map Ticket.appointment ∧
      Holds (docket.perform (.pop limit)).2 (agenda.pop limit).2 := by
  have hSound := docket.sound_perform (.pop limit) h.sound
  unfold Queued.pop
  rw [h.nextDue_eq]
  simp only [Docket.perform] at hSound ⊢
  cases hFirst : docket.first? with
  | none => exact ⟨rfl, h⟩
  | some next =>
    simp only [hFirst] at hSound
    simp only [Option.map_some]
    by_cases hDue : next.due ≤ limit
    · obtain ⟨rest, hPop, hElements⟩ := h.pop?_eq hFirst
      have hNotLater : ¬ limit < next.due := Nat.not_lt.mpr hDue
      rw [if_pos hDue] at hSound
      rw [if_pos hDue, if_neg hNotLater, hPop]
      exact ⟨rfl, hSound, congrArg (max · next.due) h.now, h.issued, hElements⟩
    · -- not due yet, so that both stay as they are
      have hLater : limit < next.due := Nat.lt_of_not_le hDue
      rw [if_neg hDue, if_pos hLater]
      exact ⟨rfl, h⟩

theorem moveTo (h : Holds docket agenda) (time : Millis) :
    Holds (docket.perform (.moveTo time)).2 (agenda.moveTo time) :=
  ⟨docket.sound_perform _ h.sound, congrArg (max · time) h.now, h.issued, h.elements⟩

/-- What is struck out on the docket is found on the queue, in the same order. -/
theorem cancel (h : Holds docket agenda) (drops : α → Bool) :
    (agenda.cancel drops).1 = (docket.perform (.cancel drops)).1.map (fun x => x.event.2) ∧
      Holds (docket.perform (.cancel drops)).2 (agenda.cancel drops).2 := by
  obtain ⟨hStruck, hKept⟩ := sift_spec drops [] backing.empty
    (backing.ascending agenda.queue).reverse
  -- the tickets are taken out in order, and what goes back has its old number
  rw [h.ordered_eq] at hStruck hKept
  rw [backing.elements_empty, List.append_nil] at hKept
  refine ⟨?_, docket.sound_perform _ h.sound, h.now, h.issued, ?_⟩
  · rw [Queued.cancel, h.ordered_eq]
    exact hStruck
  · rw [Queued.cancel, h.ordered_eq]
    exact hKept.trans (docket.perm_inOrder.filter _)

end Holds

/-- Each step answers as a docket does, and the queue still holds what waits. -/
theorem perform_holds (docket : Docket α) (agenda : Queued backing) (step : Agenda.Step α)
    (h : Holds docket agenda) :
    (agenda.perform step).1 = step.answer (docket.perform step).1 ∧
      Holds (docket.perform step).2 (agenda.perform step).2 := by
  cases step with
  | schedule due event => exact ⟨rfl, h.schedule due event⟩
  | pop limit =>
    obtain ⟨hNext, hHolds⟩ := h.pop limit
    exact ⟨congrArg Agenda.Answer.next hNext, hHolds⟩
  | moveTo time => exact ⟨rfl, h.moveTo time⟩
  | cancel drops =>
    obtain ⟨hStruck, hHolds⟩ := h.cancel drops
    exact ⟨congrArg Agenda.Answer.struck hStruck, hHolds⟩

end Queued

end Dialogue
