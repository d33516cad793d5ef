import Dialogue.Proofs.Agenda.Order
import Mathlib.Data.List.Dedup

/-!
# Numbered tickets

What an agenda must do is easy to say if each appointment has a number, in the order in which they are
made. A `Docket` keeps such numbered `Ticket`s in no order at all: it looks for the least one, by due time
and then by number, whenever it needs it. An agenda has no numbers. Here is what a docket does over any
steps; that an agenda does the same is said elsewhere.

Main results:

* `Docket.Sound.inOrder_eq` — a list of the waiting tickets is in order only if it is `Docket.inOrder`.
* `Docket.Sound.first?_eq` — the least ticket is the first one in order.
* `Docket.Sound.perm_runAll` — each ticket that is issued is handed out once, or it waits.
* `Docket.now_runAll` — the clock shows the latest of the times that it was moved to.
* `Docket.Sound.runAll_pops` — taking what is due, again and again, hands out all that is due, in order.
-/

namespace Dialogue

/-! ## Machines -/

section Machines

variable {σ τ ι ο π : Type}

/-- Puts inputs through a machine, one after the other. -/
def runAll (step : σ → ι → ο × σ) (state : σ) : List ι → List ο × σ
  | [] => ([], state)
  | input :: rest =>
    ((step state input).1 :: (runAll step (step state input).2 rest).1,
      (runAll step (step state input).2 rest).2)

/-- Two machines whose states stay related answer alike, if they do so in each step. -/
theorem runAll_simulates {step : σ → ι → ο × σ} {step' : τ → ι → π × τ}
    {R : σ → τ → Prop} {answer : ι → ο → π}
    (hStep : ∀ state state' input, R state state' →
      (step' state' input).1 = answer input (step state input).1 ∧
        R (step state input).2 (step' state' input).2)
    {state : σ} {state' : τ} (h : R state state') (inputs : List ι) :
    (runAll step' state' inputs).1 = inputs.zipWith answer (runAll step state inputs).1 ∧
      R (runAll step state inputs).2 (runAll step' state' inputs).2 := by
  induction inputs generalizing state state' with
  | nil => exact ⟨rfl, h⟩
  | cons input rest ih =>
    obtain ⟨hAnswer, hNext⟩ := hStep state state' input h
    obtain ⟨hAnswers, hLast⟩ := ih hNext
    refine ⟨?_, hLast⟩
    rw [runAll, runAll, hAnswers, hAnswer, List.zipWith_cons_cons]

end Machines

variable {α : Type}

/-! ## Tickets -/

/-- An appointment whose event has a number. -/
abbrev Ticket (α : Type) := Appointment (Nat × α)

namespace Ticket

def number (ticket : Ticket α) : Nat := ticket.event.1

/-- The appointment without its number. -/
def appointment (ticket : Ticket α) : Appointment α := ⟨ticket.due, ticket.event.2⟩

/-- Due earlier, or at the same time with the smaller number. -/
def Before : Ticket α → Ticket α → Prop := Agenda.InOrder fun a b => a.1 < b.1

/-- Due no later, and with no greater number where both are due at the same time. -/
def le (x y : Ticket α) : Bool := x.due < y.due ∨ x.due = y.due ∧ x.number ≤ y.number

/-- Tickets are ordered by their due times, and those that are due together by their numbers. -/
theorem le_iff {x y : Ticket α} : x.le y = true ↔
    x.due.toNat < y.due.toNat ∨ x.due.toNat = y.due.toNat ∧ x.number ≤ y.number := by
  rw [le, decide_eq_true_eq, Millis.lt_def, Millis.ext_iff]

theorem le_trans {x y z : Ticket α} (h : x.le y = true) (h' : y.le z = true) : x.le z = true := by
  rw [le_iff] at *
  omega

theorem le_total (x y : Ticket α) : (x.le y || y.le x) = true := by
  rw [Bool.or_eq_true, le_iff, le_iff]
  omega

/-- What comes first is due first. -/
theorem due_le_of_le {x y : Ticket α} (h : x.le y = true) : x.due ≤ y.due := by
  rw [le_iff] at h
  rw [Millis.le_def]
  omega

/-- With different numbers, one of two tickets comes first. -/
theorem before_of_le {x y : Ticket α} (h : x.le y = true) (hNe : x.number ≠ y.number) :
    Before x y := by
  rw [le, decide_eq_true_eq] at h
  rcases h with hLt | ⟨hEq, hLe⟩
  · exact .inl hLt
  · exact .inr ⟨hEq, Nat.lt_of_le_of_ne hLe hNe⟩

/-- Whichever is before another one comes first in the order. -/
theorem le_of_before {x y : Ticket α} (h : Before x y) : x.le y = true := by
  rw [le, decide_eq_true_eq]
  rcases h with hLt | ⟨hEq, hLt⟩
  · exact .inl hLt
  · exact .inr ⟨hEq, Nat.le_of_lt hLt⟩

/-- Two tickets that come first of one another have one number. -/
theorem number_eq_of_le {x y : Ticket α} (h : x.le y = true) (h' : y.le x = true) :
    x.number = y.number := by
  rw [le_iff] at h h'
  omega

theorem not_before_of_before {x y : Ticket α} (h : Before x y) : ¬ Before y x := by
  intro h'
  have hNumber := number_eq_of_le (le_of_before h) (le_of_before h')
  -- a ticket that is due earlier is not due later too
  rcases h with hLt | ⟨hEq, hLt⟩
  · rcases h' with hLt' | ⟨hEq', -⟩
    · rw [Millis.lt_def] at hLt hLt'
      omega
    · rw [hEq', Millis.lt_def] at hLt
      omega
  · exact absurd hNumber (Nat.ne_of_lt hLt)

/-- Tickets for appointments, with numbers from `first` on. -/
def issue (first : Nat) (appointments : List (Appointment α)) : List (Ticket α) :=
  (appointments.zipIdx first).map fun (x, number) => ⟨x.due, (number, x.event)⟩

@[simp] theorem issue_nil (first : Nat) : issue first ([] : List (Appointment α)) = [] := rfl

/-- The numbers of the later tickets go on where those of the earlier ones end. -/
theorem issue_append (first : Nat) (appointments more : List (Appointment α)) :
    issue first (appointments ++ more) =
      issue first appointments ++ issue (first + appointments.length) more := by
  rw [issue, List.zipIdx_append, List.map_append]
  rfl

end Ticket

/-! ## What is asked of an agenda -/

namespace Agenda

/-- What can be asked of an agenda. -/
inductive Step (α : Type) where
  | schedule (due : Millis) (event : α)
  /-- To take the next appointment if it is due by `limit`. -/
  | pop (limit : Millis)
  | moveTo (time : Millis)
  | cancel (drops : α → Bool)

/-- What an agenda answers. -/
inductive Answer (α : Type) where
  | done
  | next (taken : Option (Appointment α))
  | struck (events : List α)
deriving DecidableEq

namespace Step

/-- The appointments that a step makes. -/
def made : Step α → List (Appointment α)
  | schedule due event => [⟨due, event⟩]
  | pop _ | moveTo _ | cancel _ => []

/-- The times to which a step that hands out tickets moves the clock. -/
def times (step : Step α) (handed : List (Ticket α)) : List Millis :=
  match step with
  | moveTo time => [time]
  | pop _ => handed.map Appointment.due
  | schedule .. | cancel _ => []

/-- The answer of a step that hands out tickets. -/
def answer (step : Step α) (handed : List (Ticket α)) : Answer α :=
  match step with
  | pop _ => .next (handed.head?.map Ticket.appointment)
  | cancel _ => .struck (handed.map fun x => x.event.2)
  | schedule .. | moveTo _ => .done

end Step

end Agenda

/-! ## Dockets -/

/-- A clock, the number of tickets issued, and those of them that wait. -/
structure Docket (α : Type) where
  now : Millis
  /-- How many tickets have been issued. It is not bounded: that a counter of 64 bits would overflow with the
  2^64th ticket is left out. -/
  issued : Nat
  waiting : List (Ticket α)

namespace Docket

/-- No ticket is issued, at time `start`. -/
def opened (start : Millis) : Docket α := ⟨start, 0, []⟩

/-- The ticket that is before all others. -/
def first? (docket : Docket α) : Option (Ticket α) :=
  docket.waiting.find? fun x => docket.waiting.all x.le

/-- The waiting tickets by due time, and by number where they are due at the same time. -/
def inOrder (docket : Docket α) : List (Ticket α) := docket.waiting.mergeSort Ticket.le

/-- The tickets due by `limit`, in order. -/
def dueBy (docket : Docket α) (limit : Millis) : List (Ticket α) :=
  docket.inOrder.filter (·.due ≤ limit)

/-- The tickets due after `limit`, in order. -/
def dueAfter (docket : Docket α) (limit : Millis) : List (Ticket α) :=
  docket.inOrder.filter (¬ ·.due ≤ limit)

/-- Does a step; gives the tickets that it hands out. -/
def perform (docket : Docket α) : Agenda.Step α → List (Ticket α) × Docket α
  | .schedule due event =>
    ([], { docket with
      issued := docket.issued + 1
      waiting := docket.waiting ++ [⟨due, (docket.issued, event)⟩] })
  | .pop limit =>
    match docket.first? with
    | some next =>
      if next.due ≤ limit then
        ([next], { docket with
          now := max docket.now next.due
          waiting := docket.waiting.filter (Ticket.number · ≠ next.number) })
      else ([], docket)
    | none => ([], docket)
  | .moveTo time => ([], { docket with now := max docket.now time })
  | .cancel drops =>
    (docket.inOrder.filter fun x => drops x.event.2,
      { docket with waiting := docket.waiting.filter fun x => !drops x.event.2 })

/-- No number is given twice, and the next one is new. -/
structure Sound (docket : Docket α) : Prop where
  distinct : docket.waiting.Pairwise fun x y => Ticket.number x ≠ Ticket.number y
  below : ∀ x ∈ docket.waiting, Ticket.number x < docket.issued

theorem sound_opened (start : Millis) : Sound (opened start : Docket α) :=
  ⟨.nil, fun x hMem => by cases hMem⟩

theorem sound_of_sublist {docket : Docket α} (h : Sound docket) {now : Millis}
    {waiting : List (Ticket α)} (hSublist : waiting.Sublist docket.waiting) :
    Sound { docket with now, waiting } :=
  ⟨h.distinct.sublist hSublist, fun x hMem => h.below x (hSublist.subset hMem)⟩

/-- Whatever is done, the tickets that wait have different numbers, and all of them have been given out. -/
theorem sound_perform (docket : Docket α) (step : Agenda.Step α) (h : Sound docket) :
    Sound (docket.perform step).2 := by
  cases step with
  | schedule due event =>
    -- the new ticket has the first number that is free
    refine ⟨List.pairwise_append.mpr ⟨h.distinct, List.pairwise_singleton .., ?_⟩, ?_⟩
    · intro x hMem y hNew
      rw [List.mem_singleton.mp hNew]
      exact Nat.ne_of_lt (h.below x hMem)
    · intro x hMem
      rcases List.mem_append.mp hMem with hMem | hNew
      · exact Nat.lt_succ_of_lt (h.below x hMem)
      · rw [List.mem_singleton.mp hNew]
        exact Nat.lt_succ_self _
  | pop limit =>
    simp only [perform]
    split
    · split
      · exact sound_of_sublist h List.filter_sublist
      · exact h
    · exact h
  | moveTo time => exact ⟨h.distinct, h.below⟩
  | cancel drops => exact sound_of_sublist h List.filter_sublist

/-! ## The waiting tickets in order -/

theorem perm_inOrder (docket : Docket α) : docket.inOrder.Perm docket.waiting :=
  List.mergeSort_perm ..

theorem pairwise_le_inOrder (docket : Docket α) : docket.inOrder.Pairwise fun x y => x.le y = true :=
  @List.pairwise_mergeSort _ Ticket.le (fun _ _ _ => Ticket.le_trans) Ticket.le_total _

theorem mem_inOrder {docket : Docket α} {x : Ticket α} :
    x ∈ docket.inOrder ↔ x ∈ docket.waiting :=
  docket.perm_inOrder.mem_iff

namespace Sound

variable {docket : Docket α}

/-- With different numbers, tickets in order are strictly in order. -/
theorem pairwise_before (h : Sound docket) {tickets : List (Ticket α)}
    (hPerm : tickets.Perm docket.waiting) (hLe : tickets.Pairwise fun x y => x.le y = true) :
    tickets.Pairwise Ticket.Before := by
  have hDistinct := (hPerm.pairwise_iff Ne.symm).mpr h.distinct
  exact hDistinct.imp₂ (fun x y hNe hLe => Ticket.before_of_le hLe hNe) hLe

theorem pairwise_inOrder (h : Sound docket) : docket.inOrder.Pairwise Ticket.Before :=
  h.pairwise_before docket.perm_inOrder docket.pairwise_le_inOrder

/-- There is only one order. -/
theorem inOrder_eq (h : Sound docket) {tickets : List (Ticket α)}
    (hPerm : tickets.Perm docket.waiting) (hOrder : tickets.Pairwise Ticket.Before) :
    docket.inOrder = tickets := by
  refine (docket.perm_inOrder.trans hPerm.symm).eq_of_pairwise ?_ h.pairwise_inOrder hOrder
  intro x y _ _ hBefore hAfter
  exact absurd hAfter (Ticket.not_before_of_before hBefore)

/-- There is only one least ticket. -/
theorem eq_of_least (h : Sound docket) {x y : Ticket α} (hx : x ∈ docket.waiting)
    (hy : y ∈ docket.waiting) (hxy : x.le y = true) (hyx : y.le x = true) : x = y :=
  List.inj_on_of_nodup_map (List.pairwise_map.mpr h.distinct) hx hy (Ticket.number_eq_of_le hxy hyx)

/-- The ticket that comes first is the one that waits and that no other one precedes. -/
theorem first?_eq_some_iff (h : Sound docket) {next : Ticket α} :
    docket.first? = some next ↔
      next ∈ docket.waiting ∧ ∀ x ∈ docket.waiting, next.le x = true := by
  have hOf : ∀ x, docket.first? = some x →
      x ∈ docket.waiting ∧ ∀ y ∈ docket.waiting, x.le y = true := by
    intro x hFirst
    unfold first? at hFirst
    have hAll := List.find?_some hFirst
    exact ⟨List.mem_of_find?_eq_some hFirst, List.all_eq_true.mp hAll⟩
  refine ⟨hOf next, fun ⟨hMem, hLeast⟩ => ?_⟩
  cases hFirst : docket.first? with
  | none => exact absurd (List.all_eq_true.mpr hLeast) (List.find?_eq_none.mp hFirst next hMem)
  | some x =>
    obtain ⟨hx, hLe⟩ := hOf x hFirst
    -- two tickets that both precede all others are the same
    rw [h.eq_of_least hx hMem (hLe next hMem) (hLeast x hx)]

/-- The least ticket is the first one in order. -/
theorem first?_eq (h : Sound docket) : docket.first? = docket.inOrder.head? := by
  cases hOrder : docket.inOrder with
  | nil =>
    have hNone : docket.waiting = [] := (hOrder ▸ docket.perm_inOrder).nil_eq.symm
    rw [first?, hNone]
    rfl
  | cons next rest =>
    have hLe := docket.pairwise_le_inOrder
    rw [hOrder, List.pairwise_cons] at hLe
    -- what comes first in order waits, and precedes all that come later
    have hMem : next ∈ docket.waiting := mem_inOrder.mp (hOrder ▸ List.mem_cons_self ..)
    refine h.first?_eq_some_iff.mpr ⟨hMem, fun x hMem => ?_⟩
    rw [← mem_inOrder, hOrder] at hMem
    rcases List.mem_cons.mp hMem with rfl | hRest
    · exact Ticket.le_iff.mpr (.inr ⟨rfl, Nat.le_refl _⟩)
    · exact hLe.1 x hRest

/-! ## How steps change the order -/

/-- In order, a new ticket stands behind all that are due by the same time. -/
theorem inOrder_schedule (h : Sound docket) (due : Millis) (event : α) :
    (docket.perform (.schedule due event)).2.inOrder =
      Agenda.insertLast ⟨due, (docket.issued, event)⟩ docket.inOrder := by
  refine (docket.sound_perform (.schedule due event) h).inOrder_eq ?_ ?_
  · exact (Agenda.perm_insertLast _ _).trans
      ((docket.perm_inOrder.cons _).trans (List.perm_append_singleton _ _).symm)
  · -- the new number is greater than all others, so that behind its equals is where it belongs
    refine Agenda.inOrder_insertLast h.pairwise_inOrder fun x hMem => ?_
    exact h.below x (mem_inOrder.mp hMem)

/-- Where some tickets go, the others stay in order. -/
theorem inOrder_filter (h : Sound docket) (now : Millis) (p : Ticket α → Bool) :
    { docket with now, waiting := docket.waiting.filter p }.inOrder = docket.inOrder.filter p := by
  refine (sound_of_sublist h List.filter_sublist).inOrder_eq ?_ ?_
  · exact docket.perm_inOrder.filter p
  · exact h.pairwise_inOrder.filter p

/-- The ticket that is handed out leaves the others. -/
theorem inOrder_filter_number (h : Sound docket) {next : Ticket α} {rest : List (Ticket α)}
    (hOrder : docket.inOrder = next :: rest) :
    docket.inOrder.filter (Ticket.number · ≠ next.number) = rest := by
  have hDistinct := (docket.perm_inOrder.pairwise_iff Ne.symm).mpr h.distinct
  rw [hOrder, List.pairwise_cons] at hDistinct
  rw [hOrder, List.filter_cons_of_neg (by simp), List.filter_eq_self]
  exact fun x hMem => decide_eq_true (hDistinct.1 x hMem).symm

/-- The ticket that is handed out is the one that is taken away. -/
theorem perm_filter_number (h : Sound docket) {next : Ticket α} (hFirst : docket.first? = some next) :
    (next :: docket.waiting.filter (Ticket.number · ≠ next.number)).Perm docket.waiting := by
  rw [h.first?_eq, List.head?_eq_some_iff] at hFirst
  obtain ⟨rest, hOrder⟩ := hFirst
  have hRest := docket.perm_inOrder.filter (Ticket.number · ≠ next.number)
  rw [h.inOrder_filter_number hOrder] at hRest
  exact (hRest.symm.cons next).trans (hOrder ▸ docket.perm_inOrder)

/-- If the first ticket is due it is handed out, and the clock does not go back. -/
theorem perform_pop_of_due (h : Sound docket) {limit : Millis} {next : Ticket α}
    {rest : List (Ticket α)} (hOrder : docket.inOrder = next :: rest) (hDue : next.due ≤ limit) :
    (docket.perform (.pop limit)).1 = [next] ∧ (docket.perform (.pop limit)).2.inOrder = rest ∧
      (docket.perform (.pop limit)).2.now = max docket.now next.due := by
  have hFirst : docket.first? = some next := by rw [h.first?_eq, hOrder]; rfl
  simp only [perform, hFirst, if_pos hDue]
  refine ⟨trivial, ?_, trivial⟩
  rw [h.inOrder_filter, h.inOrder_filter_number hOrder]

/-- Otherwise nothing happens at all. -/
theorem perform_pop_of_not_due (h : Sound docket) (limit : Millis)
    (hLater : ∀ next, docket.inOrder.head? = some next → ¬ next.due ≤ limit) :
    docket.perform (.pop limit) = ([], docket) := by
  rw [← h.first?_eq] at hLater
  simp only [perform]
  split
  · rename_i next hFirst
    rw [if_neg (hLater next hFirst)]
  · rfl

/-! ## Nothing is lost -/

/-- One step hands tickets out or issues some, and the others wait on. -/
theorem perm_perform (h : Sound docket) (step : Agenda.Step α) :
    ((docket.perform step).1 ++ (docket.perform step).2.waiting).Perm
        (docket.waiting ++ Ticket.issue docket.issued step.made) ∧
      (docket.perform step).2.issued = docket.issued + step.made.length := by
  cases step with
  | schedule due event => exact ⟨.refl _, rfl⟩
  | pop limit =>
    rw [Agenda.Step.made, Ticket.issue_nil, List.append_nil]
    simp only [perform]
    split
    · rename_i next hFirst
      split
      · exact ⟨h.perm_filter_number hFirst, rfl⟩
      · exact ⟨.refl _, rfl⟩
    · exact ⟨.refl _, rfl⟩
  | moveTo time =>
    rw [Agenda.Step.made, Ticket.issue_nil, List.append_nil]
    exact ⟨.refl _, rfl⟩
  | cancel drops =>
    rw [Agenda.Step.made, Ticket.issue_nil, List.append_nil]
    refine ⟨?_, rfl⟩
    -- what is struck out and what is kept make up what waited
    exact ((docket.perm_inOrder.filter _).append_right _).trans (List.filter_append_perm _ _)

/-- Each ticket is handed out once or it waits: those that waited at first, and those that are issued. -/
theorem perm_runAll (h : Sound docket) (steps : List (Agenda.Step α)) :
    ((runAll perform docket steps).1.flatten ++ (runAll perform docket steps).2.waiting).Perm
      (docket.waiting ++ Ticket.issue docket.issued (steps.flatMap Agenda.Step.made)) := by
  induction steps generalizing docket with
  | nil =>
    rw [List.flatMap_nil, Ticket.issue_nil, List.append_nil]
    exact .refl _
  | cons step rest ih =>
    obtain ⟨hStep, hIssued⟩ := h.perm_perform step
    have hRest := ih (docket.sound_perform step h)
    -- the rest is numbered from where the step stopped
    rw [hIssued] at hRest
    rw [runAll, List.flatten_cons, List.append_assoc, List.flatMap_cons, Ticket.issue_append,
      ← List.append_assoc docket.waiting]
    refine (hRest.append_left _).trans ?_
    rw [← List.append_assoc]
    exact hStep.append_right _

end Sound

/-! ## The clock -/

/-- The clock goes to the times that a step comes to, and never back. -/
theorem now_perform (docket : Docket α) (step : Agenda.Step α) :
    (docket.perform step).2.now = (step.times (docket.perform step).1).foldl max docket.now := by
  cases step with
  | schedule due event => rfl
  | pop limit =>
    simp only [perform]
    split
    · split
      · rfl
      · rfl
    · rfl
  | moveTo time => rfl
  | cancel drops => rfl

/-- The clock shows the latest of the times to which the steps moved it, if that is not past. -/
theorem now_runAll (docket : Docket α) (steps : List (Agenda.Step α)) :
    (runAll perform docket steps).2.now =
      (steps.zipWith Agenda.Step.times (runAll perform docket steps).1).flatten.foldl max docket.now := by
  induction steps generalizing docket with
  | nil => rfl
  | cons step rest ih =>
    rw [runAll, List.zipWith_cons_cons, List.flatten_cons, List.foldl_append, ← now_perform]
    exact ih _

/-! ## All that is due -/

/-- Taking what is due until there is nothing more hands it all out, in order. -/
theorem Sound.runAll_pops {docket : Docket α} (h : Sound docket) (limit : Millis) :
    (runAll perform docket (.replicate ((docket.dueBy limit).length + 1) (.pop limit))).1 =
        (docket.dueBy limit).map ([·]) ++ [[]] ∧
      (runAll perform docket (.replicate ((docket.dueBy limit).length + 1) (.pop limit))).2.inOrder =
        docket.dueAfter limit := by
  -- by induction on the tickets in order, of which each step takes the first one
  unfold dueBy dueAfter
  induction hOrder : docket.inOrder generalizing docket with
  | nil =>
    have hNone := h.perform_pop_of_not_due limit (by rw [hOrder]; rintro _ ⟨⟩)
    rw [List.filter_nil, List.length_nil, List.replicate_one, runAll, hNone]
    exact ⟨rfl, hOrder⟩
  | cons next rest ih =>
    by_cases hDue : next.due ≤ limit
    · -- the first one is due and is handed out, and the rest is like the whole
      obtain ⟨hHanded, hLeft, -⟩ := h.perform_pop_of_due hOrder hDue
      obtain ⟨hOthers, hLast⟩ := ih (docket.sound_perform (.pop limit) h) hLeft
      have hBy : (next :: rest).filter (·.due ≤ limit) = next :: rest.filter (·.due ≤ limit) := by
        simp [hDue]
      have hAfter : (next :: rest).filter (¬ ·.due ≤ limit) = rest.filter (¬ ·.due ≤ limit) := by
        simp [hDue]
      rw [hBy, hAfter, List.length_cons, List.replicate_succ, runAll, hOthers, hHanded]
      exact ⟨rfl, hLast⟩
    · -- and then none of the others is due
      have hLe := docket.pairwise_le_inOrder
      rw [hOrder, List.pairwise_cons] at hLe
      have hLater : ∀ x ∈ next :: rest, ¬ x.due ≤ limit := by
        intro x hMem hx
        rcases List.mem_cons.mp hMem with rfl | hRest
        · exact hDue hx
        · exact hDue (Millis.le_trans (Ticket.due_le_of_le (hLe.1 x hRest)) hx)
      have hNone := h.perform_pop_of_not_due limit (by rw [hOrder]; rintro _ ⟨⟩; exact hDue)
      have hBy : (next :: rest).filter (·.due ≤ limit) = [] :=
        List.filter_eq_nil_iff.mpr fun x hMem => by simpa using hLater x hMem
      have hAfter : (next :: rest).filter (¬ ·.due ≤ limit) = next :: rest :=
        List.filter_eq_self.mpr fun x hMem => decide_eq_true (hLater x hMem)
      rw [hBy, hAfter, List.length_nil, List.replicate_one, runAll, hNone]
      exact ⟨rfl, hOrder⟩

end Docket

end Dialogue
