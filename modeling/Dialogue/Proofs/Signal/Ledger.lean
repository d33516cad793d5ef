import Dialogue.Proofs.Signal.Desk

/-!
# The ledger of a desk

What has happened to a signal is told by the journal of the desk, together with what the jobs at hand will
certainly add to it: the calls of those who waited, and the answers of actions that are on their way. This
is the ledger. It grows at one place only, where the journal ends and what is still to be done begins.

Main results:

* `Signal.Kept` — how each signal stands with its listeners.
* `Signal.Kept.settle`, `Signal.Kept.wait`, `Signal.Kept.come`, `Signal.Kept.idle` — what actions add to the
  ledger, and that the signals still stand well.
-/

namespace Dialogue.Signal

/-! ## What incidents tell -/

namespace Incident

/-- The listener that came to a signal and had to wait. -/
def waiting? (signal : Nat) : Incident → Option Listener
  | came other listener none => if other = signal then some listener else none
  | came _ _ (some _) | called .. | done .. => none

/-- The listener that was called after it had waited for a signal, and with which outcome. -/
def released? (signal : Nat) : Incident → Option (Listener × Outcome)
  | called other listener outcome true => if other = signal then some (listener, outcome) else none
  | called _ _ _ false | came .. | done .. => none

/-- How an action settled a signal, if it was the one that did. -/
def settled? (signal : Nat) : Incident → Option Outcome
  | done action (.settled true) =>
    action.settles?.bind fun (other, outcome) => if other = signal then some outcome else none
  | done .. | came .. | called .. => none

/-- Who came, and to which signal. -/
def came? : Incident → Option (Nat × Listener)
  | came signal listener _ => some (signal, listener)
  | called .. | done .. => none

/-- Whom the action that is through brought to a signal. -/
def listened? : Incident → Option (Nat × Listener)
  | done action _ => action.listens?
  | came .. | called .. => none

/-- Whether a listener came late, or was called for that reason. -/
def isLate : Incident → Bool
  | came _ _ found => found.isSome
  | called _ _ _ waited => !waited
  | done .. => false

end Incident

section Journal

variable (signal : Nat) (journal more : List Incident)

/-- Those who had to wait for a signal, in the order in which they came. -/
def waiters : List Listener := journal.filterMap (Incident.waiting? signal)

/-- Those of them who were called, in the order of the calls. -/
def released : List (Listener × Outcome) := journal.filterMap (Incident.released? signal)

/-- How a signal was settled, each time. -/
def settlings : List Outcome := journal.filterMap (Incident.settled? signal)

/-- Whoever came to any signal. -/
def comers : List (Nat × Listener) := journal.filterMap Incident.came?

/-- Whoever was brought by the actions that are through. -/
def brought : List (Nat × Listener) := journal.filterMap Incident.listened?

theorem waiters_append :
    waiters signal (journal ++ more) = waiters signal journal ++ waiters signal more :=
  List.filterMap_append

theorem released_append :
    released signal (journal ++ more) = released signal journal ++ released signal more :=
  List.filterMap_append

theorem settlings_append :
    settlings signal (journal ++ more) = settlings signal journal ++ settlings signal more :=
  List.filterMap_append

theorem comers_append : comers (journal ++ more) = comers journal ++ comers more :=
  List.filterMap_append

theorem brought_append : brought (journal ++ more) = brought journal ++ brought more :=
  List.filterMap_append

end Journal

/-- The calls that are due to listeners when a signal stands with `outcome`: none as long as it is pending,
and then one for each listener that came on this occasion. -/
def due (outcome : Option Outcome) (listeners : List Listener) : List (Listener × Outcome) :=
  match outcome with
  | none => []
  | some outcome =>
    (listeners.filter fun listener => listener.occasion.admits outcome).map (·, outcome)

/-! ## What is bound to happen -/

/-- What a job will add to the journal itself, whatever it sets off. -/
def Job.bound : Job → List Incident
  | act _ => []
  | call signal listener outcome waited =>
    if listener.occasion.admits outcome then [.called signal listener outcome waited] else []
  | finish action answer => [.done action answer]

/-- What happened, and what is bound to happen. -/
def Desk.ledger (desk : Desk) : List Incident := desk.journal ++ desk.jobs.flatMap Job.bound

/-- Actions still to come are bound to nothing. -/
theorem bound_map_act (body : List Action) : (body.map Job.act).flatMap Job.bound = [] := by
  induction body with
  | nil => rfl
  | cons action rest ih => exact ih

/-- Those who are to be called are those who came on the occasion. -/
theorem bound_map_call (signal : Nat) (outcome : Outcome) (listeners : List Listener) :
    (listeners.map (Job.call signal · outcome true)).flatMap Job.bound =
      (listeners.filter fun listener => listener.occasion.admits outcome).map
        (Incident.called signal · outcome true) := by
  induction listeners with
  | nil => rfl
  | cons listener rest ih =>
    rw [List.map_cons, List.flatMap_cons, ih]
    by_cases hAdmits : listener.occasion.admits outcome
    · simp [Job.bound, hAdmits]
    · simp [Job.bound, hAdmits]

/-- Nobody is bound to come. -/
theorem came?_of_mem_bound {jobs : List Job} {incident : Incident}
    (hMem : incident ∈ jobs.flatMap Job.bound) : incident.came? = none := by
  obtain ⟨job, -, hBound⟩ := List.mem_flatMap.mp hMem
  cases job with
  | act action => cases hBound
  | call other listener outcome waited =>
    simp only [Job.bound] at hBound
    split at hBound
    · rw [List.mem_singleton.mp hBound]
      rfl
    · cases hBound
  | finish action answer =>
    -- a call leaves a note at most, and that is no coming
    rw [List.mem_singleton.mp hBound]
    rfl

theorem comers_bound (jobs : List Job) : comers (jobs.flatMap Job.bound) = [] :=
  List.filterMap_eq_nil_iff.mpr fun _ => came?_of_mem_bound

theorem waiters_bound (signal : Nat) (jobs : List Job) :
    waiters signal (jobs.flatMap Job.bound) = [] := by
  refine List.filterMap_eq_nil_iff.mpr fun incident hMem => ?_
  have hCame := came?_of_mem_bound hMem
  cases incident with
  | came other listener found => cases hCame
  | called other listener outcome waited => rfl
  | done action answer => rfl

/-! ## What settling leads to -/

/-- What is bound to happen when an action settles a signal: those who waited for this outcome are called,
and then the action is through. -/
def settlement (action : Action) (signal : Nat) (outcome : Outcome) (waiting : List Listener) :
    List Incident :=
  (waiting.filter fun listener => listener.occasion.admits outcome).map
    (Incident.called signal · outcome true) ++ [.done action (.settled true)]

section Settlement

variable {action : Action} {signal : Nat} {outcome : Outcome}

/-- A settlement settles its own signal, and no other. -/
theorem settlings_settlement (hSettles : action.settles? = some (signal, outcome))
    (waiting : List Listener) (other : Nat) :
    settlings other (settlement action signal outcome waiting) =
      if signal = other then [outcome] else [] := by
  by_cases hEq : signal = other <;>
    simp [settlings, settlement, Incident.settled?, hSettles, hEq, Function.comp_def]

/-- A settlement releases those who waited for that signal, if the outcome is for them. -/
theorem released_settlement (waiting : List Listener) (other : Nat) :
    released other (settlement action signal outcome waiting) =
      if signal = other then due (some outcome) waiting else [] := by
  by_cases hEq : signal = other <;>
    simp [released, settlement, Incident.released?, due, hEq, Function.comp_def]

theorem waiters_settlement (waiting : List Listener) (other : Nat) :
    waiters other (settlement action signal outcome waiting) = [] := by
  simp [waiters, settlement, Incident.waiting?, Function.comp_def]

theorem comers_settlement (waiting : List Listener) :
    comers (settlement action signal outcome waiting) = [] := by
  simp [comers, settlement, Incident.came?, Function.comp_def]

theorem brought_settlement (hListens : action.listens? = none) (waiting : List Listener) :
    brought (settlement action signal outcome waiting) = [] := by
  simp [brought, settlement, Incident.listened?, hListens, Function.comp_def]

end Settlement

/-! ## The board -/

namespace Board

/-- Setting one signal leaves the outcomes of the others. -/
theorem outcome_set {board : Board} {signal : Nat} {state settled : Signal Listener}
    (hAt : board.signals[signal]? = some state) (other : Nat) :
    outcome ⟨board.signals.set signal settled⟩ other =
      if signal = other then settled.outcome else board.outcome other := by
  have hLt := (List.getElem?_eq_some_iff.mp hAt).1
  unfold outcome
  by_cases hEq : signal = other
  · subst hEq
    rw [List.getElem?_set_self hLt, if_pos rfl]
    rfl
  · rw [List.getElem?_set_ne hEq, if_neg hEq]

/-- A listener is enlisted with one signal, and the others are as they were. -/
theorem getElem?_enlist (board : Board) (signal : Nat) (listener : Listener) (other : Nat) :
    (board.enlist signal listener).signals[other]? =
      (board.signals[other]?).map fun state =>
        if signal = other then state.enlist listener else state := by
  unfold enlist
  rw [List.getElem?_modify]
  split <;> rfl

theorem length_enlist (board : Board) (signal : Nat) (listener : Listener) :
    (board.enlist signal listener).signals.length = board.signals.length :=
  List.length_modify ..

/-- Who waits does not settle anything. -/
theorem outcome_enlist (board : Board) (signal : Nat) (listener : Listener) (other : Nat) :
    (board.enlist signal listener).outcome other = board.outcome other := by
  unfold outcome
  rw [getElem?_enlist, Option.bind_map]
  congr 1
  funext state
  obtain ⟨found, waiting⟩ := state
  by_cases hEq : signal = other
  · cases found <;> simp [hEq, Signal.enlist]
  · simp [hEq]

/-- On a new board nothing is settled. -/
theorem outcome_ofCount (count signal : Nat) : (ofCount count).outcome signal = none := by
  unfold ofCount outcome
  rw [List.getElem?_replicate]
  split <;> rfl

end Board

/-! ## Each signal and its listeners -/

/-- How each signal stands with its listeners. -/
structure Kept (board : Board) (ledger : List Incident) : Prop where
  /-- Exactly one action settled a signal that has settled. -/
  settlings : ∀ signal, settlings signal ledger = (board.outcome signal).toList
  /-- Those who waited for it are called with its outcome, in the order in which they came. -/
  released : ∀ signal,
    released signal ledger = due (board.outcome signal) (waiters signal ledger)
  /-- As long as it is pending, they wait on the board. -/
  waiting : ∀ signal waiting, board.signals[signal]? = some ⟨none, waiting⟩ →
    waiting = waiters signal ledger
  /-- Those who found it settled found its outcome. -/
  found : ∀ signal listener outcome, .came signal listener (some outcome) ∈ ledger →
    board.outcome signal = some outcome
  /-- Whoever came was brought by an action. -/
  comers : (comers ledger).Perm (brought ledger)
  /-- No action that was to settle a signal on the board has left it pending. -/
  settled : ∀ action answer signal outcome, .done action answer ∈ ledger →
    action.settles? = some (signal, outcome) → signal < board.signals.length →
    board.outcome signal ≠ none

/-- What is put in between counts for itself, wherever it is put. -/
theorem perm_filterMap_insert {α : Type} {f g : Incident → Option α} {front block back : List Incident}
    (hAround : ((front ++ back).filterMap f).Perm ((front ++ back).filterMap g))
    (hBlock : (block.filterMap f).Perm (block.filterMap g)) :
    ((front ++ (block ++ back)).filterMap f).Perm ((front ++ (block ++ back)).filterMap g) := by
  simp only [List.filterMap_append] at hAround ⊢
  exact (List.perm_append_comm_assoc ..).trans
    ((hBlock.append hAround).trans (List.perm_append_comm_assoc ..))

/-- An incident is among those that are put in between, or it was there before. -/
theorem mem_insert {front block back : List Incident} {incident : Incident}
    (hMem : incident ∈ front ++ (block ++ back)) : incident ∈ block ∨ incident ∈ front ++ back := by
  simp only [List.mem_append] at hMem ⊢
  rcases hMem with hFront | hBlock | hBack
  · exact .inr (.inl hFront)
  · exact .inl hBlock
  · exact .inr (.inr hBack)

/-- What listens does not settle. -/
theorem settles?_of_listens {action : Action} {target : Nat × Listener}
    (hListens : action.listens? = some target) : action.settles? = none := by
  cases action <;> first | rfl | cases hListens

namespace Kept

variable {board : Board} {front back : List Incident} {signal : Nat} {outcome : Outcome}
  {listener : Listener} {action : Action} {answer : Answer}

/-- Incidents that settle nothing, and let nobody wait or be called after waiting, make no difference. -/
theorem insert (h : Kept board (front ++ back)) {block : List Incident}
    (hSettlings : ∀ signal, Signal.settlings signal block = [])
    (hReleased : ∀ signal, Signal.released signal block = [])
    (hWaiters : ∀ signal, waiters signal block = [])
    (hFound : ∀ signal listener outcome, .came signal listener (some outcome) ∈ block →
      board.outcome signal = some outcome)
    (hComers : (Signal.comers block).Perm (brought block))
    (hSettled : ∀ action answer signal outcome, .done action answer ∈ block →
      action.settles? = some (signal, outcome) → signal < board.signals.length →
      board.outcome signal ≠ none) :
    Kept board (front ++ (block ++ back)) := by
  -- what is put in between has no part in who waits
  have hSame : ∀ signal, waiters signal (front ++ (block ++ back)) = waiters signal (front ++ back) := by
    intro signal
    simp only [waiters_append, hWaiters, List.nil_append]
  refine ⟨fun signal => ?_, fun signal => ?_, fun signal waiting hAt => ?_,
    fun signal listener outcome hMem => ?_, perm_filterMap_insert h.comers hComers,
    fun action answer signal outcome hMem => ?_⟩
  · rw [← h.settlings]
    simp only [settlings_append, hSettlings, List.nil_append]
  · rw [hSame, ← h.released]
    simp only [released_append, hReleased, List.nil_append]
  · rw [hSame]
    exact h.waiting signal waiting hAt
  · rcases mem_insert hMem with hBlock | hAround
    · exact hFound signal listener outcome hBlock
    · exact h.found signal listener outcome hAround
  · rcases mem_insert hMem with hBlock | hAround
    · exact hSettled action answer signal outcome hBlock
    · exact h.settled action answer signal outcome hAround

/-! ### Actions without effect -/

/-- An action that is not the one settles nothing. -/
theorem settlings_done_of_ne (hAnswer : answer ≠ .settled true) (signal : Nat) :
    Signal.settlings signal [.done action answer] = [] := by
  refine List.filterMap_eq_nil_iff.mpr fun incident hMem => ?_
  rw [List.mem_singleton.mp hMem]
  unfold Incident.settled?
  split
  · rename_i hEq
    cases hEq
    exact absurd rfl hAnswer
  all_goals rfl

/-- What is done has brought the listener that the action names, if it names one. -/
theorem brought_done (action : Action) (answer : Answer) :
    brought [.done action answer] = action.listens?.toList := by
  unfold brought
  rw [List.filterMap_cons, Incident.listened?]
  cases action.listens? <;> rfl

/-- An action that has no effect makes no difference. -/
theorem idle (h : Kept board (front ++ back)) (hListens : action.listens? = none)
    (hAnswer : answer ≠ .settled true)
    (hSettled : ∀ signal outcome, action.settles? = some (signal, outcome) →
      signal < board.signals.length → board.outcome signal ≠ none) :
    Kept board (front ++ ([.done action answer] ++ back)) := by
  refine h.insert (settlings_done_of_ne hAnswer) (fun _ => rfl) (fun _ => rfl)
    (fun signal listener outcome hMem => ?_) ?_ (fun other given signal outcome hMem => ?_)
  · cases List.mem_singleton.mp hMem
  · rw [brought_done, hListens]
    exact .refl _
  · cases List.mem_singleton.mp hMem
    exact hSettled signal outcome

/-! ### Listeners that come -/

/-- A listener that comes late is called out of turn, if at all. -/
theorem come (h : Kept board (front ++ back)) (hListens : action.listens? = some (signal, listener))
    (hAnswer : answer ≠ .settled true) (hSettled : board.outcome signal = some outcome) :
    Kept board (front ++ ((.came signal listener (some outcome) ::
      (Job.call signal listener outcome false).bound ++ [.done action answer]) ++ back)) := by
  have hBrought : brought [.done action answer] = [(signal, listener)] := by
    rw [brought_done, hListens]
    rfl
  have hBound : (Job.call signal listener outcome false).bound =
      [.called signal listener outcome false] ∨
        (Job.call signal listener outcome false).bound = [] := by
    by_cases hAdmits : listener.occasion.admits outcome
    · exact .inl (if_pos hAdmits)
    · exact .inr (if_neg hAdmits)
  -- it makes no difference to those who waited whether the listener came on this occasion
  rcases hBound with hBound | hBound
  all_goals
    rw [hBound]
    refine h.insert (settlings_done_of_ne hAnswer) (fun _ => rfl) (fun _ => rfl)
      (fun other found late hMem => ?_) ?_ (fun other given target late hMem hSettles => ?_)
    · simp only [List.cons_append, List.nil_append, List.mem_cons, List.not_mem_nil, or_false,
        reduceCtorEq] at hMem
      cases hMem
      exact hSettled
    · show List.Perm [(signal, listener)] (brought [.done action answer])
      rw [hBrought]
    · simp only [List.cons_append, List.nil_append, List.mem_cons, List.not_mem_nil, or_false,
        false_or, reduceCtorEq] at hMem
      cases hMem
      rw [settles?_of_listens hListens] at hSettles
      cases hSettles

/-- A listener that comes to a pending signal waits behind the others. -/
theorem wait (h : Kept board (front ++ back)) (hBack : ∀ other, waiters other back = [])
    (hListens : action.listens? = some (signal, listener)) (hAnswer : answer ≠ .settled true)
    (hPending : board.outcome signal = none) :
    Kept (board.enlist signal listener)
      (front ++ ([.came signal listener none, .done action answer] ++ back)) := by
  have hSettlings : ∀ other, Signal.settlings other
      (front ++ ([.came signal listener none, .done action answer] ++ back)) =
        Signal.settlings other (front ++ back) := by
    intro other
    have hNone : Signal.settlings other [.came signal listener none, .done action answer] = [] :=
      settlings_done_of_ne hAnswer other
    simp only [settlings_append, hNone, List.nil_append]
  have hReleased : ∀ other, Signal.released other
      (front ++ ([.came signal listener none, .done action answer] ++ back)) =
        Signal.released other (front ++ back) := by
    intro other
    have hNone : Signal.released other [.came signal listener none, .done action answer] = [] := rfl
    simp only [released_append, hNone, List.nil_append]
  -- nobody came after the listener
  have hWaiters : ∀ other, waiters other
      (front ++ ([.came signal listener none, .done action answer] ++ back)) =
        waiters other (front ++ back) ++ if signal = other then [listener] else [] := by
    intro other
    have hCame : waiters other [.came signal listener none, .done action answer] =
        if signal = other then [listener] else [] := by
      by_cases hEq : signal = other <;> simp [waiters, Incident.waiting?, hEq]
    simp only [waiters_append, hCame, hBack, List.append_nil]
  refine ⟨fun other => ?_, fun other => ?_, fun other left hAt => ?_,
    fun other found outcome hMem => ?_, perm_filterMap_insert h.comers ?_,
    fun other given target late hMem hSettles hLt => ?_⟩
  · rw [hSettlings, board.outcome_enlist, h.settlings]
  · rw [hReleased, hWaiters, board.outcome_enlist, h.released]
    by_cases hEq : signal = other
    · rw [← hEq, hPending]
      rfl
    · rw [if_neg hEq, List.append_nil]
  · rw [board.getElem?_enlist] at hAt
    obtain ⟨⟨found, before⟩, hBefore, hEnlist⟩ := Option.map_eq_some_iff.mp hAt
    rw [hWaiters]
    by_cases hEq : signal = other
    · rw [if_pos hEq] at hEnlist ⊢
      cases found with
      | none =>
        rw [← h.waiting other before hBefore]
        cases hEnlist
        rfl
      -- no one is enlisted with a settled signal
      | some outcome => cases hEnlist
    · rw [if_neg hEq] at hEnlist ⊢
      cases hEnlist
      rw [List.append_nil]
      -- of the other signals the same ones wait as before
      exact h.waiting other left hBefore
  · rw [board.outcome_enlist]
    exact h.found other found outcome (by simpa using hMem)
  · show List.Perm [(signal, listener)] (brought [.done action answer])
    rw [brought_done, hListens]
    exact .refl _
  · rw [board.outcome_enlist]
    rw [board.length_enlist] at hLt
    rcases mem_insert hMem with hBlock | hAround
    · -- what listens has nothing to settle
      simp only [List.mem_cons, List.not_mem_nil, or_false, false_or, reduceCtorEq] at hBlock
      cases hBlock
      rw [settles?_of_listens hListens] at hSettles
      cases hSettles
    · exact h.settled other given target late hAround hSettles hLt

/-! ### Settling -/

/-- When a signal settles, those who waited for it are called next, and the action that settled it is the one
that did. -/
theorem settle (h : Kept board (front ++ back)) {waiting : List Listener}
    (hSettles : action.settles? = some (signal, outcome)) (hListens : action.listens? = none)
    (hPending : board.signals[signal]? = some ⟨none, waiting⟩) :
    Kept ⟨board.signals.set signal ⟨some outcome, []⟩⟩
      (front ++ (settlement action signal outcome waiting ++ back)) := by
  have hOutcome : board.outcome signal = none := by
    rw [Board.outcome, hPending]
    rfl
  -- a settlement tells of calls, and those are no waiting
  have hWaiters : ∀ other, waiters other (front ++ (settlement action signal outcome waiting ++ back)) =
      waiters other (front ++ back) := by
    intro other
    simp only [waiters_append, waiters_settlement, List.nil_append]
  refine ⟨fun other => ?_, fun other => ?_, fun other left hAt => ?_,
    fun other found late hMem => ?_, perm_filterMap_insert h.comers ?_,
    fun other given target late hMem hOther hLt => ?_⟩
  · have hBefore := h.settlings other
    rw [settlings_append] at hBefore
    rw [Board.outcome_set hPending]
    simp only [settlings_append, settlings_settlement hSettles]
    by_cases hEq : signal = other
    · -- no action had settled it before
      rw [← hEq, hOutcome, Option.toList_none, List.append_eq_nil_iff, hEq] at hBefore
      simp [hBefore.1, hBefore.2, hEq]
    · simpa [hEq] using hBefore
  · have hBefore := h.released other
    rw [released_append] at hBefore
    rw [Board.outcome_set hPending, hWaiters]
    simp only [released_append, released_settlement]
    by_cases hEq : signal = other
    · -- those who are called now are all who waited
      rw [← hEq, hOutcome, due, List.append_eq_nil_iff, hEq] at hBefore
      rw [hEq] at hPending
      rw [h.waiting other waiting hPending]
      simp [hBefore.1, hBefore.2, hEq]
    · simpa [hEq] using hBefore
  · -- nobody waits for the signal any more
    have hNe : signal ≠ other := by
      rintro rfl
      have hLt := (List.getElem?_eq_some_iff.mp hPending).1
      rw [List.getElem?_set_self hLt] at hAt
      cases hAt
    rw [List.getElem?_set_ne hNe] at hAt
    rw [hWaiters]
    exact h.waiting other left hAt
  · have hBefore : .came other found (some late) ∈ front ++ back := by
      simpa [settlement] using hMem
    have hFound := h.found other found late hBefore
    rw [Board.outcome_set hPending, if_neg]
    · exact hFound
    · -- nobody found it settled before
      rintro rfl
      rw [hOutcome] at hFound
      cases hFound
  · exact .of_eq ((comers_settlement ..).trans (brought_settlement hListens ..).symm)
  · rw [Board.outcome_set hPending]
    rw [List.length_set] at hLt
    by_cases hEq : signal = target
    · rw [if_pos hEq]
      exact Option.some_ne_none outcome
    · rw [if_neg hEq]
      rcases mem_insert hMem with hBlock | hAround
      · -- the action that is through now settles its own signal
        have hAction : other = action := by
          simp only [settlement, List.mem_append, List.mem_map, List.mem_singleton, reduceCtorEq,
            and_false, exists_false, false_or, Incident.done.injEq] at hBlock
          exact hBlock.1
        rw [hAction, hSettles, Option.some.injEq] at hOther
        exact absurd (Prod.mk.inj hOther).1 hEq
      · exact h.settled other given target late hAround hOther hLt

end Kept

end Dialogue.Signal
