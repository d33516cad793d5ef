import Dialogue.Signal.Board
import Mathlib.Logic.Function.Iterate

/-!
# The work on a board, step by step

`Board.run` does all that an action sets off, and says in the end what was noted. A `Desk` does the same work
one step at a time, and its journal tells more: when a listener comes to a signal, and for which signal it
is called. Forgetting this leads back to `Board.run`, and every step takes some weight off the desk, so the
work ends.

Main results:

* `Signal.Desk.step_next` — what a step can do.
* `Signal.Desk.result_next` — no step changes what the work comes to.
* `Signal.Desk.exists_cleared` — the work in front is done before the work behind it begins, and it is done
  after no more steps than it weighs.
* `Signal.Desk.exists_through` — so actions are carried out one by one, each with all that it sets off.
-/

namespace Dialogue.Signal

/-! ## Incidents -/

/-- The signal that an action settles, and how. -/
def Action.settles? : Action → Option (Nat × Outcome)
  | resolve signal => some (signal, .resolved)
  | reject signal => some (signal, .abandoned)
  | settle signal outcome => some (signal, outcome)
  | inspect _ | describe _ | listen .. => none

/-- The signal that an action listens to, and the listener. -/
def Action.listens? : Action → Option (Nat × Listener)
  | listen signal occasion id body => some (signal, ⟨occasion, id, body⟩)
  | resolve _ | reject _ | settle .. | inspect _ | describe _ => none

/-- What happens while actions are carried out. -/
inductive Incident where
  /-- A listener comes to a signal, and finds it pending or settled. -/
  | came (signal : Nat) (listener : Listener) (found : Option Outcome)
  /-- A listener is called, after it waited for the signal or when it comes. -/
  | called (signal : Nat) (listener : Listener) (outcome : Outcome) (waited : Bool)
  /-- An action is through, with all that it set off. -/
  | done (action : Action) (answer : Answer)

/-- What is noted of an incident. -/
def Incident.note? : Incident → Option Note
  | came .. => none
  | called _ listener outcome _ =>
    (Notice.of? listener.id listener.occasion outcome).map Note.called
  | done action answer => some (.done action answer)

/-- Whoever is called on an occasion has something to note, and nobody else. -/
theorem isSome_noticeOf? (id : String) (occasion : Occasion) (outcome : Outcome) :
    (Notice.of? id occasion outcome).isSome = occasion.admits outcome := by
  cases occasion <;> cases outcome <;> rfl

/-! ## Jobs -/

/-- A piece of the work at hand, with the signal that it is about. -/
inductive Job where
  | act (action : Action)
  | call (signal : Nat) (listener : Listener) (outcome : Outcome) (waited : Bool)
  | finish (action : Action) (answer : Answer)

/-- The task that a job is. -/
def Job.task : Job → Task
  | act action => .act action
  | call _ listener outcome _ => .call listener outcome
  | finish action answer => .note (.done action answer)

namespace Board

/-- The calls of those who waited for a signal, if it settles now. -/
def release (board : Board) (signal : Nat) (outcome : Outcome) : List Job :=
  match board.settle? signal outcome with
  | some (waiting, _) => waiting.map (Job.call signal · outcome true)
  | none => []

/-- The calls that an action sets off. -/
def summons (board : Board) : Action → List Job
  | .resolve signal => board.release signal .resolved
  | .reject signal => board.release signal .abandoned
  | .settle signal outcome => board.release signal outcome
  | .inspect _ | .describe _ => []
  | .listen signal occasion id body =>
    match board.outcome signal with
    | some outcome => [.call signal ⟨occasion, id, body⟩ outcome false]
    | none => []

/-- What happens with an action at once: a listener comes. -/
def arrivals (board : Board) : Action → List Incident
  | .listen signal occasion id body =>
    [.came signal ⟨occasion, id, body⟩ (board.outcome signal)]
  | .resolve _ | .reject _ | .settle .. | .inspect _ | .describe _ => []

/-- What a settlement puts on the desk are the tasks that it gives to the board. -/
theorem task_release (board : Board) (signal : Nat) (outcome : Outcome) :
    (board.release signal outcome).map Job.task = (board.settle signal outcome).1 := by
  unfold release settle
  cases board.settle? signal outcome with
  | none => rfl
  | some found => exact List.map_map

/-- The jobs that an action summons do the tasks that it gives. -/
theorem task_summons (board : Board) (action : Action) :
    (board.summons action).map Job.task = (board.act action).1 := by
  cases action with
  | resolve signal => exact board.task_release signal .resolved
  | reject signal => exact board.task_release signal .abandoned
  | settle signal outcome => exact board.task_release signal outcome
  | inspect signal => rfl
  | describe signal => rfl
  | listen signal occasion id body =>
    simp only [summons, act]
    cases board.outcome signal <;> rfl

theorem note?_arrivals (board : Board) (action : Action) :
    (board.arrivals action).filterMap Incident.note? = [] := by
  cases action <;> rfl

end Board

/-! ## The desk -/

/-- A board with the work at hand, the first job first, and all that happened so far. -/
structure Desk where
  board : Board
  jobs : List Job
  journal : List Incident

namespace Desk

/-- Pending signals and actions to carry out. -/
def opening (count : Nat) (program : List Action) : Desk := ⟨.ofCount count, program.map .act, []⟩

/-- One step of the work. -/
def next (desk : Desk) : Desk :=
  match desk.jobs with
  | [] => desk
  | .act action :: rest =>
    { board := (desk.board.act action).2
      jobs := desk.board.summons action ++ .finish action (desk.board.answer action) :: rest
      journal := desk.journal ++ desk.board.arrivals action }
  | .call signal listener outcome waited :: rest =>
    if listener.occasion.admits outcome then
      { desk with
        jobs := listener.body.map .act ++ rest
        journal := desk.journal ++ [.called signal listener outcome waited] }
    else { desk with jobs := rest }
  | .finish action answer :: rest =>
    { desk with jobs := rest, journal := desk.journal ++ [.done action answer] }

/-- The desk after a number of steps. -/
def after (desk : Desk) (moment : Nat) : Desk := next^[moment] desk

theorem after_succ (desk : Desk) (moment : Nat) : desk.after (moment + 1) = (desk.after moment).next :=
  Function.iterate_succ_apply' ..

/-- Moments can be counted from any moment. -/
theorem after_add (desk : Desk) (moment more : Nat) :
    desk.after (moment + more) = (desk.after moment).after more := by
  unfold after
  rw [Nat.add_comm, Function.iterate_add_apply]

/-- What holds at first and is kept by every step holds at any moment. -/
theorem after_induction {P : Desk → Prop} (hNext : ∀ desk, P desk → P desk.next) {desk : Desk}
    (hFirst : P desk) (moment : Nat) : P (desk.after moment) := by
  induction moment with
  | zero => exact hFirst
  | succ moment ih =>
    rw [after_succ]
    exact hNext _ ih

/-! ## What a step can do -/

/-- All that a step can do, with what it depends on. -/
inductive Step : Desk → Desk → Prop where
  /-- A signal settles, and those who waited are to be called. -/
  | settles {board : Board} {action : Action} {signal : Nat} {outcome : Outcome}
      {waiting : List Listener} {rest : List Job} {journal : List Incident}
      (hSettles : action.settles? = some (signal, outcome)) (hListens : action.listens? = none)
      (hPending : board.signals[signal]? = some ⟨none, waiting⟩) :
      Step ⟨board, .act action :: rest, journal⟩
        ⟨⟨board.signals.set signal ⟨some outcome, []⟩⟩,
          waiting.map (.call signal · outcome true) ++ .finish action (.settled true) :: rest, journal⟩
  /-- An action has no effect on the board: if it was to settle a signal there, that one has settled. -/
  | idles {board : Board} {action : Action} {answer : Answer} {rest : List Job}
      {journal : List Incident} (hListens : action.listens? = none)
      (hAnswer : answer ≠ .settled true)
      (hSettled : ∀ signal outcome, action.settles? = some (signal, outcome) →
        signal < board.signals.length → board.outcome signal ≠ none) :
      Step ⟨board, .act action :: rest, journal⟩ ⟨board, .finish action answer :: rest, journal⟩
  /-- A listener waits for a signal. -/
  | waits {board : Board} {signal : Nat} {occasion : Occasion} {id : String} {body : List Action}
      {rest : List Job} {journal : List Incident} (hPending : board.outcome signal = none) :
      Step ⟨board, .act (.listen signal occasion id body) :: rest, journal⟩
        ⟨board.enlist signal ⟨occasion, id, body⟩,
          .finish (.listen signal occasion id body) .nothing :: rest,
          journal ++ [.came signal ⟨occasion, id, body⟩ none]⟩
  /-- A listener comes to a signal that has settled, and is to be called at once. -/
  | comes {board : Board} {signal : Nat} {occasion : Occasion} {id : String} {body : List Action}
      {outcome : Outcome} {rest : List Job} {journal : List Incident}
      (hSettled : board.outcome signal = some outcome) :
      Step ⟨board, .act (.listen signal occasion id body) :: rest, journal⟩
        ⟨board, .call signal ⟨occasion, id, body⟩ outcome false ::
          .finish (.listen signal occasion id body) .nothing :: rest,
          journal ++ [.came signal ⟨occasion, id, body⟩ (some outcome)]⟩
  /-- A listener is called, and its actions are to be carried out. -/
  | calls {board : Board} {signal : Nat} {listener : Listener} {outcome : Outcome} {waited : Bool}
      {rest : List Job} {journal : List Incident}
      (hAdmits : listener.occasion.admits outcome = true) :
      Step ⟨board, .call signal listener outcome waited :: rest, journal⟩
        ⟨board, listener.body.map .act ++ rest, journal ++ [.called signal listener outcome waited]⟩
  /-- A listener that came on another occasion is passed over. -/
  | passes {board : Board} {signal : Nat} {listener : Listener} {outcome : Outcome} {waited : Bool}
      {rest : List Job} {journal : List Incident}
      (hOther : listener.occasion.admits outcome = false) :
      Step ⟨board, .call signal listener outcome waited :: rest, journal⟩ ⟨board, rest, journal⟩
  /-- An action is through. -/
  | finishes {board : Board} {action : Action} {answer : Answer} {rest : List Job}
      {journal : List Incident} :
      Step ⟨board, .finish action answer :: rest, journal⟩
        ⟨board, rest, journal ++ [.done action answer]⟩

end Desk

namespace Board

/-- A signal settles once: it is pending and its listeners are handed out, or it has settled, or it is not
on the board, and nothing changes. -/
theorem settle?_cases (board : Board) (signal : Nat) (outcome : Outcome) :
    (∃ waiting, board.signals[signal]? = some ⟨none, waiting⟩ ∧
      board.settle? signal outcome =
        some (waiting, ⟨board.signals.set signal ⟨some outcome, []⟩⟩)) ∨
      (board.settle? signal outcome = none ∧
        (signal < board.signals.length → board.outcome signal ≠ none)) := by
  unfold settle? Board.outcome
  cases hAt : board.signals[signal]? with
  | none =>
    refine .inr ⟨rfl, fun hLt => ?_⟩
    exact absurd (List.getElem?_eq_none_iff.mp hAt) (Nat.not_le_of_lt hLt)
  | some state =>
    obtain ⟨found, waiting⟩ := state
    cases found with
    -- pending, so that it is settled with all who wait
    | none => exact .inl ⟨waiting, rfl, rfl⟩
    | some settled => exact .inr ⟨rfl, fun _ => Option.some_ne_none settled⟩

/-- What an action does that is to settle a signal. -/
theorem settles_cases (board : Board) {action : Action} {signal : Nat} {outcome : Outcome}
    (hSettles : action.settles? = some (signal, outcome)) :
    board.summons action = board.release signal outcome ∧
      (board.act action).2 = (board.settle signal outcome).2 ∧
      board.answer action = .settled (board.settle? signal outcome).isSome ∧
      board.arrivals action = [] ∧ action.listens? = none := by
  cases action <;> cases hSettles <;> exact ⟨rfl, rfl, rfl, rfl, rfl⟩

end Board

namespace Desk

/-- A desk with an action on top makes one of the steps. -/
theorem step_act (board : Board) (action : Action) (rest : List Job) (journal : List Incident) :
    Step ⟨board, .act action :: rest, journal⟩ (next ⟨board, .act action :: rest, journal⟩) := by
  show Step _ ⟨(board.act action).2,
    board.summons action ++ .finish action (board.answer action) :: rest,
    journal ++ board.arrivals action⟩
  cases hSettles : action.settles? with
  | some target =>
    obtain ⟨signal, outcome⟩ := target
    obtain ⟨hSummons, hAct, hAnswer, hArrivals, hListens⟩ := board.settles_cases hSettles
    rw [hSummons, hAct, hAnswer, hArrivals, List.append_nil]
    -- either the signal is pending, and this settles it, or the action finds nothing to do
    unfold Board.release Board.settle
    rcases board.settle?_cases signal outcome with ⟨waiting, hPending, hSettle⟩ | ⟨hNone, hSettled⟩
    · rw [hSettle]
      exact .settles hSettles hListens hPending
    · rw [hNone]
      refine .idles hListens (by decide) fun other _ hOther => ?_
      -- an action settles one signal at most
      obtain ⟨rfl, -⟩ := Prod.mk.inj (Option.some.inj (hSettles.symm.trans hOther))
      exact hSettled
  | none =>
    cases action with
    | resolve signal => cases hSettles
    | reject signal => cases hSettles
    | settle signal outcome => cases hSettles
    | inspect signal =>
      rw [Board.arrivals, List.append_nil]
      exact .idles rfl nofun nofun
    | describe signal =>
      rw [Board.arrivals, List.append_nil]
      exact .idles rfl nofun nofun
    | listen signal occasion id body =>
      simp only [Board.summons, Board.act, Board.arrivals]
      cases hFound : board.outcome signal with
      | none => exact .waits hFound
      | some outcome => exact .comes hFound

/-- As long as there is work, a step is one of these. -/
theorem step_next {desk : Desk} (hWork : desk.jobs ≠ []) : Step desk desk.next := by
  obtain ⟨board, jobs, journal⟩ := desk
  cases jobs with
  | nil => exact absurd rfl hWork
  | cons job rest =>
    cases job with
    | act action => exact step_act board action rest journal
    | call signal listener outcome waited =>
      unfold next
      cases hAdmits : listener.occasion.admits outcome with
      | true => simpa [hAdmits] using Step.calls hAdmits
      | false => simpa [hAdmits] using Step.passes hAdmits
    | finish action answer => exact .finishes

/-- Without jobs nothing happens. -/
theorem next_of_idle {desk : Desk} (hIdle : desk.jobs = []) : desk.next = desk := by
  unfold next
  rw [hIdle]

/-- What every step that there can be keeps is kept. -/
theorem next_of_step {P : Desk → Prop} (hStep : ∀ desk later, Step desk later → P desk → P later)
    (desk : Desk) (h : P desk) : P desk.next := by
  by_cases hIdle : desk.jobs = []
  · rw [next_of_idle hIdle]
    exact h
  · exact hStep _ _ (step_next hIdle) h

/-! ## What the work comes to -/

/-- All notes in the end, and the board. -/
def result (desk : Desk) : List Note × Board :=
  (desk.journal.filterMap Incident.note? ++ (desk.board.run (desk.jobs.map Job.task)).1,
    (desk.board.run (desk.jobs.map Job.task)).2)

/-- No step changes what the work comes to. -/
theorem result_next (desk : Desk) : desk.next.result = desk.result := by
  obtain ⟨board, jobs, journal⟩ := desk
  cases jobs with
  | nil => rfl
  | cons job rest =>
    cases job with
    | act action =>
      -- the calls stand before the note of the action
      have hRun : board.run ((Job.act action :: rest).map Job.task) =
          (board.act action).2.run ((board.summons action ++
            .finish action (board.answer action) :: rest).map Job.task) := by
        rw [List.map_append, Board.task_summons, List.map_cons, Job.task, Board.run]
        rfl
      have hNotes := board.note?_arrivals action
      unfold result
      rw [hRun]
      simp [next, hNotes]
    | call signal listener outcome waited =>
      have hNoted := isSome_noticeOf? listener.id listener.occasion outcome
      have hRun : board.run ((Job.call signal listener outcome waited :: rest).map Job.task) =
          board.run (Board.calls listener outcome ++ rest.map Job.task) := by
        rw [List.map_cons, Job.task, Board.run]
      unfold result
      rw [hRun]
      unfold Board.calls
      cases hNotice : Notice.of? listener.id listener.occasion outcome with
      | none =>
        rw [hNotice] at hNoted
        simp [next, ← hNoted]
      | some notice =>
        -- the notice is noted, and the actions of the listener come next
        rw [hNotice] at hNoted
        have hBody : (listener.body.map Job.act).map Job.task = listener.body.map Task.act := by
          rw [List.map_map]
          rfl
        simp [next, ← hNoted, Incident.note?, hNotice, Board.run, hBody]
    | finish action answer =>
      simp [result, next, Job.task, Incident.note?, Board.run]

/-- A desk has the same result at all times. -/
theorem result_after (desk : Desk) (moment : Nat) : (desk.after moment).result = desk.result :=
  after_induction (P := fun later => later.result = desk.result)
    (fun later h => later.result_next.trans h) rfl moment

/-- Where no work is left, all has been noted. -/
theorem result_of_idle {desk : Desk} (hIdle : desk.jobs = []) :
    desk.result = (desk.journal.filterMap Incident.note?, desk.board) := by
  rw [result, hIdle, List.map_nil, Board.run, List.append_nil]

/-! ## The work ends -/

/-- The number of steps that the work can take. -/
def weight (desk : Desk) : Nat :=
  Task.totalWeight (desk.jobs.map Job.task) + Board.waitingWeight desk.board.signals

/-- The actions of a listener weigh on the desk what they weigh by themselves. -/
theorem totalWeight_map_act (body : List Action) :
    Task.totalWeight ((body.map Job.act).map Job.task) = Action.totalWeight body := by
  rw [List.map_map]
  exact Task.totalWeight_map_act body

/-- Every step takes some weight off the desk. -/
theorem weight_next {desk : Desk} (hWork : desk.jobs ≠ []) : desk.next.weight < desk.weight := by
  obtain ⟨board, jobs, journal⟩ := desk
  cases jobs with
  | nil => exact absurd rfl hWork
  | cons job rest =>
    unfold weight
    rw [List.map_cons, Task.totalWeight_cons]
    cases job with
    | act action =>
      have hAct := board.weight_act action
      rw [← Board.task_summons] at hAct
      simp only [next, List.map_append, List.map_cons, Task.totalWeight_append,
        Task.totalWeight_cons, Job.task, Task.weight]
      omega
    | call signal listener outcome waited =>
      have hListener : (Job.call signal listener outcome waited).task.weight =
        2 + Action.totalWeight listener.body := rfl
      rw [hListener]
      unfold next
      simp only
      -- a call makes room for the actions of the listener, or for nothing
      split
      · rw [List.map_append, Task.totalWeight_append, totalWeight_map_act]
        simp only
        omega
      · simp only
        omega
    | finish action answer =>
      simp only [next, Job.task, Task.weight]
      omega

/-- The desk with more work behind the work at hand. -/
def withLater (desk : Desk) (later : List Job) : Desk := { desk with jobs := desk.jobs ++ later }

/-- A step takes what is in front. -/
theorem next_withLater {desk : Desk} (hWork : desk.jobs ≠ []) (later : List Job) :
    (desk.withLater later).next = desk.next.withLater later := by
  obtain ⟨board, jobs, journal⟩ := desk
  cases jobs with
  | nil => exact absurd rfl hWork
  | cons job rest =>
    cases job with
    | act action => simp [next, withLater]
    | call signal listener outcome waited =>
      -- what is put on top does not depend on what lies underneath
      by_cases hAdmits : listener.occasion.admits outcome
      · simp [next, withLater, hAdmits]
      · simp [next, withLater, hAdmits]
    | finish action answer => simp [next, withLater]

/-- The work in front is done before the work behind it begins, in no more steps than it weighs. -/
theorem exists_cleared (desk : Desk) : ∃ moment ≤ desk.weight, (desk.after moment).jobs = [] ∧
    ∀ later, (desk.withLater later).after moment = (desk.after moment).withLater later := by
  induction hWeight : desk.weight using Nat.strongRecOn generalizing desk with
  | ind weight ih =>
    by_cases hIdle : desk.jobs = []
    · exact ⟨0, Nat.zero_le _, hIdle, fun _ => rfl⟩
    · -- one job less to do, and then as for a lighter desk
      have hFalls := weight_next hIdle
      obtain ⟨moment, hMoment, hDone, hLater⟩ := ih _ (hWeight ▸ hFalls) desk.next rfl
      refine ⟨moment + 1, by omega, hDone, fun later => ?_⟩
      show (desk.withLater later).next.after moment = _
      rw [next_withLater hIdle, hLater]
      rfl

end Desk

/-! ## One action after the other -/

namespace Board

/-- Carries out actions one after the other, each with all that it sets off. -/
def performAll (board : Board) : List Action → List Note × Board
  | [] => ([], board)
  | action :: rest =>
    let (answer, notes, next) := board.perform action
    let (others, last) := performAll next rest
    (notes ++ .done action answer :: others, last)

/-- Tasks are worked off one after the other. -/
theorem run_append (board : Board) (tasks more : List Task) :
    board.run (tasks ++ more) =
      ((board.run tasks).1 ++ ((board.run tasks).2.run more).1, ((board.run tasks).2.run more).2) := by
  fun_induction run board tasks with
  | case1 board => simp
  | case2 board note rest notes last hRun ih =>
    rw [List.cons_append, run, ih, hRun]
    rfl
  | case3 board action rest ih =>
    rw [List.cons_append, run, ← ih, List.append_assoc, List.cons_append]
  | case4 board listener outcome rest ih =>
    rw [List.cons_append, run, ← ih, List.append_assoc]

/-- Carrying out actions one after the other is working them off. -/
theorem performAll_eq_run (board : Board) (program : List Action) :
    board.performAll program = board.run (program.map .act) := by
  induction program generalizing board with
  | nil => rw [performAll, List.map_nil, run]
  | cons action rest ih =>
    rw [List.map_cons, run, run_append, run, performAll, perform]
    simp only [ih]

end Board

namespace Desk

/-- Actions are carried out one after the other, whatever comes behind them. -/
theorem opening_append (count : Nat) (earlier later : List Action) :
    opening count (earlier ++ later) = (opening count earlier).withLater (later.map .act) := by
  unfold opening withLater
  rw [List.map_append]

/-- At first the desk weighs what the program weighs. -/
theorem weight_opening (count : Nat) (program : List Action) :
    (opening count program).weight = Action.totalWeight program := by
  have hFresh : Board.waitingWeight (Board.ofCount count).signals = 0 := by
    unfold Board.ofCount Board.waitingWeight
    induction count with
    | zero => rfl
    | succ count ih => simpa [List.replicate_succ, fresh] using ih
  unfold weight
  rw [opening, totalWeight_map_act, hFresh, Nat.add_zero]

/-- What comes out of the desk of a program is what performing the program gives. -/
theorem result_opening (count : Nat) (program : List Action) :
    (opening count program).result = (Board.ofCount count).performAll program := by
  have hTasks : (program.map Job.act).map Job.task = program.map Task.act := by
    rw [List.map_map]
    rfl
  unfold result
  rw [Board.performAll_eq_run, opening, hTasks]
  rfl

/-- There is a moment when the first actions are through, with all that they set off, and the others have
not begun. -/
theorem exists_through (count : Nat) (earlier later : List Action) :
    ∃ moment ≤ Action.totalWeight earlier,
      ((opening count (earlier ++ later)).after moment).jobs = later.map .act ∧
      (((opening count (earlier ++ later)).after moment).journal.filterMap Incident.note?,
        ((opening count (earlier ++ later)).after moment).board) =
          (Board.ofCount count).performAll earlier := by
  obtain ⟨moment, hMoment, hDone, hLater⟩ := (opening count earlier).exists_cleared
  rw [weight_opening] at hMoment
  refine ⟨moment, hMoment, ?_, ?_⟩
  · rw [opening_append, hLater, withLater, hDone, List.nil_append]
  · rw [opening_append, hLater, ← result_opening, ← result_after _ moment, result_of_idle hDone]
    rfl

/-- After as many steps as a program weighs, nothing is left of it. -/
theorem jobs_after_totalWeight (count : Nat) (program : List Action) :
    ((opening count program).after (Action.totalWeight program)).jobs = [] := by
  obtain ⟨moment, hMoment, hDone, -⟩ := (opening count program).exists_cleared
  rw [weight_opening] at hMoment
  obtain ⟨more, hMore⟩ := Nat.exists_eq_add_of_le hMoment
  rw [hMore, after_add]
  exact after_induction (P := fun later => later.jobs = [])
    (fun later h => (next_of_idle h).symm ▸ h) hDone more

end Desk

end Dialogue.Signal
