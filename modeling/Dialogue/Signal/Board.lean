import Dialogue.Sequence
import Dialogue.Signal.Basic

/-!
# Boards of signals

On a `Board` several signals stand side by side, and a listener may itself act on them: it may
settle a signal, listen to one, or look at one. `Board.perform` carries out one action together with
everything that it sets off, in order, and collects the notes made on the way: one for each listener
called, and one for each action of a listener once it is through.

It comes to an end because every action is carried out once: `Task.weight` counts the actions that
are left, in the work at hand and in the listeners that still wait.
-/

namespace Dialogue.Signal

/-- Something done to the signal with a number. -/
inductive Action where
  | resolve (signal : Nat)
  | reject (signal : Nat)
  | settle (signal : Nat) (outcome : Outcome)
  /-- Looks at the signal. -/
  | inspect (signal : Nat)
  /-- Writes the signal out. -/
  | describe (signal : Nat)
  /-- Calls a listener when the signal has settled; the listener then carries out `body`. -/
  | listen (signal : Nat) (occasion : Occasion) (id : String) (body : List Action)

namespace Action

/-- The signal acted on. -/
def signal : Action → Nat
  | resolve signal | reject signal | settle signal _ => signal
  | inspect signal | describe signal => signal
  | listen signal .. => signal

end Action

/-- A listener with the actions that it carries out when called. -/
structure Listener where
  occasion : Occasion
  id : String
  body : List Action

/-- What an action gives back. -/
inductive Answer where
  | nothing
  /-- Whether this action settled the signal. -/
  | settled (first : Bool)
  | state (outcome : Option Outcome)
  | description (outcome : Option Outcome)
deriving DecidableEq

/-- What is noted while an action is carried out. -/
inductive Note where
  | called (notice : Notice)
  | done (action : Action) (answer : Answer)

/-- Signals numbered from zero. -/
structure Board where
  signals : List (Signal Listener)

/-! ## Weights -/

mutual

/-- The number of steps that an action and the listener in it can take. -/
def Action.weight : Action → Nat
  | .resolve _ | .reject _ | .settle .. | .inspect _ | .describe _ => 2
  | .listen _ _ _ body => 4 + Action.totalWeight body

/-- The number of steps in a list of actions. -/
def Action.totalWeight : List Action → Nat
  | [] => 0
  | action :: rest => Action.weight action + Action.totalWeight rest

end

/-- The number of steps in calling a listener. -/
def Listener.weight (listener : Listener) : Nat := 2 + Action.totalWeight listener.body

/-- A piece of the work at hand. -/
inductive Task where
  | act (action : Action)
  | call (listener : Listener) (outcome : Outcome)
  | note (note : Note)

namespace Task

def weight : Task → Nat
  | act action => action.weight
  | call listener _ => listener.weight
  | note _ => 1

/-- The number of steps in the work at hand. -/
def totalWeight (tasks : List Task) : Nat := total weight tasks

end Task

namespace Board

/-- `count` pending signals. -/
def ofCount (count : Nat) : Board := ⟨List.replicate count .fresh⟩

/-- The state of a signal; one that is not on the board stays pending. -/
def outcome (board : Board) (signal : Nat) : Option Outcome :=
  (board.signals[signal]?).bind Signal.outcome

/-- The number of steps in the listeners that wait for a signal. -/
def waitingWeight (signals : List (Signal Listener)) : Nat :=
  total (fun signal => total Listener.weight signal.waiting) signals

/-- The board after a signal has settled, and the listeners to call; nothing if it had before. -/
def settle? (board : Board) (signal : Nat) (outcome : Outcome) :
    Option (List Listener × Board) :=
  match board.signals[signal]? with
  | none => none
  | some state =>
    (state.settle? outcome).map fun (called, settled) =>
      (called, ⟨board.signals.set signal settled⟩)

/-- The board with one more listener waiting for a signal. -/
def enlist (board : Board) (signal : Nat) (listener : Listener) : Board :=
  ⟨board.signals.modify signal (·.enlist listener)⟩

/-! ## Carrying out -/

/-- What an action gives back, seen from the board before it. -/
def answer (board : Board) : Action → Answer
  | .resolve signal => .settled (board.settle? signal .resolved).isSome
  | .reject signal => .settled (board.settle? signal .abandoned).isSome
  | .settle signal outcome => .settled (board.settle? signal outcome).isSome
  | .inspect signal => .state (board.outcome signal)
  | .describe signal => .description (board.outcome signal)
  | .listen .. => .nothing

/-- The board after settling a signal, and the calls that follow. -/
def settle (board : Board) (signal : Nat) (outcome : Outcome) : List Task × Board :=
  match board.settle? signal outcome with
  | some (called, settled) => (called.map (Task.call · outcome), settled)
  | none => ([], board)

/-- The board after an action, and the calls that follow at once. -/
def act (board : Board) : Action → List Task × Board
  | .resolve signal => board.settle signal .resolved
  | .reject signal => board.settle signal .abandoned
  | .settle signal outcome => board.settle signal outcome
  | .inspect _ | .describe _ => ([], board)
  | .listen signal occasion id body =>
    match board.outcome signal with
    | some outcome => ([.call ⟨occasion, id, body⟩ outcome], board)
    | none => ([], board.enlist signal ⟨occasion, id, body⟩)

/-- The tasks of a listener that hears an outcome. -/
def calls (listener : Listener) (outcome : Outcome) : List Task :=
  match Notice.of? listener.id listener.occasion outcome with
  | some notice => .note (.called notice) :: listener.body.map .act
  | none => []

end Board

/-! ## The weight falls -/

namespace Task

@[simp] theorem totalWeight_nil : totalWeight [] = 0 := rfl

@[simp] theorem totalWeight_cons (task : Task) (tasks : List Task) :
    totalWeight (task :: tasks) = task.weight + totalWeight tasks := rfl

@[simp] theorem totalWeight_append (xs ys : List Task) :
    totalWeight (xs ++ ys) = totalWeight xs + totalWeight ys := by
  simp [totalWeight]

theorem totalWeight_map_act (body : List Action) :
    totalWeight (body.map .act) = Action.totalWeight body := by
  induction body with
  | nil => rfl
  | cons action rest ih => simp [ih, weight, Action.totalWeight]

theorem totalWeight_map_call (called : List Listener) (outcome : Outcome) :
    totalWeight (called.map (Task.call · outcome)) = total Listener.weight called := by
  induction called with
  | nil => rfl
  | cons listener rest ih => simp [ih, weight]

end Task

namespace Board

theorem waitingWeight_modify {signals : List (Signal Listener)} {position extra : Nat}
    {f : Signal Listener → Signal Listener}
    (hf : ∀ signal, total Listener.weight (f signal).waiting ≤
      total Listener.weight signal.waiting + extra) :
    waitingWeight (signals.modify position f) ≤ waitingWeight signals + extra := by
  induction signals generalizing position with
  | nil => simp [waitingWeight]
  | cons signal rest ih =>
    cases position with
    | zero =>
      have := hf signal
      simp only [waitingWeight, List.modify_zero_cons, total_cons]
      omega
    | succ position =>
      have := @ih position
      simp only [waitingWeight, List.modify_succ_cons, total_cons] at this ⊢
      omega

theorem waitingWeight_set {signals : List (Signal Listener)} {position : Nat}
    {signal settled : Signal Listener} (hAt : signals[position]? = some signal) :
    waitingWeight (signals.set position settled) + total Listener.weight signal.waiting =
      waitingWeight signals + total Listener.weight settled.waiting := by
  induction signals generalizing position with
  | nil => simp at hAt
  | cons first rest ih =>
    cases position with
    | zero =>
      simp only [List.getElem?_cons_zero, Option.some.injEq] at hAt
      subst hAt
      simp only [waitingWeight, List.set_cons_zero, total_cons]
      omega
    | succ position =>
      simp only [List.getElem?_cons_succ] at hAt
      have := ih hAt
      simp only [waitingWeight, List.set_cons_succ, total_cons] at this ⊢
      omega

theorem waitingWeight_enlist (board : Board) (signal : Nat) (listener : Listener) :
    waitingWeight (board.enlist signal listener).signals ≤
      waitingWeight board.signals + listener.weight := by
  refine waitingWeight_modify fun state => ?_
  unfold Signal.enlist
  split
  · simp
  · omega

/-- Settling moves the weight of the listeners from the board to the calls. -/
theorem waitingWeight_settle? {board settled : Board} {signal : Nat} {outcome : Outcome}
    {called : List Listener} (h : board.settle? signal outcome = some (called, settled)) :
    waitingWeight settled.signals + total Listener.weight called =
      waitingWeight board.signals := by
  unfold settle? at h
  split at h
  · simp at h
  · rename_i state hAt
    obtain ⟨⟨released, after⟩, hSettle, hEq⟩ := Option.map_eq_some_iff.mp h
    simp only [Prod.mk.injEq] at hEq
    obtain ⟨rfl, rfl⟩ := hEq
    unfold Signal.settle? at hSettle
    split at hSettle
    · -- no listener stays behind on a signal that settles
      simp only [Option.some.injEq, Prod.mk.injEq] at hSettle
      obtain ⟨rfl, rfl⟩ := hSettle
      have hSum : waitingWeight (board.signals.set signal ⟨some outcome, []⟩) + _ = _ :=
        waitingWeight_set hAt
      simpa using hSum
    · simp at hSettle

theorem weight_settle (board : Board) (signal : Nat) (outcome : Outcome) :
    Task.totalWeight (board.settle signal outcome).1 +
        waitingWeight (board.settle signal outcome).2.signals =
      waitingWeight board.signals := by
  unfold settle
  split
  · rename_i hSettle
    have := waitingWeight_settle? hSettle
    simp only [Task.totalWeight_map_call]
    omega
  · simp

/-- What an action leaves to be done weighs less than the action, even with its note. -/
theorem weight_act (board : Board) (action : Action) :
    Task.totalWeight (board.act action).1 + waitingWeight (board.act action).2.signals + 1 <
      action.weight + waitingWeight board.signals := by
  cases action with
  | resolve signal =>
    have := weight_settle board signal .resolved
    simp only [act, Action.weight]; omega
  | reject signal =>
    have := weight_settle board signal .abandoned
    simp only [act, Action.weight]; omega
  | settle signal outcome =>
    have := weight_settle board signal outcome
    simp only [act, Action.weight]; omega
  | inspect signal | describe signal =>
    simp only [act, Action.weight, Task.totalWeight_nil]; omega
  | listen signal occasion id body =>
    simp only [act]
    split
    · -- the signal has settled: the listener is called at once
      simp only [Action.weight, Task.totalWeight_cons, Task.weight, Listener.weight,
        Task.totalWeight_nil]
      omega
    · -- the signal is pending: the listener waits on the board
      have := waitingWeight_enlist board signal ⟨occasion, id, body⟩
      simp only [Task.totalWeight_nil, Action.weight, Listener.weight] at this ⊢
      omega

theorem weight_calls (listener : Listener) (outcome : Outcome) :
    Task.totalWeight (calls listener outcome) < listener.weight := by
  unfold calls
  split
  · simp only [Task.totalWeight_cons, Task.weight, Task.totalWeight_map_act, Listener.weight]
    omega
  · simp only [Task.totalWeight_nil, Listener.weight]
    omega

/-- Works off the tasks, the first one first; what a task sets off comes before the next one. -/
def run (board : Board) (tasks : List Task) : List Note × Board :=
  match tasks with
  | [] => ([], board)
  | .note note :: rest =>
    let (notes, last) := run board rest
    (note :: notes, last)
  | .act action :: rest =>
    run (board.act action).2
      ((board.act action).1 ++ .note (.done action (board.answer action)) :: rest)
  | .call listener outcome :: rest => run board (calls listener outcome ++ rest)
termination_by Task.totalWeight tasks + waitingWeight board.signals
decreasing_by
  · -- a note is written down
    simp only [Task.totalWeight_cons, Task.weight]; omega
  · -- an action gives way to its calls and its note
    have := weight_act board action
    simp only [Task.totalWeight_append, Task.totalWeight_cons, Task.weight]
    omega
  · -- a call gives way to its note and the actions of the listener
    have := weight_calls listener outcome
    simp only [Task.totalWeight_append, Task.totalWeight_cons, Task.weight]
    omega

/-- Carries out an action and all that it sets off. -/
def perform (board : Board) (action : Action) : Answer × List Note × Board :=
  (board.answer action, (board.act action).2.run (board.act action).1)

end Board

/-- A signal written out under the name `noun`. -/
def description (noun : String) (outcome : Option Outcome) : String :=
  let state := match outcome with
    | none => "None"
    | some .resolved => "Some(Resolved)"
    | some .abandoned => "Some(Abandoned)"
  noun ++ " \x7b settled: " ++ state ++ " \x7d"

end Dialogue.Signal
