import Dialogue.Signal.Basic
import Dialogue.Talk.Event

/-!
# The lifecycle of a talk

Four signals mark the way of a talk. `play` resolves when the text is skipped to its end and is
abandoned when the talk closes; `played` resolves when the last entry is shown, and is abandoned
with `play`; `closing` settles when the talk is asked to close; `closed` resolves when its
sections have closed. Observers of a signal only take notice.
-/

namespace Dialogue

/-- Someone who takes notice when a signal settles. -/
structure Observer where
  occasion : Occasion
  id : String
deriving DecidableEq

namespace Observer

/-- What an observer notices of an outcome. -/
def notice? (observer : Observer) (outcome : Outcome) : Option Notice :=
  Notice.of? observer.id observer.occasion outcome

end Observer

/-- The four signals, by name. -/
inductive Milestone where
  | play
  | played
  | closing
  | closed
deriving DecidableEq

/-- The four signals of a talk. -/
structure Lifecycle where
  play : Signal Observer
  played : Signal Observer
  closing : Signal Observer
  closed : Signal Observer
deriving DecidableEq

namespace Lifecycle

/-- Nothing has settled, and nobody observes. -/
def fresh : Lifecycle := ⟨.fresh, .fresh, .fresh, .fresh⟩

def get (lifecycle : Lifecycle) : Milestone → Signal Observer
  | .play => lifecycle.play
  | .played => lifecycle.played
  | .closing => lifecycle.closing
  | .closed => lifecycle.closed

def put (lifecycle : Lifecycle) (milestone : Milestone) (signal : Signal Observer) : Lifecycle :=
  match milestone with
  | .play => { lifecycle with play := signal }
  | .played => { lifecycle with played := signal }
  | .closing => { lifecycle with closing := signal }
  | .closed => { lifecycle with closed := signal }

/-- Whether a signal has not settled. -/
def isPending (lifecycle : Lifecycle) (milestone : Milestone) : Bool :=
  (lifecycle.get milestone).isPending

/-- Settles a signal, if it is pending. -/
def settle (lifecycle : Lifecycle) (milestone : Milestone) (outcome : Outcome) : Lifecycle :=
  match (lifecycle.get milestone).settle? outcome with
  | some (_, settled) => lifecycle.put milestone settled
  | none => lifecycle

/-- What the observers notice when `settle` settles a signal. -/
def settleNotices (lifecycle : Lifecycle) (milestone : Milestone) (outcome : Outcome) :
    List Notice :=
  match (lifecycle.get milestone).settle? outcome with
  | some (waiting, _) => waiting.filterMap (·.notice? outcome)
  | none => []

/-- Lets an observer wait for a signal. -/
def observe (lifecycle : Lifecycle) (milestone : Milestone) (observer : Observer) : Lifecycle :=
  lifecycle.put milestone ((lifecycle.get milestone).enlist observer)

/-- What an observer notices at once, because the signal has settled. -/
def observeNotices (lifecycle : Lifecycle) (milestone : Milestone) (observer : Observer) :
    List Notice :=
  match (lifecycle.get milestone).outcome with
  | some outcome => (observer.notice? outcome).toList
  | none => []

/-- The furthest signal that has settled tells the phase. -/
def phase (lifecycle : Lifecycle) : Phase :=
  if !lifecycle.isPending .closed then .closed
  else if !lifecycle.isPending .closing then .closing
  else if !lifecycle.isPending .played then .played
  else .play

@[simp] theorem get_put (lifecycle : Lifecycle) (milestone : Milestone)
    (signal : Signal Observer) : (lifecycle.put milestone signal).get milestone = signal := by
  cases milestone <;> rfl

theorem get_put_of_ne (lifecycle : Lifecycle) {put got : Milestone} (signal : Signal Observer)
    (hNe : got ≠ put) : (lifecycle.put put signal).get got = lifecycle.get got := by
  cases put <;> cases got <;> first | rfl | exact absurd rfl hNe

end Lifecycle

end Dialogue
