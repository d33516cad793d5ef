import Dialogue.Outcome

/-!
# Signals

A `Signal` settles at most once. Until then it collects listeners, in the order in which they come;
settling hands them out, and from then on a listener is due at once.
-/

namespace Dialogue

/-- When a listener wants to be called. -/
inductive Occasion where
  | always
  | resolved
  | abandoned
deriving DecidableEq

namespace Occasion

/-- Whether an outcome is one that a listener waits for. -/
def admits : Occasion → Outcome → Bool
  | always, _ => true
  | resolved, outcome => outcome = .resolved
  | abandoned, outcome => outcome = .abandoned

end Occasion

/-- What a listener heard: the outcome is told to those that come on every occasion. -/
structure Notice where
  id : String
  outcome : Option Outcome
deriving DecidableEq

namespace Notice

/-- The notice of the listener `id` that came on `occasion`, if it heard the outcome at all. -/
def of? (id : String) (occasion : Occasion) (outcome : Outcome) : Option Notice :=
  match occasion with
  | .always => some ⟨id, some outcome⟩
  | .resolved | .abandoned => if occasion.admits outcome then some ⟨id, none⟩ else none

end Notice

/-- A signal that settles once, and the listeners that wait for it. -/
structure Signal (α : Type) where
  outcome : Option Outcome
  waiting : List α
deriving DecidableEq

namespace Signal

variable {α : Type}

/-- Neither settled nor listened to. -/
def fresh : Signal α := ⟨none, []⟩

def isPending (signal : Signal α) : Bool := signal.outcome.isNone

/-- Settles a pending signal and hands out its listeners; a settled one stays as it is. -/
def settle? (signal : Signal α) (outcome : Outcome) : Option (List α × Signal α) :=
  match signal.outcome with
  | none => some (signal.waiting, ⟨some outcome, []⟩)
  | some _ => none

/-- Lets a listener wait for the signal. A settled signal has nothing to wait for. -/
def enlist (signal : Signal α) (listener : α) : Signal α :=
  match signal.outcome with
  | none => { signal with waiting := signal.waiting ++ [listener] }
  | some _ => signal

end Signal

end Dialogue
