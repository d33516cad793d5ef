import Dialogue.Knot.Basic

/-!
# The knot log

Knots are appended and never change. Beside them a table keeps the position of the last quantum with
each set of tags, so that `lookup?`, `resolve?` and `branch` find where a branch goes on. A quantum
closes what came before it with an end knot.
-/

namespace Dialogue

/-- A log of knots, and the positions of its quanta by their tags. -/
structure KnotLog where
  knots : List Knot
  quanta : List (TagSet × Nat)

namespace KnotLog

def empty : KnotLog := ⟨[], []⟩

def size (log : KnotLog) : Nat := log.knots.length

/-! ## Appending -/

/-- Appends a knot. -/
def push (log : KnotLog) (kind : KnotKind) : KnotLog :=
  { log with knots := log.knots ++ [⟨log.size, kind⟩] }

def sentence (log : KnotLog) (actor emotion speech : String) : KnotLog :=
  log.push (.sentence actor emotion speech)

def sectionBreak (log : KnotLog) : KnotLog := log.push .sectionBreak

def talkBreak (log : KnotLog) : KnotLog := log.push .talkBreak

def entangle (log : KnotLog) (tags : List String) : KnotLog :=
  log.push (.entangle (.ofList tags))

def terms (log : KnotLog) (name : String) (values : List String) : KnotLog :=
  log.push (.terms name values)

/-- The position in a table for a set of tags. -/
def find? (quanta : List (TagSet × Nat)) (tags : TagSet) : Option Nat :=
  (quanta.find? (·.1 = tags)).map Prod.snd

/-- A table with another position for a set of tags. -/
def register (quanta : List (TagSet × Nat)) (tags : TagSet) (index : Nat) :
    List (TagSet × Nat) :=
  (tags, index) :: quanta.filter (·.1 ≠ tags)

/-- Ends what came before, if there is something that has not ended. -/
def finishEntry (log : KnotLog) : KnotLog :=
  match log.knots.getLast? with
  | some last => if last.kind = .ending then log else log.push .ending
  | none => log

/-- Ends what came before and appends a branch point. -/
def quantum (log : KnotLog) (tags : List String) : KnotLog :=
  let ended := log.finishEntry
  { ended.push (.quantum (.ofList tags)) with
    quanta := register ended.quanta (.ofList tags) ended.size }

/-- What `quantum` logs: the branch point that it replaces. -/
def quantumLog (log : KnotLog) (tags : List String) : List LogLine :=
  let set := TagSet.ofList tags
  match find? log.quanta set with
  | some previous =>
    [⟨.debug, .knots, "Quantum " ++ set.quoted ++ " at knot " ++ toString log.finishEntry.size ++
      " replaces knot " ++ toString previous⟩]
  | none => []

/-! ## Looking up -/

def get? (log : KnotLog) (index : Nat) : Option Knot := log.knots[index]?

/-- The position of the last knot. -/
def lastIndex? (log : KnotLog) : Option Nat := if log.size = 0 then none else some (log.size - 1)

/-- The branch point with exactly a set of tags. -/
def lookupSet? (log : KnotLog) (tags : TagSet) : Option Knot :=
  (find? log.quanta tags).bind log.get?

/-- The branch point with exactly these tags, in any order. -/
def lookup? (log : KnotLog) (tags : List String) : Option Knot := log.lookupSet? (.ofList tags)

/-- The branch point at which the entangle at a position goes on. -/
def resolve? (log : KnotLog) (index : Nat) : Option Knot :=
  match (log.get? index).map Knot.kind with
  | some (.entangle tags) => log.lookupSet? tags
  | _ => none

/-- The knots behind the branch point with these tags. -/
def branch (log : KnotLog) (tags : List String) : List Knot :=
  match log.lookup? tags with
  | some knot => log.knots.drop (knot.index + 1)
  | none => []

end KnotLog

end Dialogue
