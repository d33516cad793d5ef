import Dialogue.Knot.Log
import Mathlib.Data.List.Chain
import Mathlib.Data.List.Induction

/-!
# Logs that are built by additions

A knot log grows by the six kinds of `Addition`, from the empty log on. Of what comes out of this, two
things are not plain to see. A quantum puts two knots into the log, and the table of quanta must point to
the second one; and nothing but a quantum ever puts an end knot there, so that end knots and quanta come in
pairs. `Sound` says both, and it says that the table holds the last quantum with each set of tags.

Main results:

* `KnotLog.Sound.add` — each addition keeps a log sound.
* `KnotLog.sound_built` — and so every log that additions build is.
* `KnotLog.Sound.eq_of_lookup?` — a quantum that is looked up stands where it says, with the tags asked for.
* `KnotLog.Sound.ending_before` — whatever stands directly before a quantum ends.
-/

namespace Dialogue

/-- Whether a knot is a branch point. -/
def KnotKind.isQuantum : KnotKind → Bool
  | quantum _ => true
  | sentence .. | sectionBreak | talkBreak | entangle _ | terms .. | ending => false

namespace KnotLog

/-- What can be added to a log. -/
inductive Addition where
  | sentence (actor emotion speech : String)
  | sectionBreak
  | talkBreak
  | quantum (tags : List String)
  | entangle (tags : List String)
  | terms (name : String) (values : List String)

def add (log : KnotLog) : Addition → KnotLog
  | .sentence actor emotion speech => log.sentence actor emotion speech
  | .sectionBreak => log.sectionBreak
  | .talkBreak => log.talkBreak
  | .quantum tags => log.quantum tags
  | .entangle tags => log.entangle tags
  | .terms name values => log.terms name values

/-- The log of some additions, from the empty one on. -/
def built (additions : List Addition) : KnotLog := additions.foldl add empty

/-! ## What an addition does -/

/-- All additions but one push a single knot. -/
theorem add_cases (log : KnotLog) (addition : Addition) :
    (∃ kind, kind.isQuantum = false ∧ kind ≠ .ending ∧ log.add addition = log.push kind) ∨
      ∃ tags, log.add addition = log.quantum tags := by
  cases addition with
  | quantum tags => exact .inr ⟨tags, rfl⟩
  | sentence actor emotion speech => exact .inl ⟨_, rfl, KnotKind.noConfusion, rfl⟩
  | sectionBreak => exact .inl ⟨_, rfl, KnotKind.noConfusion, rfl⟩
  | talkBreak => exact .inl ⟨_, rfl, KnotKind.noConfusion, rfl⟩
  | entangle tags => exact .inl ⟨_, rfl, KnotKind.noConfusion, rfl⟩
  | terms name values => exact .inl ⟨_, rfl, KnotKind.noConfusion, rfl⟩

/-- A table gives the new position for a set of tags that is registered, and the old ones for all others. -/
theorem find?_register (quanta : List (TagSet × Nat)) (tags other : TagSet) (index : Nat) :
    find? (register quanta tags index) other =
      if tags = other then some index else find? quanta other := by
  unfold find? register
  by_cases hTags : tags = other
  · simp [hTags]
  · -- what is struck from the table is not what is looked for
    have hFilter : (quanta.filter (·.1 ≠ tags)).find? (·.1 = other) =
        quanta.find? (·.1 = other) := by
      rw [List.find?_filter]
      congr 1
      funext entry
      by_cases hEntry : entry.1 = other
      · simp [hEntry, Ne.symm hTags]
      · simp [hEntry]
    -- the new pair is not looked for either
    rw [if_neg hTags, List.find?_cons_of_neg (by simpa using hTags), hFilter]

/-! ## Sound logs -/

/-- What can stand next to each other: end knots stand before quanta, and before nothing else. -/
def Follows (before knot : Knot) : Prop := before.kind = .ending ↔ knot.kind.isQuantum = true

/-- The last quantum with a set of tags. -/
def lastQuantum? (knots : List Knot) (tags : TagSet) : Option Knot :=
  (knots.filter (·.kind = .quantum tags)).getLast?

/-- Knots know their positions, end knots and quanta come in pairs, and the table holds the last quantum
with each set of tags. The last knot may be an end knot that has no quantum yet. -/
structure Ordered (log : KnotLog) : Prop where
  index : ∀ (i : Nat) (knot : Knot), log.knots[i]? = some knot → knot.index = i
  chain : log.knots.IsChain Follows
  table : ∀ tags, find? log.quanta tags = (lastQuantum? log.knots tags).map Knot.index

/-- A log as an addition leaves it. -/
structure Sound (log : KnotLog) : Prop extends Ordered log where
  last : ∀ knot ∈ log.knots.getLast?, knot.kind ≠ .ending

/-- On the empty log all holds, as there is nothing to be found. -/
theorem sound_empty : Sound empty where
  index _ _ h := by simp [empty] at h
  chain := .nil
  table _ := rfl
  last _ h := by simp [empty] at h

/-- A knot that is put at the end is the last of its quantum, if it is one. -/
theorem lastQuantum?_append_singleton (knots : List Knot) (knot : Knot) (tags : TagSet) :
    lastQuantum? (knots ++ [knot]) tags =
      if knot.kind = .quantum tags then some knot else lastQuantum? knots tags := by
  unfold lastQuantum?
  rw [List.filter_append]
  split
  · rename_i hKind
    simp [hKind]
  · rename_i hKind
    simp [hKind]

namespace Ordered

variable {log : KnotLog}

/-- A new knot keeps the order if it may stand behind the last one and the table takes notice of it. -/
theorem append (h : Ordered log) {kind : KnotKind} {quanta : List (TagSet × Nat)}
    (hFollows : ∀ last ∈ log.knots.getLast?, Follows last ⟨log.size, kind⟩)
    (hQuanta : ∀ tags, find? quanta tags =
      if kind = .quantum tags then some log.size else find? log.quanta tags) :
    Ordered { log.push kind with quanta } := by
  refine ⟨fun i knot hKnot => ?_, ?_, fun tags => ?_⟩
  · rcases Nat.lt_trichotomy i log.knots.length with hLt | rfl | hGt
    · exact h.index i knot ((List.getElem?_append_left hLt).symm.trans hKnot)
    · simp only [push, List.getElem?_concat_length, Option.some.injEq] at hKnot
      rw [← hKnot]
      rfl
    · have hNone : (log.push kind).knots[i]? = none := by
        refine List.getElem?_eq_none ?_
        rw [push, List.length_append, List.length_singleton]
        omega
      rw [hNone] at hKnot
      cases hKnot
  · refine List.isChain_append.mpr ⟨h.chain, .singleton _, fun last hLast knot hHead => ?_⟩
    -- only the new knot follows the last one of the log
    cases hHead
    exact hFollows last hLast
  · show find? quanta tags = (lastQuantum? (log.knots ++ [⟨log.size, kind⟩]) tags).map Knot.index
    rw [hQuanta, lastQuantum?_append_singleton, h.table]
    split <;> rfl

/-- A knot that is no quantum leaves the table as it is. -/
theorem push (h : Ordered log) {kind : KnotKind} (hKind : kind.isQuantum = false)
    (hFollows : ∀ last ∈ log.knots.getLast?, last.kind ≠ .ending) : Ordered (log.push kind) := by
  refine h.append (fun last hLast => ?_) fun tags => ?_
  · refine ⟨fun hEnding => absurd hEnding (hFollows last hLast), fun hQuantum => ?_⟩
    rw [hKind] at hQuantum
    cases hQuantum
  · rw [if_neg]
    rintro rfl
    cases hKind

/-- A quantum behind an end knot, or at the front of the log. -/
theorem register (h : Ordered log) (tags : TagSet)
    (hFollows : ∀ last ∈ log.knots.getLast?, last.kind = .ending) :
    Ordered { log.push (.quantum tags) with quanta := register log.quanta tags log.size } := by
  refine h.append (fun last hLast => ?_) fun other => ?_
  · exact ⟨fun _ => rfl, fun _ => hFollows last hLast⟩
  · rw [find?_register]
    simp only [KnotKind.quantum.injEq]

end Ordered

namespace Sound

variable {log : KnotLog}

/-- The end knot that a quantum needs is put before it, unless the log is empty. -/
theorem finishEntry (h : Sound log) : Ordered log.finishEntry ∧
    ∀ last ∈ log.finishEntry.knots.getLast?, last.kind = .ending := by
  unfold KnotLog.finishEntry
  cases hLast : log.knots.getLast? with
  | none => exact ⟨h.toOrdered, fun last hMem => by simp [hLast] at hMem⟩
  | some last =>
    -- an end knot is never the last one, so that there is something to end
    simp only [if_neg (h.last last (by simp [hLast]))]
    refine ⟨h.toOrdered.push rfl h.last, fun ended hMem => ?_⟩
    simp only [KnotLog.push, List.getLast?_concat, Option.mem_some_iff] at hMem
    rw [← hMem]

theorem add (h : Sound log) (addition : Addition) : Sound (log.add addition) := by
  obtain ⟨kind, hQuantum, hEnding, hAdd⟩ | ⟨tags, hAdd⟩ := log.add_cases addition
  · rw [hAdd]
    refine ⟨h.toOrdered.push hQuantum h.last, fun knot hLast => ?_⟩
    simp only [KnotLog.push, List.getLast?_concat, Option.mem_some_iff] at hLast
    rwa [← hLast]
  · -- an end knot first, and then the quantum behind it
    rw [hAdd]
    obtain ⟨hOrdered, hEnded⟩ := h.finishEntry
    refine ⟨hOrdered.register (.ofList tags) hEnded, fun knot hLast => ?_⟩
    simp only [quantum, KnotLog.push, List.getLast?_concat, Option.mem_some_iff] at hLast
    rw [← hLast]
    exact KnotKind.noConfusion

end Sound

/-- Every log that is built is sound. -/
theorem sound_built (additions : List Addition) : Sound (built additions) := by
  induction additions using List.reverseRecOn with
  | nil => exact sound_empty
  | append_singleton additions addition ih =>
    rw [built, List.foldl_append]
    exact ih.add addition

/-! ## Looking up -/

/-- The branch of what is found is all that stands behind it. -/
theorem branch_of_lookup? {log : KnotLog} {tags : List String} {quantum : Knot}
    (hLookup : log.lookup? tags = some quantum) :
    log.branch tags = log.knots.drop (quantum.index + 1) := by
  rw [branch, hLookup]

namespace Sound

variable {log : KnotLog}

/-- What is looked up is the last quantum with the tags. -/
theorem lookupSet?_eq (h : Sound log) (tags : TagSet) :
    log.lookupSet? tags = lastQuantum? log.knots tags := by
  rw [lookupSet?, h.table]
  cases hLast : lastQuantum? log.knots tags with
  | none => rfl
  | some knot =>
    have hMem : knot ∈ log.knots := (List.mem_filter.mp (List.mem_of_getLast? hLast)).1
    obtain ⟨i, hi⟩ := List.mem_iff_getElem?.mp hMem
    -- it stands where it says
    have hIndex := h.index i knot hi
    show log.get? knot.index = some knot
    rw [hIndex]
    exact hi

/-- What is found stands where its index says, and is a quantum of the tags asked for. -/
theorem eq_of_lookup? (h : Sound log) {tags : List String} {quantum : Knot}
    (hLookup : log.lookup? tags = some quantum) :
    log.knots[quantum.index]? = some quantum ∧ quantum.kind = .quantum (.ofList tags) := by
  rw [lookup?, h.lookupSet?_eq] at hLookup
  obtain ⟨hMem, hKind⟩ := List.mem_filter.mp (List.mem_of_getLast? hLookup)
  obtain ⟨i, hi⟩ := List.mem_iff_getElem?.mp hMem
  refine ⟨?_, of_decide_eq_true hKind⟩
  rw [h.index i quantum hi]
  exact hi

/-- Whatever stands directly before a quantum is an end knot. -/
theorem ending_before (h : Sound log) {i : Nat} {before quantum : Knot}
    (hBefore : log.knots[i]? = some before) (hQuantum : log.knots[i + 1]? = some quantum)
    (hKind : quantum.kind.isQuantum = true) : before.kind = .ending := by
  obtain ⟨hLt, rfl⟩ := List.getElem?_eq_some_iff.mp hQuantum
  obtain ⟨hLt', rfl⟩ := List.getElem?_eq_some_iff.mp hBefore
  exact (List.isChain_iff_getElem.mp h.chain i hLt).mpr hKind

end Sound

end KnotLog

end Dialogue
