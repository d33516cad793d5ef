import Dialogue.Proofs.Knot.Additions
import Dialogue.Script.Basic

/-!
# Replaying a branch

Knots are replayed up to the first divider. What that writes is what a script writes: each spoken knot
stands for a few directives (`KnotKind.script`), and the other knots only leave a note in the log. Nothing in
`Talk.replay` looks for the end of a branch. It is the log that keeps branches apart: before each quantum but
the first stands an end knot, which is a divider.

Main results:

* `Talk.hush_follow` — writing pays no attention to the notes that replaying leaves in the log.
* `Talk.replay_eq` — what replaying writes, and how many knots it uses.
* `Talk.flatten_retell` — replaying again and again, each time from where it stopped, uses all knots.
* `KnotLog.replay_stays_in_branch` — all of it for the branch of some tags, in which no other branch begins.
-/

namespace Dialogue

/-! ## Knots as scripts -/

/-- The directives that a knot stands for. -/
def KnotKind.script : KnotKind → List Script.Directive
  | sentence actor emotion speech =>
    [.beginParagraph actor] ++ (if emotion = "" then [] else [.emote emotion]) ++ [.speak speech]
  | sectionBreak => [.beginSection none]
  | talkBreak | quantum _ | entangle _ | terms .. | ending => []

/-- The script of some knots. -/
def Knot.script (knots : List Knot) : List Script.Directive := knots.flatMap (·.kind.script)

/-- The knots up to the first divider, with the divider; all of them, if there is none. -/
def Knot.upToDivider (knots : List Knot) : List Knot :=
  knots.take (knots.findIdx (·.kind.stops) + 1)

namespace KnotKind

/-- The script of a knot and its directions are one and the same. -/
theorem map_direction_script (kind : KnotKind) :
    kind.script.map Script.Directive.direction = kind.directions := by
  cases kind with
  | sentence actor emotion speech =>
    -- a text is empty exactly if it is the empty text
    by_cases hEmotion : emotion = ""
    · simp [script, directions, hEmotion, Script.Directive.direction]
    · simp [script, directions, hEmotion, Script.Directive.direction]
  | sectionBreak => rfl
  | talkBreak => rfl
  | quantum tags => rfl
  | entangle tags => rfl
  | terms name values => rfl
  | ending => rfl

/-- What stops the replay says nothing. -/
theorem script_of_stops {kind : KnotKind} (hStops : kind.stops = true) : kind.script = [] := by
  cases kind with
  | talkBreak => rfl
  | ending => rfl
  | _ => cases hStops

end KnotKind

namespace Knot

/-- The replay stops at a divider, which still counts. -/
theorem upToDivider_of_stops {knot : Knot} (hStops : knot.kind.stops = true) (rest : List Knot) :
    upToDivider (knot :: rest) = [knot] := by
  rw [upToDivider, List.findIdx_cons, hStops]
  rfl

/-- The replay goes on behind any knot but a divider. -/
theorem upToDivider_of_not_stops {knot : Knot} (hStops : knot.kind.stops = false) (rest : List Knot) :
    upToDivider (knot :: rest) = knot :: upToDivider rest := by
  rw [upToDivider, List.findIdx_cons, hStops]
  rfl

theorem topic_of_mem_replayLog {knot : Knot} {line : LogLine} (hLine : line ∈ knot.replayLog) :
    line.topic = .knots := by
  unfold replayLog at hLine
  split at hLine
  all_goals simp at hLine
  all_goals rw [hLine]

/-- Only the last one of the knots up to a divider is a divider. -/
theorem not_stops_of_lt {knots : List Knot} {i : Nat} {knot : Knot}
    (hLt : i + 1 < (upToDivider knots).length) (hKnot : knots[i]? = some knot) :
    knot.kind.stops = false := by
  obtain ⟨hBound, rfl⟩ := List.getElem?_eq_some_iff.mp hKnot
  have hBefore : i < knots.findIdx (·.kind.stops) := by
    rw [upToDivider, List.length_take] at hLt
    omega
  exact List.not_of_lt_findIdx hBefore

end Knot

/-! ## What replaying writes -/

namespace Talk

/-- A talk without the notes that replaying leaves in the log. -/
def hush (talk : Talk) : Talk :=
  { talk with outbox := { talk.outbox with log := talk.outbox.log.filter (·.topic ≠ .knots) } }

/-- The notes of the replay can be left out before or after other lines are logged. -/
theorem hush_reportLines (talk : Talk) {lines : List LogLine}
    (hLines : ∀ line ∈ lines, line.topic ≠ .knots) :
    (talk.reportLines lines).hush = talk.hush.reportLines lines := by
  have hFilter : lines.filter (·.topic ≠ .knots) = lines :=
    List.filter_eq_self.mpr fun line hMem => decide_eq_true (hLines line hMem)
  simp only [hush, reportLines, List.filter_append, hFilter]

/-- The notes on a knot are all that is left out. -/
theorem hush_replayLog (talk : Talk) (knot : Knot) :
    (talk.reportLines knot.replayLog).hush = talk.hush := by
  have hFilter : knot.replayLog.filter (·.topic ≠ .knots) = [] := by
    refine List.filter_eq_nil_iff.mpr fun line hMem => ?_
    rw [Knot.topic_of_mem_replayLog hMem]
    decide
  simp only [hush, reportLines, List.filter_append, hFilter, List.append_nil]

/-- What a talk logs is no replay note. -/
theorem hush_report (talk : Talk) (severity : Severity) (text : String) :
    (talk.report severity text).hush = talk.hush.report severity text := by
  refine talk.hush_reportLines fun line hMem => ?_
  rw [List.mem_singleton.mp hMem]
  exact Topic.noConfusion

/-- Ending a section commutes with leaving the notes out. -/
theorem hush_endSection (talk : Talk) : talk.endSection.hush = talk.hush.endSection := by
  have hCurrent : talk.hush.currentSection = talk.currentSection := rfl
  unfold endSection
  rw [hCurrent]
  split
  · rfl
  · rfl

theorem hush_modifyCurrent (talk : Talk) (f : Section → Section) :
    (talk.modifyCurrent f).hush = talk.hush.modifyCurrent f := by
  have hCurrent : talk.hush.currentSection = talk.currentSection := rfl
  unfold modifyCurrent
  rw [hCurrent]
  split
  · rfl
  · rfl

/-- The lines about areas are no replay notes. -/
theorem topic_of_mem_startLog {areas : Areas} {asked : Option String} {line : LogLine}
    (hLine : line ∈ areas.startLog asked) : line.topic = .areas := by
  unfold Areas.startLog at hLine
  split at hLine
  · split at hLine
    · cases hLine
    · rw [List.mem_singleton.mp hLine]
  · cases hLine

theorem hush_startSection (talk : Talk) (asked : Option String) :
    (talk.startSection asked).hush = talk.hush.startSection asked := by
  unfold startSection
  rw [← hush_endSection]
  simp only
  rw [hush_report, hush_reportLines _ fun line hMem => by
    rw [topic_of_mem_startLog hMem]
    exact Topic.noConfusion]
  rfl

theorem hush_startParagraph (talk : Talk) (actor : String) :
    (talk.startParagraph actor).hush = talk.hush.startParagraph actor := by
  unfold startParagraph endParagraph
  rw [hush_modifyCurrent, hush_modifyCurrent]
  show _ = (((if talk.currentSection.isNone then _ else _ : Talk).modifyCurrent _).modifyCurrent _)
  by_cases hNone : talk.currentSection.isNone = true
  · rw [if_pos hNone, if_pos hNone, hush_startSection]
  · rw [if_neg hNone, if_neg hNone]

/-- What is refused to a closing talk is refused to it without its notes too. -/
theorem hush_unlessClosing (talk : Talk) {write : Talk → Talk}
    (hWrite : (write talk).hush = write talk.hush) :
    (talk.unlessClosing write).hush = talk.hush.unlessClosing write := by
  unfold unlessClosing
  show _ = if talk.isClosing = true then _ else _
  by_cases hClosing : talk.isClosing = true
  · rw [if_pos hClosing, if_pos hClosing, hush_report]
  · rw [if_neg hClosing, if_neg hClosing, hWrite]

/-- Writing asks for an open paragraph, which the notes have no part in. -/
theorem hush_write (talk : Talk) (items : List Item) :
    (talk.write items).hush = talk.hush.write items := by
  refine talk.hush_unlessClosing ?_
  rw [hush_modifyCurrent]
  congr 1
  unfold withParagraph
  show _ = if talk.hasOpenParagraph = true then _ else _
  by_cases hOpen : talk.hasOpenParagraph = true
  · -- the items go to the paragraph that is open
    rw [if_pos hOpen, if_pos hOpen]
  · rw [if_neg hOpen, if_neg hOpen, hush_startParagraph, hush_report]
    rfl

/-- A single direction is written the same whether the notes are there or not. -/
theorem hush_direct (talk : Talk) (direction : Direction) :
    (talk.direct direction).hush = talk.hush.direct direction := by
  cases direction with
  | beginSection area => exact talk.hush_unlessClosing (talk.hush_startSection area)
  | endSection => exact talk.hush_endSection
  | beginParagraph actor => exact talk.hush_unlessClosing (talk.hush_startParagraph actor)
  | endParagraph => exact talk.hush_modifyCurrent _
  | speak text => exact talk.hush_write _
  | emote name => exact talk.hush_write _
  | lineBreak => exact talk.hush_write _

/-- Any directions commute with leaving the notes out. -/
theorem hush_directAll (talk : Talk) (directions : List Direction) :
    (talk.directAll directions).hush = talk.hush.directAll directions := by
  induction directions generalizing talk with
  | nil => rfl
  | cons direction rest ih => exact (ih _).trans (congrArg (directAll · rest) (talk.hush_direct direction))

/-- Writing a script neither reads nor changes what knots have logged. -/
theorem hush_follow (talk : Talk) (script : List Script.Directive) :
    (talk.follow script).hush = talk.hush.follow script := talk.hush_directAll _

/-- A script can be followed in two parts. -/
theorem follow_append (talk : Talk) (script more : List Script.Directive) :
    talk.follow (script ++ more) = (talk.follow script).follow more := by
  rw [follow, List.map_append, directAll, List.foldl_append]
  rfl

/-- Replaying uses the knots up to the first divider, and writes their script. -/
theorem replay_eq (talk : Talk) (knots : List Knot) :
    (talk.replay knots).1 = (Knot.upToDivider knots).length ∧
      (talk.replay knots).2.hush = (talk.follow (Knot.script (Knot.upToDivider knots))).hush := by
  induction knots generalizing talk with
  | nil => exact ⟨rfl, rfl⟩
  | cons knot rest ih =>
    unfold replay
    by_cases hStops : knot.kind.stops = true
    · -- a divider is the last knot that counts
      rw [if_pos hStops, Knot.upToDivider_of_stops hStops, Knot.script, List.flatMap_singleton,
        KnotKind.script_of_stops hStops]
      exact ⟨rfl, rfl⟩
    · rw [if_neg hStops, Knot.upToDivider_of_not_stops (Bool.not_eq_true _ ▸ hStops)]
      obtain ⟨hUsed, hLast⟩ := ih ((talk.reportLines knot.replayLog).directAll knot.kind.directions)
      refine ⟨congrArg (· + 1) hUsed, hLast.trans ?_⟩
      have hScript : Knot.script (knot :: Knot.upToDivider rest) =
          knot.kind.script ++ Knot.script (Knot.upToDivider rest) := List.flatMap_cons
      -- the note is left out, and what is written does not depend on it
      rw [hScript, follow_append, ← KnotKind.map_direction_script, ← follow]
      simp only [hush_follow, hush_replayLog]

/-! ## Replaying on and on -/

/-- The replay gets on by one knot at least. -/
theorem replay_pos (talk : Talk) (knot : Knot) (rest : List Knot) :
    0 < (talk.replay (knot :: rest)).1 := by
  unfold replay
  split
  · exact Nat.one_pos
  · exact Nat.succ_pos _

/-- Replays knots, and then what is left of them, until nothing is left; gives the knots that each turn
used. -/
def retell (talk : Talk) : List Knot → List (List Knot) × Talk
  | [] => ([], talk)
  | knot :: rest =>
    let turn := talk.replay (knot :: rest)
    let (chunks, last) := retell turn.2 ((knot :: rest).drop turn.1)
    ((knot :: rest).take turn.1 :: chunks, last)
termination_by knots => knots.length
decreasing_by
  have hPos := talk.replay_pos knot rest
  rw [List.length_drop, List.length_cons]
  omega

/-- Each turn uses some knots, and all turns together use all of them. -/
theorem flatten_retell (talk : Talk) (knots : List Knot) :
    (talk.retell knots).1.flatten = knots ∧ ∀ chunk ∈ (talk.retell knots).1, chunk ≠ [] := by
  fun_induction retell talk knots with
  | case1 talk => exact ⟨rfl, fun chunk hMem => by cases hMem⟩
  | case2 talk knot rest turn chunks last hRest ih =>
    rw [hRest] at ih
    obtain ⟨hFlatten, hChunks⟩ := ih
    have hPos : 0 < turn.1 := talk.replay_pos knot rest
    refine ⟨?_, fun chunk hMem => ?_⟩
    · -- what one turn uses and what it leaves make up the log
      rw [List.flatten_cons, hFlatten, List.take_append_drop]
    · rcases List.mem_cons.mp hMem with rfl | hMem
      · intro hNil
        rcases List.take_eq_nil_iff.mp hNil with hZero | hEmpty
        · exact absurd hZero hPos.ne'
        · exact List.cons_ne_nil _ _ hEmpty
      · exact hChunks chunk hMem

end Talk

/-! ## Branches -/

namespace KnotLog

/-- The knots behind one knot, up to the first divider. -/
def told (log : KnotLog) (knot : Knot) : List Knot :=
  Knot.upToDivider (log.knots.drop (knot.index + 1))

/-- No quantum stands among the knots that are replayed behind one. -/
theorem Sound.not_isQuantum {log : KnotLog} (h : Sound log) {i : Nat} {quantum knot : Knot}
    (hQuantum : log.knots[quantum.index]? = some quantum) (hBranch : quantum.kind.isQuantum = true)
    (hAfter : quantum.index < i) (hUsed : i ≤ quantum.index + (log.told quantum).length)
    (hKnot : log.knots[i]? = some knot) : knot.kind.isQuantum = false := by
  refine Bool.eq_false_iff.mpr fun hKind => ?_
  obtain ⟨j, rfl⟩ : ∃ j, i = quantum.index + j + 1 := ⟨i - quantum.index - 1, by omega⟩
  obtain ⟨before, hBefore⟩ : ∃ before, log.knots[quantum.index + j]? = some before := by
    obtain ⟨hBound, -⟩ := List.getElem?_eq_some_iff.mp hKnot
    exact ⟨_, List.getElem?_eq_getElem (by omega)⟩
  -- a quantum has an end knot before it
  have hEnding := h.ending_before hBefore hKnot hKind
  cases j with
  | zero =>
    -- which is not the quantum that the branch belongs to
    rw [Nat.add_zero, hQuantum] at hBefore
    rw [← Option.some.inj hBefore] at hEnding
    rw [hEnding] at hBranch
    cases hBranch
  | succ j =>
    -- and replaying would have stopped there
    have hDropped : (log.knots.drop (quantum.index + 1))[j]? = some before := by
      rw [List.getElem?_drop, ← hBefore]
      congr 1
      omega
    rw [told] at hUsed
    have hStops := Knot.not_stops_of_lt (by omega) hDropped
    rw [hEnding] at hStops
    cases hStops

/-- Replaying the branch of some tags writes the script of the knots behind the quantum that the tags
find, up to the first divider, uses just these knots, and does not come across another quantum. Whatever
the knots, replaying on from where it stopped uses all of them, some in each turn. -/
theorem replay_stays_in_branch (additions : List Addition) :
    (∀ tags quantum, (built additions).lookup? tags = some quantum →
      (built additions).knots[quantum.index]? = some quantum ∧
        quantum.kind = .quantum (.ofList tags) ∧
        ∀ talk : Talk,
          (talk.replay ((built additions).branch tags)).2.hush =
              (talk.follow (Knot.script ((built additions).told quantum))).hush ∧
            (talk.replay ((built additions).branch tags)).1 = ((built additions).told quantum).length ∧
            ∀ i knot, quantum.index < i →
              i ≤ quantum.index + (talk.replay ((built additions).branch tags)).1 →
              (built additions).knots[i]? = some knot → knot.kind.isQuantum = false) ∧
      ∀ (talk : Talk) (knots : List Knot),
        (talk.retell knots).1.flatten = knots ∧ ∀ chunk ∈ (talk.retell knots).1, chunk ≠ [] := by
  refine ⟨fun tags quantum hLookup => ?_, Talk.flatten_retell⟩
  have hSound := sound_built additions
  obtain ⟨hQuantum, hKind⟩ := hSound.eq_of_lookup? hLookup
  refine ⟨hQuantum, hKind, fun talk => ?_⟩
  rw [branch_of_lookup? hLookup]
  obtain ⟨hUsed, hLast⟩ := talk.replay_eq ((built additions).knots.drop (quantum.index + 1))
  refine ⟨hLast, hUsed, fun i knot hAfter hLe hKnot => ?_⟩
  rw [hUsed] at hLe
  -- what the replay uses lies between the quantum and the next divider
  exact hSound.not_isQuantum hQuantum (by rw [hKind]; rfl) hAfter hLe hKnot

/-- Two branches, one of which is begun anew. -/
def crossroads : List Addition :=
  [.sentence "ann" "" "East or west?", .entangle ["rain", "west"], .quantum ["east"],
    .sentence "bob" "calm" "East.", .talkBreak, .sentence "bob" "" "On we go.",
    .quantum ["west", "rain"], .terms "winds" ["mild"], .sentence "bob" "calm" "West.",
    .sectionBreak, .quantum ["east"], .sentence "ann" "" "East, after all."]

/-- The branch to the west leaves the ones to the east alone, before it and behind it. -/
theorem replay_stays_in_branch_crossroads :
    ∃ west talk, (built crossroads).lookup? ["rain", "west", "rain"] = some west ∧ west.index = 8 ∧
      Talk.create .empty .standard = .ok talk ∧
      (talk.replay ((built crossroads).branch ["rain", "west", "rain"])).2.hush =
        (talk.follow
          [.beginParagraph "bob", .emote "calm", .speak "West.", .beginSection none]).hush ∧
      (talk.replay ((built crossroads).branch ["rain", "west", "rain"])).1 = 4 ∧
      ∀ i knot, 8 < i → i ≤ 12 → (built crossroads).knots[i]? = some knot →
        knot.kind.isQuantum = false := by
  obtain ⟨talk, hCreate⟩ : ∃ talk, Talk.create .empty .standard = .ok talk := ⟨_, rfl⟩
  have hLookup : (built crossroads).lookup? ["rain", "west", "rain"] =
      some ⟨8, .quantum (.ofList ["west", "rain"])⟩ := by decide
  have hTold : Knot.script ((built crossroads).told ⟨8, .quantum (.ofList ["west", "rain"])⟩) =
        [.beginParagraph "bob", .emote "calm", .speak "West.", .beginSection none] ∧
      ((built crossroads).told ⟨8, .quantum (.ofList ["west", "rain"])⟩).length = 4 := by decide
  obtain ⟨hScript, hLength⟩ := hTold
  obtain ⟨-, -, hReplay⟩ := (replay_stays_in_branch crossroads).1 _ _ hLookup
  obtain ⟨hLast, hUsed, hApart⟩ := hReplay talk
  rw [hScript] at hLast
  rw [hUsed, hLength] at hApart
  exact ⟨_, talk, hLookup, rfl, hCreate, hLast, hUsed.trans hLength, hApart⟩

end KnotLog

end Dialogue
