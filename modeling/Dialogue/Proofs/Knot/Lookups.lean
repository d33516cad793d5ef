import Dialogue.Proofs.Knot.Additions
import Dialogue.Proofs.Tags

/-!
# The log and its table

What can be asked of a knot log is answered from the log itself: the branch point with some tags is the
last one that bears them, an entangle leads to the last one that bears its tags, and a branch is what
stands behind. The table of quanta only finds them. It is the same with every set of tags, in whatever
order they are given and however often, and with every log, as knots that are in it stay as they are.

Main results:

* `Knot.bears_iff` — sets of tags are equal exactly if they hold the same tags.
* `KnotLog.built_isPrefix` — what has been added stays.
* `KnotLog.Sound.lookup?_eq_some_iff`, `KnotLog.Sound.resolve?_eq_some_iff` — what looking up finds.
* `KnotLog.log_and_table_agree` — all of it, for every log that additions build.
-/

namespace Dialogue

/-! ## Branch points -/

namespace Knot

/-- The knot is a branch point with exactly the given tags. -/
def Bears (knot : Knot) (tags : List String) : Prop :=
  ∃ set, knot.kind = .quantum set ∧ ∀ tag, tag ∈ set.tags ↔ tag ∈ tags

/-- A knot bears the tags of its own quantum, in whatever order they are given. -/
theorem bears_iff {knot : Knot} {tags : List String} :
    knot.Bears tags ↔ knot.kind = .quantum (.ofList tags) := by
  constructor
  · rintro ⟨set, hKind, hTags⟩
    have hSet : set = .ofList tags :=
      TagSet.ext_of_mem fun tag => (hTags tag).trans TagSet.mem_ofList.symm
    rw [hKind, hSet]
  · intro hKind
    exact ⟨_, hKind, fun tag => TagSet.mem_ofList⟩

end Knot

namespace KnotLog

/-! ## What stays -/

theorem isPrefix_push (log : KnotLog) (kind : KnotKind) : log.knots <+: (log.push kind).knots :=
  List.prefix_append ..

theorem isPrefix_finishEntry (log : KnotLog) : log.knots <+: log.finishEntry.knots := by
  unfold finishEntry
  split
  · split
    · exact List.prefix_rfl
    · exact log.isPrefix_push _
  · exact List.prefix_rfl

theorem isPrefix_add (log : KnotLog) (addition : Addition) :
    log.knots <+: (log.add addition).knots := by
  obtain ⟨kind, -, -, hAdd⟩ | ⟨tags, hAdd⟩ := log.add_cases addition
  · rw [hAdd]
    exact log.isPrefix_push kind
  · rw [hAdd]
    exact log.isPrefix_finishEntry.trans (log.finishEntry.isPrefix_push _)

/-- Whatever is added later stands behind what is there. -/
theorem built_isPrefix (additions more : List Addition) :
    (built additions).knots <+: (built (additions ++ more)).knots := by
  induction more using List.reverseRecOn with
  | nil => simp
  | append_singleton others addition ih =>
    rw [← List.append_assoc, built, built, List.foldl_append]
    exact ih.trans (isPrefix_add _ addition)

/-- What stands at a place parts the log into what is before it and what is behind it. -/
theorem split_of_get? {log : KnotLog} {i : Nat} {knot : Knot} (hKnot : log.get? i = some knot) :
    log.knots = log.knots.take i ++ knot :: log.knots.drop (i + 1) := by
  obtain ⟨hLt, hEq⟩ := List.getElem?_eq_some_iff.mp hKnot
  have hDrop : log.knots.drop i = knot :: log.knots.drop (i + 1) := by
    rw [List.drop_eq_getElem_cons hLt, hEq]
  rw [← hDrop, List.take_append_drop]

/-! ## The last branch point with some tags -/

/-- The branch point with the given tags that stands behind all others with them. -/
structure LastWith (log : KnotLog) (tags : List String) (quantum : Knot) : Prop where
  here : log.get? quantum.index = some quantum
  bears : quantum.Bears tags
  last : ∀ i later, quantum.index < i → log.get? i = some later → ¬ later.Bears tags

/-- What is found is the last of its kind: none stands behind it. -/
theorem lastQuantum?_eq_some_iff {knots : List Knot} {set : TagSet} {quantum : Knot} :
    lastQuantum? knots set = some quantum ↔
      ∃ before after, knots = before ++ quantum :: after ∧ quantum.kind = .quantum set ∧
        ∀ later ∈ after, later.kind ≠ .quantum set := by
  rw [lastQuantum?, List.getLast?_eq_some_iff]
  constructor
  · rintro ⟨others, hFilter⟩
    -- the filter splits where the log does
    obtain ⟨front, back, rfl, -, hBack⟩ := List.filter_eq_append_iff.mp hFilter
    obtain ⟨between, after, rfl, -, hKind, hAfter⟩ := List.filter_eq_cons_iff.mp hBack
    refine ⟨front ++ between, after, by simp, of_decide_eq_true hKind, ?_⟩
    intro later hMem hLater
    exact List.filter_eq_nil_iff.mp hAfter later hMem (decide_eq_true hLater)
  · rintro ⟨before, after, rfl, hKind, hAfter⟩
    have hNone : after.filter (·.kind = .quantum set) = [] :=
      List.filter_eq_nil_iff.mpr fun later hMem hLater =>
        hAfter later hMem (of_decide_eq_true hLater)
    refine ⟨before.filter (·.kind = .quantum set), ?_⟩
    rw [List.filter_append, List.filter_cons_of_pos (by simpa using hKind), hNone]

namespace Sound

variable {log : KnotLog}

/-- Seen from the log, the last quantum stands where it says, and none with its tags behind it. -/
theorem lastWith_iff (h : Sound log) {tags : List String} {quantum : Knot} :
    LastWith log tags quantum ↔ lastQuantum? log.knots (.ofList tags) = some quantum := by
  rw [lastQuantum?_eq_some_iff]
  constructor
  · rintro ⟨hHere, hBears, hLast⟩
    -- the log splits at the place that the quantum has
    refine ⟨_, _, split_of_get? hHere, Knot.bears_iff.mp hBears, ?_⟩
    intro later hMem hKind
    obtain ⟨j, hj⟩ := List.mem_iff_getElem?.mp hMem
    rw [List.getElem?_drop] at hj
    exact hLast _ later (by omega) hj (Knot.bears_iff.mpr hKind)
  · rintro ⟨before, after, hSplit, hKind, hAfter⟩
    have hAt : log.knots[before.length]? = some quantum := by
      rw [hSplit]
      simp
    have hIndex : quantum.index = before.length := h.index _ _ hAt
    refine ⟨by rw [get?, hIndex, hAt], Knot.bears_iff.mpr hKind, ?_⟩
    intro i later hLt hLater
    obtain ⟨j, rfl⟩ : ∃ j, i = before.length + j + 1 := ⟨i - before.length - 1, by omega⟩
    -- what stands behind the quantum is what stands behind the split
    have hMem : later ∈ after := by
      rw [get?, hSplit, List.getElem?_append_right (by omega)] at hLater
      have hPlace : before.length + j + 1 - before.length = j + 1 := by omega
      rw [hPlace, List.getElem?_cons_succ] at hLater
      exact List.mem_of_getElem? hLater
    exact fun hBears => hAfter later hMem (Knot.bears_iff.mp hBears)

/-- The table finds the last quantum with these tags. -/
theorem lookup?_eq_some_iff (h : Sound log) {tags : List String} {quantum : Knot} :
    log.lookup? tags = some quantum ↔ LastWith log tags quantum := by
  rw [lookup?, h.lookupSet?_eq, h.lastWith_iff]

/-- The table finds nothing exactly if no knot bears the tags. -/
theorem lookup?_eq_none_iff (h : Sound log) {tags : List String} :
    log.lookup? tags = none ↔ ∀ knot ∈ log.knots, ¬ knot.Bears tags := by
  rw [lookup?, h.lookupSet?_eq, lastQuantum?, List.getLast?_eq_none_iff, List.filter_eq_nil_iff]
  simp only [decide_eq_true_eq, Knot.bears_iff]

/-- An entangle leads where looking up its tags does. -/
theorem resolve?_eq_some_iff (h : Sound log) {i : Nat} {target : Knot} :
    log.resolve? i = some target ↔
      ∃ knot set, log.get? i = some knot ∧ knot.kind = .entangle set ∧
        LastWith log set.tags target := by
  have hSet : ∀ set : TagSet, LastWith log set.tags target ↔ log.lookupSet? set = some target := by
    intro set
    rw [h.lastWith_iff, h.lookupSet?_eq, set.ofList_tags]
  unfold resolve?
  constructor
  · intro hTarget
    split at hTarget
    · rename_i set hKind
      obtain ⟨knot, hKnot, hEntangle⟩ := Option.map_eq_some_iff.mp hKind
      exact ⟨knot, set, hKnot, hEntangle, (hSet set).mpr hTarget⟩
    · cases hTarget
  · rintro ⟨knot, set, hKnot, hEntangle, hLast⟩
    rw [hKnot, Option.map_some, hEntangle]
    exact (hSet set).mp hLast

/-- An entangle leads somewhere exactly if there is a branch point with its tags, before it or behind it. -/
theorem exists_resolve?_iff (h : Sound log) {i : Nat} :
    (∃ target, log.resolve? i = some target) ↔
      ∃ knot set, log.get? i = some knot ∧ knot.kind = .entangle set ∧
        ∃ quantum ∈ log.knots, quantum.Bears set.tags := by
  have hFound : ∀ tags, (∃ target, LastWith log tags target) ↔
      ∃ quantum ∈ log.knots, quantum.Bears tags := by
    intro tags
    simp only [← h.lookup?_eq_some_iff]
    rw [← Option.ne_none_iff_exists', Ne, h.lookup?_eq_none_iff]
    push Not
    rfl
  simp only [h.resolve?_eq_some_iff, ← hFound]
  constructor
  · rintro ⟨target, knot, set, hKnot, hEntangle, hLast⟩
    exact ⟨knot, set, hKnot, hEntangle, target, hLast⟩
  · rintro ⟨knot, set, hKnot, hEntangle, target, hLast⟩
    exact ⟨target, knot, set, hKnot, hEntangle, hLast⟩

/-- A branch is what stands behind its branch point. -/
theorem branch_of_lastWith (h : Sound log) {tags : List String} {quantum : Knot}
    (hLast : LastWith log tags quantum) :
    ∃ before, log.knots = before ++ quantum :: log.branch tags ∧ before.length = quantum.index := by
  obtain ⟨hLt, -⟩ := List.getElem?_eq_some_iff.mp hLast.here
  refine ⟨log.knots.take quantum.index, ?_, List.length_take_of_le (by omega)⟩
  rw [branch_of_lookup? (h.lookup?_eq_some_iff.mpr hLast)]
  exact split_of_get? hLast.here

/-- Tags that no knot bears have no branch. -/
theorem branch_eq_nil (h : Sound log) {tags : List String}
    (hNone : ∀ knot ∈ log.knots, ¬ knot.Bears tags) : log.branch tags = [] := by
  rw [branch, h.lookup?_eq_none_iff.mpr hNone]

/-- An end knot is put before a quantum, and so the quantum stands behind it. -/
theorem quantum_after (h : Sound log) {i : Nat} {ending : Knot}
    (hEnding : log.get? i = some ending) (hKind : ending.kind = .ending) :
    ∃ quantum, log.get? (i + 1) = some quantum ∧ quantum.kind.isQuantum = true := by
  obtain ⟨hLt, rfl⟩ := List.getElem?_eq_some_iff.mp hEnding
  -- no addition leaves an end knot at the end of the log
  have hNext : i + 1 < log.knots.length := by
    refine Nat.lt_of_le_of_ne hLt fun hEnd => h.last log.knots[i] ?_ hKind
    have hPlace : log.knots.length - 1 = i := by omega
    rw [List.getLast?_eq_getElem?, hPlace]
    exact hEnding
  refine ⟨log.knots[i + 1], List.getElem?_eq_getElem hNext, ?_⟩
  exact (List.isChain_iff_getElem.mp h.chain i hNext).mp hKind

/-- The knot in front of a quantum ends the entry before it. -/
theorem exists_ending_before (h : Sound log) {i : Nat} {quantum : Knot}
    (hQuantum : log.get? (i + 1) = some quantum) (hKind : quantum.kind.isQuantum = true) :
    ∃ ending, log.get? i = some ending ∧ ending.kind = .ending := by
  obtain ⟨hLt, -⟩ := List.getElem?_eq_some_iff.mp hQuantum
  have hBefore : log.get? i = some log.knots[i] := List.getElem?_eq_getElem (by omega)
  exact ⟨_, hBefore, h.ending_before hBefore hQuantum hKind⟩

end Sound

/-! ## Agreement -/

/-- Every log that additions build agrees with its table. Its knots stand where they say and stay as they
are; before each quantum but the first knot stands an end knot, and behind each end knot a quantum; the
last quantum with some tags is what looking them up finds, what an entangle with these tags leads to, and
what their branch stands behind. -/
theorem log_and_table_agree (additions : List Addition) :
    (∀ i knot, (built additions).get? i = some knot →
      knot.index = i ∧ ∀ more, (built (additions ++ more)).get? i = some knot) ∧
    (∀ i quantum, (built additions).get? (i + 1) = some quantum → quantum.kind.isQuantum = true →
      ∃ ending, (built additions).get? i = some ending ∧ ending.kind = .ending) ∧
    (∀ i ending, (built additions).get? i = some ending → ending.kind = .ending →
      ∃ quantum, (built additions).get? (i + 1) = some quantum ∧ quantum.kind.isQuantum = true) ∧
    (∀ tags,
      (∀ quantum, (built additions).lookup? tags = some quantum ↔
        LastWith (built additions) tags quantum) ∧
      ((built additions).lookup? tags = none ↔
        ∀ knot ∈ (built additions).knots, ¬ knot.Bears tags)) ∧
    (∀ i,
      (∀ target, (built additions).resolve? i = some target ↔
        ∃ knot set, (built additions).get? i = some knot ∧ knot.kind = .entangle set ∧
          LastWith (built additions) set.tags target) ∧
      ((∃ target, (built additions).resolve? i = some target) ↔
        ∃ knot set, (built additions).get? i = some knot ∧ knot.kind = .entangle set ∧
          ∃ quantum ∈ (built additions).knots, quantum.Bears set.tags)) ∧
    ∀ tags,
      (∀ quantum, LastWith (built additions) tags quantum →
        ∃ before, (built additions).knots = before ++ quantum :: (built additions).branch tags ∧
          before.length = quantum.index) ∧
      ((∀ knot ∈ (built additions).knots, ¬ knot.Bears tags) →
        (built additions).branch tags = []) := by
  have h := sound_built additions
  refine ⟨?_, fun i quantum => h.exists_ending_before, fun i ending => h.quantum_after,
    fun tags => ⟨fun quantum => h.lookup?_eq_some_iff, h.lookup?_eq_none_iff⟩,
    fun i => ⟨fun target => h.resolve?_eq_some_iff, h.exists_resolve?_iff⟩,
    fun tags => ⟨fun quantum => h.branch_of_lastWith, h.branch_eq_nil⟩⟩
  intro i knot hKnot
  -- what is added later stands behind all that is there
  refine ⟨h.index i knot hKnot, fun more => ?_⟩
  obtain ⟨behind, hBehind⟩ := built_isPrefix additions more
  obtain ⟨hLt, -⟩ := List.getElem?_eq_some_iff.mp hKnot
  rw [get?, ← hBehind, List.getElem?_append_left hLt]
  exact hKnot

/-- Two branch points with the same tags, written down in different ways, and entangles before and behind
them. -/
def detours : List Addition :=
  [.entangle ["snow", "night"], .quantum ["night", "snow", "night"], .sentence "ann" "" "Still here.",
    .entangle ["dawn"], .quantum ["snow", "night"], .talkBreak]

/-- The entangle at the front leads to the second branch point, also when more is added, and the other one
nowhere. -/
theorem log_and_table_agree_detours :
    (∃ target, (built detours).resolve? 0 = some target ∧ target.index = 6 ∧
      LastWith (built detours) ["night", "snow"] target ∧
      ∀ more, (built (detours ++ more)).get? 6 = some target) ∧
    (∃ ending, (built detours).get? 5 = some ending ∧ ending.kind = .ending) ∧
    (∃ quantum, (built detours).get? 2 = some quantum ∧ quantum.kind.isQuantum = true) ∧
    (∃ before, (built detours).knots = before ++ ⟨6, .quantum (.ofList ["night", "snow"])⟩ ::
      (built detours).branch ["snow", "night", "snow"] ∧ before.length = 6) ∧
    (built detours).branch ["dawn"] = [] ∧ ¬ ∃ target, (built detours).resolve? 4 = some target := by
  obtain ⟨hKnots, hBefore, hBehind, hLookup, hResolve, hBranch⟩ := log_and_table_agree detours
  have hAt : (built detours).get? 6 = some ⟨6, .quantum (.ofList ["night", "snow"])⟩ := by decide
  have hFound : ∀ tags, (built detours).lookup? tags = some ⟨6, .quantum (.ofList ["night", "snow"])⟩ →
      LastWith (built detours) tags ⟨6, .quantum (.ofList ["night", "snow"])⟩ :=
    fun tags => ((hLookup tags).1 _).mp
  have hDawn : ∀ knot ∈ (built detours).knots, ¬ knot.Bears ["dawn"] := (hLookup ["dawn"]).2.mp (by decide)
  refine ⟨⟨_, by decide, rfl, hFound ["night", "snow"] (by decide), (hKnots 6 _ hAt).2⟩,
    hBefore 5 _ hAt rfl, hBehind 1 ⟨1, .ending⟩ (by decide) rfl,
    (hBranch _).1 _ (hFound ["snow", "night", "snow"] (by decide)), (hBranch ["dawn"]).2 hDawn, ?_⟩
  rw [(hResolve 4).2]
  rintro ⟨knot, set, hKnot, hEntangle, quantum, hMem, hBears⟩
  have hEntry : (built detours).get? 4 = some ⟨4, .entangle (.ofList ["dawn"])⟩ := by decide
  rw [hEntry, Option.some.injEq] at hKnot
  rw [← hKnot, KnotKind.entangle.injEq] at hEntangle
  rw [← hEntangle] at hBears
  exact hDawn quantum hMem hBears

end KnotLog

end Dialogue
