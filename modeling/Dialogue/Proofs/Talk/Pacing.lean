import Dialogue.Proofs.Scrap.Bare
import Dialogue.Proofs.Scrap.Timetable
import Dialogue.Proofs.Talk.History

/-!
# Pacing is exact

Pacing a scope gives its entries their timetable and leaves alone all else; what cannot be paced is refused,
and a refusal changes nothing.

Main results:

* `Talk.paced_scope` — the entries of a scope after it was paced, and what pacing it again does.
* `Talk.paces_exactly` — all that pacing does, and when it is refused.
-/

namespace Dialogue

/-- The entries of a scope in document order, if the scrap has such a section. -/
def PaceScope.entries? (scope : PaceScope) (scrap : Scrap) : Option (List Entry) :=
  match scope with
  | .whole => some scrap.entries
  | .single number => (scrap.section? number).map Section.entries

namespace Talk

variable {talk : Talk} {scope : PaceScope}

/-- A scope that the scrap has is paced: its entries get their timetable, no word of the text changes, and
pacing it again comes to the same. -/
theorem paced_scope (hOpen : talk.outcome .closing = none) {entries : List Entry}
    (hEntries : scope.entries? talk.scrap = some entries) :
    ∃ total paced later, talk.pace scope = (.ok total, later) ∧
      scope.entries? later.scrap = some paced ∧
      Timetable talk.options.tempo entries paced total ∧
      later.scrap.bare = talk.scrap.bare ∧ later.pace scope = (.ok total, later) := by
  have hClosing := isClosing_of_open hOpen
  cases scope with
  | whole =>
    obtain rfl := Option.some.inj hEntries
    -- pacing the scrap is pacing all of its entries
    obtain ⟨hPaced, hTotal⟩ := Prod.mk.inj (talk.scrap.entries_paced talk.options.tempo)
    refine ⟨(talk.scrap.paced talk.options.tempo).2, _,
      { talk with scrap := (talk.scrap.paced talk.options.tempo).1 }, ?_, rfl, ?_,
      talk.scrap.bare_paced _, ?_⟩
    · simp only [pace, hClosing, Bool.false_eq_true, if_false]
    · rw [hPaced, hTotal]
      exact timetable_paced _ _
    · have hStill : ({ talk with scrap := (talk.scrap.paced talk.options.tempo).1 } : Talk).isClosing =
          false := hClosing
      simp only [pace, hStill, Bool.false_eq_true, if_false, Scrap.paced_paced]
  | single number =>
    obtain ⟨sect, hFound, rfl⟩ := Option.map_eq_some_iff.mp hEntries
    obtain ⟨scrap, hPaced⟩ : ∃ scrap, talk.scrap.pacedSection? talk.options.tempo number =
        some (scrap, (sect.paced talk.options.tempo 0).2) := by
      rw [Scrap.pacedSection?, hFound]
      exact ⟨_, rfl⟩
    refine ⟨(sect.paced talk.options.tempo 0).2, (sect.paced talk.options.tempo 0).1.entries,
      { talk with scrap }, ?_, ?_, ?_, Scrap.bare_pacedSection? hPaced, ?_⟩
    · simp only [pace, hClosing, Bool.false_eq_true, if_false, hPaced]
    · -- the section is found under its number again
      have hScrap : scrap = talk.scrap.modifySection number
          fun sect => (sect.paced talk.options.tempo 0).1 := by
        rw [Scrap.pacedSection?, hFound] at hPaced
        exact (Prod.mk.inj (Option.some.inj hPaced)).1.symm
      rw [PaceScope.entries?, hScrap,
        Scrap.section?_modifySection fun sect => sect.number_paced talk.options.tempo 0, hFound]
      rfl
    · obtain ⟨hSect, hTotal⟩ := Prod.mk.inj (sect.entries_paced talk.options.tempo 0)
      rw [hSect, hTotal]
      exact timetable_paced _ _
    · have hStill : ({ talk with scrap } : Talk).isClosing = false := hClosing
      simp only [pace, hStill, Bool.false_eq_true, if_false, Scrap.pacedSection?_paced hPaced]

/-- Pacing a scope of a talk that is not closing. If the scrap has it, the total is given back, the entries
of the scope have their timetable, and all else is as it was: the entries at other places, every word of the
text and the shape of the scrap, and the talk but for its scrap. Pacing the scope again gives the same total
and the same talk. A section that the scrap does not have is refused, and so is any scope once the talk is
closing; a talk that refuses stays as it is. -/
theorem paces_exactly (talk : Talk) (scope : PaceScope) :
    (talk.outcome .closing = none →
      (∀ entries, scope.entries? talk.scrap = some entries →
        ∃ total paced later, talk.perform (.pace scope) = (.total total, later) ∧
          scope.entries? later.scrap = some paced ∧
          Timetable talk.options.tempo entries paced total ∧
          (∀ place, scope.covers talk.scrap place = false →
            later.scrap.entryAt? place = talk.scrap.entryAt? place) ∧
          later.scrap.bare = talk.scrap.bare ∧
          later = { talk with scrap := later.scrap } ∧
          later.perform (.pace scope) = (.total total, later)) ∧
      ∀ number, scope = .single number → talk.scrap.section? number = none →
        talk.perform (.pace scope) = (.refused (.invalidSection number), talk)) ∧
    (talk.outcome .closing ≠ none →
      talk.perform (.pace scope) = (.refused .talkClosed, talk)) := by
  refine ⟨fun hOpen => ⟨fun entries hEntries => ?_, ?_⟩, fun hSettled => ?_⟩
  · obtain ⟨total, paced, later, hPace, hPaced, hTimetable, hBare, hAgain⟩ :=
      paced_scope hOpen hEntries
    have hEffect := paced_of_pace hPace
    refine ⟨total, paced, later, ?_, hPaced, hTimetable, fun place => hEffect.others, hBare,
      hEffect.rest, ?_⟩
    · rw [perform, hPace]
      rfl
    · rw [perform, hAgain]
      rfl
  · rintro number rfl hNone
    have hPaced : talk.scrap.pacedSection? talk.options.tempo number = none := by
      rw [Scrap.pacedSection?, hNone]
      rfl
    have hPace : talk.pace (.single number) = (.error (.invalidSection number), talk) := by
      simp only [pace, isClosing_of_open hOpen, Bool.false_eq_true, if_false, hPaced]
    rw [perform, hPace]
    rfl
  · have hPace : talk.pace scope = (.error .talkClosed, talk) := by
      simp only [pace, isClosing_of_settled hSettled, if_true]
    rw [perform, hPace]
    rfl

/-- A base unit of half of the limit: two characters reach it, but for one millisecond. -/
def unhurried : Options := { Options.standard with tempo := .ofNormal (.ofNat (Millis.limit / 2)) }

/-- Two sections, of which the second one has an emote. -/
def twoSections : List Operation :=
  [.direct (.speak "Oh"), .direct (.beginSection none), .direct (.speak "no"),
    .direct (.emote "sigh")]

/-- A section that takes all the time there is, in a talk with two sections. -/
theorem paces_exactly_unhurried :
    ∃ first, Talk.create .empty unhurried = .ok first ∧
      (first.after twoSections).outcome .closing = none ∧
      (PaceScope.single 2).entries? (first.after twoSections).scrap =
        some [.ofChar 'n', .ofChar 'o', .ofEmote "sigh"] ∧
      ∃ total paced later,
        (first.after twoSections).perform (.pace (.single 2)) = (.total total, later) ∧
          (PaceScope.single 2).entries? later.scrap = some paced ∧
          paced.map (fun e => (e.delay.toNat, e.timestamp.toNat)) =
            [(Millis.limit / 2, Millis.limit / 2), (Millis.limit / 2, Millis.limit - 1),
              (0, Millis.limit - 1)] ∧
          total.toNat = Millis.limit - 1 ∧
          later.scrap.entryAt? ⟨0, .item 0 0⟩ = some (.ofChar 'O') ∧
          later.perform (.pace (.single 2)) = (.total total, later) ∧
          later.perform (.pace (.single 7)) = (.refused (.invalidSection 7), later) ∧
          later.close.2.perform (.pace .whole) = (.refused .talkClosed, later.close.2) := by
  obtain ⟨first, hCreate⟩ : ∃ first, Talk.create .empty unhurried = .ok first := ⟨_, rfl⟩
  have hState : (first.after twoSections).outcome .closing = none ∧
      (PaceScope.single 2).entries? (first.after twoSections).scrap =
        some [.ofChar 'n', .ofChar 'o', .ofEmote "sigh"] ∧
      (first.after twoSections).scrap.entryAt? ⟨0, .item 0 0⟩ = some (.ofChar 'O') ∧
      (PaceScope.single 2).covers (first.after twoSections).scrap ⟨0, .item 0 0⟩ = false := by
    cases hCreate
    decide
  obtain ⟨hOpen, hEntries, hFirst, hOutside⟩ := hState
  obtain ⟨total, paced, later, hPerform, hPaced, hTimetable, hOthers, -, hRest, hAgain⟩ :=
    ((paces_exactly (first.after twoSections) (.single 2)).1 hOpen).1 _ hEntries
  have hTimes : ((PaceScope.single 2).entries?
        ((first.after twoSections).perform (.pace (.single 2))).2.scrap).map
          (List.map fun e => (e.delay.toNat, e.timestamp.toNat)) =
        some [(Millis.limit / 2, Millis.limit / 2), (Millis.limit / 2, Millis.limit - 1),
          (0, Millis.limit - 1)] ∧
      ((first.after twoSections).perform (.pace (.single 2))).1 =
        .total (.ofNat (Millis.limit - 1)) ∧
      ((first.after twoSections).perform (.pace (.single 2))).2.scrap.section? 7 = none ∧
      ((first.after twoSections).perform (.pace (.single 2))).2.close.2.outcome .closing =
        some .abandoned := by
    cases hCreate
    decide
  rw [hPerform, hPaced] at hTimes
  obtain ⟨hTimes, hTotal, hUnknown, hClosed⟩ := hTimes
  obtain rfl := Reply.total.inj hTotal
  have hStill : later.outcome .closing = none := by
    rw [hRest]
    exact hOpen
  refine ⟨first, hCreate, hOpen, hEntries, _, paced, later, hPerform, hPaced,
    Option.some.inj hTimes, by decide, ?_, hAgain, ?_, ?_⟩
  · rw [hOthers _ hOutside, hFirst]
  · exact ((paces_exactly later (.single 7)).1 hStill).2 7 rfl hUnknown
  · refine (paces_exactly later.close.2 .whole).2 ?_
    rw [hClosed]
    exact Option.some_ne_none _

end Talk

end Dialogue
