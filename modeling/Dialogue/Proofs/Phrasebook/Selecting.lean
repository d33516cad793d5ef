import Dialogue.Proofs.Phrasebook.Choosing
import Dialogue.Proofs.Tags
import Mathlib.Data.List.Induction
import Mathlib.Data.List.Rotate

/-!
# Selecting from a phrasebook

A phrasebook grows by two kinds of `Addition`, and it holds what has been added, phrases under the numbers of
their positions. What can be picked from it depends only on which tags are asked for: just what fits, whichever
lawful choice is made, and the more is asked for, the less there is. Going from each phrase to the one with the
next number leads around the whole book.

Main results:

* `Phrasebook.phrases_built`, `Phrasebook.words_built` — what is in a book.
* `Phrasebook.mem_phrasesFor`, `Phrasebook.mem_wordsFor` — what fits a query.
* `Phrasebook.tour_eq_rotate` — a tour passes all phrases in their order, from the one behind its start.
* `Phrasebook.picks_just_what_fits` — all of it, for every phrasebook that additions build.
-/

namespace Dialogue.Phrasebook

/-! ## Books that are built by additions -/

/-- What can be added to a phrasebook. -/
inductive Addition where
  | phrase (tags : List String) (body : List Direction)
  | words (tags values : List String)

namespace Addition

/-- The tags and the body of a phrase that is added. -/
def phrase? : Addition → Option (List String × List Direction)
  | phrase tags body => some (tags, body)
  | words .. => none

/-- The words that are added. -/
def vocabulary? : Addition → Option Vocabulary
  | phrase .. => none
  | words tags values => some ⟨.ofList tags, values⟩

end Addition

def add (book : Phrasebook) : Addition → Phrasebook
  | .phrase tags body => book.addPhrase tags body
  | .words tags values => book.addWords tags values

/-- The phrasebook of some additions, from the empty one on. -/
def built (additions : List Addition) : Phrasebook := additions.foldl add empty

/-- The last addition is made to the book that the others have built. -/
theorem built_append_singleton (additions : List Addition) (addition : Addition) :
    built (additions ++ [addition]) = (built additions).add addition := by
  rw [built, List.foldl_append]
  rfl

/-- The phrases of a book are those that were added, each under the number of its position. -/
theorem phrases_built (additions : List Addition) :
    (built additions).phrases = (additions.filterMap Addition.phrase?).mapIdx
      fun i added => ⟨i, .ofList added.1, added.2⟩ := by
  induction additions using List.reverseRecOn with
  | nil => rfl
  | append_singleton others addition ih =>
    rw [built_append_singleton, List.filterMap_append]
    cases addition with
    | phrase tags body =>
      have hAdded : [Addition.phrase tags body].filterMap Addition.phrase? = [(tags, body)] := rfl
      show (built others).phrases ++ [⟨(built others).phrases.length, .ofList tags, body⟩] = _
      rw [ih, List.length_mapIdx, hAdded, List.mapIdx_concat]
    -- vocabulary adds no phrase
    | words tags values =>
      show (built others).phrases = _
      rw [ih]
      exact congrArg _ (List.append_nil _).symm

/-- The vocabulary holds the words that were added, in that order. -/
theorem words_built (additions : List Addition) :
    (built additions).words = additions.filterMap Addition.vocabulary? := by
  induction additions using List.reverseRecOn with
  | nil => rfl
  | append_singleton others addition ih =>
    rw [built_append_singleton, List.filterMap_append, ← ih]
    cases addition with
    | phrase tags body => exact (List.append_nil _).symm
    | words tags values => rfl

/-- A phrase bears the number of its position. -/
theorem number_built {additions : List Addition} {i : Nat} {phrase : Phrase}
    (hPhrase : (built additions).get? i = some phrase) : phrase.number = i := by
  rw [get?, phrases_built, List.getElem?_mapIdx] at hPhrase
  obtain ⟨added, -, rfl⟩ := Option.map_eq_some_iff.mp hPhrase
  rfl

/-! ## What fits a query -/

section Query

variable {book : Phrasebook} {query more : List String}

/-- A phrase fits if it has all tags that are asked for. -/
theorem mem_phrasesFor {phrase : Phrase} :
    phrase ∈ book.phrasesFor query ↔ phrase ∈ book.phrases ∧ phrase.tags.HasAll query := by
  rw [phrasesFor, List.mem_filter, TagSet.covers_ofList_iff]

/-- A word fits if it was added with all tags that are asked for. -/
theorem mem_wordsFor {word : String} :
    word ∈ book.wordsFor query ↔
      ∃ entry ∈ book.words, entry.tags.HasAll query ∧ word ∈ entry.values := by
  simp only [wordsFor, List.mem_flatMap, List.mem_filter, TagSet.covers_ofList_iff, and_assoc]

/-- No phrase fits exactly if each lacks a tag. -/
theorem phrasesFor_eq_nil_iff :
    book.phrasesFor query = [] ↔ ∀ phrase ∈ book.phrases, ¬ phrase.tags.HasAll query := by
  simp only [List.eq_nil_iff_forall_not_mem, mem_phrasesFor, not_and]

/-- No word fits exactly if all fitting entries are empty. -/
theorem wordsFor_eq_nil_iff :
    book.wordsFor query = [] ↔
      ∀ entry ∈ book.words, entry.tags.HasAll query → entry.values = [] := by
  simp only [wordsFor, List.flatMap_eq_nil_iff, List.mem_filter, TagSet.covers_ofList_iff, and_imp]

/-- The more is asked for, the fewer phrases fit. -/
theorem phrasesFor_subset (hMore : ∀ tag ∈ query, tag ∈ more) :
    book.phrasesFor more ⊆ book.phrasesFor query := by
  intro phrase hPhrase
  obtain ⟨hMem, hAll⟩ := mem_phrasesFor.mp hPhrase
  exact mem_phrasesFor.mpr ⟨hMem, hAll.mono hMore⟩

/-- Whoever asks for more tags gets no new words. -/
theorem wordsFor_subset (hMore : ∀ tag ∈ query, tag ∈ more) :
    book.wordsFor more ⊆ book.wordsFor query := by
  intro word hWord
  obtain ⟨entry, hMem, hAll, hValue⟩ := mem_wordsFor.mp hWord
  exact mem_wordsFor.mpr ⟨entry, hMem, hAll.mono hMore, hValue⟩

end Query

/-! ## Around the book -/

/-- The phrases that some steps lead to, each from the number of a phrase to the phrase after it. -/
def tour (book : Phrasebook) (number : Nat) : Nat → List Phrase
  | 0 => []
  | steps + 1 =>
    match book.next? number with
    | some phrase => phrase :: book.tour phrase.number steps
    | none => []

section Tour

variable {additions : List Addition} {i : Nat}

/-- The next phrase has the next number, and after the last one it is the first. -/
theorem next?_built (hSome : (built additions).phrases ≠ []) (i : Nat) :
    ∃ phrase, (built additions).next? i = some phrase ∧
      phrase.number = (i + 1) % (built additions).phrases.length := by
  have hLt := Nat.mod_lt (i + 1) (List.length_pos_iff.mpr hSome)
  have hNext := List.getElem?_eq_getElem hLt
  exact ⟨_, hNext, number_built hNext⟩

/-- Each step of a tour leads one position on. -/
theorem getElem?_tour (hSome : (built additions).phrases ≠ []) {steps k : Nat} (hLt : k < steps) :
    ((built additions).tour i steps)[k]? =
      (built additions).phrases[(k + (i + 1)) % (built additions).phrases.length]? := by
  induction steps generalizing i k with
  | zero => omega
  | succ steps ih =>
    obtain ⟨phrase, hNext, hNumber⟩ := next?_built hSome i
    simp only [tour, hNext]
    cases k with
    | zero => rw [Nat.zero_add, List.getElem?_cons_zero, ← hNext, next?]
    | succ k =>
      -- the rest of the tour starts at the number of the phrase
      have hPlace : k + ((i + 1) % (built additions).phrases.length + 1) =
          k + 1 + (i + 1) % (built additions).phrases.length := by omega
      rw [List.getElem?_cons_succ, ih (by omega), hNumber, hPlace, Nat.add_mod_mod]

/-- A tour has one phrase for each step. -/
theorem length_tour (hSome : (built additions).phrases ≠ []) (steps : Nat) :
    ((built additions).tour i steps).length = steps := by
  induction steps generalizing i with
  | zero => rfl
  | succ steps ih =>
    obtain ⟨phrase, hNext, -⟩ := next?_built hSome i
    simp only [tour, hNext, List.length_cons, ih]

/-- As many steps as there are phrases lead past all of them, in their order, from the one behind the start. -/
theorem tour_eq_rotate (hSome : (built additions).phrases ≠ []) (i : Nat) :
    (built additions).tour i (built additions).phrases.length =
      (built additions).phrases.rotate (i + 1) := by
  apply List.ext_getElem?
  intro k
  by_cases hLt : k < (built additions).phrases.length
  · rw [getElem?_tour hSome hLt, List.getElem?_rotate hLt]
  · rw [List.getElem?_eq_none (by rw [length_tour hSome]; omega),
      List.getElem?_eq_none (by rw [List.length_rotate]; omega)]

/-- The last of them is the one where the tour started. -/
theorem getLast?_tour (hLt : i < (built additions).phrases.length) :
    ((built additions).tour i (built additions).phrases.length).getLast? =
      (built additions).get? i := by
  have hSome : (built additions).phrases ≠ [] := List.ne_nil_of_length_pos (by omega)
  have hPlace : (built additions).phrases.length - 1 + (i + 1) =
      i + (built additions).phrases.length := by omega
  rw [List.getLast?_eq_getElem?, length_tour hSome, getElem?_tour hSome (by omega), hPlace,
    Nat.add_mod_right, Nat.mod_eq_of_lt hLt, get?]

end Tour

/-! ## Picks -/

/-- From every phrasebook that additions build, just what fits a query can be picked, by whatever lawful
choice. A phrase can be picked exactly if it is in the book and has all tags that are asked for, and none is
picked exactly if there is no such phrase; the same goes for the words of entries that have all of the tags.
It only matters which tags are asked for, and asking for more never brings anything new. The book holds what
was added, phrases under the numbers of their positions, and as many steps as there are phrases, each to the
phrase after the last, lead from any phrase past each of them once and back to it. -/
theorem picks_just_what_fits {Source Use : Type} {chooser : Chooser Source Use}
    (hLawful : chooser.Lawful) (additions : List Addition) (query : List String) :
    (∀ phrase, CanPick ((built additions).pickPhraseBy chooser query) phrase ↔
      phrase ∈ (built additions).phrases ∧ phrase.tags.HasAll query) ∧
    (∀ source, ((built additions).pickPhraseBy chooser query source).1 = none ↔
      ∀ phrase ∈ (built additions).phrases, ¬ phrase.tags.HasAll query) ∧
    (∀ word, CanPick ((built additions).pickWordBy chooser query) word ↔
      ∃ entry ∈ (built additions).words, entry.tags.HasAll query ∧ word ∈ entry.values) ∧
    (∀ source, ((built additions).pickWordBy chooser query source).1 = none ↔
      ∀ entry ∈ (built additions).words, entry.tags.HasAll query → entry.values = []) ∧
    (∀ same, (∀ tag, tag ∈ same ↔ tag ∈ query) →
      (built additions).pickPhraseBy chooser same = (built additions).pickPhraseBy chooser query ∧
      (built additions).pickWordBy chooser same = (built additions).pickWordBy chooser query) ∧
    (∀ more, (∀ tag ∈ query, tag ∈ more) →
      (∀ phrase, CanPick ((built additions).pickPhraseBy chooser more) phrase →
        CanPick ((built additions).pickPhraseBy chooser query) phrase) ∧
      ∀ word, CanPick ((built additions).pickWordBy chooser more) word →
        CanPick ((built additions).pickWordBy chooser query) word) ∧
    (∀ i, (built additions).get? i = ((additions.filterMap Addition.phrase?)[i]?).map
      fun added => ⟨i, .ofList added.1, added.2⟩) ∧
    (built additions).words = additions.filterMap Addition.vocabulary? ∧
    ∀ i < (built additions).phrases.length,
      ((built additions).tour i (built additions).phrases.length).Perm (built additions).phrases ∧
      ((built additions).tour i (built additions).phrases.length).getLast? =
        (built additions).get? i := by
  have hPhrase : ∀ query phrase, CanPick ((built additions).pickPhraseBy chooser query) phrase ↔
      phrase ∈ (built additions).phrasesFor query := fun _ _ => hLawful.canPick_iff
  have hWord : ∀ query word, CanPick ((built additions).pickWordBy chooser query) word ↔
      word ∈ (built additions).wordsFor query := fun _ _ => hLawful.canPick_iff
  refine ⟨fun phrase => (hPhrase query phrase).trans mem_phrasesFor,
    fun source => hLawful.choose_eq_none_iff.trans phrasesFor_eq_nil_iff,
    fun word => (hWord query word).trans mem_wordsFor,
    fun source => hLawful.choose_eq_none_iff.trans wordsFor_eq_nil_iff, ?_, ?_, ?_,
    words_built additions, ?_⟩
  · intro same hSame
    -- both lists make the same set, and only the set is looked at
    have hSet : TagSet.ofList same = TagSet.ofList query := TagSet.ofList_congr hSame
    constructor
    · funext source
      rw [pickPhraseBy, pickPhraseBy, phrasesFor, phrasesFor, hSet]
    · funext source
      rw [pickWordBy, pickWordBy, wordsFor, wordsFor, hSet]
  · intro more hMore
    refine ⟨fun phrase hPick => ?_, fun word hPick => ?_⟩
    · exact (hPhrase query phrase).mpr (phrasesFor_subset hMore ((hPhrase more phrase).mp hPick))
    · exact (hWord query word).mpr (wordsFor_subset hMore ((hWord more word).mp hPick))
  · intro i
    rw [get?, phrases_built, List.getElem?_mapIdx]
  · intro i hLt
    refine ⟨?_, getLast?_tour hLt⟩
    -- a full tour is the list of phrases, turned
    rw [tour_eq_rotate (List.ne_nil_of_length_pos (by omega))]
    exact List.rotate_perm ..

/-- Greetings for three occasions, and words for them, of which some entries have none. -/
def greetings : List Addition :=
  [.phrase ["morning", "ann"] [.beginParagraph "ann", .speak "Good morning."],
    .words ["greeting", "polite"] ["Hello", "Good day"], .phrase ["ann", "evening"] [.speak "Good evening."],
    .words ["greeting"] ["Hey"], .words ["polite", "farewell"] [], .phrase ["bob", "morning", "bob"] []]

/-- With the uniform choice, both phrases of one actor can be picked and not the one of the other; there is no
phrase for the night, and no word for a polite farewell. -/
theorem picks_just_what_fits_greetings :
    Pick.uniform.Lawful ∧
    CanPick ((built greetings).pickPhrase ["ann"])
      ⟨1, .ofList ["evening", "ann"], [.speak "Good evening."]⟩ ∧
    ¬ CanPick ((built greetings).pickPhrase ["ann"]) ⟨2, .ofList ["bob", "morning"], []⟩ ∧
    (∀ random, ((built greetings).pickPhrase ["ann", "night"] random).1 = none) ∧
    CanPick ((built greetings).pickWord ["greeting"]) "Good day" ∧
    CanPick ((built greetings).pickWord ["greeting"]) "Hey" ∧
    ¬ CanPick ((built greetings).pickWord ["polite"]) "Hey" ∧
    (∀ random, ((built greetings).pickWord ["farewell"] random).1 = none) ∧
    (built greetings).pickPhrase ["ann", "morning", "ann"] =
      (built greetings).pickPhrase ["morning", "ann"] ∧
    CanPick ((built greetings).pickWord ["polite"]) "Hello" ∧
    ((built greetings).tour 1 3).Perm (built greetings).phrases ∧
    ((built greetings).tour 1 3).getLast? = (built greetings).get? 1 := by
  have hLawful := Pick.uniform_lawful
  obtain ⟨hAnn, -, -, -, -, -, -, -, hTour⟩ := picks_just_what_fits hLawful greetings ["ann"]
  obtain ⟨-, hNight, -⟩ := picks_just_what_fits hLawful greetings ["ann", "night"]
  obtain ⟨-, -, hGreeting, -⟩ := picks_just_what_fits hLawful greetings ["greeting"]
  obtain ⟨-, -, hPolite, -, -, hMore, -⟩ := picks_just_what_fits hLawful greetings ["polite"]
  obtain ⟨-, -, -, hFarewell, -⟩ := picks_just_what_fits hLawful greetings ["farewell"]
  obtain ⟨-, -, -, -, hSame, -⟩ := picks_just_what_fits hLawful greetings ["morning", "ann"]
  obtain ⟨-, -, hBoth, -⟩ := picks_just_what_fits hLawful greetings ["greeting", "polite"]
  have hHello : CanPick ((built greetings).pickWord ["greeting", "polite"]) "Hello" :=
    (hBoth "Hello").mpr (by decide)
  refine ⟨hLawful, (hAnn _).mpr ⟨?_, by decide⟩, fun hPick => ?_, fun random => ?_, ?_, ?_,
    fun hPick => ?_, fun random => ?_, ?_, (hMore _ (by decide)).2 "Hello" hHello,
    (hTour 1 (by decide)).1, (hTour 1 (by decide)).2⟩
  · exact List.mem_of_getElem? (i := 1) rfl
  · exact absurd ((hAnn _).mp hPick).2 (by decide)
  · exact (hNight random).mpr (by decide)
  · exact (hGreeting _).mpr (by decide)
  · exact (hGreeting _).mpr (by decide)
  · exact absurd ((hPolite _).mp hPick) (by decide)
  · exact (hFarewell random).mpr (by decide)
  · exact (hSame _ fun tag => by grind).1

end Dialogue.Phrasebook
