import Dialogue.Tags
import Dialogue.Talk.Authoring

/-!
# Phrasebooks

A `Phrasebook` holds phrases, which are pieces of dialogue, and words, each under a set of tags. A
query picks among the entries whose tags cover it. How one of them is chosen is up to a `Chooser`. The pick of
a phrasebook is uniform: it is made with random words of 32 bits, or longer ones if there are more candidates
than these can count, and words that would favour some candidates are passed over (`Pick`).
-/

namespace Dialogue

/-! ## Picking -/

/-- A way to choose one of some candidates, led by a source of randomness. Beside the choice it says what it
has used of the source. -/
structure Chooser (Source Use : Type) where
  choose : {α : Type} → List α → Source → Option α × Use

namespace Pick

/-- The size of the words that pick one of `n` candidates: 32 bits, or as many times 32 as `n` takes. -/
def bits (n : Nat) : Nat := 32 * (n.log2 / 32 + 1)

/-- The number of words of that size. -/
def words (n : Nat) : Nat := 1 <<< bits n

/-- The number of leading zeros of `n` as such a word. -/
def leadingZeros (n : Nat) : Nat := if n = 0 then bits n else bits n - 1 - n.log2

/-- The last remainder with which a word is taken: below it, every candidate owns as many words. -/
def zone (n : Nat) : Nat := (n <<< leadingZeros n) % words n - 1

/-- Picks one of `n` candidates with the first suitable word, and says how many words were used. A random
number counts as the word in its last bits. When the given numbers are used up the next word is zero, which
picks the first candidate. -/
def draw (n : Nat) : List Nat → Nat × Nat
  | [] => (0, 1)
  | number :: rest =>
    let word := number % words n
    if word * n % words n ≤ zone n then (word * n / words n, 1)
    else
      let (picked, used) := draw n rest
      (picked, used + 1)

/-- Picks one of the candidates, and says how many words were used: none without a candidate. -/
def choose {α : Type} (candidates : List α) (random : List Nat) : Option α × Nat :=
  match candidates with
  | [] => (none, 0)
  | _ =>
    let (picked, used) := draw candidates.length random
    (candidates[picked]?, used)

/-- The uniform choice. -/
def uniform : Chooser (List Nat) Nat := ⟨choose⟩

end Pick

/-! ## Entries -/

/-- A piece of dialogue: its number, its tags, and how it is written into a talk. -/
structure Phrase where
  number : Nat
  tags : TagSet
  body : List Direction

namespace Phrase

/-- A short description. -/
def description (phrase : Phrase) : String :=
  "ScrapEntry \x7b index: " ++ toString phrase.number ++ ", tags: " ++ phrase.tags.quoted ++ " \x7d"

end Phrase

/-- Words under a set of tags. -/
structure Vocabulary where
  tags : TagSet
  values : List String
deriving DecidableEq

/-- Phrases and words, in the order in which they were added. -/
structure Phrasebook where
  phrases : List Phrase
  words : List Vocabulary

namespace Phrasebook

def empty : Phrasebook := ⟨[], []⟩

/-- Adds a phrase under the next number. -/
def addPhrase (book : Phrasebook) (tags : List String) (body : List Direction) : Phrasebook :=
  { book with phrases := book.phrases ++ [⟨book.phrases.length, .ofList tags, body⟩] }

def addWords (book : Phrasebook) (tags values : List String) : Phrasebook :=
  { book with words := book.words ++ [⟨.ofList tags, values⟩] }

def get? (book : Phrasebook) (number : Nat) : Option Phrase := book.phrases[number]?

/-- The phrase after a number; after the last comes the first. -/
def next? (book : Phrasebook) (number : Nat) : Option Phrase :=
  book.phrases[(number + 1) % book.phrases.length]?

/-- The phrases whose tags cover a query. -/
def phrasesFor (book : Phrasebook) (query : List String) : List Phrase :=
  book.phrases.filter (·.tags.covers (.ofList query))

/-- The words of all entries whose tags cover a query. -/
def wordsFor (book : Phrasebook) (query : List String) : List String :=
  (book.words.filter (·.tags.covers (.ofList query))).flatMap Vocabulary.values

section Selection

variable {Source Use : Type} (book : Phrasebook) (chooser : Chooser Source Use)

/-- Picks a phrase for a query, as a chooser does. -/
def pickPhraseBy (query : List String) (source : Source) : Option Phrase × Use :=
  chooser.choose (book.phrasesFor query) source

/-- Picks a word for a query, as a chooser does. -/
def pickWordBy (query : List String) (source : Source) : Option String × Use :=
  chooser.choose (book.wordsFor query) source

end Selection

/-- Picks a phrase for a query. -/
def pickPhrase (book : Phrasebook) (query : List String) (random : List Nat) :
    Option Phrase × Nat :=
  book.pickPhraseBy Pick.uniform query random

/-- Picks a word for a query. -/
def pickWord (book : Phrasebook) (query : List String) (random : List Nat) :
    Option String × Nat :=
  book.pickWordBy Pick.uniform query random

end Phrasebook

end Dialogue
