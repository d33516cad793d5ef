import Dialogue.Text.Quoted

/-!
# Tag sets

A `TagSet` is a finite set of tags, kept in ascending order, so that two sets with the same tags are
equal however they were written down.
-/

namespace Dialogue

/-- A set of tags. -/
structure TagSet where
  tags : List String
  sorted : tags.Pairwise (· < ·)
deriving DecidableEq

namespace TagSet

theorem ext {a b : TagSet} (h : a.tags = b.tags) : a = b := by
  cases a; cases b; simp_all

/-- Puts a tag in its place among ascending tags, unless it is there. -/
def insertTag (tag : String) : List String → List String
  | [] => [tag]
  | t :: rest =>
    if tag < t then tag :: t :: rest
    else if tag = t then t :: rest
    else t :: insertTag tag rest

theorem mem_insertTag {tag t : String} {tags : List String} :
    t ∈ insertTag tag tags ↔ t = tag ∨ t ∈ tags := by
  induction tags with
  | nil => simp [insertTag]
  | cons u rest ih =>
    unfold insertTag
    split
    · simp
    · split
      · rename_i hEq
        subst hEq
        simp
      · simp [ih, or_left_comm]

theorem sorted_insertTag (tag : String) {tags : List String} (hSorted : tags.Pairwise (· < ·)) :
    (insertTag tag tags).Pairwise (· < ·) := by
  induction tags with
  | nil => simp [insertTag]
  | cons u rest ih =>
    have hCons := List.pairwise_cons.mp hSorted
    unfold insertTag
    split
    · rename_i hLt
      refine List.pairwise_cons.mpr ⟨fun t ht => ?_, hSorted⟩
      rcases List.mem_cons.mp ht with rfl | ht
      · exact hLt
      · exact String.lt_trans hLt (hCons.1 t ht)
    · split
      · exact hSorted
      · rename_i hNotLt hNe
        refine List.pairwise_cons.mpr ⟨fun t ht => ?_, ih hCons.2⟩
        rcases mem_insertTag.mp ht with rfl | ht
        · refine Decidable.byContradiction fun hNotGt => hNe ?_
          exact String.le_antisymm (String.not_lt.mp hNotGt) (String.not_lt.mp hNotLt)
        · exact hCons.1 t ht

/-- The set without tags. -/
def empty : TagSet := ⟨[], List.Pairwise.nil⟩

def insert (set : TagSet) (tag : String) : TagSet :=
  ⟨insertTag tag set.tags, sorted_insertTag tag set.sorted⟩

/-- The set of the tags in a list. -/
def ofList (tags : List String) : TagSet := tags.foldl insert empty

/-- Whether every tag of `query` is in `set`. -/
def covers (set query : TagSet) : Bool := query.tags.all set.tags.contains

/-- The tags, quoted, between braces. -/
def quoted (set : TagSet) : String :=
  "\x7b" ++ ", ".intercalate (set.tags.map Text.Quoted.text) ++ "\x7d"

theorem mem_foldl_insert {t : String} {tags : List String} {set : TagSet} :
    t ∈ (tags.foldl insert set).tags ↔ t ∈ set.tags ∨ t ∈ tags := by
  induction tags generalizing set with
  | nil => simp
  | cons u rest ih =>
    rw [List.foldl_cons, ih]
    simp only [insert, mem_insertTag, List.mem_cons]
    rw [or_assoc, or_left_comm]

/-- A tag is in the set of a list exactly if it is in the list. -/
theorem mem_ofList {t : String} {tags : List String} : t ∈ (ofList tags).tags ↔ t ∈ tags := by
  simp [ofList, mem_foldl_insert, empty]

end TagSet

end Dialogue
