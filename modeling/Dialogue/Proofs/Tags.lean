import Dialogue.Tags
import Mathlib.Data.List.Sort

/-!
# Sets of tags

A set of tags is told by the tags in it, so that lists of the same tags make the same set, whatever their order
and however often a tag is repeated. A set covers a query exactly if it has all of its tags.

Main results:

* `TagSet.ext_of_mem` — a set is told by its tags.
* `TagSet.ofList_congr` — lists of the same tags make the same set.
* `TagSet.covers_ofList_iff` — what it takes to cover a query.
-/

namespace Dialogue.TagSet

/-- No tag is in a set twice. -/
theorem nodup (set : TagSet) : set.tags.Nodup := by
  refine set.sorted.imp fun hLt hEq => ?_
  rw [hEq] at hLt
  exact String.lt_irrefl _ hLt

/-- A set is told by its tags. -/
theorem ext_of_mem {a b : TagSet} (h : ∀ tag, tag ∈ a.tags ↔ tag ∈ b.tags) : a = b := by
  have hPerm : a.tags.Perm b.tags := (List.perm_ext_iff_of_nodup a.nodup b.nodup).mpr h
  -- both are in ascending order, so that there is only one way to write them down
  refine ext (hPerm.eq_of_pairwise (fun s t _ _ hLt hGt => ?_) a.sorted b.sorted)
  exact absurd hGt (String.lt_asymm hLt)

/-- Lists of the same tags make the same set. -/
theorem ofList_congr {tags tags' : List String} (h : ∀ tag, tag ∈ tags ↔ tag ∈ tags') :
    ofList tags = ofList tags' :=
  ext_of_mem fun tag => by rw [mem_ofList, mem_ofList, h]

theorem ofList_tags (set : TagSet) : ofList set.tags = set :=
  ext_of_mem fun _ => mem_ofList

/-- Every tag of a query is in the set. -/
def HasAll (set : TagSet) (query : List String) : Prop := ∀ tag ∈ query, tag ∈ set.tags

instance (set : TagSet) (query : List String) : Decidable (set.HasAll query) :=
  inferInstanceAs (Decidable (∀ tag ∈ query, tag ∈ set.tags))

/-- A set covers a query if it has all tags of it. -/
theorem covers_ofList_iff {set : TagSet} {query : List String} :
    set.covers (ofList query) = true ↔ set.HasAll query := by
  simp only [covers, HasAll, List.all_eq_true, List.contains_iff_mem, mem_ofList]

theorem HasAll.mono {set : TagSet} {query more : List String} (hMore : ∀ tag ∈ query, tag ∈ more)
    (h : set.HasAll more) : set.HasAll query :=
  fun tag hTag => h tag (hMore tag hTag)

end Dialogue.TagSet
