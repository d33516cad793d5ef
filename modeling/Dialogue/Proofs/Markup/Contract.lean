import Dialogue.Markup.Projection
import Mathlib.Data.List.Forall2

/-!
# What the markup of a scrap carries

The markup of a scrap is written from the tree of sections, paragraphs and items, and it is read by walking
through its descendants. Both ways go through the text in document order: the spans among the
descendants are those of the entries, one after the other, and each of them carries all that is known of its
entry.

Main results:

* `Markup.descendants_ofScrap` — the descendants of the markup, section by section.
* `Markup.filter_span_ofScrap`, `Markup.filter_p_ofScrap` — the spans are those of the entries, and the
  paragraph elements those of the paragraphs.
* `Markup.ofScrap_carries` — what spans, paragraph elements and section elements carry.
-/

namespace Dialogue.Markup

/-! ## Walking through a tree -/

namespace Node

/-- A forest is its trees one after the other, each node before what is under it. -/
theorem forest_eq_flatMap (nodes : List Node) :
    forest nodes = nodes.flatMap fun node => node :: node.descendants := by
  induction nodes with
  | nil => rw [forest, List.flatMap_nil]
  | cons node rest ih => rw [forest, ih, List.flatMap_cons, List.cons_append]

/-- Under a node stand its children, each before what is under it. -/
theorem descendants_eq (node : Node) :
    node.descendants = node.children.flatMap fun child => child :: child.descendants := by
  obtain ⟨tag, classes, attributes, text, children⟩ := node
  rw [descendants, forest_eq_flatMap]

end Node

/-! ## The descendants of the markup -/

/-- Nothing stands under an item. -/
theorem descendants_ofItem (item : Item) : (ofItem item).descendants = [] := by
  rw [Node.descendants_eq]
  cases item <;> rfl

/-- Under a paragraph stand its items. -/
theorem descendants_ofParagraph (paragraph : Paragraph) :
    (ofParagraph paragraph).descendants = paragraph.items.map ofItem := by
  rw [Node.descendants_eq]
  show (paragraph.items.map ofItem).flatMap _ = _
  rw [List.flatMap_map]
  simp only [descendants_ofItem]
  exact List.map_eq_flatMap.symm

/-- Below a section stand its paragraphs, each before its items, and the pause of the section. -/
theorem descendants_ofSection (areas : Areas) (sect : Section) :
    (ofSection areas sect).descendants =
      (sect.paragraphs.flatMap fun paragraph =>
        ofParagraph paragraph :: paragraph.items.map ofItem) ++ sect.terminal.toList.map ofEntry := by
  rw [Node.descendants_eq]
  show (sect.paragraphs.map ofParagraph ++ sect.terminal.toList.map ofEntry).flatMap _ = _
  rw [List.flatMap_append, List.flatMap_map, List.flatMap_map]
  simp only [descendants_ofParagraph]
  congr 1
  cases sect.terminal <;> rfl

/-- Under the scrap stand its sections, each before what is under it. -/
theorem descendants_ofScrap (areas : Areas) (scrap : Scrap) :
    (ofScrap areas scrap).descendants =
      scrap.sections.flatMap fun sect =>
        ofSection areas sect :: (ofSection areas sect).descendants := by
  rw [Node.descendants_eq]
  exact List.flatMap_map ..

/-! ## Spans -/

/-- The spans among the items are those of the entries. -/
theorem filter_span_map_ofItem (items : List Item) :
    (items.map ofItem).filter (·.tag = "span") = (items.filterMap Item.entry?).map ofEntry := by
  induction items with
  | nil => rfl
  | cons item rest ih =>
    rw [List.map_cons]
    cases item with
    | entry e =>
      rw [List.filter_cons_of_pos (by rfl), ih]
      rfl
    | lineBreak =>
      -- an element for a line break is no span
      rw [List.filter_cons_of_neg (by decide), ih]
      rfl

/-- The nodes of entries are all spans. -/
theorem filter_span_map_ofEntry (entries : List Entry) :
    (entries.map ofEntry).filter (·.tag = "span") = entries.map ofEntry := by
  refine List.filter_eq_self.mpr fun node hMem => ?_
  obtain ⟨e, -, rfl⟩ := List.mem_map.mp hMem
  rfl

/-- The spans of a section are those of its entries, in their order. -/
theorem filter_span_ofSection (areas : Areas) (sect : Section) :
    (ofSection areas sect :: (ofSection areas sect).descendants).filter (·.tag = "span") =
      sect.entries.map ofEntry := by
  have hParagraph : ∀ paragraph : Paragraph,
      (ofParagraph paragraph :: paragraph.items.map ofItem).filter (·.tag = "span") =
        paragraph.entries.map ofEntry := by
    intro paragraph
    rw [List.filter_cons_of_neg (by simp [ofParagraph])]
    exact filter_span_map_ofItem paragraph.items
  rw [List.filter_cons_of_neg (by simp [ofSection]), descendants_ofSection, List.filter_append,
    List.filter_flatMap, filter_span_map_ofEntry]
  simp only [hParagraph]
  rw [Section.entries, List.map_append, List.map_flatMap]

/-- The spans among the descendants are those of the entries, in document order. -/
theorem filter_span_ofScrap (areas : Areas) (scrap : Scrap) :
    (ofScrap areas scrap).descendants.filter (·.tag = "span") = scrap.entries.map ofEntry := by
  rw [descendants_ofScrap, List.filter_flatMap]
  simp only [filter_span_ofSection]
  rw [Scrap.entries, List.map_flatMap]

/-! ## Paragraph elements -/

/-- The paragraphs of a section are its own, as neither items nor terminals are any. -/
theorem filter_p_ofSection (areas : Areas) (sect : Section) :
    (ofSection areas sect :: (ofSection areas sect).descendants).filter (·.tag = "p") =
      sect.paragraphs.map ofParagraph := by
  have hItems : ∀ items : List Item, (items.map ofItem).filter (·.tag = "p") = [] := by
    intro items
    refine List.filter_eq_nil_iff.mpr fun node hMem => ?_
    obtain ⟨item, -, rfl⟩ := List.mem_map.mp hMem
    cases item <;> simp [ofItem, ofEntry, Node.empty]
  have hParagraph : ∀ paragraph : Paragraph,
      (ofParagraph paragraph :: paragraph.items.map ofItem).filter (·.tag = "p") =
        [ofParagraph paragraph] := by
    intro paragraph
    rw [List.filter_cons_of_pos (by rfl), hItems]
  -- the terminal is a span too
  have hTerminal : (sect.terminal.toList.map ofEntry).filter (·.tag = "p") = [] := by
    have hPause := hItems (sect.terminal.toList.map Item.entry)
    rwa [List.map_map] at hPause
  rw [List.filter_cons_of_neg (by simp [ofSection]), descendants_ofSection, List.filter_append,
    List.filter_flatMap, hTerminal, List.append_nil]
  simp only [hParagraph]
  exact List.map_eq_flatMap.symm

/-- The paragraphs in the document are those of the scrap. -/
theorem filter_p_ofScrap (areas : Areas) (scrap : Scrap) :
    (ofScrap areas scrap).descendants.filter (·.tag = "p") =
      (scrap.sections.flatMap Section.paragraphs).map ofParagraph := by
  rw [descendants_ofScrap, List.filter_flatMap]
  simp only [filter_p_ofSection]
  rw [List.map_flatMap]

/-! ## What the elements carry -/

/-- A span that tells all that is known of an entry. -/
structure CarriesEntry (span : Node) (e : Entry) : Prop where
  tag : span.tag = "span"
  delay : span.attribute? "data-ms" = some (toString e.delay)
  timestamp : span.attribute? "data-start-time" = some (toString e.timestamp)
  tier : span.attribute? "data-wait-type" = e.tier.map Tier.name
  emote : ∀ name, span.attribute? "data-emote" = some name ↔ e.content = .emote name
  glyph : ∀ text, span.text = some text ↔ ∃ c, e.content = .glyph c ∧ text = c.toString
  waiting : span.hasClass "waiting" = true ↔ e.visible = false
  fading : span.hasClass "fading" = true ↔ e.visible = true ∧ e.fading = true

/-- What stands for an item of a paragraph. -/
def CarriesItem (node : Node) : Item → Prop
  | .entry e => CarriesEntry node e
  | .lineBreak => node.tag = "br" ∧ node.text = none ∧ node.children = []

/-- An element with the actor of a paragraph and one child for each of its items. -/
structure CarriesParagraph (node : Node) (paragraph : Paragraph) : Prop where
  actor : node.attribute? "data-actor" = some paragraph.actor
  items : List.Forall₂ CarriesItem node.children paragraph.items

/-- An element with the number of a section, and with the classes of its record if it has one. -/
structure CarriesSection (areas : Areas) (node : Node) (sect : Section) : Prop where
  number : node.attribute? "data-section-index" = some (toString sect.number)
  classes : ∀ record, areas.record? sect.number = some record → node.classes = record.classes

/-- The name of no tier is a class for what is waiting or fading. -/
theorem tier_name_ne (tier : Tier) : tier.name ≠ "waiting" ∧ tier.name ≠ "fading" := by
  cases tier <;> decide

/-- The classes that say what an entry is say nothing about its state. -/
theorem mem_entryClasses {e : Entry} {name : String} (hState : name = "waiting" ∨ name = "fading") :
    name ∈ entryClasses e ↔
      name ∈ if !e.visible then ["waiting"] else if e.fading then ["fading"] else [] := by
  have hChar : name ≠ "char" := by rcases hState with rfl | rfl <;> decide
  have hEmote : name ≠ "emote" := by rcases hState with rfl | rfl <;> decide
  have hTier : name ∉ (e.tier.map Tier.name).toList := by
    intro hMem
    obtain ⟨tier, -, rfl⟩ := Option.map_eq_some_iff.mp (Option.mem_toList.mp hMem)
    rcases hState with hWaiting | hFading
    · exact (tier_name_ne tier).1 hWaiting
    · exact (tier_name_ne tier).2 hFading
  unfold entryClasses
  cases e.content with
  | glyph c => simp only [List.mem_cons, List.nil_append, hChar, false_or]
  | emote emote =>
    simp only [List.mem_cons, List.mem_append, List.not_mem_nil, hChar, hEmote, false_or]
  | pause => simp only [List.mem_cons, List.mem_append, hChar, hTier, false_or]

/-- The span of an entry carries all that the scrap says about it. -/
theorem carriesEntry_ofEntry (e : Entry) : CarriesEntry (ofEntry e) e where
  tag := rfl
  delay := by
    unfold Node.attribute? ofEntry entryAttributes
    cases e.emote? <;> cases e.tier <;> rfl
  timestamp := by
    unfold Node.attribute? ofEntry entryAttributes
    cases e.emote? <;> cases e.tier <;> rfl
  tier := by
    unfold Node.attribute? ofEntry entryAttributes
    cases e.emote? <;> cases e.tier <;> rfl
  emote name := by
    have hAttribute : (ofEntry e).attribute? "data-emote" = e.emote? := by
      unfold Node.attribute? ofEntry entryAttributes
      cases e.emote? <;> cases e.tier <;> rfl
    -- only an emote has the attribute, and its own name in it
    rw [hAttribute, Entry.emote?]
    cases e.content <;> simp
  glyph text := by
    show e.glyph?.map Char.toString = some text ↔ _
    rw [Entry.glyph?]
    cases e.content <;> simp [eq_comm]
  waiting := by
    rw [Node.hasClass, List.contains_iff_mem]
    refine (mem_entryClasses (.inl rfl)).trans ?_
    cases e.visible <;> cases e.fading <;> decide
  fading := by
    rw [Node.hasClass, List.contains_iff_mem]
    refine (mem_entryClasses (.inr rfl)).trans ?_
    cases e.visible <;> cases e.fading <;> decide

theorem carriesItem_ofItem (item : Item) : CarriesItem (ofItem item) item := by
  cases item with
  | entry e => exact carriesEntry_ofEntry e
  | lineBreak => exact ⟨rfl, rfl, rfl⟩

/-- The node of a paragraph carries the paragraph, with those of its items. -/
theorem carriesParagraph_ofParagraph (paragraph : Paragraph) :
    CarriesParagraph (ofParagraph paragraph) paragraph where
  actor := rfl
  items := by
    show List.Forall₂ CarriesItem (paragraph.items.map ofItem) paragraph.items
    rw [List.forall₂_map_left_iff, List.forall₂_same]
    exact fun item _ => carriesItem_ofItem item

/-- The node of a section carries the section, with those of its paragraphs. -/
theorem carriesSection_ofSection (areas : Areas) (sect : Section) :
    CarriesSection areas (ofSection areas sect) sect where
  number := rfl
  classes record hRecord := by
    show sectionClasses areas sect = record.classes
    unfold sectionClasses
    rw [hRecord]

/-- Whoever walks through the markup of a scrap meets one span for each entry in document order, one
element for each paragraph, and below the root one element for each section; and each of them carries all
that is known of what it stands for. -/
theorem ofScrap_carries (areas : Areas) (scrap : Scrap) :
    List.Forall₂ CarriesEntry ((ofScrap areas scrap).descendants.filter (·.tag = "span"))
        scrap.entries ∧
      List.Forall₂ CarriesParagraph ((ofScrap areas scrap).descendants.filter (·.tag = "p"))
        (scrap.sections.flatMap Section.paragraphs) ∧
      List.Forall₂ (CarriesSection areas) (ofScrap areas scrap).children scrap.sections := by
  refine ⟨?_, ?_, ?_⟩
  · rw [filter_span_ofScrap, List.forall₂_map_left_iff, List.forall₂_same]
    exact fun e _ => carriesEntry_ofEntry e
  · rw [filter_p_ofScrap, List.forall₂_map_left_iff, List.forall₂_same]
    exact fun paragraph _ => carriesParagraph_ofParagraph paragraph
  · show List.Forall₂ _ (scrap.sections.map (ofSection areas)) scrap.sections
    rw [List.forall₂_map_left_iff, List.forall₂_same]
    exact fun sect _ => carriesSection_ofSection areas sect

end Dialogue.Markup
