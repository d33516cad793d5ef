import Dialogue.Markup.Projection
import Dialogue.Markup.Reader
import Dialogue.Proofs.Text.Trimming

/-!
# Markup, written and read

In texts and values no character is left that ends them, and every `&` starts a reference. So a reader finds
the end of each value and of each text, and whatever it reads is followed by what was written behind it. All
trees whose tags and attribute names are plain come back, but for their classes, which come back in one
text.

Main results:

* `Markup.Element.decode_escaped` — escaped text is read as it was.
* `Markup.Element.reads_readElement` — a tree is read from the front of any text that it was written to.
* `Markup.writable_ofScrap` — the markup of a scrap can be read back, whatever its names and texts are.
* `Markup.read?_html` — for the markup of scraps, HTML and trees with joined classes determine each other.
-/

namespace Dialogue.Markup

/-! ## What can be read back -/

/-- A tag that does not look like anything else. -/
structure IsTag (tag : String) : Prop where
  start : ∃ first rest, tag.toList = first :: rest ∧ first ≠ '/'
  plain : tag.toList.all Element.isTagChar = true

/-- The name of an attribute that does not hold classes. -/
structure IsAttribute (name : String) : Prop where
  plain : '=' ∉ name.toList
  other : name ≠ "class"

/-- The trees that can be read back. -/
inductive Node.Writable : Node → Prop where
  | element {tag : String} {classes : List String} {attributes : List (String × String)}
      {text : Option String} {children : List Node} (hTag : IsTag tag)
      (hNames : ∀ pair ∈ attributes, IsAttribute pair.1) (hText : text ≠ some "")
      (hVoid : tag = "br" → text = none ∧ children = [])
      (hChildren : ∀ child ∈ children, child.Writable) :
      Node.Writable ⟨tag, classes, attributes, text, children⟩

namespace Element

open Node

/-- A reader reads a value from the front of a text, and leaves the rest. -/
def Reads {α : Type} {left : List Char → List Char → Prop}
    (reader : (text : List Char) → Option (α × { rest : List Char // left text rest }))
    (text : List Char) (value : α) (rest : List Char) : Prop :=
  ∃ hLeft, reader text = some (value, ⟨rest, hLeft⟩)

/-! ## Characters -/

/-- Four characters are written as references, and all others stand for themselves. -/
theorem escapedChar_cases (c : Char) :
    (c = '&' ∨ c = '<' ∨ c = '>' ∨ c = '\"') ∨
      (escapedChar c = [c] ∧ c ≠ '&' ∧ c ≠ '<' ∧ c ≠ '\"') := by
  by_cases hAmp : c = '&'
  · exact .inl (.inl hAmp)
  by_cases hLt : c = '<'
  · exact .inl (.inr (.inl hLt))
  by_cases hGt : c = '>'
  · exact .inl (.inr (.inr (.inl hGt)))
  by_cases hQuot : c = '\"'
  · exact .inl (.inr (.inr (.inr hQuot)))
  refine .inr ⟨?_, hAmp, hLt, hQuot⟩
  rw [escapedChar, if_neg hAmp, if_neg hLt, if_neg hGt, if_neg hQuot]

/-- What is written for one character is read back as this one. -/
theorem decode_escapedChar (c : Char) (rest : List Char) :
    decode (escapedChar c ++ rest) = (decode rest).map (c :: ·) := by
  rcases escapedChar_cases c with (rfl | rfl | rfl | rfl) | ⟨hSelf, hAmp, -, -⟩
  · rfl
  · rfl
  · rfl
  · rfl
  · -- none of the references starts with this character
    rw [hSelf, List.singleton_append, decode, if_neg hAmp] <;>
      (intros; exact absurd ‹_› hAmp)

/-- Escaped text is read as it was. -/
theorem decode_escaped (text : String) : decode (escaped text) = some text.toList := by
  unfold escaped
  induction text.toList with
  | nil => rfl
  | cons c rest ih => rw [List.flatMap_cons, decode_escapedChar, ih, Option.map_some]

/-- A text that looks like a reference stays one. -/
example : decode (escaped "&lt;") = some "&lt;".toList := by decide

/-- No character that could end a text or a value is left. -/
theorem not_mem_escaped {c : Char} (hEnds : c = '<' ∨ c = '\"') (text : String) :
    c ∉ escaped text := by
  intro hMem
  obtain ⟨d, -, hChar⟩ := List.mem_flatMap.mp hMem
  rcases escapedChar_cases d with hReference | ⟨hSelf, -, hLt, hQuot⟩
  · -- such a character is in none of the references
    revert hChar
    rcases hReference with rfl | rfl | rfl | rfl <;> rcases hEnds with rfl | rfl <;> decide
  · rw [hSelf, List.mem_singleton] at hChar
    subst hChar
    rcases hEnds with hEq | hEq
    · exact hLt hEq
    · exact hQuot hEq

/-- A reader that stops at a character takes all that stands in front of it. -/
theorem reads_upTo {stop : Char} {front : List Char} (hFront : stop ∉ front) (rest : List Char) :
    Reads (upTo stop) (front ++ stop :: rest) front rest := by
  have hCut : Text.cut? (· = stop) (front ++ stop :: rest) = some (front, rest) := by
    refine Text.cut?_append (fun c hMem => ?_) (decide_eq_true rfl) rest
    exact decide_eq_false fun hEq => hFront (hEq ▸ hMem)
  refine ⟨Text.length_lt_of_cut? hCut, ?_⟩
  unfold upTo
  split
  · rename_i found behind hFound
    rw [hCut] at hFound
    cases hFound
    rfl
  · rename_i hNone
    -- the character is there, so that it is found
    rw [hCut] at hNone
    cases hNone

/-- What is read as long as it goes on is read up to the first character that stops it. -/
theorem takeWhile_dropWhile_append {goesOn : Char → Bool} {front : List Char} {stop : Char}
    (hFront : ∀ c ∈ front, goesOn c = true) (hStop : ¬ goesOn stop = true) (rest : List Char) :
    (front ++ stop :: rest).takeWhile goesOn = front ∧
      (front ++ stop :: rest).dropWhile goesOn = stop :: rest := by
  rw [List.takeWhile_append_of_pos hFront, List.dropWhile_append_of_pos hFront,
    List.takeWhile_cons_of_neg hStop, List.dropWhile_cons_of_neg hStop, List.append_nil]
  exact ⟨rfl, rfl⟩

/-- A reader that expects a word takes it. -/
theorem exists_word_append (expected rest : List Char) :
    ∃ hLeft, word expected (expected ++ rest) = some ⟨rest, hLeft⟩ := by
  induction expected with
  | nil => exact ⟨Nat.le_refl _, rfl⟩
  | cons c others ih =>
    obtain ⟨hLeft, hWord⟩ := ih
    refine ⟨Nat.le_succ_of_le hLeft, ?_⟩
    show word (c :: others) (c :: (others ++ rest)) = _
    rw [word, if_pos rfl, hWord, Option.map_some]

/-! ## Tags -/

/-- The characters of attributes, as they are written one after the other. -/
def attributeChars (attributes : List (String × String)) : List Char :=
  attributes.flatMap fun (name, value) => attributeHtml name value

/-- The name goes up to the `=`, and the value stands between its quotes. -/
theorem attributeChars_cons (name value : String) (others : List (String × String))
    (rest : List Char) :
    attributeChars ((name, value) :: others) ++ rest =
      ' ' :: (name.toList ++ '=' :: ('\"' :: (escaped value ++ '\"' ::
        (attributeChars others ++ rest)))) := by
  simp [attributeChars, attributeHtml]

/-- Attributes are read up to the end of the start tag. -/
theorem reads_readAttributes {attributes : List (String × String)}
    (hNames : ∀ pair ∈ attributes, '=' ∉ pair.1.toList) (rest : List Char) :
    Reads readAttributes (attributeChars attributes ++ '>' :: rest) attributes rest := by
  induction attributes with
  | nil =>
    refine ⟨Nat.lt_succ_self _, ?_⟩
    show readAttributes ('>' :: rest) = _
    rw [readAttributes]
    rfl
  | cons pair others ih =>
    obtain ⟨name, value⟩ := pair
    rw [attributeChars_cons]
    obtain ⟨hOthers, hRead⟩ := ih fun pair hMem => hNames pair (List.mem_cons_of_mem _ hMem)
    generalize attributeChars others ++ '>' :: rest = behind at hOthers hRead ⊢
    -- the name ends at the sign, and the value at the second quote
    obtain ⟨hName, hUpTo⟩ := reads_upTo (hNames _ (List.mem_cons_self ..))
      ('\"' :: (escaped value ++ '\"' :: behind))
    obtain ⟨hQuote, hQuoted⟩ : ∃ hLeft, word ['\"'] ('\"' :: (escaped value ++ '\"' :: behind)) =
      some ⟨escaped value ++ '\"' :: behind, hLeft⟩ := exists_word_append ['\"'] _
    obtain ⟨hValue, hClosing⟩ := reads_upTo (not_mem_escaped (.inr rfl) value) behind
    refine ⟨?_, ?_⟩
    · simp only [List.length_cons, List.length_append]
      omega
    · rw [readAttributes]
      simp [hUpTo, hQuoted, hClosing, decode_escaped, hRead]

/-- The classes are told apart from the other attributes. -/
theorem splitClasses_writtenAttributes (node : Node)
    (hNames : ∀ pair ∈ node.attributes, pair.1 ≠ "class") :
    splitClasses node.writtenAttributes = (" ".intercalate node.classes, node.attributes) := by
  unfold writtenAttributes
  cases hClasses : node.classes with
  | nil =>
    -- without classes, the first attribute is another one
    cases hAttributes : node.attributes with
    | nil => rfl
    | cons pair others =>
      have hOther : pair.1 ≠ "class" := hNames pair (by rw [hAttributes]; exact List.mem_cons_self ..)
      show splitClasses (pair :: others) = _
      rw [splitClasses, if_neg hOther]
      rfl
  | cons first others => rfl

/-- A tag goes up to the attributes or to the end of the start tag. -/
theorem reads_readTag {tag : String} (hTag : IsTag tag) (attributes : List (String × String))
    (rest : List Char) :
    Reads readTag (tag.toList ++ (attributeChars attributes ++ '>' :: rest)) tag.toList
      (attributeChars attributes ++ '>' :: rest) := by
  obtain ⟨c, behind, hEq, hEnds⟩ : ∃ c behind,
      attributeChars attributes ++ '>' :: rest = c :: behind ∧ ¬ isTagChar c = true := by
    cases attributes with
    | nil => exact ⟨'>', rest, rfl, by decide⟩
    | cons pair others => exact ⟨' ', _, attributeChars_cons .., by decide⟩
  -- whatever stands behind the name is no part of it
  rw [hEq]
  obtain ⟨hTake, hDrop⟩ :=
    takeWhile_dropWhile_append (List.all_eq_true.mp hTag.plain) hEnds behind
  obtain ⟨first, others, hStart, -⟩ := hTag.start
  refine ⟨by simp, ?_⟩
  unfold readTag
  simp only [hTake, hDrop]
  simp [hStart]

/-- A text goes on up to the next tag. -/
theorem reads_readText {text : Option String} (hText : text ≠ some "") (rest : List Char) :
    Reads readText (text.elim [] escaped ++ '<' :: rest) text ('<' :: rest) := by
  -- no `<` stands in the text, and the `<` behind it ends it
  have hPlain : ∀ c ∈ text.elim [] escaped, decide (c ≠ '<') = true := by
    intro c hMem
    cases text with
    | none => cases hMem
    | some text => exact decide_eq_true fun hEq => not_mem_escaped (.inl rfl) text (hEq ▸ hMem)
  have hStop : ¬ decide ('<' ≠ '<') = true := by decide
  obtain ⟨hTake, hDrop⟩ :=
    @takeWhile_dropWhile_append (fun c => decide (c ≠ '<')) _ '<' hPlain hStop rest
  refine ⟨by simp, ?_⟩
  unfold readText
  simp only [hTake, hDrop]
  cases text with
  -- nothing was written, so nothing is read
  | none => rfl
  | some text =>
    have hSolid : text.toList ≠ [] := fun hEmpty =>
      hText (congrArg some (String.toList_eq_nil_iff.mp hEmpty))
    simp [decode_escaped, hSolid]

/-! ## The rules of reading -/

section Rules

variable {inside afterTag body afterText behind rest : List Char} {tag : String}
  {attributes : List (String × String)} {text : Option String} {first : Element}
  {children others : List Element}

/-- A line break ends with its start tag. -/
theorem reads_lineBreak (hTag : Reads readTag inside "br".toList afterTag)
    (hAttributes : Reads readAttributes afterTag attributes rest) :
    Reads readElement ('<' :: inside)
      ⟨"br", (splitClasses attributes).1, (splitClasses attributes).2, none, []⟩ rest := by
  obtain ⟨hAfterTag, hReadTag⟩ := hTag
  obtain ⟨hBody, hReadAttributes⟩ := hAttributes
  refine ⟨?_, ?_⟩
  · show rest.length < ('<' :: inside).length
    rw [List.length_cons]
    omega
  · rw [readElement]
    simp [hReadTag, hReadAttributes]

/-- Any other element goes on with its text, its children and its end tag. -/
theorem reads_element (hTag : Reads readTag inside tag.toList afterTag) (hNotBr : tag ≠ "br")
    (hAttributes : Reads readAttributes afterTag attributes body)
    (hText : Reads readText body text afterText)
    (hChildren : Reads readForest afterText children ('<' :: '/' :: (tag.toList ++ '>' :: rest))) :
    Reads readElement ('<' :: inside)
      ⟨tag, (splitClasses attributes).1, (splitClasses attributes).2, text, children⟩ rest := by
  obtain ⟨hAfterTag, hReadTag⟩ := hTag
  obtain ⟨hBody, hReadAttributes⟩ := hAttributes
  obtain ⟨hAfterText, hReadText⟩ := hText
  obtain ⟨hBehind, hReadForest⟩ := hChildren
  have hOther : tag.toList ≠ ['b', 'r'] := fun hEq =>
    hNotBr (String.toList_inj.mp (hEq.trans (by decide)))
  obtain ⟨hLast, hWord⟩ : ∃ hLeft, word ('<' :: '/' :: (tag.toList ++ ['>']))
      ('<' :: '/' :: (tag.toList ++ '>' :: rest)) = some ⟨rest, hLeft⟩ := by
    have hEnd : '<' :: '/' :: (tag.toList ++ '>' :: rest) =
        ('<' :: '/' :: (tag.toList ++ ['>'])) ++ rest := by simp
    rw [hEnd]
    exact exists_word_append ..
  refine ⟨?_, ?_⟩
  · show rest.length < ('<' :: inside).length
    simp only [List.length_cons, List.length_append] at hBehind ⊢
    omega
  · rw [readElement]
    simp [hReadTag, hReadAttributes, hOther, hReadText, hReadForest, hWord]

/-- A closing tag ends the forest. -/
theorem reads_forest_nil : Reads readForest ('<' :: '/' :: rest) [] ('<' :: '/' :: rest) := by
  refine ⟨Nat.le_refl _, ?_⟩
  rw [readForest]

/-- Where no end tag comes, an element is read first. -/
theorem reads_forest_cons (hStart : ∀ more, inside ≠ '<' :: '/' :: more)
    (hFirst : Reads readElement inside first behind) (hOthers : Reads readForest behind others rest) :
    Reads readForest inside (first :: others) rest := by
  obtain ⟨hBehind, hRead⟩ := hFirst
  obtain ⟨hRest, hReadOthers⟩ := hOthers
  refine ⟨Nat.le_trans hRest (Nat.le_of_lt hBehind), ?_⟩
  rw [readForest]
  · simp [hRead, hReadOthers]
  · exact hStart

end Rules

/-! ## Trees -/

/-- The HTML of a node from its opening tag to its closing one. -/
theorem htmlChars_eq (node : Node) :
    node.htmlChars =
      '<' :: (node.tag.toList ++ (attributeChars node.writtenAttributes ++ '>' ::
        if node.tag = "br" then []
        else node.text.elim [] escaped ++ (forestChars node.children ++
          '<' :: '/' :: (node.tag.toList ++ ['>'])))) := by
  obtain ⟨tag, classes, attributes, text, children⟩ := node
  rw [htmlChars]
  split
  · simp [startTag, attributeChars, *]
  · simp [startTag, attributeChars, *]

/-- A tree starts with a start tag. -/
theorem exists_htmlChars_eq {node : Node} (hWritable : node.Writable) :
    ∃ first rest, node.htmlChars = '<' :: first :: rest ∧ first ≠ '/' := by
  obtain ⟨⟨⟨first, others, hTag, hFirst⟩, -⟩, -, -, -, -⟩ := hWritable
  rw [htmlChars_eq, hTag]
  exact ⟨first, _, rfl, hFirst⟩

/-- What comes behind a text starts with a `<`. -/
theorem exists_forestChars_eq {nodes : List Node} (hWritable : ∀ node ∈ nodes, node.Writable)
    (rest : List Char) : ∃ behind, forestChars nodes ++ '<' :: rest = '<' :: behind := by
  cases nodes with
  | nil => exact ⟨rest, rfl⟩
  | cons node others =>
    obtain ⟨first, more, hStart, -⟩ := exists_htmlChars_eq (hWritable node (List.mem_cons_self ..))
    rw [forestChars, hStart]
    exact ⟨_, rfl⟩

/-- Trees are read one after the other, up to the end tag behind them. -/
theorem reads_readForest {nodes : List Node} (hWritable : ∀ node ∈ nodes, node.Writable)
    (hRead : ∀ node ∈ nodes, ∀ rest, Reads readElement (node.htmlChars ++ rest) node.joined rest)
    (rest : List Char) :
    Reads readForest (forestChars nodes ++ '<' :: '/' :: rest) (joinedForest nodes)
      ('<' :: '/' :: rest) := by
  induction nodes with
  | nil => exact reads_forest_nil
  | cons node others ih =>
    have hOthers := ih (fun node hMem => hWritable node (List.mem_cons_of_mem _ hMem))
      fun node hMem => hRead node (List.mem_cons_of_mem _ hMem)
    obtain ⟨first, behind, hStart, hSlash⟩ :=
      exists_htmlChars_eq (hWritable node (List.mem_cons_self ..))
    rw [forestChars, List.append_assoc, joinedForest]
    refine reads_forest_cons (fun more hEq => ?_) (hRead node (List.mem_cons_self ..) _) hOthers
    -- a node starts with a tag of its own, and not with the closing one
    rw [hStart] at hEq
    cases hEq
    exact hSlash rfl

/-- No name of an attribute has an equals sign in it. -/
theorem equals_not_mem_written (node : Node) (hNames : ∀ pair ∈ node.attributes, IsAttribute pair.1) :
    ∀ pair ∈ node.writtenAttributes, '=' ∉ pair.1.toList := by
  intro pair hMem
  rcases List.mem_append.mp hMem with hClasses | hOther
  · split at hClasses
    · cases hClasses
    · rw [List.mem_singleton.mp hClasses]
      show '=' ∉ "class".toList
      decide
  · exact (hNames pair hOther).plain

/-- A tree is read from the front of a text that it was written to. -/
theorem reads_readElement {node : Node} (hWritable : node.Writable) (rest : List Char) :
    Reads readElement (node.htmlChars ++ rest) node.joined rest := by
  induction hWritable generalizing rest with
  | @element tag classes attributes text children hTag hNames hText hVoid hChildren ih =>
    have hSplit := splitClasses_writtenAttributes ⟨tag, classes, attributes, text, children⟩
      fun pair hMem => (hNames pair hMem).other
    have hWritten := equals_not_mem_written ⟨tag, classes, attributes, text, children⟩ hNames
    generalize hAttributes : writtenAttributes ⟨tag, classes, attributes, text, children⟩ = written
      at hSplit hWritten
    have hJoined : joined ⟨tag, classes, attributes, text, children⟩ =
        ⟨tag, (splitClasses written).1, (splitClasses written).2, text, joinedForest children⟩ := by
      rw [hSplit, joined]
    rw [htmlChars_eq, hAttributes, hJoined]
    by_cases hBr : tag = "br"
    · -- a line break has nothing in it and no closing tag
      obtain ⟨rfl, rfl⟩ := hVoid hBr
      subst hBr
      have hStart := reads_readTag hTag written rest
      simpa [joinedForest] using reads_lineBreak hStart (reads_readAttributes hWritten rest)
    · -- behind the text stand the children, and behind these the closing tag
      have hForest := reads_readForest hChildren ih (tag.toList ++ '>' :: rest)
      obtain ⟨behind, hBehind⟩ := exists_forestChars_eq hChildren ('/' :: (tag.toList ++ '>' :: rest))
      rw [hBehind] at hForest
      have hRead := reads_element (reads_readTag hTag written (text.elim [] escaped ++ '<' :: behind))
        hBr (reads_readAttributes hWritten _) (reads_readText hText behind) hForest
      rw [← hBehind] at hRead
      simpa [hBr] using hRead

/-- A text to which a tree was written is read as this tree. -/
theorem read?_of_writable {node : Node} (hWritable : node.Writable) :
    read? node.html = some node.joined := by
  have hAll := reads_readElement hWritable []
  have hChars : node.htmlChars ++ [] = node.html.toList := by
    rw [html, String.toList_ofList, List.append_nil]
  rw [hChars] at hAll
  obtain ⟨hLeft, hRead⟩ := hAll
  unfold read?
  rw [hRead]

end Element

/-! ## The markup of scraps -/

/-- The tags of scrap markup are plain. -/
theorem isTag_of_mem {tag : String} (hMem : tag ∈ ["div", "p", "span", "br"]) : IsTag tag := by
  simp only [List.mem_cons, List.not_mem_nil, or_false] at hMem
  rcases hMem with rfl | rfl | rfl | rfl <;> exact ⟨⟨_, _, rfl, by decide⟩, by decide⟩

/-- The names of its attributes are plain as well. -/
theorem isAttribute_of_mem {name : String}
    (hMem : name ∈ ["data-actor", "data-section-index", "data-emote", "data-wait-type", "data-ms",
      "data-start-time"]) : IsAttribute name := by
  simp only [List.mem_cons, List.not_mem_nil, or_false] at hMem
  rcases hMem with rfl | rfl | rfl | rfl | rfl | rfl <;> exact ⟨by decide, by decide⟩

/-- An element that is not a line break can be read back when its children can. -/
theorem writable_of_children {node : Node} (hTag : node.tag ∈ ["div", "p", "span"])
    (hNames : ∀ pair ∈ node.attributes, IsAttribute pair.1) (hText : node.text ≠ some "")
    (hChildren : ∀ child ∈ node.children, child.Writable) : node.Writable := by
  obtain ⟨tag, classes, attributes, text, children⟩ := node
  have hNotBr : tag ≠ "br" := by
    rintro rfl
    simp at hTag
  refine .element (isTag_of_mem ?_) hNames hText (fun hBr => absurd hBr hNotBr) hChildren
  exact List.mem_append_left ["br"] hTag

/-- Whatever an entry shows or does, its span can be read back. -/
theorem writable_ofEntry (e : Entry) : (ofEntry e).Writable := by
  refine writable_of_children (by simp [ofEntry]) ?_ ?_ nofun
  · intro pair hMem
    apply isAttribute_of_mem
    rcases List.mem_append.mp hMem with hOptional | hAlways
    · -- the names of the attributes are all among the known ones
      rcases List.mem_append.mp hOptional with hEmote | hTier
      · obtain ⟨name, -, rfl⟩ := Option.map_eq_some_iff.mp (Option.mem_toList.mp hEmote)
        simp
      · obtain ⟨tier, -, rfl⟩ := Option.map_eq_some_iff.mp (Option.mem_toList.mp hTier)
        simp
    · simp only [List.mem_cons, List.not_mem_nil, or_false] at hAlways
      rcases hAlways with rfl | rfl <;> simp
  · -- a glyph is shown as one character, so no text is empty
    intro hEmpty
    obtain ⟨c, -, hChar⟩ := Option.map_eq_some_iff.mp hEmpty
    have hLength : c.toString.toList.length = 0 := by rw [hChar]; rfl
    simp at hLength

/-- The node of an item can be read back. -/
theorem writable_ofItem (item : Item) : (ofItem item).Writable := by
  cases item with
  | entry e => exact writable_ofEntry e
  | lineBreak =>
    exact .element (isTag_of_mem (by decide)) nofun nofun (fun _ => ⟨rfl, rfl⟩) nofun

theorem writable_ofParagraph (paragraph : Paragraph) : (ofParagraph paragraph).Writable := by
  refine writable_of_children (by simp [ofParagraph]) ?_ nofun ?_
  · intro pair hMem
    rw [List.mem_singleton.mp hMem]
    exact isAttribute_of_mem (by simp)
  · intro child hMem
    obtain ⟨item, -, rfl⟩ := List.mem_map.mp hMem
    exact writable_ofItem item

theorem writable_ofSection (areas : Areas) (sect : Section) : (ofSection areas sect).Writable := by
  refine writable_of_children (by simp [ofSection]) ?_ nofun ?_
  · intro pair hMem
    rw [List.mem_singleton.mp hMem]
    exact isAttribute_of_mem (by simp)
  · intro child hMem
    rcases List.mem_append.mp hMem with hParagraph | hTerminal
    · obtain ⟨paragraph, -, rfl⟩ := List.mem_map.mp hParagraph
      exact writable_ofParagraph paragraph
    · obtain ⟨e, -, rfl⟩ := List.mem_map.mp hTerminal
      exact writable_ofEntry e

/-- The markup of a scrap can be read back, whatever its names and texts are. -/
theorem writable_ofScrap (areas : Areas) (scrap : Scrap) : (ofScrap areas scrap).Writable := by
  refine writable_of_children (by simp [ofScrap]) nofun nofun ?_
  intro child hMem
  obtain ⟨sect, -, rfl⟩ := List.mem_map.mp hMem
  exact writable_ofSection areas sect

/-- The HTML of a scrap is read back as its markup, with the classes of each element in one text. So equal
HTML comes from equal markup, up to how the classes are cut. -/
theorem read?_html (areas : Areas) (scrap : Scrap) :
    Element.read? (ofScrap areas scrap).html = some (ofScrap areas scrap).joined ∧
      ∀ otherAreas otherScrap,
        (ofScrap otherAreas otherScrap).html = (ofScrap areas scrap).html →
          (ofScrap otherAreas otherScrap).joined = (ofScrap areas scrap).joined := by
  have hRead := Element.read?_of_writable (writable_ofScrap areas scrap)
  refine ⟨hRead, fun otherAreas otherScrap hHtml => ?_⟩
  have hOther := Element.read?_of_writable (writable_ofScrap otherAreas otherScrap)
  rw [hHtml, hRead] at hOther
  exact (Option.some.inj hOther).symm

/-- A visible area that is named after a class, and a waiting one, are written the same way. -/
theorem joined_eq_area_named_waiting :
    let scrap : Scrap := ⟨1, [⟨0, "left", [], none⟩]⟩
    let named : Areas := ⟨[], none, [⟨0, "left waiting", .shown, .opened, true⟩]⟩
    let waiting : Areas := ⟨[], none, [⟨0, "left", .waiting, .closed, true⟩]⟩
    (ofScrap named scrap).html = (ofScrap waiting scrap).html ∧
      (ofScrap named scrap).joined = (ofScrap waiting scrap).joined := by
  intro scrap named waiting
  have hHtml : (ofScrap named scrap).html = (ofScrap waiting scrap).html := by decide +kernel
  exact ⟨hHtml, (read?_html waiting scrap).2 named scrap hHtml⟩

end Dialogue.Markup
