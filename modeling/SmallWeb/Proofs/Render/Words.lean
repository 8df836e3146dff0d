/-
SmallWeb/Proofs/Render/Words.lean

The words of a rendered document.

No layout drops a word on the way from the text of a document to the lines of its
output; what it adds are marks, which come before the words of a line.  So the
words of the extracted text are found among the words of the lines, in their
order, in every layout that shows running text plainly
(`Layout.segmentWords_sublist`).

Where there are neither quotes nor rules the words of the lines can be told
exactly (`Layout.HasOutline.lineWords_block`): they are those of the leaves and one
marker word for each item of a list.

Main result: `renders_keep_words`.
-/
import SmallWeb.Proofs.Render.LineWords
import SmallWeb.Proofs.Render.PlainText

namespace SmallWeb

open Text (words EndsBlank isBlankText)

/-! ### The words of the extracted text -/

/-- The words of segments. -/
def segmentWords (ss : List Segment) : List (List Char) := ss.flatMap fun s => words s.text

theorem segmentWords_append (ss ts : List Segment) :
    segmentWords (ss ++ ts) = segmentWords ss ++ segmentWords ts := List.flatMap_append

theorem segmentWords_singleton (s : Segment) : segmentWords [s] = words s.text :=
  List.flatMap_singleton ..

/-- What has a text has been checked. -/
theorem check_of_plainText {doc : Value} {text : List Char} (h : plainText doc = .ok text) :
    Structure.check maxDepth doc = .ok () := by
  obtain ⟨⟨⟩, hcheck, -⟩ := bind_eq_ok_iff.mp h
  cases hresult : Structure.check maxDepth doc with
  | ok u => rfl
  | error e =>
    rw [hresult] at hcheck
    cases hcheck

/-- A text is that of the segments of its document, and so are its words. -/
theorem exists_segments_of_plainText {doc : Value} {text : List Char}
    (htext : plainText doc = .ok text) :
    ∃ ss, segments false doc = .ok ss ∧ words text = segmentWords ss := by
  obtain ⟨-, -, htext⟩ := bind_eq_ok_iff.mp htext
  obtain ⟨ts, hts, htext⟩ := bind_eq_ok_iff.mp htext
  obtain ⟨ss, hss, hts⟩ := bind_eq_ok_iff.mp hts
  obtain rfl : ss.map Segment.text = ts := Except.ok.inj hts
  obtain rfl : Text.unlines (ss.map Segment.text) = text := Except.ok.inj htext
  refine ⟨ss, hss, ?_⟩
  rw [Text.words_unlines, List.flatMap_map]
  rfl

/-- The words of the text of a document are those of its segments. -/
theorem words_plainText {doc : Value} {d : Document} (hd : Document.ofValue? doc = some d)
    {text : List Char} (htext : plainText doc = .ok text) :
    words text = segmentWords (Block.runSegments false d.blocks) := by
  obtain ⟨ss, hss, hwords⟩ := exists_segments_of_plainText htext
  rw [hwords, segments_of_ok hd hss]

/-! ### Layouts that keep the words -/

/-- What a layout must not do for the words to stay as they are: glue a mark to
the text behind it, or leave out words of a heading or of code. -/
structure Layout.KeepsWords (s : Layout) : Prop where
  headingMark (level : Int) : EndsBlank (s.headingMark level)
  headingText (text : List Char) : words (s.headingText text) = words text
  code (literal : List Char) (language : Option (List Char)) :
    (words literal).Sublist ((s.code literal language).flatMap words)
  bullet : EndsBlank s.bullet

namespace Layout

variable {s : Layout}

theorem endsBlank_marker (hbullet : EndsBlank s.bullet) (ordered : Bool) (start : Int)
    (index : Nat) : EndsBlank (s.marker ordered start index) := by
  unfold marker
  split
  · rw [show ['.', ' '] = ['.'] ++ [' '] from rfl, ← List.append_assoc]
    exact Text.endsBlank_concat _ (by decide)
  · exact hbullet

theorem isBlankText_continuation (marker : List Char) :
    isBlankText (s.continuation marker) = true := by
  unfold continuation
  split
  · rfl
  · rw [isBlankText, List.all_replicate, show Text.isBlank ' ' = true by decide, ite_self]

theorem lineWords_openItem (ls : List Line) : lineWords (s.openItem ls) = lineWords ls := by
  unfold openItem
  split
  · rfl
  · split <;> rfl

/-- An item has the words of its marker and those of its lines. -/
theorem lineWords_itemLines {marker : List Char} (hmarker : EndsBlank marker) (ls : List Line) :
    lineWords (s.itemLines marker ls) = words marker ++ lineWords ls := by
  have hne : s.openItem ls ≠ [] := by
    unfold openItem
    split
    · exact List.cons_ne_nil _ _
    · split <;> exact List.cons_ne_nil _ _
  rw [itemLines, lineWords_prependLines hmarker (isBlankText_continuation marker) hne,
    lineWords_openItem]

/-- A line in a quote has its words still. -/
theorem words_sublist_quoteLine (l : Line) :
    (words l.text).Sublist (words (s.quoteLine l).text) := by
  unfold quoteLine
  split
  · exact List.Sublist.refl _
  · have hmark : EndsBlank quoteMark := Text.endsBlank_concat ['>'] (by decide)
    rw [words_prepend hmark]
    exact List.sublist_append_right _ _

theorem lineWords_sublist_quote (ls : List Line) :
    (lineWords ls).Sublist (lineWords (ls.map s.quoteLine)) := by
  unfold lineWords
  rw [List.flatMap_map]
  exact List.Sublist.flatMap_right _ fun l _ => words_sublist_quoteLine l

mutual

/-- **A block keeps the words of its text**, in their order. -/
theorem segmentWords_sublist (hs : s.KeepsWords) (hplain : s.ShowsPlain false) (width : Nat)
    (b : Block) : (segmentWords (b.segments false)).Sublist (lineWords (s.block width b)) := by
  cases b with
  | heading level inline =>
    rw [Block.segments, segmentWords_singleton, Layout.block, ← run_eq_plain hplain,
      ← hs.headingText]
    exact words_sublist_proseBlock (hs.headingMark level) width _
  | paragraph inline =>
    rw [Block.segments, segmentWords_singleton, Layout.block, ← run_eq_plain hplain]
    exact words_sublist_proseBlock Text.endsBlank_nil width _
  | list ordered bss start =>
    rw [Block.segments, Layout.block, lineWords_flatten]
    exact itemsWords_sublist hs hplain width ordered start 0 bss
  | codeBlock literal language =>
    rw [Block.segments, segmentWords_singleton, Layout.block, lineWords_map_verbatim,
      Text.words_dropEndWhile fun _ => isBlank_of_eq_newline]
    exact hs.code literal language
  | blockquote children =>
    rw [Block.segments, Layout.block]
    -- The mark of a quote is a word of its own, so what is inside is only a part.
    have hchildren := runWords_sublist hs hplain (innerRoom width quoteMark.length) children
    rw [← lineWords_stackBlocks] at hchildren
    exact hchildren.trans (lineWords_sublist_quote _)
  | thematicBreak => exact List.nil_sublist _

theorem runWords_sublist (hs : s.KeepsWords) (hplain : s.ShowsPlain false) (width : Nat)
    (bs : List Block) :
    (segmentWords (Block.runSegments false bs)).Sublist
      ((s.blocks width bs).flatMap lineWords) := by
  cases bs with
  | nil => exact List.Sublist.refl _
  | cons b bs =>
    rw [Block.runSegments, segmentWords_append, Layout.blocks, List.flatMap_cons]
    exact (segmentWords_sublist hs hplain width b).append (runWords_sublist hs hplain width bs)

theorem itemsWords_sublist (hs : s.KeepsWords) (hplain : s.ShowsPlain false) (width : Nat)
    (ordered : Bool) (start : Int) (index : Nat) (bss : List (List Block)) :
    (segmentWords (Block.itemsSegments false bss)).Sublist
      ((s.items width ordered start index bss).flatMap lineWords) := by
  cases bss with
  | nil => exact List.Sublist.refl _
  | cons bs bss =>
    have hmarker := s.endsBlank_marker hs.bullet ordered start index
    rw [Block.itemsSegments, segmentWords_append, Layout.items, List.flatMap_cons]
    -- The words of the marker come on top of those of the blocks.
    refine List.Sublist.append ?_ (itemsWords_sublist hs hplain width ordered start _ bss)
    rw [lineWords_itemLines hmarker, lineWords_flatten]
    exact (runWords_sublist hs hplain _ bs).trans (List.sublist_append_right _ _)

end

/-- A document keeps the words of its text. -/
theorem segmentWords_sublist_document (hs : s.KeepsWords) (hplain : s.ShowsPlain false)
    (width : Nat) (d : Document) :
    (segmentWords (Block.runSegments false d.blocks)).Sublist
      (lineWords (s.document width d)) := by
  rw [Layout.document, lineWords_stackBlocks, List.flatMap_map]
  -- What follows a block at the top level comes on top of its words.
  refine (runWords_sublist hs hplain width d.blocks).trans ?_
  rw [Layout.blocks_eq_map, List.flatMap_map]
  refine List.Sublist.flatMap_right _ fun b _ => ?_
  rw [lineWords_append]
  exact List.sublist_append_left _ _

end Layout

/-! ### Documents without quotes and rules -/

/-- A block that is no container and no rule. -/
def Block.isLeaf : Block → Bool
  | .heading _ _ => true
  | .paragraph _ => true
  | .codeBlock _ _ => true
  | _ => false

mutual

/-- Whether a block has neither quotes nor rules in it. -/
def Block.isSimple : Block → Bool
  | .list _ bss _ => Block.itemsSimple bss
  | .blockquote _ => false
  | .thematicBreak => false
  | _ => true

/-- Whether a sequence of blocks has neither quotes nor rules in it. -/
def Block.runSimple : List Block → Bool
  | [] => true
  | b :: bs => b.isSimple && Block.runSimple bs

/-- Whether the items of a list have neither quotes nor rules in them. -/
def Block.itemsSimple : List (List Block) → Bool
  | [] => true
  | bs :: bss => Block.runSimple bs && Block.itemsSimple bss

end

/-- The marker of an item as a word. -/
def itemWord (bullet : List Char) (ordered : Bool) (start : Int) (index : Nat) : List Char :=
  if ordered then Text.ofInt (start + index) ++ ['.'] else bullet

mutual

/-- The words of a block in document order: a marker word before the words of each
item, and in each leaf the words that `leaf` gives for it. -/
def Block.outline (bullet : List Char) (leaf : Block → List (List Char)) :
    Block → List (List Char)
  | .list ordered bss start => Block.itemsOutline bullet leaf ordered start 0 bss
  | .blockquote children => Block.runOutline bullet leaf children
  | b => leaf b

/-- The words of a sequence of blocks in document order. -/
def Block.runOutline (bullet : List Char) (leaf : Block → List (List Char)) :
    List Block → List (List Char)
  | [] => []
  | b :: bs => b.outline bullet leaf ++ Block.runOutline bullet leaf bs

/-- The words of the items of a list from the given index on. -/
def Block.itemsOutline (bullet : List Char) (leaf : Block → List (List Char)) (ordered : Bool)
    (start : Int) (index : Nat) : List (List Block) → List (List Char)
  | [] => []
  | bs :: bss =>
    itemWord bullet ordered start index :: (Block.runOutline bullet leaf bs ++
      Block.itemsOutline bullet leaf ordered start (index + 1) bss)

end

namespace Layout

/-- A layout with one word for a bullet, and with the words of each leaf the same at
every width. -/
structure HasOutline (s : Layout) (bullet : List Char) (leaf : Block → List (List Char)) :
    Prop where
  endsBlank : EndsBlank s.bullet
  bullet : words s.bullet = [bullet]
  leaf {b : Block} : b.isLeaf = true → ∀ width, lineWords (s.block width b) = leaf b

namespace HasOutline

variable {s : Layout} {bullet : List Char} {leaf : Block → List (List Char)}

/-- The marker of an item is one word. -/
theorem words_marker (hs : s.HasOutline bullet leaf) (ordered : Bool) (start : Int)
    (index : Nat) :
    words (s.marker ordered start index) = [itemWord bullet ordered start index] := by
  unfold marker itemWord
  split
  · have hne : Text.ofInt (start + index) ++ ['.'] ≠ [] := by simp
    -- Neither digits, nor a minus, nor the dot behind them is blank.
    have hword : ∀ c ∈ Text.ofInt (start + index) ++ ['.'], ¬ Text.isBlank c = true := by
      intro c hc
      rcases List.mem_append.mp hc with hc | hc
      · exact Text.not_isBlank_of_mem_ofInt hc
      · rw [List.mem_singleton.mp hc]
        decide
    rw [show ['.', ' '] = ['.'] ++ [' '] from rfl, ← List.append_assoc,
      Text.words_concat_of_blank (by decide), Text.words_of_forall_not hne hword]
  · exact hs.bullet

mutual

/-- **The words of a block without quotes and rules** are its outline, from the
words of the leaves. -/
theorem lineWords_block (hs : s.HasOutline bullet leaf) (b : Block) (hb : b.isSimple = true)
    (width : Nat) :
    lineWords (s.block width b) = b.outline bullet leaf := by
  cases b with
  | heading level inline => exact hs.leaf rfl width
  | paragraph inline => exact hs.leaf rfl width
  | list ordered bss start =>
    rw [Layout.block, lineWords_flatten]
    exact lineWords_items hs bss hb width ordered start 0
  | codeBlock literal language => exact hs.leaf rfl width
  | blockquote children => simp [Block.isSimple] at hb
  | thematicBreak => simp [Block.isSimple] at hb

theorem lineWords_blocks (hs : s.HasOutline bullet leaf) (bs : List Block)
    (hbs : Block.runSimple bs = true) (width : Nat) :
    (s.blocks width bs).flatMap lineWords = Block.runOutline bullet leaf bs := by
  cases bs with
  | nil => rfl
  | cons b bs =>
    rw [Block.runSimple, Bool.and_eq_true] at hbs
    rw [Layout.blocks, List.flatMap_cons, lineWords_block hs b hbs.1,
      lineWords_blocks hs bs hbs.2, Block.runOutline]

theorem lineWords_items (hs : s.HasOutline bullet leaf) (bss : List (List Block))
    (hbss : Block.itemsSimple bss = true) (width : Nat) (ordered : Bool) (start : Int)
    (index : Nat) :
    (s.items width ordered start index bss).flatMap lineWords =
      Block.itemsOutline bullet leaf ordered start index bss := by
  cases bss with
  | nil => rfl
  | cons bs bss =>
    rw [Block.itemsSimple, Bool.and_eq_true] at hbss
    have hmarker := endsBlank_marker hs.endsBlank ordered start index
    rw [Layout.items, List.flatMap_cons, lineWords_itemLines hmarker, hs.words_marker,
      lineWords_flatten, lineWords_blocks hs bs hbss.1, lineWords_items hs bss hbss.2,
      Block.itemsOutline]
    rfl

end

end HasOutline

mutual

theorem fits_of_isSimple (s : Layout) (b : Block) (hb : b.isSimple = true) (width : Nat) :
    s.fits width b = true := by
  cases b with
  | list ordered bss start => exact itemsFit_of_itemsSimple s bss hb width ordered start 0
  | blockquote children => simp [Block.isSimple] at hb
  | thematicBreak => simp [Block.isSimple] at hb
  | _ => rfl

/-- Without rules there is none that cannot be drawn. -/
theorem blocksFit_of_runSimple (s : Layout) (bs : List Block) (hbs : Block.runSimple bs = true)
    (width : Nat) : s.blocksFit width bs = true := by
  cases bs with
  | nil => rfl
  | cons b bs =>
    rw [Block.runSimple, Bool.and_eq_true] at hbs
    rw [Layout.blocksFit, fits_of_isSimple s b hbs.1, blocksFit_of_runSimple s bs hbs.2,
      Bool.and_true]

theorem itemsFit_of_itemsSimple (s : Layout) (bss : List (List Block))
    (hbss : Block.itemsSimple bss = true) (width : Nat) (ordered : Bool) (start : Int)
    (index : Nat) : s.itemsFit width ordered start index bss = true := by
  cases bss with
  | nil => rfl
  | cons bs bss =>
    rw [Block.itemsSimple, Bool.and_eq_true] at hbss
    rw [Layout.itemsFit, blocksFit_of_runSimple s bs hbss.1, itemsFit_of_itemsSimple s bss hbss.2,
      Bool.and_true]

end

end Layout

/-! ### The formats -/

namespace Gemini

theorem words_dropFinalNewline (s : List Char) : words (dropFinalNewline s) = words s := by
  unfold dropFinalNewline
  split
  · rename_i hlast
    obtain ⟨t, rfl⟩ := List.getLast?_eq_some_iff.mp hlast
    rw [List.dropLast_concat, Text.words_concat_of_blank (by decide)]
  · rfl

/-- Gemtext keeps the words. -/
theorem keepsWords : layout.KeepsWords where
  headingMark _ := Text.endsBlank_concat _ (by decide)
  headingText := Text.words_replaceChar (by decide) (by decide)
  code literal language := by
    have hbody : (bodyLines literal).flatMap words = words literal := by
      rw [← words_dropFinalNewline]
      unfold bodyLines
      split
      · rename_i hempty
        rw [List.isEmpty_iff.mp hempty]
        rfl
      · exact Text.flatMap_words_lines _
    show (words literal).Sublist ((_ :: (bodyLines literal ++ [fence])).flatMap words)
    rw [List.flatMap_cons, List.flatMap_append, hbody]
    exact (List.sublist_append_left _ _).trans (List.sublist_append_right _ _)
  bullet := Text.endsBlank_concat ['*'] (by decide)

end Gemini

namespace Gopher

theorem flatMap_words_codeText (literal : List Char) :
    (codeText literal).flatMap words = words literal := by
  rw [codeText, Text.flatMap_words_lines, Text.words_dropEndWhile fun _ => isBlank_of_eq_newline]

theorem endsBlank_bullet : EndsBlank bullet := Text.endsBlank_concat ['•'] (by decide)

/-- Gopher text keeps the words. -/
theorem keepsWords (o : RenderOptions) (refs : List (List Char)) :
    (layout o refs).KeepsWords where
  headingMark _ := Text.endsBlank_nil
  headingText _ := rfl
  code literal _ := by
    show (words literal).Sublist ((codeText literal).flatMap words)
    rw [flatMap_words_codeText]
  bullet := endsBlank_bullet

/-- The words of a leaf in Gopher text. -/
def leafWords (o : RenderOptions) (refs : List (List Char)) : Block → List (List Char)
  | .heading _ inline => words ((layout o refs).run inline)
  | .paragraph inline => words ((layout o refs).run inline)
  | .codeBlock literal _ => words literal
  | _ => []

/-- **A leaf of Gopher text** has the same words at every width. -/
theorem lineWords_leaf (o : RenderOptions) (refs : List (List Char)) {b : Block}
    (hb : b.isLeaf = true) (width : Nat) :
    lineWords ((layout o refs).block width b) = leafWords o refs b := by
  cases b with
  | heading level inline => exact lineWords_proseBlock rfl width _
  | paragraph inline => exact lineWords_proseBlock rfl width _
  | codeBlock literal language =>
    rw [Layout.block, lineWords_map_verbatim]
    exact flatMap_words_codeText literal
  | _ => simp [Block.isLeaf] at hb

/-- Gopher text has an outline. -/
theorem hasOutline_leafWords (o : RenderOptions) (refs : List (List Char)) :
    (layout o refs).HasOutline ['•'] (leafWords o refs) where
  endsBlank := endsBlank_bullet
  bullet := (by decide : words bullet = [['•']])
  leaf := lineWords_leaf o refs

/-- A leaf of plain Gopher text has the words of its segment. -/
theorem leafWords_eq_segmentWords {o : RenderOptions} {refs : List (List Char)}
    (hplain : (layout o refs).ShowsPlain false) {b : Block} (hb : b.isLeaf = true) :
    leafWords o refs b = segmentWords (b.segments false) := by
  cases b with
  | heading level inline =>
    rw [Block.segments, segmentWords_singleton, leafWords, Layout.run_eq_plain hplain]
  | paragraph inline =>
    rw [Block.segments, segmentWords_singleton, leafWords, Layout.run_eq_plain hplain]
  | codeBlock literal language =>
    rw [Block.segments, segmentWords_singleton, leafWords,
      Text.words_dropEndWhile fun _ => isBlank_of_eq_newline]
  | _ => simp [Block.isLeaf] at hb

/-- The outline of plain Gopher text has the words of the segments. -/
theorem hasOutline {o : RenderOptions} {refs : List (List Char)}
    (hplain : (layout o refs).ShowsPlain false) :
    (layout o refs).HasOutline ['•'] fun b => segmentWords (b.segments false) where
  endsBlank := endsBlank_bullet
  bullet := (hasOutline_leafWords o refs).bullet
  leaf hb width := (lineWords_leaf o refs hb width).trans (leafWords_eq_segmentWords hplain hb)

/-- Where targets are not preserved nothing follows the body. -/
theorem documentLines_of_not_preserveLinks {o : RenderOptions} (hlinks : o.preserveLinks = false)
    (d : Document) : documentLines o d = body o d := by
  have hrefs : refs o d = [] := by simp [refs, footnoting, hlinks]
  rw [documentLines_eq, linkSection, hrefs]
  exact List.append_nil _

end Gopher

/-! ### Renders -/

/-- **Renders lose and reorder no words** of the extracted text.  Its words are
found in their order among those of gemtext under any options, and among those of
Gopher text that shows running text plainly.  If there are neither quotes nor
rules, that Gopher text exists and has no other words than those of the segments
and one marker word before each item of a list. -/
theorem renders_keep_words {doc : Value} {text : List Char} (htext : plainText doc = .ok text)
    (hstarts : doc.integerStarts = true) :
    ∃ d, Document.ofValue? doc = some d ∧
      (∀ o : RenderOptions, o.Valid → ∃ out,
        render doc (.string Target.gemini.name) (.record o.record) = .ok out ∧
        (words text).Sublist (words out)) ∧
      (∀ o : RenderOptions, o.Valid → o.preserveLinks = false → o.stripFormatting = true →
        ∃ out,
          render doc (.string Target.gopher.name) (.record o.record) =
            (if Gopher.fits o d then .ok out else .error .tooLong) ∧
          (words text).Sublist (words out) ∧
          (Block.runSimple d.blocks = true → Gopher.fits o d = true ∧
            words out = Block.runOutline ['•'] (fun b => segmentWords (b.segments false))
              d.blocks)) := by
  have hcheck := check_of_plainText htext
  obtain ⟨d, hd, hheight⟩ := exists_document hcheck hstarts
  rw [words_plainText hd htext]
  refine ⟨d, hd, fun o ho => ?_, fun o ho hlinks hstrip => ?_⟩
  · refine ⟨_, by rw [render_record _ ho, Gemini.render_eq ho hcheck hd hheight], ?_⟩
    rw [words_unlines_map_text]
    exact Layout.segmentWords_sublist_document Gemini.keepsWords Gemini.showsPlain _ d
  · have hplain := Gopher.showsPlain hlinks hstrip (Gopher.refs o d)
    refine ⟨_, by rw [render_record _ ho, (Gopher.render_eq ho hcheck hd hheight).1], ?_, ?_⟩
    · rw [words_unlines_map_text, Gopher.documentLines_of_not_preserveLinks hlinks]
      exact Layout.segmentWords_sublist_document (Gopher.keepsWords o _) hplain _ d
    · intro hblocks
      refine ⟨Layout.blocksFit_of_runSimple _ _ hblocks _, ?_⟩
      rw [words_unlines_map_text, Gopher.documentLines_of_not_preserveLinks hlinks,
        Gopher.body_eq, lineWords_stackBlocks]
      exact (Gopher.hasOutline hplain).lineWords_blocks d.blocks hblocks _

/-- An item with two words and code. -/
def Value.wordsAndCode : Value :=
  .document 0 (.tuple [.list 1 (.bool true) (.tuple [.tuple
    [.paragraph 2 (.tuple [.text 3 (.string ['a', ' ', 'b'])]),
      .codeBlock 4 (.string ['c', '\n']) .null]]) (.int 9)])

/-- The width is enough for one word. -/
theorem renders_keep_words_of_narrow_item :
    ∃ out, render Value.wordsAndCode (.string Target.gopher.name)
        (.record (RenderOptions.mk 4 false .inline false true).record) = .ok out ∧
      words out = [['9', '.'], ['a'], ['b'], ['c']] := by
  obtain ⟨d, hd, -, hgopher⟩ :=
    @renders_keep_words Value.wordsAndCode ['a', ' ', 'b', '\n', 'c'] rfl rfl
  obtain ⟨out, hout, -, hwords⟩ :=
    hgopher (RenderOptions.mk 4 false .inline false true) (by decide) rfl rfl
  obtain rfl := Option.some.inj hd
  obtain ⟨hfits, hwords⟩ := hwords rfl
  rw [hfits, if_pos rfl] at hout
  exact ⟨out, hout, hwords⟩

end SmallWeb
