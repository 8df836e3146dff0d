/-
SmallWeb/Proofs/Render/BlankLines.lean

Blank lines between blocks.

Whether a page is tidy can be told of the lines of its top-level blocks, one by one
(`tidy_output_iff`).  A block begins with a blank line where a heading or paragraph is
written without content.  Inside a quote that does not show, since every line has the
mark of the quote, and an item begins with its marker.  If every line of a leaf outside
quotes has content (`Leaf.Filled`), then every line of every block has.

Without code blocks all lines of blocks are prose, trimmed and on one line each
(`Layout.plain_of_mem_block`), and what quotes and items put before them has content.
The two formats put different lines behind the blocks, but all of these show something;
this is all that the spacing needs to know of a format (`Layout.Grouped`).

Main result: `blocks_one_blank_line_apart`.
-/
import SmallWeb.Proofs.LinkRegistry.Run
import SmallWeb.Proofs.Render.CodeBlocks
import SmallWeb.Proofs.Render.Footnotes
import SmallWeb.Proofs.Render.Leaves
import SmallWeb.Proofs.Render.Tidy
import SmallWeb.Proofs.Render.WidthBudget

namespace SmallWeb

open Text (isBlankText)

/-! ### Plain lines -/

/-- Prose on one line, with no blanks at its end. -/
structure Line.Plain (l : Line) : Prop where
  prose : l.isVerbatim = false
  one_line : '\n' ∉ l.text
  trimmed : Text.trimEnd l.text = l.text

theorem Line.plain_blank : Line.Plain (.prose []) := ⟨rfl, List.not_mem_nil, rfl⟩

theorem Line.Plain.settled {l : Line} (h : l.Plain) : l.Settled := by
  intro hblank
  rw [← h.trimmed]
  exact Text.trimEnd_eq_nil_iff.mpr hblank

theorem Line.Plain.prepend {l : Line} (h : l.Plain) {lead : List Char} (hlead : '\n' ∉ lead) :
    (l.prepend lead).Plain := by
  cases l with
  | prose t => exact ⟨rfl, Line.notMem_text_prepend hlead h.one_line, Text.trimEnd_trimEnd _⟩
  | verbatim t => exact absurd h.prose (by simp [Line.isVerbatim])

/-- A line with content keeps it. -/
theorem Line.content_prepend {l : Line} (h : ¬ isBlankText l.text = true) (lead : List Char) :
    ¬ isBlankText (l.prepend lead).text = true := by
  cases l with
  | prose t => exact content_trimEnd (content_append_right lead h)
  | verbatim t =>
    have hne : ¬ t.isEmpty = true := by
      intro hnil
      rw [List.isEmpty_iff.mp hnil] at h
      exact h rfl
    show ¬ isBlankText (if t.isEmpty then Text.trimEnd lead else lead ++ t) = true
    rw [if_neg hne]
    exact content_append_right lead h

/-- A prefix with content shows. -/
theorem Line.content_prepend_of_lead {lead : List Char} (hlead : ¬ isBlankText lead = true)
    (l : Line) : ¬ isBlankText (l.prepend lead).text = true := by
  cases l with
  | prose t => exact content_trimEnd (content_append_left hlead t)
  | verbatim t =>
    show ¬ isBlankText (if t.isEmpty then Text.trimEnd lead else lead ++ t) = true
    split
    · exact content_trimEnd hlead
    · exact content_append_left hlead t

theorem plain_of_mem_proseBlock {width : Nat} {lead text : List Char} (hlead : '\n' ∉ lead)
    {l : Line} (hl : l ∈ proseBlock width lead text) : l.Plain := by
  obtain ⟨line, hline, t, ht, rfl⟩ := exists_of_mem_proseBlock hl
  refine ⟨rfl, fun hmem => ?_, trimEnd_of_mem_wrapLine ht⟩
  rcases mem_of_mem_wrapLine ht hmem with hmem | hmem | hmem
  · exact hlead hmem
  · exact Text.notMem_of_mem_lines hline hmem
  · exact absurd hmem (by decide)

/-! ### Leaves -/

/-- Whether a container is a quote. -/
def Frame.isQuote : Frame → Bool
  | .quote => true
  | .item _ => false

/-- A leaf of which every line shows something at a width: it stands in a quote, or it
has a mark, or every line of its text has content and no blanks but breaks between two
breaks.  Without a limit there is nothing to be said of blanks. -/
def Leaf.Filled (width : Nat) (l : Leaf) : Prop :=
  l.path.any Frame.isQuote = true ∨ ¬ isBlankText l.mark = true ∨
    ∀ t ∈ Text.lines l.text, ¬ isBlankText t = true ∧ (width = 0 ∨ BlanksBreak t)

instance (width : Nat) (l : Leaf) : Decidable (l.Filled width) :=
  inferInstanceAs (Decidable (_ ∨ _ ∨ _))

/-- An item does not change what its leaves show. -/
theorem Leaf.Filled.of_within_item {width : Nat} {marker : List Char} {l : Leaf}
    (h : (l.within (.item marker)).Filled width) : l.Filled (innerRoom width marker.length) := by
  unfold Leaf.Filled at h ⊢
  rwa [innerRoom_eq_zero_iff]

/-- The lines of a leaf that is not in a quote. -/
theorem content_of_mem_proseBlock {width : Nat} {mark text : List Char}
    (hfilled : (Leaf.mk [] mark text).Filled width) {l : Line}
    (hl : l ∈ proseBlock width mark text) : ¬ isBlankText l.text = true := by
  obtain ⟨line, hline, t, ht, rfl⟩ := exists_of_mem_proseBlock hl
  rcases hfilled with hquote | hmark | htext
  · exact absurd hquote (by simp)
  · exact content_of_mem_wrapLine_of_lead hmark ht
  · exact content_of_mem_wrapLine (htext line hline).1 (htext line hline).2 ht

/-- A leaf without content begins with an empty line, if it has no mark. -/
theorem exists_proseBlock_of_blank (width : Nat) {text : List Char}
    (hblank : isBlankText text = true) :
    ∃ rest, proseBlock width [] text = .prose [] :: rest := by
  obtain ⟨line, lines, hlines⟩ := List.exists_cons_of_ne_nil (Text.lines_ne_nil text)
  obtain ⟨l, ls, hwrap⟩ := List.exists_cons_of_ne_nil (wrapLine_ne_nil width [] [] line)
  have hline : isBlankText line = true := by
    refine List.all_eq_true.mpr fun c hc => List.all_eq_true.mp hblank c ?_
    exact Text.mem_of_mem_lines (hlines ▸ List.mem_cons_self) hc
  have hl : l = [] := eq_nil_of_mem_wrapLine hline (hwrap ▸ List.mem_cons_self)
  unfold proseBlock
  rw [hlines, List.flatMap_cons, hwrap, hl]
  exact ⟨_, rfl⟩

/-! ### Blocks -/

namespace Layout

variable {s : Layout}

/-- The texts of a layout itself show something, and its rules are plain. -/
structure Shows (s : Layout) : Prop where
  measured : s.Measured
  bullet : ¬ isBlankText s.bullet = true
  rule (width : Nat) : ¬ isBlankText (s.rule width) = true
  rule_plain (width : Nat) : (Line.prose (s.rule width)).Plain

theorem Shows.marker (S : s.Shows) (ordered : Bool) (start : Int) (index : Nat) :
    ¬ isBlankText (s.marker ordered start index) = true := by
  unfold Layout.marker
  split
  · have hdot : ¬ isBlankText ['.', ' '] = true := by decide
    exact content_append_right _ hdot
  · exact S.bullet

/-- A line of an item is behind the marker, or it is a line from inside behind the
continuation. -/
theorem mem_itemLines {marker : List Char} {lines : List Line} {l : Line}
    (hl : l ∈ s.itemLines marker lines) :
    (∃ m, (m ∈ lines ∨ m = .prose []) ∧ l = m.prepend marker) ∨
      ∃ m ∈ lines, l = m.prepend (s.continuation marker) := by
  have hmap : ∀ ms : List Line, ms ⊆ lines → l ∈ ms.map (Line.prepend (s.continuation marker)) →
      ∃ m ∈ lines, l = m.prepend (s.continuation marker) := by
    intro ms hsubset hmem
    obtain ⟨m, hm, rfl⟩ := List.mem_map.mp hmem
    exact ⟨m, hsubset hm, rfl⟩
  unfold itemLines at hl
  cases lines with
  | nil =>
    obtain rfl := List.mem_singleton.mp hl
    exact .inl ⟨.prose [], .inr rfl, rfl⟩
  | cons first rest =>
    simp only [openItem] at hl
    split at hl
    · rcases List.mem_cons.mp hl with rfl | hl
      · exact .inl ⟨.prose [], .inr rfl, rfl⟩
      · exact .inr (hmap _ (List.Subset.refl _) hl)
    · rcases List.mem_cons.mp hl with rfl | hl
      · exact .inl ⟨first, .inl List.mem_cons_self, rfl⟩
      · exact .inr (hmap _ (List.subset_cons_self first rest) hl)

mutual

/-- **Without code blocks all lines are prose**, each on one line. -/
theorem plain_of_mem_block (S : s.Shows) (width : Nat) (b : Block) (hcode : b.codeBlocks = [])
    {l : Line} (hl : l ∈ s.block width b) : l.Plain := by
  cases b with
  | heading level inline => exact plain_of_mem_proseBlock (S.measured.headingMark_line level) hl
  | paragraph inline => exact plain_of_mem_proseBlock List.not_mem_nil hl
  | list ordered bss start =>
    obtain ⟨ls, hls, hl⟩ := List.mem_flatten.mp hl
    exact plain_of_mem_items S width ordered start 0 bss hcode hls hl
  | codeBlock literal language => exact absurd hcode (List.cons_ne_nil _ _)
  | blockquote children =>
    have hmark : '\n' ∉ quoteMark := by decide
    obtain ⟨m, hm, rfl⟩ := List.mem_map.mp hl
    have hplain : m.Plain := forall_mem_stackBlocks Line.plain_blank
      (fun ls hls k hk => plain_of_mem_blocks S _ children hcode hls hk) m hm
    rw [quoteLine, hplain.prose, Bool.and_false, if_neg (by simp)]
    exact hplain.prepend hmark
  | thematicBreak =>
    obtain rfl := List.mem_singleton.mp hl
    exact S.rule_plain width

theorem plain_of_mem_blocks (S : s.Shows) (width : Nat) (bs : List Block)
    (hcode : Block.runCodeBlocks bs = []) {ls : List Line} (hls : ls ∈ s.blocks width bs)
    {l : Line} (hl : l ∈ ls) : l.Plain := by
  cases bs with
  | nil => exact absurd hls List.not_mem_nil
  | cons b bs =>
    obtain ⟨hb, hbs⟩ := List.append_eq_nil_iff.mp hcode
    rcases List.mem_cons.mp hls with rfl | hls
    · exact plain_of_mem_block S width b hb hl
    · exact plain_of_mem_blocks S width bs hbs hls hl

theorem plain_of_mem_items (S : s.Shows) (width : Nat) (ordered : Bool) (start : Int) (index : Nat)
    (bss : List (List Block)) (hcode : Block.itemsCodeBlocks bss = []) {ls : List Line}
    (hls : ls ∈ s.items width ordered start index bss) {l : Line} (hl : l ∈ ls) : l.Plain := by
  cases bss with
  | nil => exact absurd hls List.not_mem_nil
  | cons bs bss =>
    obtain ⟨hbs, hbss⟩ := List.append_eq_nil_iff.mp hcode
    rcases List.mem_cons.mp hls with rfl | hls
    · have hplain : ∀ m ∈ (s.blocks (innerRoom width (s.marker ordered start index).length)
          bs).flatten, m.Plain := by
        intro m hm
        obtain ⟨ms, hms, hm⟩ := List.mem_flatten.mp hm
        exact plain_of_mem_blocks S _ bs hbs hms hm
      rcases mem_itemLines hl with ⟨m, hm | rfl, rfl⟩ | ⟨m, hm, rfl⟩
      · exact (hplain m hm).prepend (s.notMem_newline_marker S.measured.bullet_line _ _ _)
      · exact Line.plain_blank.prepend (s.notMem_newline_marker S.measured.bullet_line _ _ _)
      · exact (hplain m hm).prepend (notMem_newline_continuation _)
    · exact plain_of_mem_items S width ordered start (index + 1) bss hbss hls hl

end

mutual

/-- **If the leaves outside quotes are filled, every line has content.** -/
theorem content_of_mem_block (S : s.Shows) (width : Nat) (b : Block) (hcode : b.codeBlocks = [])
    (hfilled : ∀ l ∈ s.leaves b, l.Filled width) {l : Line} (hl : l ∈ s.block width b) :
    ¬ isBlankText l.text = true := by
  cases b with
  | heading level inline => exact content_of_mem_proseBlock (hfilled _ List.mem_cons_self) hl
  | paragraph inline => exact content_of_mem_proseBlock (hfilled _ List.mem_cons_self) hl
  | list ordered bss start =>
    obtain ⟨ls, hls, hl⟩ := List.mem_flatten.mp hl
    exact content_of_mem_items S width ordered start 0 bss hcode hfilled hls hl
  | codeBlock literal language => exact absurd hcode (List.cons_ne_nil _ _)
  | blockquote children =>
    -- Whatever the line is inside the quote, the mark shows.
    have hmark : ¬ isBlankText quoteMark = true := by decide
    obtain ⟨m, hm, rfl⟩ := List.mem_map.mp hl
    have hplain : m.Plain := forall_mem_stackBlocks Line.plain_blank
      (fun ls hls k hk => plain_of_mem_blocks S _ children hcode hls hk) m hm
    rw [quoteLine, hplain.prose, Bool.and_false, if_neg (by simp)]
    exact Line.content_prepend_of_lead hmark m
  | thematicBreak =>
    obtain rfl := List.mem_singleton.mp hl
    exact S.rule width

theorem content_of_mem_blocks (S : s.Shows) (width : Nat) (bs : List Block)
    (hcode : Block.runCodeBlocks bs = []) (hfilled : ∀ l ∈ s.runLeaves bs, l.Filled width)
    {ls : List Line} (hls : ls ∈ s.blocks width bs) {l : Line} (hl : l ∈ ls) :
    ¬ isBlankText l.text = true := by
  cases bs with
  | nil => exact absurd hls List.not_mem_nil
  | cons b bs =>
    obtain ⟨hb, hbs⟩ := List.append_eq_nil_iff.mp hcode
    obtain ⟨hfirst, hrest⟩ := List.forall_mem_append.mp hfilled
    rcases List.mem_cons.mp hls with rfl | hls
    · exact content_of_mem_block S width b hb hfirst hl
    · exact content_of_mem_blocks S width bs hbs hrest hls hl

theorem content_of_mem_items (S : s.Shows) (width : Nat) (ordered : Bool) (start : Int)
    (index : Nat) (bss : List (List Block)) (hcode : Block.itemsCodeBlocks bss = [])
    (hfilled : ∀ l ∈ s.itemsLeaves ordered start index bss, l.Filled width) {ls : List Line}
    (hls : ls ∈ s.items width ordered start index bss) {l : Line} (hl : l ∈ ls) :
    ¬ isBlankText l.text = true := by
  cases bss with
  | nil => exact absurd hls List.not_mem_nil
  | cons bs bss =>
    obtain ⟨hbs, hbss⟩ := List.append_eq_nil_iff.mp hcode
    obtain ⟨hfirst, hrest⟩ := List.forall_mem_append.mp hfilled
    rcases List.mem_cons.mp hls with rfl | hls
    · rcases mem_itemLines hl with ⟨m, -, rfl⟩ | ⟨m, hm, rfl⟩
      · exact Line.content_prepend_of_lead (S.marker ordered start index) m
      · obtain ⟨ms, hms, hm⟩ := List.mem_flatten.mp hm
        have hinner : ∀ k ∈ s.runLeaves bs,
            k.Filled (innerRoom width (s.marker ordered start index).length) :=
          fun _ hk => (hfirst _ (List.mem_map_of_mem hk)).of_within_item
        exact Line.content_prepend (content_of_mem_blocks S _ bs hbs hinner hms hm) _
    · exact content_of_mem_items S width ordered start (index + 1) bss hbss hrest hls hl

end

/-- A leaf that no container is around is a block itself. -/
theorem block_of_path_nil {b : Block} {l : Leaf} (hl : l ∈ s.leaves b) (hpath : l.path = [])
    (width : Nat) : s.block width b = proseBlock width l.mark l.text := by
  have hwithin : ∀ (f : Frame) (ls : List Leaf), l ∉ ls.map (Leaf.within f) := by
    intro f ls hmem
    obtain ⟨k, -, rfl⟩ := List.mem_map.mp hmem
    exact List.cons_ne_nil _ _ hpath
  have hitems : ∀ (ordered : Bool) (start : Int) (index : Nat) (bss : List (List Block)),
      l ∉ s.itemsLeaves ordered start index bss := by
    intro ordered start index bss
    induction bss generalizing index with
    | nil => exact List.not_mem_nil
    | cons bs bss ih => exact List.not_mem_append (hwithin _ _) (ih (index + 1))
  cases b with
  | heading level inline =>
    obtain rfl := List.mem_singleton.mp hl
    rfl
  | paragraph inline =>
    obtain rfl := List.mem_singleton.mp hl
    rfl
  | list ordered bss start => exact absurd hl (hitems ordered start 0 bss)
  | codeBlock literal language => exact absurd hl List.not_mem_nil
  | blockquote children => exact absurd hl (hwithin _ _)
  | thematicBreak => exact absurd hl List.not_mem_nil

/-- A block that is a leaf without content and mark begins with an empty line. -/
theorem exists_block_of_blank {bs : List Block} {l : Leaf} (hl : l ∈ s.runLeaves bs)
    (hpath : l.path = []) (hmark : l.mark = []) (hblank : isBlankText l.text = true)
    (width : Nat) : ∃ b ∈ bs, ∃ rest, s.block width b = .prose [] :: rest := by
  obtain ⟨b, hb, hl⟩ := s.mem_runLeaves hl
  refine ⟨b, hb, ?_⟩
  rw [block_of_path_nil hl hpath, hmark]
  exact exists_proseBlock_of_blank width hblank

end Layout

theorem Block.exists_hasLines {bs : List Block} (h : Block.anyHasLines bs = true) :
    ∃ b ∈ bs, b.hasLines = true := by
  induction bs with
  | nil => exact absurd h (by simp [Block.anyHasLines])
  | cons b bs ih =>
    rcases Bool.or_eq_true_iff.mp h with h | h
    · exact ⟨b, List.mem_cons_self, h⟩
    · obtain ⟨c, hc, h⟩ := ih h
      exact ⟨c, List.mem_cons_of_mem b hc, h⟩

theorem Layout.block_mem_blocks (s : Layout) {b : Block} {bs : List Block} (hb : b ∈ bs)
    (width : Nat) : s.block width b ∈ s.blocks width bs := by
  rw [s.blocks_eq_map]
  exact List.mem_map_of_mem hb

/-- A block with lines has them in every layout. -/
theorem Layout.block_ne_nil (s : Layout) (width : Nat) {b : Block} (h : b.hasLines = true) :
    s.block width b ≠ [] := by
  have hempty := s.block_isEmpty width b
  rw [h] at hempty
  exact List.isEmpty_eq_false_iff.mp hempty

/-! ### Groups of lines -/

/-- A leaf of the page itself that is written without mark and content. -/
def Leaf.Bare (l : Leaf) : Prop := l.path = [] ∧ l.mark = [] ∧ isBlankText l.text = true

/-- Groups of lines for a run of blocks: each block begins a group, and the lines that are
not those of a block are one line each and show something. -/
structure Layout.Grouped (s : Layout) (width : Nat) (bs : List Block)
    (groups : List (List Line)) : Prop where
  begins {b : Block} : b ∈ bs → ∃ after, s.block width b ++ after ∈ groups
  line {g : List Line} {l : Line} : g ∈ groups → l ∈ g →
    (∃ b ∈ bs, l ∈ s.block width b) ∨ '\n' ∉ l.text ∧ ¬ isBlankText l.text = true

/-! ### Lines of the two formats -/

namespace Gopher

/-- Gopher text shows its marks. -/
theorem shows (o : RenderOptions) (refs : List (List Char)) : (layout o refs).Shows where
  measured := measured o refs
  bullet := by
    show ¬ isBlankText Gopher.bullet = true
    decide
  rule width := by
    show ¬ isBlankText (List.replicate (ruleLength width) '-') = true
    have hpos : ruleLength width ≠ 0 := by
      unfold ruleLength
      split <;> omega
    obtain ⟨n, hn⟩ := Nat.exists_eq_succ_of_ne_zero hpos
    rw [hn, List.replicate_succ, Text.isBlankText_cons]
    have hdash : Text.isBlank '-' = false := by decide
    simp [hdash]
  rule_plain width := by
    have hdash : ¬ Text.isBlank '-' = true := by decide
    refine ⟨rfl, Text.notMem_newline_replicate (by decide), ?_⟩
    exact Text.trimEnd_eq_self fun c hc => List.eq_of_mem_replicate hc ▸ hdash

/-- The lines of the list of links, or none. -/
def linkGroup (o : RenderOptions) (d : Document) : List Line :=
  if (refs o d).isEmpty then []
  else (Text.lines (registry o d).footnotes).map .prose

/-- The groups of lines that a document is made of: the blocks and the list of links. -/
def groups (o : RenderOptions) (d : Document) : List (List Line) :=
  (layout o (refs o d)).blocks o.width.toNat d.blocks ++ [linkGroup o d]

theorem documentLines_eq_stackBlocks (o : RenderOptions) (d : Document) :
    documentLines o d = stackBlocks (groups o d) := by
  have hlast : stackBlocks [linkGroup o d] = linkGroup o d := nil_appendBlock _
  rw [groups, stackBlocks_append, hlast, ← body_eq]
  unfold documentLines finish linkGroup
  rw [isEmpty_entries_registry]
  split <;> rfl

theorem linkGroup_line (o : RenderOptions) (d : Document) : ∀ l ∈ linkGroup o d, '\n' ∉ l.text := by
  intro l hl
  unfold linkGroup at hl
  split at hl
  · exact absurd hl List.not_mem_nil
  · obtain ⟨t, ht, rfl⟩ := List.mem_map.mp hl
    exact Text.notMem_of_mem_lines ht

/-- Every line of the list of links has content, if the targets are lines. -/
theorem linkGroup_content {o : RenderOptions} {d : Document}
    (htargets : ∀ href ∈ d.targets, '\n' ∉ href) :
    ∀ l ∈ linkGroup o d, ¬ isBlankText l.text = true := by
  intro l hl
  unfold linkGroup at hl
  split at hl
  · exact absurd hl List.not_mem_nil
  · rename_i hrefs
    have hne : (registry o d).entries ≠ [] := by
      rw [← isEmpty_entries_registry] at hrefs
      simpa using hrefs
    have hmem : ∀ href ∈ (registry o d).targets, '\n' ∉ href := by
      intro href hhref
      rw [targets_registry, refs] at hhref
      split at hhref
      · exact htargets href (List.mem_eraseDups.mp hhref)
      · exact absurd hhref List.not_mem_nil
    obtain ⟨t, ht, rfl⟩ := List.mem_map.mp hl
    show ¬ isBlankText t = true
    rw [LinkRegistry.lines_footnotes hne hmem] at ht
    rcases List.mem_cons.mp ht with rfl | ht
    · decide
    · obtain ⟨⟨n, href⟩, -, rfl⟩ := List.mem_map.mp ht
      have hopen : Text.isBlank '[' = false := by decide
      simp [LinkRegistry.entryLine, Text.isBlankText_cons, hopen]

/-- The blocks and the list of links are groups for the blocks. -/
theorem grouped {o : RenderOptions} {d : Document} (htargets : ∀ href ∈ d.targets, '\n' ∉ href) :
    (layout o (refs o d)).Grouped o.width.toNat d.blocks (groups o d) where
  begins {b} hb := by
    refine ⟨[], List.mem_append_left _ ?_⟩
    rw [List.append_nil]
    exact Layout.block_mem_blocks _ hb _
  line {g l} hg hl := by
    rcases List.mem_append.mp hg with hg | hg
    · rw [Layout.blocks_eq_map] at hg
      obtain ⟨b, hb, rfl⟩ := List.mem_map.mp hg
      exact .inl ⟨b, hb, hl⟩
    · obtain rfl := List.mem_singleton.mp hg
      exact .inr ⟨linkGroup_line o d l hl, linkGroup_content htargets l hl⟩

end Gopher

namespace Gemini

/-- Gemtext shows its marks. -/
theorem shows : layout.Shows where
  measured := measured
  bullet := by decide
  rule _ := by
    show ¬ isBlankText ['-', '-', '-'] = true
    decide
  rule_plain _ := ⟨rfl, (by decide : '\n' ∉ ['-', '-', '-']), rfl⟩

/-- The line of a link is one line, if the target is. -/
theorem notMem_newline_after {notes : List (List Char × List Char)}
    (h : ∀ n ∈ notes, '\n' ∉ n.1) : ∀ l ∈ layout.after notes, '\n' ∉ l.text := by
  intro l hl
  obtain ⟨⟨href, text⟩, hn, rfl⟩ := List.mem_map.mp hl
  have hhref : '\n' ∉ href := h _ hn
  have htitle : '\n' ∉ linkTitle text := by
    intro hmem
    obtain ⟨c, -, hc⟩ := List.mem_map.mp (Text.mem_of_mem_trim hmem)
    split at hc
    · exact absurd hc (by decide)
    · rename_i hne
      exact hne hc
  show '\n' ∉ linkLine href (linkTitle text)
  unfold linkLine
  split <;> simp [hhref, htitle]

/-- The line of a link begins with an arrow. -/
theorem content_after (notes : List (List Char × List Char)) :
    ∀ l ∈ layout.after notes, ¬ isBlankText l.text = true := by
  intro l hl
  obtain ⟨⟨href, text⟩, -, rfl⟩ := List.mem_map.mp hl
  have harrow : Text.isBlank '=' = false := by decide
  show ¬ isBlankText (linkLine href (linkTitle text)) = true
  simp [linkLine, Text.isBlankText_cons, harrow]

theorem mem_targets_of_mem_blockNotes {d : Document} {b : Block} (hb : b ∈ d.blocks)
    {n : List Char × List Char} (hn : n ∈ layout.blockNotes b) : n.1 ∈ d.targets := by
  have htargets : (d.blocks.map layout.blockNotes).flatten.map Prod.fst = d.targets := by
    rw [Layout.flatten_blockNotes, Layout.blocksNotes_fst]
    rfl
  rw [← htargets]
  exact List.mem_map_of_mem (List.mem_flatten.mpr ⟨_, List.mem_map_of_mem hb, hn⟩)

/-- The groups of lines that a document is made of: each block with its links. -/
def groups (o : RenderOptions) (d : Document) : List (List Line) :=
  d.blocks.map fun b => layout.block o.width.toNat b ++ layout.after (layout.blockNotes b)

/-- The blocks with their links are groups for the blocks. -/
theorem grouped {o : RenderOptions} {d : Document} (htargets : ∀ href ∈ d.targets, '\n' ∉ href) :
    layout.Grouped o.width.toNat d.blocks (groups o d) where
  begins hb := ⟨_, List.mem_map_of_mem hb⟩
  line {g l} hg hl := by
    obtain ⟨b, hb, rfl⟩ := List.mem_map.mp hg
    rcases List.mem_append.mp hl with hl | hl
    · exact .inl ⟨b, hb, hl⟩
    · have hline : ∀ n ∈ layout.blockNotes b, '\n' ∉ n.1 :=
        fun n hn => htargets n.1 (mem_targets_of_mem_blockNotes hb hn)
      exact .inr ⟨notMem_newline_after hline l hl, content_after _ l hl⟩

end Gemini

/-! ### Documents -/

namespace Layout.Grouped

variable {s : Layout} {width : Nat} {bs : List Block} {groups : List (List Line)}

/-- Every line is one line, and where it is blank it is empty. -/
theorem line_of_mem (G : s.Grouped width bs groups) (S : s.Shows)
    (hcode : Block.runCodeBlocks bs = []) :
    ∀ g ∈ groups, ∀ l ∈ g, '\n' ∉ l.text ∧ l.Settled := by
  intro g hg l hl
  rcases G.line hg hl with ⟨b, hb, hl⟩ | ⟨hline, hcontent⟩
  · have hplain := plain_of_mem_blocks S width bs hcode (s.block_mem_blocks hb width) hl
    exact ⟨hplain.one_line, hplain.settled⟩
  · exact ⟨hline, fun hblank => absurd hblank hcontent⟩

/-- **The output is tidy exactly if the groups are well spaced.** -/
theorem tidy_iff (G : s.Grouped width bs groups) (S : s.Shows)
    (hcode : Block.runCodeBlocks bs = []) (hlines : Block.anyHasLines bs = true) :
    Tidy (Text.lines (Text.unlines ((stackBlocks groups).map Line.text))) ↔
      WellSpaced groups := by
  obtain ⟨b, hb, hhas⟩ := Block.exists_hasLines hlines
  obtain ⟨after, hgroup⟩ := G.begins hb
  have hne := List.append_ne_nil_of_left_ne_nil (s.block_ne_nil width hhas) after
  exact tidy_output_iff ⟨_, hgroup, hne⟩ (G.line_of_mem S hcode)

/-- **Filled leaves make well spaced groups.** -/
theorem wellSpaced_of_filled (G : s.Grouped width bs groups) (S : s.Shows)
    (hcode : Block.runCodeBlocks bs = []) (hfilled : ∀ l ∈ s.runLeaves bs, l.Filled width) :
    WellSpaced groups := by
  refine wellSpaced_of_forall fun g hg l hl => ?_
  rcases G.line hg hl with ⟨b, hb, hl⟩ | ⟨-, hcontent⟩
  · exact content_of_mem_blocks S width bs hcode hfilled (s.block_mem_blocks hb width) hl
  · exact hcontent

/-- **A bare leaf spoils the spacing**: its group begins with an empty line. -/
theorem not_wellSpaced_of_bare (G : s.Grouped width bs groups)
    (hbare : ∃ l ∈ s.runLeaves bs, l.Bare) : ¬ WellSpaced groups := by
  obtain ⟨l, hl, hpath, hmark, hblank⟩ := hbare
  obtain ⟨b, hb, rest, hrest⟩ := exists_block_of_blank hl hpath hmark hblank width
  obtain ⟨after, hgroup⟩ := G.begins hb
  rw [hrest] at hgroup
  exact not_wellSpaced_of_mem hgroup

end Layout.Grouped

/-- **Blocks stand one blank line apart.**  In the output for a document without code
blocks, if it has any lines, no two blank lines follow each other and none is the first
or the last one, exactly if the lines of the top-level blocks are well spaced.  They are
if every line of a heading or paragraph outside quotes shows something, and they are not
if one at the top level shows nothing at all.  That holds of Gopher text, unless it has a
rule that cannot be drawn, and of gemtext, where headings always show their mark. -/
theorem blocks_one_blank_line_apart {doc : Value} {o : RenderOptions} (ho : o.Valid)
    (hcheck : Structure.check maxDepth doc = .ok ()) (hstarts : doc.integerStarts = true) :
    ∃ d, Document.ofValue? doc = some d ∧
      (d.codeBlocks = [] → (∀ href ∈ d.targets, '\n' ∉ href) →
        Block.anyHasLines d.blocks = true →
        (∃ out,
          render doc (.string Target.gopher.name) (.record o.record) =
            (if Gopher.fits o d then .ok out else .error .tooLong) ∧
          (Tidy (Text.lines out) ↔ WellSpaced (Gopher.groups o d)) ∧
          ((∀ l ∈ Gopher.leaves o d, l.Filled o.width.toNat) → Tidy (Text.lines out)) ∧
          ((∃ l ∈ Gopher.leaves o d, l.Bare) → ¬ Tidy (Text.lines out))) ∧
        ∃ out,
          render doc (.string Target.gemini.name) (.record o.record) = .ok out ∧
          (Tidy (Text.lines out) ↔ WellSpaced (Gemini.groups o d)) ∧
          ((∀ l ∈ Gemini.leaves d, l.Filled o.width.toNat) → Tidy (Text.lines out)) ∧
          ((∃ l ∈ Gemini.leaves d, l.Bare) → ¬ Tidy (Text.lines out))) := by
  obtain ⟨d, hd, hheight⟩ := exists_document hcheck hstarts
  refine ⟨d, hd, fun hcode htargets hlines => ?_⟩
  constructor
  · have G := Gopher.grouped (o := o) htargets
    have S := Gopher.shows o (Gopher.refs o d)
    have htidy := G.tidy_iff S hcode hlines
    rw [← Gopher.documentLines_eq_stackBlocks] at htidy
    refine ⟨Text.unlines ((Gopher.documentLines o d).map Line.text), ?_, htidy,
      fun hfilled => ?_, fun hbare => ?_⟩
    · rw [render_record _ ho, (Gopher.render_eq ho hcheck hd hheight).1]
    · exact htidy.mpr (G.wellSpaced_of_filled S hcode hfilled)
    · exact mt htidy.mp (G.not_wellSpaced_of_bare hbare)
  · have G := Gemini.grouped (o := o) htargets
    have htidy := G.tidy_iff Gemini.shows hcode hlines
    refine ⟨Text.unlines ((Gemini.documentLines o d).map Line.text), ?_, htidy,
      fun hfilled => ?_, fun hbare => ?_⟩
    · rw [render_record _ ho, Gemini.render_eq ho hcheck hd hheight]
    · exact htidy.mpr (G.wellSpaced_of_filled Gemini.shows hcode hfilled)
    · exact mt htidy.mp (G.not_wellSpaced_of_bare hbare)

/-- Text with a no-break space in it, a quote and a heading without text, a list without
items, and an item around a link. -/
def Value.blankHeading : Value :=
  .document 0 (.tuple [.paragraph 1 (.tuple [.text 2 (.string "a\u00a0b c".toList)]),
    .blockquote 3 (.tuple [.paragraph 4 (.tuple [])]), .list 5 (.bool false) (.tuple []) .null,
    .heading 6 (.int 1) (.tuple []),
    .list 7 (.bool true) (.tuple [.tuple [], .tuple [.paragraph 8 (.tuple
      [.link 9 (.string ['u']) (.tuple [.code 10 (.string ['d'])])])]]) (.int 9)])

/-- The heading is blank in Gopher text and has its mark in gemtext. -/
theorem blocks_one_blank_line_apart_around_quote :
    (∃ out, render Value.blankHeading (.string Target.gopher.name)
        (.record (RenderOptions.record { width := 4 })) = .ok out ∧ ¬ Tidy (Text.lines out)) ∧
      ∃ out, render Value.blankHeading (.string Target.gemini.name)
        (.record (RenderOptions.record { width := 4 })) = .ok out ∧ Tidy (Text.lines out) := by
  obtain ⟨d, hd, htidy⟩ :=
    @blocks_one_blank_line_apart Value.blankHeading { width := 4 } (by decide) rfl rfl
  obtain rfl := Option.some.inj hd
  obtain ⟨⟨out, hout, -, -, hbare⟩, out', hout', -, hfilled, -⟩ := htidy rfl (by decide) rfl
  refine ⟨⟨out, hout, hbare ⟨⟨[], [], []⟩, ?_, rfl, rfl, rfl⟩⟩, out', hout', hfilled (by decide)⟩
  exact List.mem_cons_of_mem _ (List.mem_cons_of_mem _ List.mem_cons_self)

/-- A paragraph without text is written as an empty line behind an empty line. -/
theorem exists_two_blank_lines :
    ∃ doc : Value,
      Document.ofValue? doc =
        some ⟨[.paragraph [.text ['a']], .paragraph [], .paragraph [.text ['b']]]⟩ ∧
      Structure.check maxDepth doc = .ok () ∧ doc.integerStarts = true ∧
      render doc (.string Target.gopher.name) (.record (RenderOptions.record {})) =
        .ok "a\n\n\nb".toList ∧
      ¬ Tidy (Text.lines "a\n\n\nb".toList) := by
  refine ⟨.document 0 (.tuple [.paragraph 1 (.tuple [.text 2 (.string ['a'])]),
    .paragraph 3 (.tuple []), .paragraph 4 (.tuple [.text 5 (.string ['b'])])]),
    rfl, rfl, rfl, rfl, fun htidy => ?_⟩
  have hlines : Text.lines "a\n\n\nb".toList = ['a'] :: [] :: [] :: [['b']] := by decide
  have happart := htidy.apart
  rw [hlines] at happart
  exact happart.tail.rel ⟨rfl, rfl⟩

end SmallWeb
