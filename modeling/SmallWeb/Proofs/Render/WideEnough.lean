/-
SmallWeb/Proofs/Render/WideEnough.lean

A width that is wide enough is no width.

A line that fits behind its prefix is written as without a limit, provided that all
breaks in it are spaces (`wrapLine_of_fits`).

A width is wide enough for a leaf if each line of its text fits beside the containers and
the mark (`Leaf.Roomy`).  Going into a container the room becomes smaller by what the
container takes, and the leaf has one container less, so the lines of every block are the
same by induction.

A heading of gemtext is one line, whatever line feeds are in its text, so it is that line
which has to fit.

Main result: `wide_render_is_unlimited`.
-/
import SmallWeb.Proofs.Document.Everywhere
import SmallWeb.Proofs.Render.Characters
import SmallWeb.Proofs.Render.Leaves
import SmallWeb.Proofs.Wrap.Fitting

namespace SmallWeb

/-! ### Leaves that fit -/

/-- A character that is a space or a line feed if it is a break. -/
def PlainBreak (c : Char) : Prop := Text.isBreak c = true → c = ' ' ∨ c = '\n'

/-- The breaks besides space and line feed. -/
def otherBreaks : List Char := ['\t', '\u000b', '\u000c', '\r']

theorem plainBreak_of_notMem {c : Char} (h : c ∉ otherBreaks) : PlainBreak c := by
  intro hbreak
  simp only [Text.isBreak, Bool.or_eq_true, Bool.and_eq_true, decide_eq_true_eq] at hbreak
  rcases hbreak with hspace | hrange
  · exact .inl hspace
  · have hmem : c ∈ '\n' :: otherBreaks := by
      rw [← c.ofNat_toNat]
      obtain hn | hn | hn | hn | hn : c.toNat = 9 ∨ c.toNat = 10 ∨ c.toNat = 11 ∨
          c.toNat = 12 ∨ c.toNat = 13 := by omega
      all_goals
        rw [hn]
        decide
    exact .inr ((List.mem_cons.mp hmem).resolve_right h)

/-- A width has room for each line of a leaf beside what stands before it. -/
def Leaf.Roomy (width : Nat) (l : Leaf) : Prop :=
  l.taken < width ∧ ∀ t ∈ Text.lines l.text, l.taken + t.length ≤ width

instance (width : Nat) (l : Leaf) : Decidable (l.Roomy width) :=
  inferInstanceAs (Decidable (_ ∧ _))

/-- **Going into a container** the room shrinks with what is taken. -/
theorem Leaf.Roomy.of_within {width : Nat} {f : Frame} {l : Leaf}
    (h : (l.within f).Roomy width) : l.Roomy (innerRoom width f.cost) := by
  obtain ⟨htaken, hlines⟩ := h
  rw [Leaf.taken_within] at htaken
  rw [innerRoom_cost htaken]
  refine ⟨by omega, fun t ht => ?_⟩
  have hline := hlines t ht
  rw [Leaf.taken_within] at hline
  omega

/-- Running text that fits is written as without a limit. -/
theorem proseBlock_of_roomy {width : Nat} {mark text : List Char}
    (hroom : (Leaf.mk [] mark text).Roomy width) (hbreak : ∀ c ∈ text, PlainBreak c) :
    proseBlock width mark text = proseBlock 0 mark text := by
  obtain ⟨hmark, hlines⟩ := hroom
  simp only [Leaf.taken, pathCost_nil, Nat.zero_add] at hmark hlines
  unfold proseBlock
  refine congrArg (List.map Line.prose) (List.flatMap_congr fun t ht => ?_)
  refine wrapLine_of_fits hmark (hlines t ht) fun c hc hc' => ?_
  refine (hbreak c (Text.mem_of_mem_lines ht hc) hc').resolve_right ?_
  rintro rfl
  exact Text.notMem_of_mem_lines ht hc

/-! ### Blocks that fit -/

/-- Whether a block is no thematic break. -/
def Block.isNoRule : Block → Bool
  | .thematicBreak => false
  | _ => true

namespace Layout

variable {s : Layout}

/-- The rules of a layout do not depend on the width. -/
def SteadyRules (s : Layout) : Prop := ∀ width, s.rule width = s.rule 0

theorem roomy_of_map_within {width : Nat} {f : Frame} {ls : List Leaf}
    (h : ∀ l ∈ ls.map (Leaf.within f), l.Roomy width) :
    ∀ l ∈ ls, l.Roomy (innerRoom width f.cost) :=
  fun _ hl => (h _ (List.mem_map_of_mem hl)).of_within

mutual

/-- **A block whose leaves fit** is written as without a limit. -/
theorem block_of_roomy (K : s.CharsKept PlainBreak) (width : Nat) (b : Block)
    (hrules : s.SteadyRules ∨ b.everywhere Block.isNoRule = true)
    (hstrings : ∀ t ∈ b.strings, ∀ c ∈ t, PlainBreak c)
    (hroom : ∀ l ∈ s.leaves b, l.Roomy width) : s.block width b = s.block 0 b := by
  cases b with
  | heading level inline =>
    exact proseBlock_of_roomy (hroom _ List.mem_cons_self)
      (K.headingText (K.forall_mem_run inline hstrings))
  | paragraph inline =>
    exact proseBlock_of_roomy (hroom _ List.mem_cons_self) (K.forall_mem_run inline hstrings)
  | list ordered bss start =>
    have hitems : s.SteadyRules ∨ Block.itemsEverywhere Block.isNoRule bss = true :=
      hrules.imp_right Block.itemsEverywhere_of_list
    rw [Layout.block, Layout.block,
      items_of_roomy K width ordered start 0 bss hitems hstrings hroom]
  | codeBlock literal language => rfl
  | blockquote children =>
    have hchildren : s.SteadyRules ∨ Block.runEverywhere Block.isNoRule children = true :=
      hrules.imp_right Block.runEverywhere_of_blockquote
    have hquote : s.blocks (innerRoom width quoteMark.length) children = s.blocks 0 children :=
      blocks_of_roomy K _ children hchildren hstrings (roomy_of_map_within hroom)
    rw [Layout.block, Layout.block, hquote]
    rfl
  | thematicBreak =>
    rcases hrules with hsteady | hnone
    · rw [Layout.block, Layout.block, hsteady]
    · exact absurd hnone (by decide)

theorem blocks_of_roomy (K : s.CharsKept PlainBreak) (width : Nat) (bs : List Block)
    (hrules : s.SteadyRules ∨ Block.runEverywhere Block.isNoRule bs = true)
    (hstrings : ∀ t ∈ Block.runStrings bs, ∀ c ∈ t, PlainBreak c)
    (hroom : ∀ l ∈ s.runLeaves bs, l.Roomy width) : s.blocks width bs = s.blocks 0 bs := by
  cases bs with
  | nil => rfl
  | cons b bs =>
    obtain ⟨hfirst, hrest⟩ := List.forall_mem_append.mp hstrings
    obtain ⟨hroomy, hroom⟩ := List.forall_mem_append.mp hroom
    have hb := hrules.imp_right fun h => (Bool.and_eq_true_iff.mp h).1
    have hbs := hrules.imp_right fun h => (Bool.and_eq_true_iff.mp h).2
    rw [Layout.blocks, Layout.blocks, block_of_roomy K width b hb hfirst hroomy,
      blocks_of_roomy K width bs hbs hrest hroom]

theorem items_of_roomy (K : s.CharsKept PlainBreak) (width : Nat) (ordered : Bool) (start : Int)
    (index : Nat) (bss : List (List Block))
    (hrules : s.SteadyRules ∨ Block.itemsEverywhere Block.isNoRule bss = true)
    (hstrings : ∀ t ∈ Block.itemsStrings bss, ∀ c ∈ t, PlainBreak c)
    (hroom : ∀ l ∈ s.itemsLeaves ordered start index bss, l.Roomy width) :
    s.items width ordered start index bss = s.items 0 ordered start index bss := by
  cases bss with
  | nil => rfl
  | cons bs bss =>
    obtain ⟨hfirst, hrest⟩ := List.forall_mem_append.mp hstrings
    obtain ⟨hroomy, hroom⟩ := List.forall_mem_append.mp hroom
    have hbs := hrules.imp_right fun h => (Bool.and_eq_true_iff.mp h).1
    have hbss := hrules.imp_right fun h => (Bool.and_eq_true_iff.mp h).2
    have hitem := blocks_of_roomy K _ bs hbs hfirst (roomy_of_map_within hroomy)
    simp only [Layout.items]
    rw [items_of_roomy K width ordered start (index + 1) bss hbss hrest hroom]
    exact congrArg (fun lines => s.itemLines _ lines.flatten :: _) hitem

end

/-- **A document whose leaves fit** is written as without a limit. -/
theorem document_of_roomy (K : s.CharsKept PlainBreak) {width : Nat} {d : Document}
    (hrules : s.SteadyRules ∨ Block.runEverywhere Block.isNoRule d.blocks = true)
    (hstrings : ∀ t ∈ d.strings, ∀ c ∈ t, PlainBreak c)
    (hroom : ∀ l ∈ s.runLeaves d.blocks, l.Roomy width) :
    s.document width d = s.document 0 d := by
  have hblocks := blocks_of_roomy K width d.blocks hrules hstrings hroom
  rw [s.blocks_eq_map, s.blocks_eq_map, List.map_inj_left] at hblocks
  unfold document
  refine congrArg stackBlocks (List.map_congr_left fun b hb => ?_)
  rw [hblocks b hb]

mutual

/-- Without rules there is nothing that could not be drawn. -/
theorem fits_of_noRule (width : Nat) (b : Block) (h : b.everywhere Block.isNoRule = true) :
    s.fits width b = true := by
  cases b with
  | list ordered bss start =>
    exact itemsFit_of_noRule width ordered start 0 bss (Block.itemsEverywhere_of_list h)
  | blockquote children =>
    exact blocksFit_of_noRule _ children (Block.runEverywhere_of_blockquote h)
  | thematicBreak => exact absurd h (by decide)
  | _ => rfl

theorem blocksFit_of_noRule (width : Nat) (bs : List Block)
    (h : Block.runEverywhere Block.isNoRule bs = true) : s.blocksFit width bs = true := by
  cases bs with
  | nil => rfl
  | cons b bs =>
    obtain ⟨hb, hbs⟩ := Bool.and_eq_true_iff.mp h
    rw [Layout.blocksFit, fits_of_noRule width b hb, blocksFit_of_noRule width bs hbs]
    rfl

theorem itemsFit_of_noRule (width : Nat) (ordered : Bool) (start : Int) (index : Nat)
    (bss : List (List Block)) (h : Block.itemsEverywhere Block.isNoRule bss = true) :
    s.itemsFit width ordered start index bss = true := by
  cases bss with
  | nil => rfl
  | cons bs bss =>
    obtain ⟨hbs, hbss⟩ := Bool.and_eq_true_iff.mp h
    rw [Layout.itemsFit, blocksFit_of_noRule _ bs hbs,
      itemsFit_of_noRule width ordered start (index + 1) bss hbss]
    rfl

end

end Layout

/-! ### The two formats -/

theorem plainBreak_of_not_blank {c : Char} (h : ¬ Text.isBlank c = true) : PlainBreak c :=
  fun hbreak => absurd (isBlank_of_isBreak hbreak) h

/-- **Wide enough is unlimited.**  A document in whose running text all breaks are spaces
and line feeds is rendered at a width as without one, if the width has room for every
line of every heading and paragraph beside what stands before it.  That holds of gemtext,
where a heading is a single line with a space for each line feed, and of Gopher text
without rules, which are as long as the width. -/
theorem wide_render_is_unlimited {doc : Value} {o : RenderOptions} (ho : o.Valid)
    (hcheck : Structure.check maxDepth doc = .ok ()) (hstarts : doc.integerStarts = true) :
    ∃ d, Document.ofValue? doc = some d ∧
      ((∀ t ∈ d.strings, ∀ c ∈ otherBreaks, c ∉ t) →
        (Block.runEverywhere Block.isNoRule d.blocks = true →
          (∀ l ∈ Gopher.leaves o d, l.Roomy o.width.toNat) →
          ∃ out, render doc (.string Target.gopher.name) (.record o.record) = .ok out ∧
            render doc (.string Target.gopher.name)
              (.record (RenderOptions.record { o with width := 0 })) = .ok out) ∧
        ((∀ l ∈ Gemini.leaves d, l.Roomy o.width.toNat) →
          ∃ out, render doc (.string Target.gemini.name) (.record o.record) = .ok out ∧
            render doc (.string Target.gemini.name)
              (.record (RenderOptions.record { o with width := 0 })) = .ok out)) := by
  obtain ⟨d, hd, hheight⟩ := exists_document hcheck hstarts
  have hunlimited : RenderOptions.Valid { o with width := 0 } := Int.le_refl 0
  refine ⟨d, hd, fun hbreaks => ?_⟩
  have hstrings : ∀ t ∈ d.strings, ∀ c ∈ t, PlainBreak c := fun t ht c hc =>
    plainBreak_of_notMem fun hother => hbreaks t ht c hother hc
  have hnewline : PlainBreak '\n' := fun _ => .inr rfl
  have hspace : PlainBreak ' ' := fun _ => .inl rfl
  constructor
  · intro hrules hroom
    have hkept := Gopher.charsKept o (Gopher.refs o d) hnewline hspace
      fun c => plainBreak_of_not_blank
    have hbody : Gopher.body o d = Gopher.body { o with width := 0 } d :=
      Layout.document_of_roomy hkept (.inr hrules) hstrings hroom
    have hlines : Gopher.documentLines { o with width := 0 } d = Gopher.documentLines o d :=
      congrArg (Gopher.finish { registry := Gopher.registry o d }) hbody.symm
    have hfits : ∀ o' : RenderOptions, Gopher.fits o' d = true :=
      fun o' => Layout.blocksFit_of_noRule _ d.blocks hrules
    refine ⟨Text.unlines ((Gopher.documentLines o d).map Line.text), ?_, ?_⟩
    · rw [render_record _ ho, (Gopher.render_eq ho hcheck hd hheight).1, if_pos (hfits o)]
    · rw [render_record _ hunlimited, (Gopher.render_eq hunlimited hcheck hd hheight).1,
        if_pos (hfits _), hlines]
  · intro hroom
    have hkept := Gemini.charsKept hnewline hspace
    have hsteady : Gemini.layout.SteadyRules := fun _ => rfl
    have hlines : Gemini.documentLines o d = Gemini.documentLines { o with width := 0 } d :=
      Layout.document_of_roomy hkept (.inl hsteady) hstrings hroom
    refine ⟨Text.unlines ((Gemini.documentLines o d).map Line.text), ?_, ?_⟩
    · rw [render_record _ ho, Gemini.render_eq ho hcheck hd hheight]
    · rw [render_record _ hunlimited, Gemini.render_eq hunlimited hcheck hd hheight, ← hlines]

/-- A heading, and a quoted item with blanks of several kinds and a line break. -/
def Value.headingAndQuotedItem : Value :=
  .document 0 (.tuple [.heading 1 (.int 2) (.tuple [.text 2 (.string ['a', ' ', 'b'])]),
    .blockquote 3 (.tuple [.list 4 (.bool false) (.tuple [.tuple
      [.paragraph 5 (.tuple [.text 6 (.string ['\u00a0', ' ']), .lineBreak 7])]]) .null])])

/-- The width is just enough for the item, and for the heading with its mark. -/
theorem wide_render_is_unlimited_of_quoted_item :
    (∃ out, render Value.headingAndQuotedItem (.string Target.gopher.name)
          (.record (RenderOptions.record { width := 6 })) = .ok out ∧
        render Value.headingAndQuotedItem (.string Target.gopher.name)
          (.record (RenderOptions.record { width := 0 })) = .ok out) ∧
      ∃ out, render Value.headingAndQuotedItem (.string Target.gemini.name)
          (.record (RenderOptions.record { width := 6 })) = .ok out ∧
        render Value.headingAndQuotedItem (.string Target.gemini.name)
          (.record (RenderOptions.record { width := 0 })) = .ok out := by
  obtain ⟨d, hd, hwide⟩ :=
    @wide_render_is_unlimited Value.headingAndQuotedItem { width := 6 } (by decide) rfl rfl
  obtain rfl := Option.some.inj hd
  have hbreaks : ∀ t ∈ [['a', ' ', 'b'], ['\u00a0', ' ']], ∀ c ∈ otherBreaks, c ∉ t := by
    simp [otherBreaks]
  exact ⟨(hwide hbreaks).1 (by decide) (by decide), (hwide hbreaks).2 (by decide)⟩

/-- A heading of gemtext is one line: where each line of its text would fit beside the
marker, it may be too long still. -/
theorem exists_heading_not_unlimited :
    ∃ (inline : List Inline) (doc : Value),
      Document.ofValue? doc = some ⟨[.heading 1 inline]⟩ ∧
      Structure.check maxDepth doc = .ok () ∧ doc.integerStarts = true ∧
      (∀ t ∈ Inline.runStrings inline, ∀ c ∈ otherBreaks, c ∉ t) ∧
      (Gemini.headingMark 1).length < 5 ∧
      (∀ t ∈ Text.lines (Gemini.layout.run inline), (Gemini.headingMark 1).length + t.length ≤ 5) ∧
      render doc (.string Target.gemini.name) (.record (RenderOptions.record { width := 5 })) =
        .ok "# aaa\n# bbb".toList ∧
      render doc (.string Target.gemini.name) (.record (RenderOptions.record { width := 0 })) =
        .ok "# aaa bbb".toList := by
  have ho : RenderOptions.Valid { width := 5 } := by decide
  refine ⟨[.text "aaa".toList, .lineBreak, .text "bbb".toList],
    .document 0 (.tuple [.heading 1 (.int 1) (.tuple [.text 2 (.string "aaa".toList),
      .lineBreak 3, .text 4 (.string "bbb".toList)])]),
    rfl, rfl, rfl, ?_, by decide, by decide, ?_, rfl⟩
  · simp [Inline.runStrings, Inline.strings, otherBreaks]
  · rw [render_record _ ho, Gemini.render_eq ho rfl rfl (by decide)]
    exact congrArg Except.ok (by decide +kernel)

end SmallWeb
