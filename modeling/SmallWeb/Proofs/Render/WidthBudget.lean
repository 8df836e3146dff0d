/-
SmallWeb/Proofs/Render/WidthBudget.lean

The width budget of a render.

A container narrows the width for its blocks first and prepends its own prefix to
their lines afterwards.  That the two steps agree is an invariant of the noted
lines (`Layout.KeepsWidth`): a line is within the width that its block was given,
or it is the prefixes around the block and one word.  Going through a container,
the width grows by what the container takes and the line by no more than that
(`Layout.Budgeted.prepend`).

Nothing is said of blocks whose prefixes fill the width; they are given one
column, which is not there.

Main result: `render_keeps_width`.
-/
import SmallWeb.Proofs.Render.Gemini
import SmallWeb.Proofs.Render.Gopher
import SmallWeb.Proofs.Render.Provenance

namespace SmallWeb

namespace Layout

variable {s : Layout}

/-! ### Prefixes -/

/-- What a container may have before a line of prose. -/
def Lead (s : Layout) : Frame → List Char → Prop
  | .quote, lead => lead = quoteMark
  | .item marker, lead => lead = marker ∨ lead = s.continuation marker

/-- What several containers may have before a line of prose, the outermost
first. -/
inductive Leads (s : Layout) : List Frame → List Char → Prop
  | nil : Leads s [] []
  | cons {f : Frame} {path : List Frame} {lead leads : List Char} :
    s.Lead f lead → Leads s path leads → Leads s (f :: path) (lead ++ leads)

theorem Lead.length_le {f : Frame} {lead : List Char} (h : s.Lead f lead) :
    lead.length ≤ f.cost := by
  cases f with
  | quote =>
    obtain rfl : lead = quoteMark := h
    exact Nat.le_refl _
  | item marker =>
    rcases h with rfl | rfl
    · exact Nat.le_refl _
    · unfold continuation
      split
      · exact Nat.zero_le _
      · exact Nat.le_of_eq List.length_replicate

/-- What stands before each line of a block that is held to the width. -/
def blockMark (s : Layout) : Block → Option (List Char)
  | .heading level _ => some (s.headingMark level)
  | .paragraph _ => some []
  | .thematicBreak => some []
  | .list _ _ _ => none
  | .codeBlock _ _ => none
  | .blockquote _ => none

/-! ### The budget of a line -/

/-- A line of at most `width` characters, or one word behind the prefixes and the
mark of its block.  It is one line and has no blanks at its end. -/
structure Budgeted (s : Layout) (width : Nat) (path : List Frame) (mark t : List Char) : Prop where
  trimmed : Text.trimEnd t = t
  one_line : '\n' ∉ t
  bounded : t.length ≤ width ∨
    ∃ lead word, s.Leads path lead ∧ t = lead ++ mark ++ word ∧ IsWord word

/-- **A container keeps the budget.**  It gives back the width that it has taken
and prepends no more than that. -/
theorem Budgeted.prepend {width width' : Nat} {path : List Frame} {mark t lead : List Char}
    {f : Frame} (h : s.Budgeted width path mark t) (hlead : s.Lead f lead)
    (hline : '\n' ∉ lead) (hwidth : f.cost + width ≤ width') :
    s.Budgeted width' (f :: path) mark (Text.trimEnd (lead ++ t)) where
  trimmed := Text.trimEnd_trimEnd _
  one_line := Text.notMem_newline_trimEnd (Text.notMem_newline_append hline h.one_line)
  bounded := by
    rcases h.bounded with hle | ⟨leads, word, hleads, ht, hword⟩
    · left
      have htrim := Text.trimEnd_length_le (lead ++ t)
      have hcost := hlead.length_le
      rw [List.length_append] at htrim
      omega
    · right
      -- A line with a word in it is trimmed at its end only, and it has been.
      have hcontent : ¬ Text.isBlankText t = true := by
        have hblank := hword.1
        rw [ht, Text.isBlankText_append, Bool.and_eq_true]
        intro hall
        exact hblank hall.2
      refine ⟨lead ++ leads, word, .cons hlead hleads, ?_, hword⟩
      rw [Text.trimEnd_append_of_not_blank hcontent, h.trimmed, ht]
      simp only [List.append_assoc]

/-- A noted line keeps to a width: if its block is held to the width and the
prefixes leave room, it is within the budget. -/
def KeepsWidth (s : Layout) (width : Nat) (p : Placed) : Prop :=
  ∀ path b mark, p.origin = some (path, b) → s.blockMark b = some mark →
    pathCost path + mark.length < width → ∃ t, p.line = .prose t ∧ s.Budgeted width path mark t

theorem keepsWidth_of_origin_none {width : Nat} {p : Placed} (h : p.origin = none) :
    s.KeepsWidth width p := by
  intro path b mark horigin
  simp [h] at horigin

/-- The invariant goes through a container. -/
theorem KeepsWidth.within {width : Nat} {p : Placed} {f : Frame} {lead : List Char}
    {g : Line → Line} (h : s.KeepsWidth (innerRoom width f.cost) p) (hlead : s.Lead f lead)
    (hline : '\n' ∉ lead) (hg : ∀ t, g (.prose t) = .prose (Text.trimEnd (lead ++ t))) :
    s.KeepsWidth width (p.within f g) := by
  intro path b mark horigin hmark hcost
  obtain ⟨⟨path', b'⟩, hp, hpath⟩ := Option.map_eq_some_iff.mp horigin
  obtain ⟨rfl, rfl⟩ := Prod.mk.inj hpath
  rw [pathCost_cons] at hcost
  -- Since the prefixes leave room, the container has not been given a column that
  -- is not there, and its inner width is what it says.
  have hroom : innerRoom width f.cost = width - f.cost := by
    unfold innerRoom
    split <;> omega
  obtain ⟨t, ht, hbudget⟩ := h path' b' mark hp hmark (by omega)
  refine ⟨Text.trimEnd (lead ++ t), ?_, hbudget.prepend hlead hline (by omega)⟩
  show g p.line = _
  rw [ht, hg]

/-! ### Layouts that measure -/

/-- What the invariant needs of a layout: its own texts are lines, and a rule is
within its width or one word. -/
structure Measured (s : Layout) : Prop where
  headingMark_line (level : Int) : '\n' ∉ s.headingMark level
  bullet_line : '\n' ∉ s.bullet
  rule_budget {width : Nat} : 0 < width → s.Budgeted width [] [] (s.rule width)

theorem notMem_newline_continuation (marker : List Char) : '\n' ∉ s.continuation marker := by
  unfold continuation
  split
  · exact List.not_mem_nil
  · exact Text.notMem_newline_replicate (by decide)

/-- A line of running text behind a mark. -/
theorem budgeted_of_mem_wrapLine {width : Nat} {mark text l t : List Char}
    (hmark : '\n' ∉ mark) (hroom : mark.length < width) (hl : l ∈ Text.lines text)
    (ht : t ∈ wrapLine width mark mark l) : s.Budgeted width [] mark t := by
  refine ⟨trimEnd_of_mem_wrapLine ht, fun hn => ?_, ?_⟩
  · rcases mem_of_mem_wrapLine ht hn with hn | hn | hn
    · exact hmark hn
    · exact Text.notMem_of_mem_lines hl hn
    · exact absurd hn (by decide)
  · rcases wrapLine_bounded hroom ht with hle | ⟨word, ht, hword⟩
    · exact .inl hle
    · exact .inr ⟨[], word, .nil, by rw [ht, List.nil_append], hword⟩

/-! ### The invariant -/

/-- Blocks that contain no other. -/
theorem own_keepsWidth (M : s.Measured) (width : Nat) (b : Block) {p : Placed}
    (hp : p ∈ s.own width b) : s.KeepsWidth width p := by
  obtain ⟨l, hl, rfl⟩ := List.mem_map.mp hp
  intro path c mark horigin hmark hcost
  obtain ⟨rfl, rfl⟩ : [] = path ∧ b = c := by simpa using horigin
  rw [pathCost_nil, Nat.zero_add] at hcost
  have hprose : ∀ text, '\n' ∉ mark → l ∈ proseBlock width mark text →
      ∃ t, l = .prose t ∧ s.Budgeted width [] mark t := by
    intro text hline hl
    obtain ⟨piece, hpiece, t, ht, rfl⟩ := exists_of_mem_proseBlock hl
    exact ⟨t, rfl, budgeted_of_mem_wrapLine hline hcost hpiece ht⟩
  cases b with
  | heading level inline =>
    obtain rfl : s.headingMark level = mark := Option.some.inj hmark
    exact hprose _ (M.headingMark_line level) hl
  | paragraph inline =>
    obtain rfl : [] = mark := Option.some.inj hmark
    exact hprose _ List.not_mem_nil hl
  | thematicBreak =>
    obtain rfl : [] = mark := Option.some.inj hmark
    obtain rfl : l = .prose (s.rule width) := List.mem_singleton.mp hl
    exact ⟨s.rule width, rfl, M.rule_budget hcost⟩
  | list ordered bss start => simp [blockMark] at hmark
  | codeBlock literal language => simp [blockMark] at hmark
  | blockquote children => simp [blockMark] at hmark

/-- The lines of an item keep to the width if the lines inside keep to the width
that the marker leaves. -/
theorem placedItem_keepsWidth {width : Nat} {marker : List Char} (hmarker : '\n' ∉ marker)
    {ps : List Placed} (h : ∀ p ∈ ps, s.KeepsWidth (innerRoom width marker.length) p) {p : Placed}
    (hp : p ∈ s.placedItem marker ps) : s.KeepsWidth width p := by
  have hblank : s.KeepsWidth (innerRoom width marker.length) Placed.blank :=
    keepsWidth_of_origin_none rfl
  have hopen : ∀ q ∈ s.openPlaced ps, s.KeepsWidth (innerRoom width marker.length) q := by
    intro q hq
    cases ps with
    | nil =>
      obtain rfl := List.mem_singleton.mp hq
      exact hblank
    | cons p' ps =>
      simp only [openPlaced] at hq
      split at hq
      · rcases List.mem_cons.mp hq with rfl | hq
        · exact hblank
        · exact h q hq
      · exact h q hq
  rw [placedItem] at hp
  rcases hps : s.openPlaced ps with - | ⟨first, rest⟩
  · rw [hps] at hp
    exact absurd hp List.not_mem_nil
  · rw [hps] at hp hopen
    -- Only the first line takes the marker; the others are indented.
    rcases List.mem_cons.mp hp with rfl | hp
    · have hlead : s.Lead (.item marker) marker := .inl rfl
      exact (hopen first List.mem_cons_self).within hlead hmarker fun _ => rfl
    · obtain ⟨q, hq, rfl⟩ := List.mem_map.mp hp
      have hlead : s.Lead (.item marker) (s.continuation marker) := .inr rfl
      exact (hopen q (List.mem_cons_of_mem first hq)).within hlead
        (notMem_newline_continuation marker) fun _ => rfl

theorem quoteLine_prose (s : Layout) (t : List Char) :
    s.quoteLine (.prose t) = .prose (Text.trimEnd (quoteMark ++ t)) := by
  unfold quoteLine
  rw [Line.isVerbatim, Bool.and_false, if_neg (by simp)]
  rfl

mutual

/-- **Every line of a block keeps to the width.** -/
theorem placed_keepsWidth (M : s.Measured) (width : Nat) (b : Block) {p : Placed}
    (hp : p ∈ s.placed width b) : s.KeepsWidth width p := by
  cases b with
  | list ordered bss start =>
    obtain ⟨ps, hps, hp⟩ := List.mem_flatten.mp hp
    exact placedItems_keepsWidth M width ordered start 0 bss hps hp
  | blockquote children =>
    obtain ⟨q, hq, rfl⟩ := List.mem_map.mp hp
    have hinside : s.KeepsWidth (innerRoom width (Frame.cost .quote)) q := by
      rcases Placed.mem_stack hq with ⟨ps, hps, hq⟩ | rfl
      · exact placedBlocks_keepsWidth M _ children hps hq
      · exact keepsWidth_of_origin_none rfl
    have hlead : s.Lead .quote quoteMark := rfl
    exact hinside.within hlead (by decide) s.quoteLine_prose
  | heading level inline => exact own_keepsWidth M width _ hp
  | paragraph inline => exact own_keepsWidth M width _ hp
  | codeBlock literal language => exact own_keepsWidth M width _ hp
  | thematicBreak => exact own_keepsWidth M width _ hp

theorem placedBlocks_keepsWidth (M : s.Measured) (width : Nat) (bs : List Block)
    {ps : List Placed} (hps : ps ∈ s.placedBlocks width bs) {p : Placed} (hp : p ∈ ps) :
    s.KeepsWidth width p := by
  cases bs with
  | nil => exact absurd hps List.not_mem_nil
  | cons b bs =>
    rcases List.mem_cons.mp hps with rfl | hps
    · exact placed_keepsWidth M width b hp
    · exact placedBlocks_keepsWidth M width bs hps hp

theorem placedItems_keepsWidth (M : s.Measured) (width : Nat) (ordered : Bool) (start : Int)
    (index : Nat) (bss : List (List Block)) {ps : List Placed}
    (hps : ps ∈ s.placedItems width ordered start index bss) {p : Placed} (hp : p ∈ ps) :
    s.KeepsWidth width p := by
  cases bss with
  | nil => exact absurd hps List.not_mem_nil
  | cons bs bss =>
    rcases List.mem_cons.mp hps with rfl | hps
    · refine placedItem_keepsWidth (s.notMem_newline_marker M.bullet_line ordered start index) ?_ hp
      intro q hq
      obtain ⟨qs, hqs, hq⟩ := List.mem_flatten.mp hq
      exact placedBlocks_keepsWidth M _ bs hqs hq
    · exact placedItems_keepsWidth M width ordered start (index + 1) bss hps hp

end

/-- **Every line of a document keeps to the width.** -/
theorem placedDocument_keepsWidth (M : s.Measured) (width : Nat) (d : Document) {p : Placed}
    (hp : p ∈ s.placedDocument width d) : s.KeepsWidth width p := by
  -- Lines that separate blocks or tell of links come from no block.
  rcases Placed.mem_stack hp with ⟨ps, hps, hp⟩ | rfl
  · obtain ⟨b, -, rfl⟩ := List.mem_map.mp hps
    rcases List.mem_append.mp hp with hp | hp
    · exact placed_keepsWidth M width b hp
    · obtain ⟨l, -, rfl⟩ := List.mem_map.mp hp
      exact keepsWidth_of_origin_none rfl
  · exact keepsWidth_of_origin_none rfl

end Layout

/-! ### The two formats -/

/-- A rule of Gopher text is as wide as there is room. -/
theorem Gopher.measured (o : RenderOptions) (refs : List (List Char)) :
    (Gopher.layout o refs).Measured where
  headingMark_line _ := List.not_mem_nil
  bullet_line := by
    show '\n' ∉ Gopher.bullet
    decide
  rule_budget {width} hwidth := by
    have hlength : Gopher.ruleLength width = width := if_neg (by omega)
    have hrule : (Gopher.layout o refs).rule width = List.replicate width '-' :=
      congrArg (List.replicate · '-') hlength
    have hmem : ∀ c ∈ List.replicate width '-', c = '-' := fun c => List.eq_of_mem_replicate
    rw [hrule]
    refine ⟨Text.trimEnd_eq_self fun c hc => ?_, ?_, .inl ?_⟩
    · rw [hmem c hc]
      decide
    · exact Text.notMem_newline_replicate (by decide)
    · exact Nat.le_of_eq List.length_replicate

theorem Gemini.notMem_newline_headingMark (level : Int) : '\n' ∉ Gemini.headingMark level := by
  have hspace : '\n' ∉ [' '] := by decide
  exact Text.notMem_newline_append (Text.notMem_newline_replicate (by decide)) hspace

/-- A rule of gemtext is a word. -/
theorem Gemini.measured : Gemini.layout.Measured where
  headingMark_line := Gemini.notMem_newline_headingMark
  bullet_line := by decide
  rule_budget _ := by
    have htrim : Text.trimEnd ['-', '-', '-'] = ['-', '-', '-'] := by decide
    have hline : '\n' ∉ ['-', '-', '-'] := by decide
    have hword : IsWord ['-', '-', '-'] := by
      refine ⟨by decide, fun c hc => ?_⟩
      obtain rfl : c = '-' := by simpa using hc
      decide
    exact ⟨htrim, hline, .inr ⟨[], _, .nil, rfl, hword⟩⟩

/-- The noted lines of a Gopher text, less the list of links. -/
def Gopher.placedLines (o : RenderOptions) (d : Document) : List Placed :=
  (Gopher.layout o (Gopher.refs o d)).placedDocument o.width.toNat d

/-- The noted lines of a gemtext. -/
def Gemini.placedLines (o : RenderOptions) (d : Document) : List Placed :=
  Gemini.layout.placedDocument o.width.toNat d

/-- **The width budget of a render.**  The output for either format consists of
the noted lines, behind which Gopher text has the list of links, and every noted
line keeps to the width. -/
theorem render_keeps_width {doc : Value} {o : RenderOptions} (ho : o.Valid)
    (hcheck : Structure.check maxDepth doc = .ok ()) (hstarts : doc.integerStarts = true) :
    ∃ d, Document.ofValue? doc = some d ∧
      (render doc (.string Target.gopher.name) (.record o.record) =
          (if Gopher.fits o d then .ok (Text.unlines
            (((Gopher.placedLines o d).map Placed.line ++ Gopher.linkSection o d).map Line.text))
          else .error .tooLong) ∧
        ∀ p ∈ Gopher.placedLines o d,
          (Gopher.layout o (Gopher.refs o d)).KeepsWidth o.width.toNat p) ∧
      render doc (.string Target.gemini.name) (.record o.record) =
          .ok (Text.unlines (((Gemini.placedLines o d).map Placed.line).map Line.text)) ∧
        ∀ p ∈ Gemini.placedLines o d, Gemini.layout.KeepsWidth o.width.toNat p := by
  obtain ⟨d, hd, hheight⟩ := exists_document hcheck hstarts
  refine ⟨d, hd, ⟨?_, fun p hp => ?_⟩, ?_, fun p hp => ?_⟩
  · rw [render_record _ ho, (Gopher.render_eq ho hcheck hd hheight).1, Gopher.documentLines_eq,
      Gopher.placedLines, Layout.placedDocument_line]
    rfl
  · exact Layout.placedDocument_keepsWidth (Gopher.measured o _) _ d hp
  · rw [render_record _ ho, Gemini.render_eq ho hcheck hd hheight, Gemini.placedLines,
      Layout.placedDocument_line]
    rfl
  · exact Layout.placedDocument_keepsWidth Gemini.measured _ d hp

/-- A quoted heading with a word that is longer than most widths. -/
def Value.quotedHeading : Value :=
  .document 0 (.tuple [.blockquote 1 (.tuple [.heading 2 (.int 1)
    (.tuple [.text 3 (.string "an uncommonly long word".toList)])])])

theorem render_keeps_width_of_quoted_heading :
    ∃ d, Document.ofValue? Value.quotedHeading = some d ∧
      (∀ p ∈ Gopher.placedLines { width := 6 } d,
        (Gopher.layout { width := 6 } (Gopher.refs { width := 6 } d)).KeepsWidth 6 p) ∧
      ∀ p ∈ Gemini.placedLines { width := 6 } d, Gemini.layout.KeepsWidth 6 p := by
  obtain ⟨d, hd, hgopher, -, hgemini⟩ :=
    @render_keeps_width Value.quotedHeading { width := 6 } (by decide) rfl rfl
  obtain ⟨-, hgopher⟩ := hgopher
  exact ⟨d, hd, hgopher, hgemini⟩

end SmallWeb
