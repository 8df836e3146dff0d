/-
SmallWeb/Proofs/Render/Emphasis.lean

Emphasis does not show.

No target has a way to show emphasis, so a document and the same document without it
come out alike, with the same links, the same numbers and the same lines for them.  It
makes no difference either how the texts that meet by this are put together.

Running text is where the two documents differ.  A layout writes a run node after node
and emphasis as its children, so each step of `Inline.Plainer` leaves the text and the
links of a run as they are, and all runs of a block being alike the block is.  Then it
is the closed forms of the renders that are compared, and the walks, which note links
and count depth on their way, do not have to be looked at again.

The extractor has to be looked at once: it may refuse a run that lies too deep.  It
refuses less in a plainer document, since nothing comes to lie deeper there.

Main result: `emphasis_is_invisible`.
-/
import SmallWeb.Proofs.Document.Erasure
import SmallWeb.Proofs.Render.LinkPolicy
import SmallWeb.Proofs.Render.PlainText

namespace SmallWeb

/-! ### Running text -/

namespace Layout

variable (s : Layout)

theorem run_append (is js : List Inline) : s.run (is ++ js) = s.run is ++ s.run js := by
  induction is with
  | nil => rfl
  | cons i is ih => rw [List.cons_append, Layout.run, ih, Layout.run, List.append_assoc]

theorem runNotes_append (is js : List Inline) :
    s.runNotes (is ++ js) = s.runNotes is ++ s.runNotes js := by
  induction is with
  | nil => rfl
  | cons i is ih => rw [List.cons_append, Layout.runNotes, ih, Layout.runNotes, List.append_assoc]

end Layout

namespace Inline.Plainer

variable {is js : List Inline}

/-- **A plainer run has the same text.** -/
theorem run_eq (h : Plainer is js) (s : Layout) : s.run is = s.run js := by
  induction h with
  | refl is => rfl
  | trans _ _ ihij ihjk => exact ihij.trans ihjk
  | cons i _ ih => rw [Layout.run, Layout.run, ih]
  | link href is _ ih => rw [Layout.run, Layout.run, Layout.text, Layout.text, ih]
  | emphasis children is => rw [Layout.run, Layout.text, Layout.run_append]
  | strong children is => rw [Layout.run, Layout.text, Layout.run_append]
  | texts t u is =>
    simp only [Layout.run, Layout.text]
    rw [List.append_assoc]

/-- **A plainer run has the same links**, each with the same text. -/
theorem runNotes_eq (h : Plainer is js) (s : Layout) : s.runNotes is = s.runNotes js := by
  induction h with
  | refl is => rfl
  | trans _ _ ihij ihjk => exact ihij.trans ihjk
  | cons i _ ih => rw [Layout.runNotes, Layout.runNotes, ih]
  | link href is hchildren ih =>
    rw [Layout.runNotes, Layout.runNotes, Layout.notes, Layout.notes, ih, hchildren.run_eq s]
  | emphasis children is => rw [Layout.runNotes, Layout.notes, Layout.runNotes_append]
  | strong children is => rw [Layout.runNotes, Layout.notes, Layout.runNotes_append]
  | texts t u is => rfl

end Inline.Plainer

/-- A layout that shows running text as the extractor does. -/
def plainLayout (hrefs : Bool) : Layout where
  __ := Gemini.layout
  link href text :=
    if hrefs then (if text.isEmpty then href else text ++ [' ', '('] ++ href ++ [')']) else text

theorem plainLayout_showsPlain (hrefs : Bool) : (plainLayout hrefs).ShowsPlain hrefs where
  codeSpan _ := rfl
  link _ _ := rfl

theorem Inline.Plainer.runPlain_eq {is js : List Inline} (h : Inline.Plainer is js)
    (hrefs : Bool) : Inline.runPlain hrefs is = Inline.runPlain hrefs js := by
  have hrun := h.run_eq (plainLayout hrefs)
  rwa [Layout.run_eq_plain (plainLayout_showsPlain hrefs),
    Layout.run_eq_plain (plainLayout_showsPlain hrefs)] at hrun

/-! ### Blocks -/

mutual

/-- **A layout shows plainer blocks alike**: the lines are the same and so are the links,
and the rules can be drawn in both or in neither. -/
theorem Block.Plainer.shown_eq {b b' : Block} (h : b.Plainer b') (s : Layout) (width : Nat) :
    s.block width b = s.block width b' ∧ s.blockNotes b = s.blockNotes b' ∧
      s.fits width b = s.fits width b' := by
  cases b with
  | heading level inline =>
    cases h with
    | heading hrun =>
      refine ⟨?_, hrun.runNotes_eq s, rfl⟩
      rw [Layout.block, Layout.block, hrun.run_eq s]
  | paragraph inline =>
    cases h with
    | paragraph hrun =>
      refine ⟨?_, hrun.runNotes_eq s, rfl⟩
      rw [Layout.block, Layout.block, hrun.run_eq s]
  | list ordered bss start =>
    cases h with
    | list hbss =>
      obtain ⟨hlines, hnotes, hfits⟩ := Block.shownItems_eq hbss s width ordered start 0
      exact ⟨congrArg List.flatten hlines, hnotes, hfits⟩
  | codeBlock literal language =>
    cases h
    exact ⟨rfl, rfl, rfl⟩
  | blockquote children =>
    cases h with
    | blockquote hbs =>
      obtain ⟨hlines, hnotes, hfits⟩ := Block.shownRun_eq hbs s (innerRoom width quoteMark.length)
      refine ⟨?_, hnotes, hfits⟩
      rw [Layout.block, Layout.block, hlines]
  | thematicBreak =>
    cases h
    exact ⟨rfl, rfl, rfl⟩

theorem Block.shownRun_eq {bs bs' : List Block} (h : List.Forall₂ Block.Plainer bs bs')
    (s : Layout) (width : Nat) :
    s.blocks width bs = s.blocks width bs' ∧ s.blocksNotes bs = s.blocksNotes bs' ∧
      s.blocksFit width bs = s.blocksFit width bs' := by
  cases bs with
  | nil =>
    cases h
    exact ⟨rfl, rfl, rfl⟩
  | cons b bs =>
    obtain ⟨b', cs, hb, hbs, rfl⟩ := List.forall₂_cons_left_iff.mp h
    obtain ⟨hlines, hnotes, hfits⟩ := hb.shown_eq s width
    obtain ⟨hlines', hnotes', hfits'⟩ := Block.shownRun_eq hbs s width
    simp only [Layout.blocks, Layout.blocksNotes, Layout.blocksFit]
    rw [hlines, hlines', hnotes, hnotes', hfits, hfits']
    exact ⟨rfl, rfl, rfl⟩

theorem Block.shownItems_eq {bss bss' : List (List Block)}
    (h : List.Forall₂ (List.Forall₂ Block.Plainer) bss bss') (s : Layout) (width : Nat)
    (ordered : Bool) (start : Int) (index : Nat) :
    s.items width ordered start index bss = s.items width ordered start index bss' ∧
      s.itemsNotes bss = s.itemsNotes bss' ∧
      s.itemsFit width ordered start index bss = s.itemsFit width ordered start index bss' := by
  cases bss with
  | nil =>
    cases h
    exact ⟨rfl, rfl, rfl⟩
  | cons bs bss =>
    obtain ⟨bs', css, hbs, hbss, rfl⟩ := List.forall₂_cons_left_iff.mp h
    obtain ⟨hlines, hnotes, hfits⟩ := Block.shownRun_eq hbs s
      (innerRoom width (s.marker ordered start index).length)
    obtain ⟨hlines', hnotes', hfits'⟩ := Block.shownItems_eq hbss s width ordered start (index + 1)
    simp only [Layout.items, Layout.itemsNotes, Layout.itemsFit]
    rw [hlines, hlines', hnotes, hnotes', hfits, hfits']
    exact ⟨rfl, rfl, rfl⟩

end

mutual

/-- Plainer blocks have the same segments. -/
theorem Block.Plainer.segments_eq {b b' : Block} (h : b.Plainer b') (hrefs : Bool) :
    b.segments hrefs = b'.segments hrefs := by
  cases b with
  | heading level inline =>
    cases h with
    | heading hrun => rw [Block.segments, Block.segments, hrun.runPlain_eq hrefs]
  | paragraph inline =>
    cases h with
    | paragraph hrun => rw [Block.segments, Block.segments, hrun.runPlain_eq hrefs]
  | list ordered bss start =>
    cases h with
    | list hbss => exact Block.itemsSegments_of_plainer hbss hrefs
  | codeBlock literal language =>
    cases h
    rfl
  | blockquote children =>
    cases h with
    | blockquote hbs => exact Block.runSegments_of_plainer hbs hrefs
  | thematicBreak =>
    cases h
    rfl

theorem Block.runSegments_of_plainer {bs bs' : List Block}
    (h : List.Forall₂ Block.Plainer bs bs') (hrefs : Bool) :
    Block.runSegments hrefs bs = Block.runSegments hrefs bs' := by
  cases bs with
  | nil =>
    cases h
    rfl
  | cons b bs =>
    obtain ⟨b', cs, hb, hbs, rfl⟩ := List.forall₂_cons_left_iff.mp h
    rw [Block.runSegments, Block.runSegments, hb.segments_eq hrefs,
      Block.runSegments_of_plainer hbs hrefs]

theorem Block.itemsSegments_of_plainer {bss bss' : List (List Block)}
    (h : List.Forall₂ (List.Forall₂ Block.Plainer) bss bss') (hrefs : Bool) :
    Block.itemsSegments hrefs bss = Block.itemsSegments hrefs bss' := by
  cases bss with
  | nil =>
    cases h
    rfl
  | cons bs bss =>
    obtain ⟨bs', css, hbs, hbss, rfl⟩ := List.forall₂_cons_left_iff.mp h
    rw [Block.itemsSegments, Block.itemsSegments, Block.runSegments_of_plainer hbs hrefs,
      Block.itemsSegments_of_plainer hbss hrefs]

end

/-! ### Documents -/

namespace Document.Plainer

variable {d d' : Document}

/-- **A layout shows plainer documents alike.** -/
theorem document_eq (h : d.Plainer d') (s : Layout) (width : Nat) :
    s.document width d = s.document width d' := by
  have hblocks : ∀ {bs bs' : List Block}, List.Forall₂ Block.Plainer bs bs' →
      bs.map (fun b => s.block width b ++ s.after (s.blockNotes b)) =
        bs'.map fun b => s.block width b ++ s.after (s.blockNotes b) := by
    intro bs bs' hbs
    induction hbs with
    | nil => rfl
    | cons hb _ ih =>
      obtain ⟨hlines, hnotes, -⟩ := hb.shown_eq s width
      rw [List.map_cons, List.map_cons, hlines, hnotes, ih]
  exact congrArg stackBlocks (hblocks h)

theorem targets_eq (h : d.Plainer d') : d.targets = d'.targets := by
  have hnotes := (Block.shownRun_eq h Gemini.layout 0).2.1
  rw [Document.targets, Document.targets, ← Gemini.layout.blocksNotes_fst, hnotes,
    Gemini.layout.blocksNotes_fst]

theorem gemini_eq (h : d.Plainer d') (o : RenderOptions) :
    Gemini.documentLines o d = Gemini.documentLines o d' := h.document_eq _ _

theorem refs_eq (h : d.Plainer d') (o : RenderOptions) : Gopher.refs o d = Gopher.refs o d' := by
  rw [Gopher.refs, Gopher.refs, h.targets_eq]

theorem registry_eq (h : d.Plainer d') (o : RenderOptions) :
    Gopher.registry o d = Gopher.registry o d' := by
  rw [Gopher.registry, Gopher.registry, h.targets_eq]

theorem gopher_eq (h : d.Plainer d') (o : RenderOptions) :
    Gopher.documentLines o d = Gopher.documentLines o d' ∧ Gopher.fits o d = Gopher.fits o d' := by
  constructor
  · rw [Gopher.documentLines, Gopher.documentLines, Gopher.body, Gopher.body, h.refs_eq o,
      h.registry_eq o, h.document_eq]
  · rw [Gopher.fits, Gopher.fits, h.refs_eq o]
    exact (Block.shownRun_eq h _ _).2.2

/-- **The extractor yields the same segments** for a plainer document, if it yields any. -/
theorem segments_eq (h : d.Plainer d') {doc doc' : Value}
    (hcheck : Structure.check maxDepth doc = .ok ()) (hd : Document.ofValue? doc = some d)
    (hcheck' : Structure.check maxDepth doc' = .ok ()) (hd' : Document.ofValue? doc' = some d')
    {hrefs : Bool} {ss : List Segment} (hss : segments hrefs doc = .ok ss) :
    segments hrefs doc' = .ok ss := by
  have hreads : Reads (segments hrefs doc) (RunsShallow doc.allPlaces) fun _ => True :=
    reads_segments (Structure.check_eq_ok_iff.mp hcheck)
  have hreads' : Reads (segments hrefs doc') (RunsShallow doc'.allPlaces) fun _ => True :=
    reads_segments (Structure.check_eq_ok_iff.mp hcheck')
  have hshallow : RunsShallow doc.allPlaces := by
    by_contra hdeep
    rw [hreads.fault hdeep] at hss
    cases hss
  have hshallow' : RunsShallow doc'.allPlaces := by
    rw [runsShallow_iff_slots hd] at hshallow
    rw [runsShallow_iff_slots hd']
    exact h.slots.forall_le (P := (· = .inlines)) hshallow
  obtain ⟨ss', hss', -⟩ := hreads'.value hshallow'
  have hsame : ss' = ss := by
    rw [segments_of_ok hd' hss', segments_of_ok hd hss]
    exact (Block.runSegments_of_plainer h hrefs).symm
  rw [hss', hsame]

end Document.Plainer

/-- What has been rendered for Finger has been read by the extractor. -/
theorem exists_segments_of_render {doc : Value} (hcheck : Structure.check maxDepth doc = .ok ())
    {options : OptionsInput} {out : List Char}
    (h : render doc (.string Target.finger.name) options = .ok out) :
    ∃ ss, segments false doc = .ok ss := by
  rw [render, Target.ofValue_name, Except.mapError, ok_bind] at h
  obtain ⟨o, -, hout⟩ := bind_eq_ok_iff.mp h
  rw [renderChecked_eq_renderWith hcheck] at hout
  obtain ⟨ss, hss, -⟩ := bind_eq_ok_iff.mp hout
  exact ⟨ss, hss⟩

/-- **Emphasis does not show** in any target.  Take a document that the structure check
accepts, with whole numbers as starts, and a document that is read as the same one with
the children of emphasis in its place, with neighbouring texts put together or not, and
with all its nodes different.  The check accepts it as well.  Under all options both
have the same Gopher text and the same gemtext, with the same links and numbers.  Where
the one has a line for Finger or a plain text, the other has the same. -/
theorem emphasis_is_invisible {doc : Value} (hcheck : Structure.check maxDepth doc = .ok ())
    (hstarts : doc.integerStarts = true) :
    ∃ d, Document.ofValue? doc = some d ∧
      ∀ (doc' : Value) (d' : Document), Document.ofValue? doc' = some d' → d.erased.Plainer d' →
        (nodesAt doc'.allPlaces).Nodup →
        Structure.check maxDepth doc' = .ok () ∧
        (∀ options, render doc (.string Target.gopher.name) options =
          render doc' (.string Target.gopher.name) options) ∧
        (∀ options, render doc (.string Target.gemini.name) options =
          render doc' (.string Target.gemini.name) options) ∧
        (∀ options out, render doc (.string Target.finger.name) options = .ok out →
          render doc' (.string Target.finger.name) options = .ok out) ∧
        ∀ hrefs separator text, extractText hrefs separator doc = .ok text →
          extractText hrefs separator doc' = .ok text := by
  obtain ⟨d, hd, hheight⟩ := exists_document hcheck hstarts
  refine ⟨d, hd, fun doc' d' hd' hmerged honce => ?_⟩
  have h : d.Plainer d' := d.plainer_erased.trans hmerged
  have hcheck' := check_of_plainer hcheck hd hd' h honce
  have hheight' : Block.runHeight d'.blocks ≤ maxDepth := by
    obtain ⟨e, he, hheight'⟩ := exists_document hcheck' (Document.integerStarts_of_ofValue? hd')
    obtain rfl : e = d' := Option.some.inj (he.symm.trans hd')
    exact hheight'
  have hvalid : ∀ {t : Target} {options : OptionsInput} {o : RenderOptions},
      options.resolve t = .ok o → o.Valid := by
    intro t options o hoptions
    rcases OptionsInput.resolve_eq_ok_iff.mp hoptions with ⟨-, rfl⟩ | ⟨-, ho⟩
    · exact t.valid_defaults
    · exact ho
  refine ⟨hcheck', fun options => ?_, fun options => ?_, fun options out hout => ?_,
    fun hrefs separator text htext => ?_⟩
  · refine render_congr fun o ho => ?_
    obtain ⟨hlines, hfits⟩ := h.gopher_eq o
    rw [(Gopher.render_eq (hvalid ho) hcheck hd hheight).1,
      (Gopher.render_eq (hvalid ho) hcheck' hd' hheight').1, hlines, hfits]
  · refine render_congr fun o ho => ?_
    rw [Gemini.render_eq (hvalid ho) hcheck hd hheight,
      Gemini.render_eq (hvalid ho) hcheck' hd' hheight', h.gemini_eq o]
  · obtain ⟨ss, hss⟩ := exists_segments_of_render hcheck hout
    rw [← hout]
    refine render_congr fun o ho => ?_
    rw [renderChecked_eq_renderWith hcheck, renderChecked_eq_renderWith hcheck']
    show Finger.render o doc' = Finger.render o doc
    rw [Finger.render, Finger.render, hss, h.segments_eq hcheck hd hcheck' hd' hss]
  · obtain ⟨ts, hts, htext⟩ := bind_eq_ok_iff.mp htext
    obtain ⟨ss, hss, hts⟩ := bind_eq_ok_iff.mp hts
    rw [extractText, extractBlocks, h.segments_eq hcheck hd hcheck' hd' hss, ok_bind, hts, ok_bind,
      htext]

/-- A link with a word that is in part emphasised, in a heading. -/
def Value.emphasisedLink : Value :=
  .document 0 (.tuple [.heading 1 (.int 2) (.tuple [.strong 2 (.tuple
    [.link 3 (.string ['u']) (.tuple [.text 4 (.string ['a']),
      .emphasis 5 (.tuple [.text 6 (.string ['b'])])]), .lineBreak 7])])])

/-- The same link with this word as one text. -/
def Value.plainLink : Value :=
  .document 0 (.tuple [.heading 1 (.int 2) (.tuple
    [.link 3 (.string ['u']) (.tuple [.text 8 (.string ['a', 'b'])]), .lineBreak 7])])

theorem emphasis_is_invisible_in_linked_heading :
    render Value.emphasisedLink (.string Target.gopher.name) .defaults =
        render Value.plainLink (.string Target.gopher.name) .defaults ∧
      extractText true ['\n'] Value.plainLink = .ok ['a', 'b', ' ', '(', 'u', ')', '\n'] := by
  obtain ⟨d, hd, hplainer⟩ := @emphasis_is_invisible Value.emphasisedLink rfl rfl
  obtain rfl := Option.some.inj hd
  have hmerged : Inline.Plainer [.link ['u'] [.text ['a'], .text ['b']], .lineBreak]
      [.link ['u'] [.text ['a', 'b']], .lineBreak] := .link ['u'] _ (.texts ['a'] ['b'] [])
  obtain ⟨-, hgopher, -, -, htext⟩ :=
    hplainer Value.plainLink _ rfl (.cons (.heading hmerged) .nil) (by decide)
  exact ⟨hgopher .defaults, htext _ _ _ rfl⟩

end SmallWeb
