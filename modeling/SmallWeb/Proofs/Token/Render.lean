/-
SmallWeb/Proofs/Token/Render.lean

Whatever the adapter builds can be rendered, but for one thing.

A document from tokens passes the structure check, its text can be extracted, and
the renders for gemtext and Finger succeed under all valid options.  A render of
Gopher text draws each rule over the whole width, and texts have a greatest
length: where a rule would be longer than that, the render fails.  This cannot
happen at a width that is the length of a text (`Gopher.fits_of_width_le`).

Main results: `ofTokens_renders` and `exists_ofTokens_not_rendered`.
-/
import SmallWeb.Proofs.Render.Gemini
import SmallWeb.Proofs.Render.Gopher
import SmallWeb.Proofs.Token.Document

namespace SmallWeb

/-! ### Documents from tokens -/

/-- A document from tokens has a text: that of its segments, one on each line. -/
theorem plainText_of_ofTokens {ts : List Token} {d : Document} (h : Document.ofTokens ts = .ok d) :
    plainText d.value =
      .ok (Text.unlines ((Block.runSegments false d.blocks).map Segment.text)) := by
  have hproper := Document.proper_of_ofTokens h
  have hreach := Document.reach_of_ofTokens h
  have hheight : Block.runHeight d.blocks ≤ maxDepth :=
    (Block.runHeight_le_reach d.blocks).trans hreach
  unfold plainText extractText extractBlocks
  rw [Document.check_value hproper (Int.ofNat_le.mpr hheight),
    segments_eq false (Document.ofValue?_value hproper) hreach]
  rfl

/-- **What tokens become can be rendered.**  The document passes the structure
check, its text can be extracted, and it is rendered for gemtext and for Finger.
A render of Gopher text succeeds exactly where all rules can be drawn, and it
draws them all at any width that is the length of a text. -/
theorem ofTokens_renders {ts : List Token} {d : Document} (h : Document.ofTokens ts = .ok d) :
    Structure.check maxDepth d.value = .ok () ∧
      (∃ text, plainText d.value = .ok text) ∧
      ∀ o : RenderOptions, o.Valid →
        (∃ out, render d.value (.string Target.gemini.name) (.record o.record) = .ok out) ∧
        (∃ out, render d.value (.string Target.finger.name) (.record o.record) = .ok out) ∧
        (∃ out, render d.value (.string Target.gopher.name) (.record o.record) =
          if Gopher.fits o d then .ok out else .error .tooLong) ∧
        (o.width ≤ Text.maxLength → Gopher.fits o d = true) := by
  -- The room that the adapter has left is enough for the extractor, and what is
  -- enough for the extractor is enough for the check and the walks.
  have hproper := Document.proper_of_ofTokens h
  have hreach := Document.reach_of_ofTokens h
  have hheight : Block.runHeight d.blocks ≤ maxDepth :=
    (Block.runHeight_le_reach d.blocks).trans hreach
  have hcheck : Structure.check maxDepth d.value = .ok () :=
    Document.check_value hproper (Int.ofNat_le.mpr hheight)
  have hvalue : Document.ofValue? d.value = some d := Document.ofValue?_value hproper
  have hsegments := segments_eq false hvalue hreach
  refine ⟨hcheck, ⟨_, plainText_of_ofTokens h⟩, fun o ho => ⟨?_, ?_, ?_, fun hwidth => ?_⟩⟩
  · exact ⟨_, (render_record _ ho).trans (Gemini.render_eq ho hcheck hvalue hheight)⟩
  · obtain ⟨t, ht⟩ := Finger.exists_line ho (Block.runSegments false d.blocks)
    refine ⟨t, ?_⟩
    rw [render_record _ ho, renderChecked_eq_renderWith hcheck]
    show Finger.render o d.value = _
    unfold Finger.render
    rw [hsegments, ok_bind, ht]
    rfl
  · exact ⟨_, (render_record _ ho).trans (Gopher.render_eq ho hcheck hvalue hheight).1⟩
  · exact Gopher.blocksFit_of_width_le o _ d.blocks (Int.toNat_le.mpr hwidth)

/-- A quoted list with a rule in it, at the default width of Gopher text. -/
theorem ofTokens_renders_quoted_rule :
    ∃ out, render
      (Document.value ⟨[.blockquote [.list false [[.paragraph [.text ['a']], .thematicBreak]] 1]]⟩)
      (.string Target.gopher.name) (.record Target.gopher.defaults.record) = .ok out := by
  obtain ⟨-, -, hall⟩ := @ofTokens_renders [.node .blockQuote [.node .list
    [.node (.other "list_item".toList) [.node .blockText [.leaf .text ['a']],
      .bare .thematicBreak]]]] _ rfl
  obtain ⟨-, -, ⟨out, hout⟩, hfits⟩ := hall Target.gopher.defaults (by decide)
  rw [hfits (by decide), if_pos rfl] at hout
  exact ⟨out, hout⟩

/-- **A rule that cannot be drawn.**  At a width beyond the length of any text a
document from tokens is not rendered as Gopher text, though the options are
valid. -/
theorem exists_ofTokens_not_rendered :
    ¬ ∀ (ts : List Token) (d : Document) (o : RenderOptions), Document.ofTokens ts = .ok d →
      o.Valid → ∃ out,
        render d.value (.string Target.gopher.name) (.record o.record) = .ok out := by
  intro hall
  have hvalid : RenderOptions.Valid { width := 1000000000000000000000000000000 } := by decide
  obtain ⟨out, hout⟩ := hall [.bare .thematicBreak] ⟨[.thematicBreak]⟩ _ rfl hvalid
  have hfails : render (Document.value ⟨[.thematicBreak]⟩) (.string Target.gopher.name)
      (.record (RenderOptions.record { width := 1000000000000000000000000000000 })) =
        .error .tooLong := rfl
  rw [hfails] at hout
  simp at hout

end SmallWeb
