/-
SmallWeb/Proofs/Render/Finger.lean

The one line of Finger.

A document is put on one line in several steps: line ends become spaces, in compact
mode the blanks of prose are collapsed, segments without content are left out, the
rest is joined with spaces, trimmed, and cut to the width.  No step but the last one
drops a word.  Each of them leaves blanks between the words, so the words are those
of the segments and with that those of the extracted text.

In compact mode prose comes out as its words with single spaces.  The same holds for
the line as a whole if all segments are prose, as `unwords_filter_map_unwords` says
for any texts.

The line is told without the width first (`oneLine`); a width cuts it in compact mode
and does nothing otherwise (`line_eq`).

Main result: `finger_line_of_plainText`.
-/
import SmallWeb.Proofs.Extract.Depth
import SmallWeb.Proofs.Extract.Prose
import SmallWeb.Proofs.Render.Words
import SmallWeb.Proofs.Text.Spacing
import SmallWeb.Proofs.Wrap.Truncation

namespace SmallWeb

open Text (words unwords isBlankText)

namespace Finger

/-! ### Segments on one line -/

theorem notMem_newline_flattenLines (s : List Char) : '\n' ∉ flattenLines s := by
  fun_induction flattenLines s with
  | case1 s ih => simp [ih]
  | case2 s ih => simp [ih]
  | case3 c s _ hnewline ih =>
    have hc : '\n' ≠ c := fun heq => hnewline heq.symm
    simp [hc, ih]
  | case4 => simp

/-- A line end becomes a space, so the words stay, and whether the text begins with a
blank. -/
theorem flattenLines_keeps (s : List Char) :
    words (flattenLines s) = words s ∧
      Text.startsBlank (flattenLines s) = Text.startsBlank s := by
  have hspace : Text.isBlank ' ' = true := by decide
  have hreturn : Text.isBlank '\r' = true := by decide
  have hnewline : Text.isBlank '\n' = true := by decide
  fun_induction flattenLines s with
  | case1 s ih =>
    rw [Text.words_cons_of_blank hspace, Text.words_cons_of_blank hreturn,
      Text.words_cons_of_blank hnewline]
    exact ⟨ih.1, rfl⟩
  | case2 s ih =>
    rw [Text.words_cons_of_blank hspace, Text.words_cons_of_blank hnewline]
    exact ⟨ih.1, rfl⟩
  | case3 c s _ _ ih => exact ⟨Text.words_cons_congr c ih.1 ih.2, rfl⟩
  | case4 => exact ⟨rfl, rfl⟩

/-- Prose comes out as its words with single spaces. -/
theorem segmentText_prose {s : Segment} (hs : s.isCode = false) :
    segmentText true s = unwords (words s.text) := by
  unfold segmentText
  rw [hs]
  show Text.trim (Text.collapse (flattenLines s.text)) = _
  rw [Text.trim_collapse, (flattenLines_keeps s.text).1]

variable (compact : Bool)

theorem words_segmentText (s : Segment) : words (segmentText compact s) = words s.text := by
  have hwords := (flattenLines_keeps s.text).1
  unfold segmentText
  dsimp only
  split
  · rw [Text.words_trim, Text.words_collapse, hwords]
  · exact hwords

theorem notMem_newline_segmentText (s : Segment) : '\n' ∉ segmentText compact s := by
  have hflat := notMem_newline_flattenLines s.text
  unfold segmentText
  dsimp only
  split
  · exact fun hmem => Text.notMem_newline_collapse hflat (Text.mem_of_mem_trim hmem)
  · exact hflat

/-! ### The line -/

/-- The line of segments where no width is given. -/
def oneLine (ss : List Segment) : List Char :=
  if compact then Text.trim (joinSegments compact ss) else joinSegments compact ss

/-- **A width cuts the line in compact mode** and does nothing otherwise. -/
theorem line_eq {o : RenderOptions} (ho : o.Valid) (ss : List Segment) :
    line o ss = .ok (if o.compactMode = true ∧ 0 < o.width then
      cutTo o.width.toNat (oneLine o.compactMode ss) else oneLine o.compactMode ss) := by
  unfold line oneLine
  dsimp only
  cases hcompact : o.compactMode with
  | false => simp
  | true =>
    by_cases hwidth : 0 < o.width
    · have hnot : ¬ o.width < 0 := Int.not_lt.mpr ho
      simp [hwidth, truncate, hnot]
    · simp [hwidth]

theorem joinSegments_eq (ss : List Segment) :
    joinSegments compact ss =
      unwords ((ss.map (segmentText compact)).filter fun t => !isBlankText t) := rfl

theorem notMem_newline_oneLine (ss : List Segment) : '\n' ∉ oneLine compact ss := by
  have hsegments : '\n' ∉ joinSegments compact ss := by
    apply Text.notMem_newline_unwords
    intro t ht
    obtain ⟨s, -, rfl⟩ := List.mem_map.mp (List.mem_filter.mp ht).1
    exact notMem_newline_segmentText compact s
  unfold oneLine
  split
  · exact fun hmem => hsegments (Text.mem_of_mem_trim hmem)
  · exact hsegments

/-- **The words of the line** are those of the segments: what is left out has none. -/
theorem words_oneLine (ss : List Segment) : words (oneLine compact ss) = segmentWords ss := by
  have hsegments : words (joinSegments compact ss) = segmentWords ss := by
    rw [joinSegments_eq, Text.words_unwords, Text.flatMap_words_filter, List.flatMap_map]
    exact List.flatMap_congr fun s _ => words_segmentText compact s
  unfold oneLine
  split
  · rw [Text.words_trim, hsegments]
  · exact hsegments

/-- **Prose in compact mode**: the words of all segments with single spaces. -/
theorem oneLine_prose {ss : List Segment} (hss : AreProse ss) :
    oneLine true ss = unwords (segmentWords ss) := by
  have htexts : ss.map (segmentText true) = (ss.map Segment.text).map fun t => unwords (words t) := by
    rw [List.map_map]
    exact List.map_congr_left fun s hs => segmentText_prose (hss s hs)
  have hjoined : joinSegments true ss = unwords (segmentWords ss) := by
    rw [joinSegments_eq, htexts, Text.unwords_filter_map_unwords, List.flatMap_map]
    rfl
  have hwords : words (joinSegments true ss) = segmentWords ss := by
    rw [← words_oneLine true ss]
    exact (Text.words_trim _).symm
  calc oneLine true ss
    _ = Text.trim (joinSegments true ss) := rfl
    _ = Text.trim (unwords (words (joinSegments true ss))) := by rw [hwords, hjoined]
    _ = unwords (words (joinSegments true ss)) := Text.trim_unwords_words _
    _ = unwords (segmentWords ss) := by rw [hwords]

end Finger

/-! ### Rendering for Finger -/

/-- The output for Finger, from the segments of a document. -/
theorem render_finger_eq {doc : Value} (hcheck : Structure.check maxDepth doc = .ok ())
    {ss : List Segment} (hss : segments false doc = .ok ss) {o : RenderOptions} (ho : o.Valid) :
    render doc (.string Target.finger.name) (.record o.record) =
      .ok (if o.compactMode = true ∧ 0 < o.width then
        cutTo o.width.toNat (Finger.oneLine o.compactMode ss)
      else Finger.oneLine o.compactMode ss) := by
  rw [render_finger hcheck ho, Finger.render, hss, ok_bind, Finger.line_eq ho]
  rfl

/-- The treatment of links and of code in running text does not matter for Finger. -/
theorem render_finger_congr (doc : Value) {o : RenderOptions} (ho : o.Valid)
    (preserveLinks : Bool) (linkStyle : LinkStyle) (stripFormatting : Bool) :
    render doc (.string Target.finger.name)
        (.record (RenderOptions.record { o with preserveLinks, linkStyle, stripFormatting })) =
      render doc (.string Target.finger.name) (.record o.record) := by
  have ho' : RenderOptions.Valid { o with preserveLinks, linkStyle, stripFormatting } := ho
  rw [render_record _ ho, render_record _ ho']
  rfl

/-- **What Finger makes of an extracted text.**  Without a width it is one line that has
the words of the text, in compact mode with single spaces between them unless there
is code.  In compact mode a width is the number of characters that the output has
where the line is longer, the last three of them dots; without compact mode it does
nothing.  The treatment of links and of code in running text does not matter. -/
theorem finger_line_of_plainText {doc : Value} {text : List Char}
    (htext : plainText doc = .ok text) {o : RenderOptions} (ho : o.Valid) :
    ∃ line,
      render doc (.string Target.finger.name)
        (.record (RenderOptions.record { o with width := 0 })) = .ok line ∧
      '\n' ∉ line ∧
      words line = words text ∧
      (o.compactMode = true → CodeFree doc.allPlaces → line = unwords (words text)) ∧
      (o.compactMode = true → 0 < o.width →
        ∃ out, render doc (.string Target.finger.name) (.record o.record) = .ok out ∧
          ((line.length : Int) ≤ o.width → out = line) ∧
          (o.width < line.length → (out.length : Int) = o.width ∧
            out = if o.width < 3 then ellipsis.take o.width.toNat
              else line.take (o.width.toNat - 3) ++ ellipsis)) ∧
      (o.compactMode = false →
        render doc (.string Target.finger.name) (.record o.record) = .ok line) ∧
      ∀ preserveLinks linkStyle stripFormatting,
        render doc (.string Target.finger.name)
            (.record (RenderOptions.record { o with preserveLinks, linkStyle, stripFormatting })) =
          render doc (.string Target.finger.name) (.record o.record) := by
  have hcheck := check_of_plainText htext
  obtain ⟨ss, hss, hwords⟩ := exists_segments_of_plainText htext
  have hunlimited : RenderOptions.Valid { o with width := 0 } := Int.le_refl 0
  have hline := render_finger_eq hcheck hss hunlimited
  have hout := render_finger_eq hcheck hss ho
  rw [if_neg (by simp)] at hline
  refine ⟨Finger.oneLine o.compactMode ss, hline, Finger.notMem_newline_oneLine _ ss, ?_, ?_, ?_,
    ?_, render_finger_congr doc ho⟩
  · rw [Finger.words_oneLine, hwords]
  · intro hcompact hfree
    have hprose := areProse_segments (Structure.check_eq_ok_iff.mp hcheck) hfree hss
    rw [hcompact, Finger.oneLine_prose hprose, hwords]
  · intro hcompact hwidth
    rw [if_pos ⟨hcompact, hwidth⟩] at hout
    have hnat : (o.width.toNat : Int) = o.width := Int.toNat_of_nonneg ho
    refine ⟨_, hout, fun hshort => cutTo_of_le (by omega), fun hlong => ?_⟩
    have hcut : o.width.toNat < (Finger.oneLine o.compactMode ss).length := by omega
    have hnarrow : o.width.toNat < 3 ↔ o.width < 3 := by omega
    rw [cutTo_length_of_lt hcut, cutTo_of_lt hcut]
    exact ⟨hnat, if_congr hnarrow rfl rfl⟩
  · intro hcompact
    rwa [if_neg (by simp [hcompact])] at hout

/-- Prose with line ends and blanks of several kinds. -/
def Value.brokenProse : Value :=
  .document 0 (.tuple [.paragraph 1 (.tuple [.text 2 (.string ['a', '\r']),
    .lineBreak 3, .text 4 (.string ['\u2003', 'b', ' ', ' ', 'c'])]),
    .paragraph 5 (.tuple [.text 6 (.string ['d'])])])

/-- The line without a limit and at the width of five characters. -/
theorem finger_line_of_broken_prose :
    render Value.brokenProse (.string Target.finger.name)
        (.record (RenderOptions.record { width := 0, compactMode := true })) =
      .ok ['a', ' ', 'b', ' ', 'c', ' ', 'd'] ∧
    render Value.brokenProse (.string Target.finger.name)
        (.record (RenderOptions.record { width := 5, compactMode := true })) =
      .ok ['a', ' ', '.', '.', '.'] := by
  have htext : plainText Value.brokenProse =
      .ok ['a', '\r', '\n', '\u2003', 'b', ' ', ' ', 'c', '\n', 'd'] := rfl
  have hvalid : RenderOptions.Valid { width := 5, compactMode := true } := by decide
  obtain ⟨line, hline, -, -, hprose, hcut, -⟩ := finger_line_of_plainText htext hvalid
  obtain rfl : line = ['a', ' ', 'b', ' ', 'c', ' ', 'd'] := (hprose rfl (by decide)).trans rfl
  obtain ⟨out, hout, -, hlong⟩ := hcut rfl (by decide)
  obtain rfl : out = ['a', ' ', '.', '.', '.'] := (hlong (by decide)).2
  exact ⟨hline, hout⟩

end SmallWeb
