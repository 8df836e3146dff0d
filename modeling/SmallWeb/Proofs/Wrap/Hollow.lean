/-
SmallWeb/Proofs/Wrap/Hollow.lean

Blank lines in wrapped text.

A line is hollow if all its chunks are blank.  Trimming leaves its prefix only, so that it
looks like a blank line of the text.  The blank lines of a text come back as blank lines,
one each, and the hollow lines come on top of them; none is lost.

Filling drops one chunk at each end of a line, which is all there is to drop unless blank
chunks are neighbours: a run of spaces next to a chunk of blanks that are no breaks, such
as no-break spaces.  Without such neighbours no line is hollow.

Main result: `blank_lines_of_wrapped`.
-/
import SmallWeb.Proofs.Wrap.Content

namespace SmallWeb

open Text (isBlankText)

/-! ### Lines without content -/

/-- The number of blank lines. -/
def blankLines (text : List Char) : Nat := (Text.lines text).countP isBlankText

/-- The filled lines without content; nothing is filled where there is no limit. -/
def hollowLines (width : Nat) (initial subsequent text : List Char) : List (List (List Char)) :=
  if width = 0 then []
  else (filled width initial subsequent text).filter (isBlankText ·.flatten)

/-- **No line is hollow** without a limit, or where no two blank chunks are neighbours. -/
theorem hollowLines_eq_nil {width : Nat} {initial subsequent text : List Char}
    (h : width = 0 ∨ Alternating (chunks text)) :
    hollowLines width initial subsequent text = [] := by
  unfold hollowLines
  split
  · rfl
  · rename_i hwidth
    have halternating := h.resolve_left hwidth
    exact List.filter_eq_nil_iff.mpr fun line hline =>
      (halternating.endsInContent_of_mem_fill hline).flatten

theorem length_hollowLines {width : Nat} (hwidth : ¬ width = 0)
    (initial subsequent text : List Char) :
    (hollowLines width initial subsequent text).length =
      (filled width initial subsequent text).countP (isBlankText ·.flatten) := by
  rw [hollowLines, if_neg hwidth, List.countP_eq_length_filter]

/-- A line is the bare prefix if there is no content behind it. -/
theorem trimEnd_append_eq_trimEnd_iff {lead piece : List Char} :
    Text.trimEnd (lead ++ piece) = Text.trimEnd lead ↔ isBlankText piece = true := by
  rw [Text.trimEnd_append]
  split
  · rename_i hblank
    exact iff_of_true rfl hblank
  · rename_i hcontent
    refine iff_of_false (fun h => hcontent ?_) hcontent
    have hlength := congrArg List.length h
    have hle := Text.trimEnd_length_le lead
    rw [List.length_append] at hlength
    exact Text.trimEnd_eq_nil_iff.mp (List.length_eq_zero_iff.mp (by omega))

/-! ### One line of text -/

/-- All lines of a blank text are hollow. -/
theorem isBlankText_of_mem_filled (width : Nat) (initial subsequent : List Char)
    {text : List Char} (h : isBlankText text = true) :
    ∀ line ∈ filled width initial subsequent text, isBlankText line.flatten = true := by
  have hwords := flatMap_words_filled width initial subsequent text
  rw [Text.words_eq_nil h, List.flatMap_eq_nil_iff] at hwords
  exact fun line hline => Text.words_eq_nil_iff.mp (hwords _ (List.mem_map_of_mem hline))

/-- **A blank text** shows its hollow lines as bare prefixes, and one prefix in any case. -/
theorem wrapLine_of_blank {width : Nat} {text : List Char} (initial subsequent : List Char)
    (h : isBlankText text = true) :
    wrapLine width initial subsequent text = Text.trimEnd initial ::
      List.replicate ((hollowLines width initial subsequent text).length - 1)
        (Text.trimEnd subsequent) := by
  by_cases hwidth : width = 0
  · rw [wrapLine, if_pos hwidth, if_pos h, hollowLines, if_pos hwidth]
    rfl
  · have hblank := isBlankText_of_mem_filled width initial subsequent h
    rw [wrapLine, if_neg hwidth, length_hollowLines hwidth, List.countP_eq_length.mpr hblank]
    rcases hfilled : filled width initial subsequent text with - | ⟨line, lines⟩
    · rw [wrapAt_eq, hfilled]
      rfl
    · rw [hfilled] at hblank
      obtain ⟨hline, hlines⟩ := List.forall_mem_cons.mp hblank
      rw [wrapAt_of_filled hfilled, trimEnd_append_eq_trimEnd_iff.mpr hline,
        List.map_congr_left fun l hl => trimEnd_append_eq_trimEnd_iff.mpr (hlines l hl),
        List.map_const']
      rfl

/-- **A text with content** shows a bare prefix for each hollow line and no other. -/
theorem wrapLine_of_content {width : Nat} {text : List Char} (initial subsequent : List Char)
    (h : ¬ isBlankText text = true) :
    ∃ first rest, wrapLine width initial subsequent text = first :: rest ∧
      (if first = Text.trimEnd initial then 1 else 0) + rest.count (Text.trimEnd subsequent) =
        (hollowLines width initial subsequent text).length := by
  unfold wrapLine
  by_cases hwidth : width = 0
  · refine ⟨Text.trimEnd (initial ++ text), [], ?_, ?_⟩
    · rw [if_pos hwidth, if_neg h]
    · rw [if_neg (mt trimEnd_append_eq_trimEnd_iff.mp h), hollowLines, if_pos hwidth]
      rfl
  · obtain ⟨line, lines, hfilled⟩ := exists_filled width initial subsequent h
    refine ⟨_, _, (if_neg hwidth).trans (wrapAt_of_filled hfilled), ?_⟩
    rw [length_hollowLines hwidth, hfilled, List.countP_cons, List.count, List.countP_map,
      Nat.add_comm]
    congr 1
    · refine List.countP_congr fun l _ => ?_
      rw [Function.comp_apply, beq_iff_eq, trimEnd_append_eq_trimEnd_iff]
    · exact if_congr trimEnd_append_eq_trimEnd_iff rfl rfl

/-! ### Texts -/

theorem countP_reflowLine {width : Nat} (hwidth : 0 < width) (l : List Char) :
    (reflowLine width l).countP isBlankText =
      if isBlankText l then 1 else (hollowLines width [] [] l).length := by
  unfold reflowLine
  split
  · rfl
  · rename_i hcontent
    obtain ⟨line, lines, hfilled⟩ := exists_filled width [] [] hcontent
    rw [wrapAt_of_filled hfilled, length_hollowLines (by omega), hfilled]
    simp [List.countP_cons, List.countP_map, Function.comp_def, Text.isBlankText_trimEnd]

/-- The hollow lines of a text's lines with content, one after the other. -/
def hollowInside (width : Nat) (text : List Char) : List (List (List Char)) :=
  ((Text.lines text).filter fun l => !isBlankText l).flatMap (hollowLines width [] [])

theorem blankLines_reflow {width : Nat} (hwidth : 0 < width) (text : List Char) :
    blankLines (reflow width text) = blankLines text + (hollowInside width text).length := by
  unfold blankLines hollowInside
  rw [lines_reflow hwidth]
  induction Text.lines text with
  | nil => rfl
  | cons l ls ih =>
    rw [List.flatMap_cons, List.countP_append, ih, countP_reflowLine hwidth, List.countP_cons]
    by_cases hl : isBlankText l = true
    · simp [hl]
      omega
    · simp [hl]
      omega

/-- **The blank lines of a wrapped text** are those of the text and the hollow lines.  A blank
line of text becomes its first prefix, with the other prefix for each further hollow line.
The lines of one with content are bare prefixes only where they are hollow.  No line is
hollow without a limit, or where no two blank chunks of the text are neighbours. -/
theorem blank_lines_of_wrapped {width : Int} (hwidth : 0 ≤ width) (text : List Char) :
    (∀ initial subsequent : List Char,
      (isBlankText text = true →
        wrapLines text width initial subsequent = .ok (Text.trimEnd initial ::
          List.replicate ((hollowLines width.toNat initial subsequent text).length - 1)
            (Text.trimEnd subsequent))) ∧
      (¬ isBlankText text = true →
        ∃ first rest, wrapLines text width initial subsequent = .ok (first :: rest) ∧
          (if first = Text.trimEnd initial then 1 else 0) + rest.count (Text.trimEnd subsequent) =
            (hollowLines width.toNat initial subsequent text).length) ∧
      (width = 0 ∨ Alternating (chunks text) →
        hollowLines width.toNat initial subsequent text = [])) ∧
    ∃ out, wrap text width = .ok out ∧
      blankLines out = blankLines text + (hollowInside width.toNat text).length := by
  have hnot : ¬ width < 0 := by omega
  refine ⟨fun initial subsequent => ⟨fun hblank => ?_, fun hcontent => ?_, fun h => ?_⟩, ?_⟩
  · rw [wrapLines, if_neg hnot, wrapLine_of_blank initial subsequent hblank]
  · obtain ⟨first, rest, hlines, hcount⟩ := wrapLine_of_content initial subsequent hcontent
    exact ⟨first, rest, by rw [wrapLines, if_neg hnot, hlines], hcount⟩
  · exact hollowLines_eq_nil (h.imp_left fun hzero => by omega)
  · by_cases hzero : width = 0
    · refine ⟨text, by rw [wrap, if_neg hnot, if_pos hzero], ?_⟩
      have hnone : hollowInside width.toNat text = [] :=
        List.flatMap_eq_nil_iff.mpr fun l _ => hollowLines_eq_nil (.inl (by omega))
      rw [hnone]
      rfl
    · refine ⟨reflow width.toNat text, by rw [wrap, if_neg hnot, if_neg hzero], ?_⟩
      exact blankLines_reflow (by omega) text

/-- A no-break space before a word: one hollow line, a bare marker or a blank line. -/
theorem blank_lines_of_wrapped_behind_no_break_space :
    (∃ first rest, wrapLines "\u00a0 long".toList 4 ['*', ' '] [' ', ' '] = .ok (first :: rest) ∧
      (if first = ['*'] then 1 else 0) + rest.count [] = 1) ∧
    ∃ out, wrap "\u00a0 long".toList 4 = .ok out ∧ blankLines out = 1 := by
  have hwidth : (0 : Int) ≤ 4 := by decide
  obtain ⟨hlines, out, hout, hcount⟩ := blank_lines_of_wrapped hwidth "\u00a0 long".toList
  refine ⟨?_, out, hout, hcount.trans (by decide +kernel)⟩
  obtain ⟨-, hcontent, -⟩ := hlines ['*', ' '] [' ', ' ']
  obtain ⟨first, rest, hfirst, hbare⟩ := hcontent (by decide)
  exact ⟨first, rest, hfirst, hbare.trans (by decide +kernel)⟩

/-- A blank text may become two lines, and a word may come behind a blank line. -/
theorem blank_lines_from_no_break_spaces :
    isBlankText "\u00a0 \u00a0 \u00a0".toList = true ∧
      wrapLines "\u00a0 \u00a0 \u00a0".toList 2 [] [] = .ok [[], []] ∧
      ¬ isBlankText "\u00a0 a".toList = true ∧
      wrapLines "\u00a0 a".toList 2 [] [] = .ok [[], ['a']] ∧
      wrap "\u00a0 a".toList 2 = .ok ['\n', 'a'] ∧
      blankLines "\u00a0 a".toList = 0 ∧ blankLines ['\n', 'a'] = 1 := by
  have hblank : wrapLine 2 [] [] "\u00a0 \u00a0 \u00a0".toList = [[], []] := by decide +kernel
  have hcontent : wrapLine 2 [] [] "\u00a0 a".toList = [[], ['a']] := by decide +kernel
  have hwrap : reflow 2 "\u00a0 a".toList = ['\n', 'a'] := by decide +kernel
  exact ⟨by decide, congrArg Except.ok hblank, by decide, congrArg Except.ok hcontent,
    congrArg Except.ok hwrap, by decide, by decide⟩

end SmallWeb
