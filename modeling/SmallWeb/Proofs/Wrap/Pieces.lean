/-
SmallWeb/Proofs/Wrap/Pieces.lean

Wrapping as a lossless and bounded reflow.

The lines of a wrapped text are pieces of it behind prefixes.  What the pieces hold
(`Proofs.Wrap.Words`) and how long they are (`Proofs.Wrap.Bound`) are facts about the
same filled lines of chunks, and here they are told of the same pieces.  A piece fits
behind its prefix before anything is trimmed; trimming a line only makes it shorter.

The limit is the width, unless a prefix is as long as the width or longer: a prefix
leaves room for one character at least.

A text of several lines is wrapped line by line, without prefixes, so the limit is the
width there.

Main result: `wrapping_reflows`.
-/
import SmallWeb.Proofs.Wrap.Words

namespace SmallWeb

open Text (words isBlankText)

/-! ### One line -/

/-- The number of characters that a line may have beside its prefixes. -/
def wrapLimit (width : Nat) (initial subsequent : List Char) : Nat :=
  max width (max (initial.length + 1) (subsequent.length + 1))

/-- A piece keeps to the limit behind its prefix, or it is one word. -/
def FitsBehind (limit : Nat) (lead piece : List Char) : Prop :=
  (lead ++ piece).length ≤ limit ∨ IsWord piece

/-- A filled line is a piece that fits. -/
theorem fitsBehind_of_fits {limit room : Nat} {lead : List Char} {line : List (List Char)}
    (hroom : lead.length + room ≤ limit) (hfits : Fits room line)
    (hwords : ∀ c ∈ line, ¬ isBlankText c = true → IsWord c) :
    FitsBehind limit lead line.flatten := by
  rcases hfits with hle | ⟨c, rfl, hc⟩
  · left
    rw [List.length_append]
    omega
  · right
    rw [List.flatten_singleton]
    exact hwords c List.mem_cons_self hc

/-- The lines that the chunks of a text fill, beside the prefixes. -/
def filled (width : Nat) (initial subsequent text : List Char) : List (List (List Char)) :=
  fill (wrapLimit width initial subsequent - initial.length)
    (wrapLimit width initial subsequent - subsequent.length) false (chunks text)

theorem wrapAt_eq (width : Nat) (initial subsequent text : List Char) :
    wrapAt width initial subsequent text =
      match filled width initial subsequent text with
      | [] => [Text.trimEnd initial]
      | ls => (prependEach initial subsequent (ls.map List.flatten)).map Text.trimEnd := rfl

/-- The filled lines have the words of the text. -/
theorem flatMap_words_filled (width : Nat) (initial subsequent text : List Char) :
    ((filled width initial subsequent text).map List.flatten).flatMap words = words text :=
  flatMap_words_map_flatten_fill _ _ false text

theorem wrapAt_of_filled {width : Nat} {initial subsequent text : List Char}
    {line : List (List Char)} {lines : List (List (List Char))}
    (h : filled width initial subsequent text = line :: lines) :
    wrapAt width initial subsequent text = Text.trimEnd (initial ++ line.flatten) ::
      lines.map fun l => Text.trimEnd (subsequent ++ l.flatten) := by
  rw [wrapAt_eq, h]
  simp only [List.map_cons, prependEach, List.map_map]
  rfl

/-- A text with content fills a line at least. -/
theorem exists_filled (width : Nat) (initial subsequent : List Char) {text : List Char}
    (h : ¬ isBlankText text = true) :
    ∃ line lines, filled width initial subsequent text = line :: lines := by
  have hwords := flatMap_words_filled width initial subsequent text
  refine List.exists_cons_of_ne_nil fun hnil => h ?_
  rw [hnil] at hwords
  exact Text.words_eq_nil_iff.mp hwords.symm

/-- **The lines of a text are pieces that fit** and have its words. -/
theorem wrapAt_eq_pieces (width : Nat) (initial subsequent text : List Char) :
    ∃ (first : List Char) (rest : List (List Char)),
      wrapAt width initial subsequent text =
        Text.trimEnd (initial ++ first) ::
          rest.map (fun piece => Text.trimEnd (subsequent ++ piece)) ∧
      words first ++ rest.flatMap words = words text ∧
      FitsBehind (wrapLimit width initial subsequent) initial first ∧
      ∀ piece ∈ rest, FitsBehind (wrapLimit width initial subsequent) subsequent piece := by
  have hroom : initial.length < wrapLimit width initial subsequent ∧
      subsequent.length < wrapLimit width initial subsequent := by
    unfold wrapLimit
    omega
  have hwords := flatMap_words_filled width initial subsequent text
  obtain ⟨hfirst, hrest⟩ := fill_fits (wrapLimit width initial subsequent - initial.length)
    (wrapLimit width initial subsequent - subsequent.length) false (chunks text)
  have hmem : ∀ line ∈ filled width initial subsequent text, ∀ c ∈ line,
      ¬ isBlankText c = true → IsWord c :=
    fun line hline c hc => isWord_of_mem_chunks (mem_of_mem_fill hline hc)
  rw [← filled] at hfirst hrest
  rcases hfilled : filled width initial subsequent text with - | ⟨line, lines⟩
  · -- Nothing has been filled: the one piece is empty.
    rw [hfilled] at hwords
    refine ⟨[], [], ?_, hwords, ?_, fun piece hpiece => absurd hpiece List.not_mem_nil⟩
    · rw [wrapAt_eq, hfilled, List.append_nil]
      rfl
    · left
      rw [List.append_nil]
      omega
  · rw [hfilled] at hwords hfirst hrest hmem
    refine ⟨line.flatten, lines.map List.flatten, ?_, ?_, ?_, ?_⟩
    · rw [wrapAt_of_filled hfilled, List.map_map]
      rfl
    · rwa [List.map_cons, List.flatMap_cons] at hwords
    · have hfits : initial.length + (wrapLimit width initial subsequent - initial.length) ≤
          wrapLimit width initial subsequent := by omega
      exact fitsBehind_of_fits hfits (hfirst line rfl) (hmem line List.mem_cons_self)
    · intro piece hpiece
      obtain ⟨later, hlater, rfl⟩ := List.mem_map.mp hpiece
      exact fitsBehind_of_fits (by omega) (hrest later hlater)
        (hmem later (List.mem_cons_of_mem line hlater))

/-! ### Texts of several lines -/

/-- A line without prefixes at a width: its words, and how long its lines are. -/
theorem wrapAt_nil {width : Nat} (hwidth : 0 < width) (text : List Char) :
    (wrapAt width [] [] text).flatMap words = words text ∧
      ∀ l ∈ wrapAt width [] [] text, l.length ≤ width ∨ ∀ c ∈ l, ¬ Text.isBreak c = true := by
  obtain ⟨first, rest, hlines, hwords, hfirst, hrest⟩ := wrapAt_eq_pieces width [] [] text
  have hlimit : wrapLimit width [] [] = width := by
    unfold wrapLimit
    simp only [List.length_nil]
    omega
  rw [hlimit] at hfirst hrest
  have hpiece : ∀ piece, FitsBehind width [] piece →
      (Text.trimEnd piece).length ≤ width ∨ ∀ c ∈ Text.trimEnd piece, ¬ Text.isBreak c = true := by
    rintro piece (hle | hword)
    · have htrim := Text.trimEnd_length_le piece
      rw [List.nil_append] at hle
      exact .inl (by omega)
    · exact .inr hword.trimEnd.2
  rw [hlines]
  constructor
  · rw [List.flatMap_cons, List.flatMap_map, List.nil_append, Text.words_trimEnd, ← hwords]
    congr 1
    refine List.flatMap_congr fun piece _ => ?_
    rw [List.nil_append, Text.words_trimEnd]
  · intro l hl
    rcases List.mem_cons.mp hl with rfl | hl
    · exact hpiece first hfirst
    · obtain ⟨piece, hmem, rfl⟩ := List.mem_map.mp hl
      exact hpiece piece (hrest piece hmem)

/-- The lines that one line of a text becomes. -/
def reflowLine (width : Nat) (l : List Char) : List (List Char) :=
  if isBlankText l then [[]] else wrapAt width [] [] l

theorem reflow_eq (width : Nat) (text : List Char) :
    reflow width text = Text.unlines ((Text.lines text).flatMap (reflowLine width)) := rfl

theorem words_reflowLine {width : Nat} (hwidth : 0 < width) (l : List Char) :
    (reflowLine width l).flatMap words = words l := by
  unfold reflowLine
  split
  · rename_i hblank
    rw [Text.words_eq_nil hblank]
    rfl
  · exact (wrapAt_nil hwidth l).1

theorem reflowLine_ne_nil (width : Nat) (l : List Char) : reflowLine width l ≠ [] := by
  unfold reflowLine
  split
  · exact List.cons_ne_nil _ _
  · obtain ⟨first, rest, hlines, -⟩ := wrapAt_eq_pieces width [] [] l
    rw [hlines]
    exact List.cons_ne_nil _ _

theorem bounded_of_mem_reflowLine {width : Nat} (hwidth : 0 < width) {l m : List Char}
    (hm : m ∈ reflowLine width l) : m.length ≤ width ∨ ∀ c ∈ m, ¬ Text.isBreak c = true := by
  unfold reflowLine at hm
  split at hm
  · obtain rfl := List.mem_singleton.mp hm
    exact .inl (Nat.zero_le width)
  · exact (wrapAt_nil hwidth l).2 m hm

/-- Wrapping a line gives lines. -/
theorem notMem_newline_reflowLine {width : Nat} (hwidth : 0 < width) {l m : List Char}
    (hl : '\n' ∉ l) (hm : m ∈ reflowLine width l) : '\n' ∉ m := by
  unfold reflowLine at hm
  split at hm
  · obtain rfl := List.mem_singleton.mp hm
    exact List.not_mem_nil
  · have hwrap : wrapLine width [] [] l = wrapAt width [] [] l := if_neg (by omega)
    rw [← hwrap] at hm
    intro hmem
    rcases mem_of_mem_wrapLine hm hmem with h | h | h
    · exact absurd h List.not_mem_nil
    · exact hl h
    · exact absurd h (by decide)

/-- The lines of a wrapped text are those of its lines. -/
theorem lines_reflow {width : Nat} (hwidth : 0 < width) (text : List Char) :
    Text.lines (reflow width text) = (Text.lines text).flatMap (reflowLine width) := by
  have hne : (Text.lines text).flatMap (reflowLine width) ≠ [] := by
    obtain ⟨l, ls, hls⟩ := List.exists_cons_of_ne_nil (Text.lines_ne_nil text)
    rw [hls, List.flatMap_cons]
    exact List.append_ne_nil_of_left_ne_nil (reflowLine_ne_nil width l) _
  rw [reflow_eq, Text.lines_unlines_of_notMem hne]
  intro m hm
  obtain ⟨l, hl, hm⟩ := List.mem_flatMap.mp hm
  exact notMem_newline_reflowLine hwidth (Text.notMem_of_mem_lines hl) hm

/-- **Wrapping is a lossless and bounded reflow.**  At a positive width the lines of one
line of text are pieces of it behind the prefixes, trimmed.  The pieces in their order
have the words of the text, and each of them keeps to the limit behind its prefix or
is a single word.  A text of several lines keeps its words, and each line of it keeps
to the width or holds no break. -/
theorem wrapping_reflows {width : Int} (hwidth : 0 < width) (text : List Char) :
    (∀ initial subsequent : List Char, ∃ (first : List Char) (rest : List (List Char)),
      wrapLines text width initial subsequent =
        .ok (Text.trimEnd (initial ++ first) ::
          rest.map fun piece => Text.trimEnd (subsequent ++ piece)) ∧
      words first ++ rest.flatMap words = words text ∧
      FitsBehind (wrapLimit width.toNat initial subsequent) initial first ∧
      ∀ piece ∈ rest, FitsBehind (wrapLimit width.toNat initial subsequent) subsequent piece) ∧
    ∃ out, wrap text width = .ok out ∧ words out = words text ∧
      ∀ l ∈ Text.lines out, (l.length : Int) ≤ width ∨ ∀ c ∈ l, ¬ Text.isBreak c = true := by
  have hnot : ¬ width < 0 := by omega
  have hpos : 0 < width.toNat := by omega
  constructor
  · intro initial subsequent
    obtain ⟨first, rest, hlines, hwords, hfirst, hrest⟩ :=
      wrapAt_eq_pieces width.toNat initial subsequent text
    refine ⟨first, rest, ?_, hwords, hfirst, hrest⟩
    rw [wrapLines, if_neg hnot, wrapLine, if_neg (by omega), hlines]
  · refine ⟨reflow width.toNat text, ?_, ?_, ?_⟩
    · rw [wrap, if_neg hnot, if_neg (by omega)]
    · rw [reflow_eq, Text.words_unlines, List.flatMap_assoc,
        List.flatMap_congr fun l _ => words_reflowLine hpos l, Text.flatMap_words_lines]
    · intro l hl
      rw [lines_reflow hpos] at hl
      obtain ⟨m, -, hl⟩ := List.mem_flatMap.mp hl
      rcases bounded_of_mem_reflowLine hpos hl with hle | hword
      · exact .inl (by omega)
      · exact .inr hword

/-- A word that is longer than the width, behind blanks of both kinds and a marker. -/
theorem wrapping_reflows_around_long_word :
    (∃ (first : List Char) (rest : List (List Char)),
      wrapLines "\u00a0 a\tlongword b".toList 6 ['*', ' '] [' ', ' '] =
        .ok (Text.trimEnd (['*', ' '] ++ first) ::
          rest.map fun piece => Text.trimEnd ([' ', ' '] ++ piece)) ∧
      words first ++ rest.flatMap words = [['a'], "longword".toList, ['b']] ∧
      FitsBehind 6 ['*', ' '] first ∧ ∀ piece ∈ rest, FitsBehind 6 [' ', ' '] piece) ∧
    ∃ out, wrap "\u00a0 a\tlongword b".toList 6 = .ok out ∧
      words out = [['a'], "longword".toList, ['b']] ∧
      ∀ l ∈ Text.lines out, (l.length : Int) ≤ 6 ∨ ∀ c ∈ l, ¬ Text.isBreak c = true := by
  have hwidth : (0 : Int) < 6 := by decide
  obtain ⟨hlines, hwrap⟩ := wrapping_reflows hwidth "\u00a0 a\tlongword b".toList
  exact ⟨hlines ['*', ' '] [' ', ' '], hwrap⟩

end SmallWeb
