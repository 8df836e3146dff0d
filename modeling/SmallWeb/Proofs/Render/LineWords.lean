/-
SmallWeb/Proofs/Render/LineWords.lean

The words of lines.

Between a text and the lines of an output stand wrapping, trimming, prefixes and
separators.  Each of these has one lemma here that says what it does to the words
of lines, and none of them loses a word: wrapping and separators leave the words
as they are, and a prefix that is empty or ends in a blank puts its own words
before those of the line.
-/
import SmallWeb.Proofs.Render.Layout
import SmallWeb.Proofs.Wrap.Words

namespace SmallWeb

open Text (words EndsBlank isBlankText)

/-! ### Lines -/

/-- The words of lines. -/
def lineWords (ls : List Line) : List (List Char) := ls.flatMap fun l => words l.text

theorem lineWords_cons (l : Line) (ls : List Line) :
    lineWords (l :: ls) = words l.text ++ lineWords ls := List.flatMap_cons

theorem lineWords_append (ls ms : List Line) :
    lineWords (ls ++ ms) = lineWords ls ++ lineWords ms := List.flatMap_append

theorem lineWords_flatten (lss : List (List Line)) :
    lineWords lss.flatten = lss.flatMap lineWords := by
  induction lss with
  | nil => rfl
  | cons ls lss ih => rw [List.flatten_cons, lineWords_append, ih, List.flatMap_cons]

theorem lineWords_map_prose (ls : List (List Char)) :
    lineWords (ls.map .prose) = ls.flatMap words := List.flatMap_map ..

theorem lineWords_map_verbatim (ls : List (List Char)) :
    lineWords (ls.map .verbatim) = ls.flatMap words := List.flatMap_map ..

/-- The words of an output are those of its lines. -/
theorem words_unlines_map_text (ls : List Line) :
    words (Text.unlines (ls.map Line.text)) = lineWords ls := by
  rw [Text.words_unlines, List.flatMap_map]
  rfl

theorem isBlank_of_eq_newline {c : Char} (hc : (c == '\n') = true) : Text.isBlank c = true := by
  rw [eq_of_beq hc]
  decide

/-! #### Prefixes and separators #### -/

/-- A prefix puts its words before those of the line. -/
theorem words_prepend {lead : List Char} (hlead : EndsBlank lead) (l : Line) :
    words (l.prepend lead).text = words lead ++ words l.text := by
  cases l with
  | prose t =>
    show words (Text.trimEnd (lead ++ t)) = _
    rw [Text.words_trimEnd]
    exact hlead.words_append t
  | verbatim t =>
    show words (if t.isEmpty then Text.trimEnd lead else lead ++ t) = _
    split
    · rename_i hempty
      obtain rfl := List.isEmpty_iff.mp hempty
      show _ = words lead ++ []
      rw [Text.words_trimEnd, List.append_nil]
    · exact hlead.words_append t

/-- Behind a first prefix and blanks lines have its words and their own. -/
theorem lineWords_prependLines {first rest : List Char} (hfirst : EndsBlank first)
    (hrest : isBlankText rest = true) {ls : List Line} (hne : ls ≠ []) :
    lineWords (prependLines first rest ls) = words first ++ lineWords ls := by
  cases ls with
  | nil => exact absurd rfl hne
  | cons l ls =>
    have hlines : lineWords (ls.map (Line.prepend rest)) = lineWords ls := by
      unfold lineWords
      rw [List.flatMap_map]
      refine List.flatMap_congr fun m _ => ?_
      rw [words_prepend (Text.endsBlank_of_isBlankText hrest), Text.words_eq_nil hrest,
        List.nil_append]
    rw [prependLines, lineWords_cons, words_prepend hfirst, hlines, lineWords_cons,
      List.append_assoc]

/-- Separators have no words. -/
theorem Spaced.lineWords_eq {blocks : List (List Line)} {ls : List Line}
    (h : Spaced blocks ls) : lineWords ls = blocks.flatMap lineWords := by
  induction h with
  | nil => rfl
  | @cons block blocks gap rest hgap _ ih =>
    have hnone : lineWords gap = [] := by
      rcases hgap with rfl | rfl <;> rfl
    rw [lineWords_append, lineWords_append, hnone, ih, List.nil_append, List.flatMap_cons]

theorem lineWords_stackBlocks (blocks : List (List Line)) :
    lineWords (stackBlocks blocks) = blocks.flatMap lineWords :=
  (spaced_stackBlocks blocks).lineWords_eq

/-! #### Wrapped text #### -/

/-- The words of wrapped text are those of its pieces, each behind the words of
the prefix. -/
theorem exists_words_wrapLine (width : Nat) {lead : List Char} (hlead : EndsBlank lead)
    (text : List Char) :
    ∃ pieces : List (List Char), pieces.flatMap words = words text ∧
      (wrapLine width lead lead text).flatMap words =
        pieces.flatMap fun piece => words lead ++ words piece := by
  obtain ⟨pieces, -, hwords, hlines⟩ := exists_pieces width lead lead text
  refine ⟨pieces, hwords, ?_⟩
  rw [hlines, prependEach_same, List.map_map, List.flatMap_map]
  refine List.flatMap_congr fun piece _ => ?_
  show words (Text.trimEnd (lead ++ piece)) = _
  rw [Text.words_trimEnd, hlead.words_append]

theorem lineWords_proseBlock_eq (width : Nat) (lead text : List Char) :
    lineWords (proseBlock width lead text) =
      (Text.lines text).flatMap fun l => (wrapLine width lead lead l).flatMap words := by
  unfold proseBlock
  rw [lineWords_map_prose, List.flatMap_assoc]

/-- **Running text keeps its words** in every width, behind blanks. -/
theorem lineWords_proseBlock {lead : List Char} (hlead : isBlankText lead = true) (width : Nat)
    (text : List Char) : lineWords (proseBlock width lead text) = words text := by
  rw [lineWords_proseBlock_eq, ← Text.flatMap_words_lines text]
  refine List.flatMap_congr fun l _ => ?_
  obtain ⟨pieces, hpieces, hlines⟩ :=
    exists_words_wrapLine width (Text.endsBlank_of_isBlankText hlead) l
  rw [hlines, Text.words_eq_nil hlead, ← hpieces]
  rfl

/-- Running text loses no words behind a mark. -/
theorem words_sublist_proseBlock {lead : List Char} (hlead : EndsBlank lead) (width : Nat)
    (text : List Char) : (words text).Sublist (lineWords (proseBlock width lead text)) := by
  rw [lineWords_proseBlock_eq, ← Text.flatMap_words_lines text]
  refine List.Sublist.flatMap_right _ fun l _ => ?_
  obtain ⟨pieces, hpieces, hlines⟩ := exists_words_wrapLine width hlead l
  rw [hlines, ← hpieces]
  exact List.Sublist.flatMap_right _ fun piece _ => List.sublist_append_right _ _

end SmallWeb
