/-
SmallWeb/Proofs/Wrap/Words.lean

Wrapping keeps the words.

A line that has been filled is a part of the sequence of chunks, and what is
dropped between two lines is blank.  Neighbouring chunks are apart, one of the
two being a run of spaces, so the words of a text are the words of its chunks;
the lines together have the same.

Main result: `exists_pieces`.  A wrapped text is its words, cut into pieces, each
behind its prefix.
-/
import SmallWeb.Proofs.Text.Words
import SmallWeb.Proofs.Wrap.Bound

namespace SmallWeb

open Text (words Apart isBlankText)

/-! ### Chunks -/

theorem isBlank_of_isBreak {c : Char} (h : Text.isBreak c = true) : Text.isBlank c = true := by
  simp only [Text.isBreak, Bool.or_eq_true, Bool.and_eq_true, decide_eq_true_eq] at h
  rcases h with rfl | h
  · decide
  · simp [Text.isBlank, Text.inRanges, Text.blankRanges, h]

/-- Making the breaks spaces does not show in the words. -/
theorem words_softenBreaks (s : List Char) : words (softenBreaks s) = words s := by
  refine Text.words_map (fun c => ?_) (fun c hc => ?_) s
  · split
    · rename_i hbreak
      rw [isBlank_of_isBreak hbreak]
      decide
    · rfl
  · exact if_neg fun hbreak => hc (isBlank_of_isBreak hbreak)

theorem nil_notMem_chunks (s : List Char) : [] ∉ chunks s := List.nil_notMem_splitBy _ _

/-- Of two neighbouring chunks one consists of spaces. -/
theorem isChain_chunks (s : List Char) : (chunks s).IsChain Apart := by
  refine (List.isChain_getLast_head_splitBy _ (softenBreaks s)).imp ?_
  rintro a b ⟨ha, hb, hdiffer⟩ c hc d hd
  obtain rfl : a.getLast ha = c := by simpa [List.getLast?_eq_some_getLast ha] using hc
  obtain rfl : b.head hb = d := by simpa [List.head?_eq_some_head hb] using hd
  have hspace : Text.isBlank ' ' = true := by decide
  by_cases hlast : a.getLast ha = ' '
  · exact .inl (hlast ▸ hspace)
  · have hhead : b.head hb = ' ' := by simpa [hlast] using hdiffer
    exact .inr (hhead ▸ hspace)

/-- **The words of a text are those of its chunks.** -/
theorem flatMap_words_chunks (s : List Char) : (chunks s).flatMap words = words s := by
  rw [← Text.words_flatten (nil_notMem_chunks s) (isChain_chunks s), chunks,
    List.flatten_splitBy, words_softenBreaks]

/-! ### Filling -/

theorem flatMap_words_dropBlankHead (cs : List (List Char)) :
    (dropBlankHead cs).flatMap words = cs.flatMap words := by
  cases cs with
  | nil => rfl
  | cons c cs =>
    simp only [dropBlankHead]
    split
    · rename_i hc
      rw [List.flatMap_cons, Text.words_eq_nil hc, List.nil_append]
    · rfl

theorem flatMap_words_dropBlankLast (cs : List (List Char)) :
    (dropBlankLast cs).flatMap words = cs.flatMap words := by
  rcases cs.eq_nil_or_concat' with rfl | ⟨cs, c, rfl⟩
  · rfl
  · unfold dropBlankLast
    rw [List.getLast?_concat]
    dsimp only
    split
    · rename_i hc
      rw [List.dropLast_concat, List.flatMap_append, List.flatMap_singleton,
        Text.words_eq_nil hc, List.append_nil]
    · rfl

theorem flatMap_words_restart (started : Bool) (cs : List (List Char)) :
    (bif started then dropBlankHead cs else cs).flatMap words = cs.flatMap words := by
  cases started with
  | true => exact flatMap_words_dropBlankHead cs
  | false => rfl

/-- **Filling keeps the words.** -/
theorem flatMap_words_fill (first later : Nat) (started : Bool) (cs : List (List Char)) :
    (fill first later started cs).flatMap (List.flatMap words) = cs.flatMap words := by
  fun_induction fill first later started cs with
  | case1 started cs hcs =>
    rw [← flatMap_words_restart started cs, hcs]
    rfl
  | case2 started cs d ds hcs next hnone ih =>
    have hnext : next.1 ++ next.2 = d :: ds := nextLine_append _ _
    have hline : next.1.flatMap words = [] := by
      rw [← flatMap_words_dropBlankLast, hnone]
      rfl
    rw [ih, ← flatMap_words_restart started cs, hcs, ← hnext, List.flatMap_append, hline,
      List.nil_append]
  | case3 started cs d ds hcs next hne ih =>
    have hnext : next.1 ++ next.2 = d :: ds := nextLine_append _ _
    rw [List.flatMap_cons, ih, flatMap_words_dropBlankLast,
      ← flatMap_words_restart started cs, hcs, ← hnext, List.flatMap_append]

/-- The words of a filled line are those of its chunks. -/
theorem words_flatten_of_mem_fill {first later : Nat} {started : Bool} {s : List Char}
    {l : List (List Char)} (hl : l ∈ fill first later started (chunks s)) :
    words l.flatten = l.flatMap words := by
  -- Chunks that are neighbours on the line were neighbours in the text.
  have hpart : l <:+: chunks s := isInfix_of_mem_fill hl
  have hchain : l.IsChain Apart := by
    obtain ⟨before, after, happend⟩ := hpart
    have hall := isChain_chunks s
    rw [← happend] at hall
    exact hall.left_of_append.right_of_append
  exact Text.words_flatten (fun hnil => nil_notMem_chunks s (hpart.subset hnil)) hchain

/-- The filled lines of a text have its words. -/
theorem flatMap_words_map_flatten_fill (first later : Nat) (started : Bool) (s : List Char) :
    ((fill first later started (chunks s)).map List.flatten).flatMap words = words s := by
  have hlines : ∀ l ∈ fill first later started (chunks s), words l.flatten = l.flatMap words :=
    fun l hl => words_flatten_of_mem_fill hl
  rw [List.flatMap_map, List.flatMap_congr hlines, flatMap_words_fill, flatMap_words_chunks]

/-! ### Lines with prefixes -/

/-- **Wrapping keeps the words.**  The lines of a text are pieces of it behind
their prefixes, and the pieces in their order have the words of the text. -/
theorem exists_pieces (width : Nat) (initial subsequent text : List Char) :
    ∃ pieces, pieces ≠ [] ∧ pieces.flatMap words = words text ∧
      wrapLine width initial subsequent text =
        (prependEach initial subsequent pieces).map Text.trimEnd := by
  unfold wrapLine
  split
  · refine ⟨[text], List.cons_ne_nil _ _, List.flatMap_singleton .., ?_⟩
    split
    · rename_i hblank
      show _ = [Text.trimEnd (initial ++ text)]
      rw [Text.trimEnd_append, if_pos hblank]
    · rfl
  · unfold wrapAt
    dsimp only
    split
    · rename_i hfill
      -- No line has been filled, so there are no words.
      refine ⟨[[]], List.cons_ne_nil _ _, ?_, ?_⟩
      · rw [← flatMap_words_map_flatten_fill _ _ false text, hfill]
        rfl
      · show _ = [Text.trimEnd (initial ++ [])]
        rw [List.append_nil]
    · rename_i hne
      refine ⟨_, ?_, flatMap_words_map_flatten_fill _ _ false text, rfl⟩
      intro hnil
      exact hne (List.map_eq_nil_iff.mp hnil)

end SmallWeb
