/-
SmallWeb/Proofs/Wrap/Content.lean

Which wrapped lines have content.

Filling drops one blank chunk at the end of a line and one at the beginning of the next.
That is all there is to drop where blank chunks are runs of spaces, since no two runs of
spaces are neighbours: such a line ends in a chunk with content.  A chunk of blanks that
are no breaks may stand next to a run of spaces, and then a line may be left with nothing
but blanks.

Main results: `content_of_mem_wrapLine` and `eq_nil_of_mem_wrapLine`.
-/
import SmallWeb.Proofs.Wrap.Pieces

namespace SmallWeb

open Text (isBlankText)

/-! ### Chunks -/

/-- A blank chunk is a run of spaces: no blanks but breaks stand between two breaks. -/
def BlanksBreak (s : List Char) : Prop := ∀ c ∈ chunks s, isBlankText c = true → ∀ d ∈ c, d = ' '

instance (s : List Char) : Decidable (BlanksBreak s) :=
  decidable_of_iff ((chunks s).all fun c => !isBlankText c || c.all (· == ' '))
    (by simp [BlanksBreak, or_iff_not_imp_left])

/-- Of two neighbours one at least has content. -/
def Alternating (cs : List (List Char)) : Prop :=
  cs.IsChain fun a b => ¬ (isBlankText a = true ∧ isBlankText b = true)

/-- Two runs of spaces are no neighbours. -/
theorem BlanksBreak.alternating {s : List Char} (h : BlanksBreak s) : Alternating (chunks s) := by
  refine (List.isChain_getLast_head_splitBy _ (softenBreaks s)).imp_of_mem_imp ?_
  rintro a b ha hb ⟨hane, hbne, hdiffer⟩ ⟨hablank, hbblank⟩
  have hlast : a.getLast hane = ' ' := h a ha hablank _ (List.getLast_mem hane)
  have hhead : b.head hbne = ' ' := h b hb hbblank _ (List.head_mem hbne)
  simp [hlast, hhead] at hdiffer

/-! ### Filling -/

/-- A line whose last chunk has content. -/
def EndsInContent (line : List (List Char)) : Prop := ∃ c ∈ line.getLast?, ¬ isBlankText c = true

theorem EndsInContent.flatten {line : List (List Char)} (h : EndsInContent line) :
    ¬ isBlankText line.flatten = true := by
  obtain ⟨c, hc, hcontent⟩ := h
  intro hblank
  refine hcontent (List.all_eq_true.mpr fun d hd => List.all_eq_true.mp hblank d ?_)
  exact List.mem_flatten.mpr ⟨c, List.mem_of_getLast? hc, hd⟩

/-- Dropping one chunk suffices. -/
theorem Alternating.endsInContent {cs : List (List Char)} (h : Alternating cs)
    (hne : dropBlankLast cs ≠ []) : EndsInContent (dropBlankLast cs) := by
  rcases cs.eq_nil_or_concat' with rfl | ⟨before, c, rfl⟩
  · exact absurd rfl hne
  · unfold dropBlankLast at hne ⊢
    rw [List.getLast?_concat] at hne ⊢
    dsimp only at hne ⊢
    by_cases hc : isBlankText c = true
    · rw [if_pos hc, List.dropLast_concat] at hne ⊢
      -- The neighbour of the dropped chunk has content.
      obtain ⟨before, b, rfl⟩ := (before.eq_nil_or_concat').resolve_left hne
      have hneighbours := (List.isChain_append.mp h).2.2 b (by simp) c (by simp)
      exact ⟨b, by simp, fun hb => hneighbours ⟨hb, hc⟩⟩
    · rw [if_neg hc]
      exact ⟨c, by simp, hc⟩

/-- **Every filled line has content.** -/
theorem Alternating.endsInContent_of_mem_fill {first later : Nat} {started : Bool}
    {cs line : List (List Char)} (h : Alternating cs) (hline : line ∈ fill first later started cs) :
    EndsInContent line := by
  fun_induction fill first later started cs with
  | case1 => exact absurd hline List.not_mem_nil
  | case2 started cs d ds hcs next hnone ih =>
    obtain ⟨dropped, hstart⟩ := hcs ▸ isSuffix_restart started cs
    have hrest : next.1 ++ next.2 = d :: ds := nextLine_append _ _
    rw [Alternating, ← hstart, ← hrest] at h
    exact ih h.right_of_append.right_of_append hline
  | case3 started cs d ds hcs next hne ih =>
    obtain ⟨dropped, hstart⟩ := hcs ▸ isSuffix_restart started cs
    have hrest : next.1 ++ next.2 = d :: ds := nextLine_append _ _
    rw [Alternating, ← hstart, ← hrest] at h
    have hparts := h.right_of_append
    rcases List.mem_cons.mp hline with rfl | hline
    · exact Alternating.endsInContent hparts.left_of_append hne
    · exact ih hparts.right_of_append hline

/-! ### Lines with a prefix -/

theorem content_append_left {a : List Char} (ha : ¬ isBlankText a = true) (b : List Char) :
    ¬ isBlankText (a ++ b) = true := by
  rw [Text.isBlankText_append, Bool.and_eq_true]
  exact fun hblank => ha hblank.1

theorem content_append_right (a : List Char) {b : List Char} (hb : ¬ isBlankText b = true) :
    ¬ isBlankText (a ++ b) = true := by
  rw [Text.isBlankText_append, Bool.and_eq_true]
  exact fun hblank => hb hblank.2

theorem content_trimEnd {s : List Char} (h : ¬ isBlankText s = true) :
    ¬ isBlankText (Text.trimEnd s) = true := by
  rwa [Text.isBlankText_trimEnd]

/-- A line has content if the prefix has. -/
theorem content_of_mem_wrapLine_of_lead {width : Nat} {lead text l : List Char}
    (hlead : ¬ isBlankText lead = true) (hl : l ∈ wrapLine width lead lead text) :
    ¬ isBlankText l = true := by
  obtain ⟨pieces, -, -, hlines⟩ := exists_pieces width lead lead text
  rw [hlines, prependEach_same, List.map_map] at hl
  obtain ⟨piece, -, rfl⟩ := List.mem_map.mp hl
  exact content_trimEnd (content_append_left hlead piece)

/-- **The lines of a text with content have content**, without a limit or where the text
has no blanks but breaks between two breaks. -/
theorem content_of_mem_wrapLine {width : Nat} {lead text l : List Char}
    (htext : ¬ isBlankText text = true) (hbreak : width = 0 ∨ BlanksBreak text)
    (hl : l ∈ wrapLine width lead lead text) : ¬ isBlankText l = true := by
  have hline : ∀ piece, ¬ isBlankText piece = true →
      ¬ isBlankText (Text.trimEnd (lead ++ piece)) = true :=
    fun piece hpiece => content_trimEnd (content_append_right lead hpiece)
  unfold wrapLine at hl
  by_cases hwidth : width = 0
  · rw [if_pos hwidth, if_neg htext] at hl
    obtain rfl := List.mem_singleton.mp hl
    exact hline text htext
  · obtain ⟨first, rest, hfilled⟩ := exists_filled width lead lead htext
    rw [if_neg hwidth, wrapAt_of_filled hfilled, ← List.map_cons
      (f := fun l => Text.trimEnd (lead ++ List.flatten l)), ← hfilled] at hl
    obtain ⟨line, hmem, rfl⟩ := List.mem_map.mp hl
    have halternating := (hbreak.resolve_left hwidth).alternating
    exact hline _ (halternating.endsInContent_of_mem_fill hmem).flatten

/-- **A text without content has empty lines**, if no prefix is there to show. -/
theorem eq_nil_of_mem_wrapLine {width : Nat} {text l : List Char}
    (htext : isBlankText text = true) (hl : l ∈ wrapLine width [] [] text) : l = [] := by
  obtain ⟨pieces, -, hwords, hlines⟩ := exists_pieces width [] [] text
  rw [hlines, prependEach_same, List.map_map] at hl
  obtain ⟨piece, hpiece, rfl⟩ := List.mem_map.mp hl
  rw [Text.words_eq_nil htext, List.flatMap_eq_nil_iff] at hwords
  exact Text.trimEnd_eq_nil_iff.mpr (Text.words_eq_nil_iff.mp (hwords piece hpiece))

end SmallWeb
