/-
SmallWeb/Proofs/Wrap/FixedPoint.lean

Wrapped text stays as it is.

A line that wrapping has written is trimmed, all its breaks are spaces, and it keeps to the
width or is a single word.  A line of the former kind fits, and a word is written as it is
at every width, since it is one chunk.  So each line of a wrapped text is wrapped to
itself, and a line without content, of whatever blanks it was filled, is empty.

Main result: `wrap_wrap`.
-/
import SmallWeb.Proofs.Wrap.Fitting
import SmallWeb.Proofs.Wrap.Pieces

namespace SmallWeb

open Text (isBlankText)

/-! ### Lines that have been wrapped -/

/-- Wrapping writes all breaks as spaces. -/
theorem spacesOnly_of_mem_wrapAt {width : Nat} {l m : List Char} (hm : m ∈ wrapAt width [] [] l) :
    SpacesOnly m := by
  rw [wrapAt_eq] at hm
  intro c hc hbreak
  split at hm
  · rw [List.mem_singleton.mp hm] at hc
    exact absurd hc List.not_mem_nil
  · simp only [prependEach_same, List.nil_append, List.map_map, List.mem_map,
      Function.comp_apply] at hm
    obtain ⟨line, hline, rfl⟩ := hm
    obtain ⟨chunk, hchunk, hc⟩ := List.mem_flatten.mp (Text.mem_of_mem_trimEnd hc)
    have hsoft := mem_softenBreaks_of_mem_chunks (mem_of_mem_fill hline hchunk) hc
    by_contra hne
    exact not_isBreak_of_mem_softenBreaks hsoft hne hbreak

/-- **A wrapped line is wrapped to itself.** -/
theorem reflowLine_of_mem {width : Nat} (hwidth : 0 < width) {l m : List Char}
    (hm : m ∈ reflowLine width l) : reflowLine width m = [m] := by
  by_cases hl : isBlankText l = true
  · rw [reflowLine, if_pos hl] at hm
    rw [List.mem_singleton.mp hm]
    rfl
  · have hbounded := bounded_of_mem_reflowLine hwidth hm
    rw [reflowLine, if_neg hl] at hm
    have hwrap : ∀ s, wrapLine width [] [] s = wrapAt width [] [] s := fun s => if_neg (by omega)
    have htrimmed : Text.trimEnd m = m := trimEnd_of_mem_wrapLine (hwrap l ▸ hm)
    by_cases hblank : isBlankText m = true
    · -- Of a line without content nothing is left when it is trimmed.
      rw [← htrimmed, Text.trimEnd_eq_nil_iff.mpr hblank]
      rfl
    · have hunlimited : wrapLine width [] [] m = wrapLine 0 [] [] m := by
        rcases hbounded with hle | hword
        · have hfits : ([] : List Char).length + m.length ≤ width := by simpa using hle
          exact wrapLine_of_fits hwidth hfits (spacesOnly_of_mem_wrapAt hm)
        · exact wrapLine_of_isWord width [] ⟨hblank, hword⟩
      rw [reflowLine, if_neg hblank, ← hwrap, hunlimited, wrapLine_unlimited, List.nil_append,
        htrimmed]

/-! ### Texts -/

theorem reflow_reflow {width : Nat} (hwidth : 0 < width) (text : List Char) :
    reflow width (reflow width text) = reflow width text := by
  have hfixed : ∀ m ∈ (Text.lines text).flatMap (reflowLine width), reflowLine width m = [m] := by
    intro m hm
    obtain ⟨l, -, hm⟩ := List.mem_flatMap.mp hm
    exact reflowLine_of_mem hwidth hm
  rw [reflow_eq width (reflow width text), lines_reflow hwidth, List.flatMap_congr hfixed,
    List.flatMap_singleton', ← reflow_eq]

/-- **Wrapping is idempotent.**  Wrapping succeeds at every width that is not negative, and
its result is wrapped to itself at the same width. -/
theorem wrap_wrap {width : Int} (hwidth : 0 ≤ width) (text : List Char) :
    ∃ out, wrap text width = .ok out ∧ wrap out width = .ok out := by
  have hnot : ¬ width < 0 := by omega
  by_cases hzero : width = 0
  · subst hzero
    exact ⟨text, rfl, rfl⟩
  · have hwrap : ∀ s, wrap s width = .ok (reflow width.toNat s) := by
      intro s
      rw [wrap, if_neg hnot, if_neg hzero]
    refine ⟨reflow width.toNat text, hwrap text, ?_⟩
    rw [hwrap, reflow_reflow (by omega)]

/-- Blanks of both kinds before and behind a word that is longer than the width. -/
theorem wrap_wrap_of_long_word :
    wrap "\u00a0 a\t\n\tlongword \u2003 b".toList 2 = .ok "\na\nlongword\n\nb".toList ∧
      wrap "\na\nlongword\n\nb".toList 2 = .ok "\na\nlongword\n\nb".toList := by
  have hwidth : (0 : Int) ≤ 2 := by decide
  obtain ⟨out, hout, hagain⟩ := wrap_wrap hwidth "\u00a0 a\t\n\tlongword \u2003 b".toList
  have hreflow : "\na\nlongword\n\nb".toList =
      reflow 2 "\u00a0 a\t\n\tlongword \u2003 b".toList := by decide +kernel
  obtain rfl : "\na\nlongword\n\nb".toList = out := hreflow.trans (Except.ok.inj hout)
  exact ⟨hout, hagain⟩

end SmallWeb
