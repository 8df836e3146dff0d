/-
SmallWeb/Proofs/Wrap/Fitting.lean

Lines that fit as they are.

Without a limit a line of text is written as it is, and with a limit it is cut into
chunks, filled and put together again.  Where the whole line fits behind its prefix, all
chunks go into one line, and what filling drops at its end would have been trimmed anyway.
Then both ways give the same line, provided that all breaks in it are spaces: filling
writes every break as a space.

A word is a single chunk, so it is written as it is at every width, however long it is.

Main results: `wrapLine_of_fits` and `wrapLine_of_isWord`.
-/
import SmallWeb.Proofs.Wrap.Words

namespace SmallWeb

open Text (isBlankText)

/-! ### Chunks -/

/-- All breaks in a text are spaces. -/
def SpacesOnly (s : List Char) : Prop := ∀ c ∈ s, Text.isBreak c = true → c = ' '

theorem softenBreaks_eq_self {s : List Char} (h : SpacesOnly s) : softenBreaks s = s := by
  have hsoft : ∀ c ∈ s, (if Text.isBreak c then ' ' else c) = c := by
    intro c hc
    split
    · rename_i hbreak
      exact (h c hc hbreak).symm
    · rfl
  rw [softenBreaks, List.map_congr_left hsoft, List.map_id']

theorem flatten_chunks {s : List Char} (h : SpacesOnly s) : (chunks s).flatten = s := by
  rw [chunks, List.flatten_splitBy, softenBreaks_eq_self h]

/-! ### Filling -/

/-- Chunks that fit together are all taken. -/
theorem takeFitting_of_le {room : Nat} {cs : List (List Char)} (h : cs.flatten.length ≤ room) :
    takeFitting room cs = (cs, []) := by
  induction cs generalizing room with
  | nil => rfl
  | cons c cs ih =>
    rw [List.flatten_cons, List.length_append] at h
    have hfirst : c.length ≤ room := by omega
    have hrest : cs.flatten.length ≤ room - c.length := by omega
    rw [takeFitting, if_pos hfirst, ih hrest]

theorem nextLine_of_le {room : Nat} {cs : List (List Char)} (h : cs.flatten.length ≤ room) :
    nextLine room cs = (cs, []) := by
  unfold nextLine
  rw [takeFitting_of_le h]
  cases cs <;> rfl

theorem fill_nil (first later : Nat) (started : Bool) : fill first later started [] = [] := by
  unfold fill
  cases started <;> rfl

/-- **Chunks that fit together** fill one line, or none if nothing is left of them. -/
theorem fill_of_le {first later : Nat} {cs : List (List Char)} (h : cs.flatten.length ≤ first) :
    fill first later false cs = if dropBlankLast cs = [] then [] else [dropBlankLast cs] := by
  cases cs with
  | nil => rw [fill_nil, dropBlankLast, List.getLast?_nil, if_pos rfl]
  | cons d ds =>
    have hnext : nextLine first (d :: ds) = (d :: ds, []) := nextLine_of_le h
    unfold fill
    simp only [cond_false, hnext, fill_nil]
    cases hline : dropBlankLast (d :: ds) with
    | nil => rw [if_pos rfl]
    | cons e es => rw [if_neg (List.cons_ne_nil e es)]

/-- What is dropped at the end of a line would be trimmed. -/
theorem trimEnd_append_dropBlankLast (lead : List Char) (cs : List (List Char)) :
    Text.trimEnd (lead ++ (dropBlankLast cs).flatten) = Text.trimEnd (lead ++ cs.flatten) := by
  rcases cs.eq_nil_or_concat' with rfl | ⟨before, c, rfl⟩
  · rfl
  · unfold dropBlankLast
    rw [List.getLast?_concat]
    dsimp only
    split
    · rename_i hc
      rw [List.dropLast_concat, List.flatten_append, List.flatten_singleton, ← List.append_assoc,
        Text.trimEnd_append _ c, if_pos hc]
    · rfl

/-! ### Lines with a prefix -/

theorem wrapLine_unlimited (lead text : List Char) :
    wrapLine 0 lead lead text = [Text.trimEnd (lead ++ text)] := by
  rw [wrapLine, if_pos rfl]
  split
  · rename_i hblank
    rw [Text.trimEnd_append, if_pos hblank]
  · rfl

/-- **A line that fits** is written as without a limit. -/
theorem wrapLine_of_fits {width : Nat} {lead text : List Char} (hlead : lead.length < width)
    (hfits : lead.length + text.length ≤ width) (hspaces : SpacesOnly text) :
    wrapLine width lead lead text = wrapLine 0 lead lead text := by
  have hlimit : max width (max (lead.length + 1) (lead.length + 1)) = width := by omega
  have hchunks : (chunks text).flatten.length ≤ width - lead.length := by
    rw [flatten_chunks hspaces]
    omega
  have htrim := trimEnd_append_dropBlankLast lead (chunks text)
  rw [flatten_chunks hspaces] at htrim
  rw [wrapLine_unlimited, ← htrim, wrapLine, if_neg (by omega), wrapAt, hlimit,
    fill_of_le hchunks]
  by_cases hline : dropBlankLast (chunks text) = []
  · rw [if_pos hline, hline, List.flatten_nil, List.append_nil]
  · rw [if_neg hline]
    rfl

/-! ### Words at every width -/

/-- A word is one chunk. -/
theorem chunks_of_isWord {s : List Char} (h : IsWord s) : chunks s = [s] := by
  have hspaces : SpacesOnly s := fun c hc hbreak => absurd hbreak (h.2 c hc)
  have hne : s ≠ [] := by
    rintro rfl
    exact h.1 rfl
  have hletter : ∀ c ∈ s, (c == ' ') = false := by
    intro c hc
    refine beq_eq_false_iff_ne.mpr ?_
    rintro rfl
    exact h.2 ' ' hc (by decide)
  rw [chunks, softenBreaks_eq_self hspaces]
  refine List.splitBy_of_isChain hne (List.isChain_iff_getElem.mpr fun i hi => ?_)
  simp [hletter _ (List.getElem_mem _)]

theorem nextLine_singleton (room : Nat) (c : List Char) : nextLine room [c] = ([c], []) := by
  by_cases hc : c.length ≤ room
  · rw [nextLine, takeFitting, if_pos hc]
    rfl
  · rw [nextLine, takeFitting, if_neg hc]

theorem dropBlankLast_singleton {c : List Char} (hc : ¬ isBlankText c = true) :
    dropBlankLast [c] = [c] := by
  rw [dropBlankLast, List.getLast?_singleton]
  exact if_neg hc

/-- A single chunk with content fills a line, whether it fits or not. -/
theorem fill_singleton (first later : Nat) {c : List Char} (hc : ¬ isBlankText c = true) :
    fill first later false [c] = [[c]] := by
  unfold fill
  simp only [cond_false, nextLine_singleton, dropBlankLast_singleton hc, fill_nil]

/-- **A word is written as without a limit**, at every width. -/
theorem wrapLine_of_isWord (width : Nat) (lead : List Char) {s : List Char} (h : IsWord s) :
    wrapLine width lead lead s = wrapLine 0 lead lead s := by
  by_cases hwidth : width = 0
  · rw [hwidth]
  · rw [wrapLine_unlimited, wrapLine, if_neg hwidth, wrapAt, chunks_of_isWord h,
      fill_singleton _ _ h.1]
    simp [prependEach]

end SmallWeb
