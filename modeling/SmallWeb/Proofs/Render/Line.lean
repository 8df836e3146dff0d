/-
SmallWeb/Proofs/Render/Line.lean

Prefixes and separators of lines.

Prefixes compose: a line that is prefixed twice is the line prefixed by both texts
at once (`Line.prepend_prepend`).  Blanks are trimmed at each of the two steps,
and it does not matter that the inner step trims already.  So what nested
containers do to a line is told by one text.

A block is appended behind a separator, which depends on the output before it
only (`appendBlock_eq`).  So a stack of blocks is these blocks in their order,
each behind at most one empty line (`spaced_stackBlocks`).
-/
import SmallWeb.Proofs.Text.Trim
import SmallWeb.Render.Line

namespace SmallWeb

/-! ### Prefixes -/

/-- **Prefixes compose.** -/
theorem Line.prepend_prepend (outer inner : List Char) (l : Line) :
    (l.prepend inner).prepend outer = l.prepend (outer ++ inner) := by
  cases l with
  | prose t =>
    show Line.prose (Text.trimEnd (outer ++ Text.trimEnd (inner ++ t))) = .prose _
    rw [Text.trimEnd_append_trimEnd, List.append_assoc]
  | verbatim t =>
    cases t with
    | nil =>
      -- An empty line takes the inner prefix trimmed, which may be empty in turn.
      show Line.verbatim (if (Text.trimEnd inner).isEmpty then Text.trimEnd outer
        else outer ++ Text.trimEnd inner) = .verbatim (Text.trimEnd (outer ++ inner))
      rw [Text.trimEnd_append]
      simp only [List.isEmpty_iff, Text.trimEnd_eq_nil_iff]
    | cons c t =>
      show (Line.verbatim (inner ++ c :: t)).prepend outer = .verbatim (outer ++ inner ++ c :: t)
      have hne : (inner ++ c :: t).isEmpty = false := by simp
      rw [Line.prepend, hne, if_neg (by simp), List.append_assoc]

theorem Line.prepend_nil_verbatim (t : List Char) :
    (Line.verbatim t).prepend [] = .verbatim t := by
  cases t <;> rfl

theorem prependLines_same (lead : List Char) (ls : List Line) :
    prependLines lead lead ls = ls.map (Line.prepend lead) := by
  cases ls <;> rfl

theorem prependLines_prependLines (first rest first' rest' : List Char) (ls : List Line) :
    prependLines first rest (prependLines first' rest' ls) =
      prependLines (first ++ first') (rest ++ rest') ls := by
  cases ls with
  | nil => rfl
  | cons l ls =>
    simp only [prependLines, List.map_map, Line.prepend_prepend]
    congr 1
    exact List.map_congr_left fun l _ => Line.prepend_prepend rest rest' l

theorem prependLines_append (first rest : List Char) (ls ms : List Line) :
    prependLines first rest (ls ++ ms) =
      prependLines first rest ls ++ prependLines (if ls.isEmpty then first else rest) rest ms := by
  cases ls with
  | nil => rfl
  | cons l ls =>
    rw [List.isEmpty_cons, if_neg (by simp), prependLines_same]
    simp [prependLines]

/-- Prepending brings in no characters of its own. -/
theorem Line.notMem_text_prepend {c : Char} {lead s : List Char} (hlead : c ∉ lead) (hs : c ∉ s) :
    c ∉ (Line.prepend lead (.prose s)).text :=
  fun hmem => List.not_mem_append hlead hs (Text.mem_of_mem_trimEnd hmem)

theorem Line.map_text_prose (ls : List (List Char)) : (ls.map Line.prose).map Line.text = ls := by
  rw [List.map_map]
  exact List.map_id ls

theorem Line.map_text_verbatim (ls : List (List Char)) :
    (ls.map Line.verbatim).map Line.text = ls := by
  rw [List.map_map]
  exact List.map_id ls

/-! ### Separators -/

/-- What stands between an output and the next block: an empty line, unless the
output is empty or ends in one. -/
def separator (output : List Line) : List Line :=
  match output.getLast? with
  | none => []
  | some l => if l.text.isEmpty then [] else [.prose []]

theorem separator_nil : separator [] = [] := rfl

/-- A block is appended behind a separator. -/
theorem appendBlock_eq (output block : List Line) :
    appendBlock output block =
      if block.isEmpty then output else output ++ separator output ++ block := by
  unfold appendBlock separator
  split
  · rfl
  · rcases hlast : output.getLast? with - | l
    · rw [List.getLast?_eq_none_iff.mp hlast]
      rfl
    · dsimp only
      split <;> simp

/-- It is the last block with lines that decides about the separator. -/
theorem separator_append (output : List Line) {block : List Line} (h : block ≠ []) :
    separator (output ++ block) = separator block := by
  unfold separator
  rw [List.getLast?_append_of_ne_nil output h]

theorem nil_appendBlock (block : List Line) : appendBlock [] block = block := by
  cases block <;> rfl

/-- **Blocks can be appended in any grouping.** -/
theorem appendBlock_assoc (output block block' : List Line) :
    appendBlock (appendBlock output block) block' =
      appendBlock output (appendBlock block block') := by
  cases block with
  | nil => rw [nil_appendBlock]; rfl
  | cons l ls =>
    cases block' with
    | nil => rfl
    | cons l' ls' =>
      simp only [appendBlock_eq, List.isEmpty_cons, Bool.false_eq_true, if_false]
      rw [separator_append _ (List.cons_ne_nil l ls)]
      simp

theorem foldl_appendBlock (blocks : List (List Line)) (output : List Line) :
    blocks.foldl appendBlock output = appendBlock output (stackBlocks blocks) := by
  induction blocks generalizing output with
  | nil => rfl
  | cons block blocks ih =>
    have hstack : stackBlocks (block :: blocks) =
        appendBlock (appendBlock [] block) (stackBlocks blocks) := ih (appendBlock [] block)
    rw [List.foldl_cons, ih, hstack, ← appendBlock_assoc, ← appendBlock_assoc]
    rfl

/-- **A stack of blocks can be cut anywhere.** -/
theorem stackBlocks_append (blocks blocks' : List (List Line)) :
    stackBlocks (blocks ++ blocks') = appendBlock (stackBlocks blocks) (stackBlocks blocks') := by
  unfold stackBlocks
  rw [List.foldl_append]
  exact foldl_appendBlock blocks' _

/-- Behind a separator an output ends in an empty line, if there is any output,
and it has no second one at its end. -/
theorem exists_append_separator {output : List Line} (h : output ≠ []) :
    ∃ before, (output ++ separator output).map Line.text = before ++ [[]] ∧
      (output.map Line.text = before ∨ output.map Line.text = before ++ [[]]) := by
  obtain ⟨before, l, rfl⟩ : ∃ before l, output = before ++ [l] :=
    ⟨_, _, (List.dropLast_append_getLast h).symm⟩
  unfold separator
  rw [List.getLast?_concat]
  dsimp only
  by_cases hl : l.text.isEmpty = true
  · have htext : (before ++ [l]).map Line.text = before.map Line.text ++ [[]] := by
      rw [List.map_append, List.map_singleton, List.isEmpty_iff.mp hl]
    exact ⟨before.map Line.text, by rw [if_pos hl, List.append_nil, htext], .inr htext⟩
  · exact ⟨(before ++ [l]).map Line.text, by rw [if_neg hl, List.map_append]; rfl, .inl rfl⟩

/-- Blocks of lines one after the other, each behind at most one empty line. -/
inductive Spaced : List (List Line) → List Line → Prop
  | nil : Spaced [] []
  | cons {block : List Line} {blocks : List (List Line)} {gap rest : List Line} :
      gap = [] ∨ gap = [.prose []] → Spaced blocks rest →
      Spaced (block :: blocks) (gap ++ block ++ rest)

theorem separator_eq_or (output : List Line) :
    separator output = [] ∨ separator output = [.prose []] := by
  unfold separator
  split
  · exact .inl rfl
  · split
    · exact .inl rfl
    · exact .inr rfl

/-- Appended blocks stand behind the output, each behind its separator. -/
theorem exists_spaced_foldl (blocks : List (List Line)) (output : List Line) :
    ∃ rest, blocks.foldl appendBlock output = output ++ rest ∧ Spaced blocks rest := by
  induction blocks generalizing output with
  | nil => exact ⟨[], (List.append_nil output).symm, .nil⟩
  | cons block blocks ih =>
    rw [List.foldl_cons, appendBlock_eq]
    by_cases hempty : block.isEmpty = true
    · obtain ⟨rest, hrest, hspaced⟩ := ih output
      obtain rfl := List.isEmpty_iff.mp hempty
      exact ⟨rest, by rw [if_pos hempty, hrest], .cons (.inl rfl) hspaced⟩
    · obtain ⟨rest, hrest, hspaced⟩ := ih (output ++ separator output ++ block)
      refine ⟨separator output ++ block ++ rest, ?_, .cons (separator_eq_or output) hspaced⟩
      rw [if_neg hempty, hrest]
      simp only [List.append_assoc]

theorem spaced_stackBlocks (blocks : List (List Line)) : Spaced blocks (stackBlocks blocks) := by
  obtain ⟨rest, hrest, hspaced⟩ := exists_spaced_foldl blocks []
  rw [stackBlocks, hrest]
  exact hspaced

theorem Spaced.forall_mem {P : Line → Prop} (hblank : P (.prose [])) {blocks : List (List Line)}
    {ls : List Line} (hspaced : Spaced blocks ls) (h : ∀ block ∈ blocks, ∀ l ∈ block, P l) :
    ∀ l ∈ ls, P l := by
  induction hspaced with
  | nil =>
    intro l hl
    exact absurd hl List.not_mem_nil
  | @cons block blocks gap rest hgap _ ih =>
    have hgap : ∀ l ∈ gap, P l := by
      rcases hgap with rfl | rfl
      · simp
      · simpa using hblank
    have hrest : ∀ l ∈ rest, P l := ih fun c hc => h c (List.mem_cons_of_mem block hc)
    intro l hl
    simp only [List.mem_append] at hl
    rcases hl with (hl | hl) | hl
    · exact hgap l hl
    · exact h block List.mem_cons_self l hl
    · exact hrest l hl

/-- What holds of the lines of each block, and of empty lines, holds of a stack. -/
theorem forall_mem_stackBlocks {P : Line → Prop} (hblank : P (.prose []))
    {blocks : List (List Line)} (h : ∀ block ∈ blocks, ∀ l ∈ block, P l) :
    ∀ l ∈ stackBlocks blocks, P l :=
  (spaced_stackBlocks blocks).forall_mem hblank h

end SmallWeb
