/-
SmallWeb/Proofs/Render/FingerCode.lean

Code on the line of Finger.

The segments with content stand on the line in their order, each behind a space, and
the text of a code block is not changed on the way there except at its line ends.  So
every code block is found in the row of segments, and no two of them overlap
(`Finger.inOrder_joinSegments`).

In compact mode the row as a whole is trimmed.  Prose has no blanks at its ends by
then, so what is trimmed belongs to code: the indentation of a code block that comes
first, and the blanks at the end of one that comes last.  The line is the row of
segments exactly where there are no such blanks (`Finger.trim_joinSegments_iff`).

Main result: `finger_keeps_code`.
-/
import SmallWeb.Proofs.Groups
import SmallWeb.Proofs.Render.Finger
import SmallWeb.Proofs.Text.Flush

namespace SmallWeb

open Text (words unwords isBlankText)

namespace Finger

/-! ### Segments on one line -/

/-- A code block on one line. -/
def codeOnLine (literal : List Char) : List Char := flattenLines (literalBody literal)

theorem flattenLines_eq_nil_iff {s : List Char} : flattenLines s = [] ↔ s = [] := by
  fun_cases flattenLines s <;> simp

theorem flushLeft_flattenLines (s : List Char) :
    Text.FlushLeft (flattenLines s) ↔ Text.FlushLeft s := by
  have hspace : Text.isBlank ' ' = true := by decide
  have hreturn : Text.isBlank '\r' = true := by decide
  have hnewline : Text.isBlank '\n' = true := by decide
  fun_cases flattenLines s <;> simp [Text.FlushLeft, hspace, hreturn, hnewline]

/-- A line end at the end of a text is a blank there, and it becomes one. -/
theorem flushRight_flattenLines (s : List Char) :
    Text.FlushRight (flattenLines s) ↔ Text.FlushRight s := by
  have hspace : Text.isBlank ' ' = true := by decide
  have hnewline : Text.isBlank '\n' = true := by decide
  fun_induction flattenLines s with
  | case1 s ih =>
    by_cases hs : s = []
    · subst hs
      simp [Text.FlushRight, flattenLines, hspace, hnewline]
    · have hflat := mt flattenLines_eq_nil_iff.mp hs
      rw [Text.flushRight_cons hflat, Text.flushRight_cons (List.cons_ne_nil _ s),
        Text.flushRight_cons hs]
      exact ih
  | case2 s ih =>
    by_cases hs : s = []
    · subst hs
      simp [Text.FlushRight, flattenLines, hspace, hnewline]
    · have hflat := mt flattenLines_eq_nil_iff.mp hs
      rw [Text.flushRight_cons hflat, Text.flushRight_cons hs]
      exact ih
  | case3 c s _ _ ih =>
    by_cases hs : s = []
    · subst hs
      rfl
    · have hflat := mt flattenLines_eq_nil_iff.mp hs
      rw [Text.flushRight_cons hflat, Text.flushRight_cons hs]
      exact ih
  | case4 => rfl

/-- A text on one line already. -/
theorem flattenLines_of_notMem {s : List Char} (h : '\n' ∉ s) : flattenLines s = s := by
  fun_induction flattenLines s with
  | case1 s ih => simp at h
  | case2 s ih => simp at h
  | case3 c s _ _ ih => rw [ih fun hs => h (List.mem_cons_of_mem c hs)]
  | case4 => rfl

/-- **A code block of one line** stands on the line as it is. -/
theorem codeOnLine_of_notMem {literal : List Char} (h : '\n' ∉ literal) :
    codeOnLine literal = literal := by
  have hbody : literalBody literal = literal := by
    show literal.rdropWhile (· == '\n') = literal
    rw [List.rdropWhile_eq_self_iff]
    intro hne hlast
    have hmem := List.getLast_mem hne
    rw [eq_of_beq hlast] at hmem
    exact h hmem
  rw [codeOnLine, hbody, flattenLines_of_notMem h]

theorem isBlankText_literalBody (literal : List Char) :
    isBlankText (literalBody literal) = isBlankText literal :=
  Text.isBlankText_congr (Text.words_dropEndWhile (fun _ => isBlank_of_eq_newline) literal)

/-- The segments that have content. -/
def contents (ss : List Segment) : List Segment := ss.filter fun s => !isBlankText s.text

/-- The row of segments is made of those that have content. -/
theorem joinSegments_eq_contents (compact : Bool) (ss : List Segment) :
    joinSegments compact ss = unwords ((contents ss).map (segmentText compact)) := by
  rw [joinSegments_eq, List.filter_map]
  refine congrArg (fun ts => unwords (List.map _ ts)) (List.filter_congr fun s _ => ?_)
  exact congrArg not (Text.isBlankText_congr (words_segmentText compact s))

theorem segmentText_ne_nil (compact : Bool) {ss : List Segment} {s : Segment}
    (hs : s ∈ contents ss) : segmentText compact s ≠ [] := by
  intro hnil
  have hblank : isBlankText (segmentText compact s) = true := by
    rw [hnil]
    rfl
  rw [Text.isBlankText_congr (words_segmentText compact s)] at hblank
  simpa [hblank] using (List.mem_filter.mp hs).2

/-! ### Code in the row of segments -/

theorem segmentText_code (compact : Bool) {s : Segment} (hs : s.isCode = true) :
    segmentText compact s = flattenLines s.text := by
  unfold segmentText
  rw [hs, Bool.not_true, Bool.and_false]
  rfl

/-- **The code stands in the row of segments**, in order and without overlap. -/
theorem inOrder_unwords (compact : Bool) (ss : List Segment) :
    InOrder ((codeTexts ss).map flattenLines) (unwords (ss.map (segmentText compact))) := by
  induction ss with
  | nil => trivial
  | cons s ss ih =>
    have hfirst : InOrder ((codeTexts [s]).map flattenLines) (segmentText compact s) := by
      cases hs : s.isCode with
      | false =>
        rw [codeTexts, List.filter_cons_of_neg (by simp [hs])]
        trivial
      | true =>
        rw [codeTexts, List.filter_cons_of_pos hs, segmentText_code compact hs]
        exact InOrder.singleton _
    rw [← List.singleton_append, codeTexts_append, List.map_append]
    cases ss with
    | nil =>
      have hnone : InOrder ((codeTexts []).map flattenLines) [] := trivial
      have happend := hfirst.append hnone
      rw [List.append_nil] at happend
      rw [List.append_nil, List.map_singleton, Text.unwords_singleton]
      exact happend
    | cons s' ss =>
      rw [List.singleton_append, List.map_cons, List.map_cons, Text.unwords_cons_cons]
      exact hfirst.append (ih.prepend [' '])

/-- The code blocks of a document that have content, each on one line. -/
def codes (doc : Value) : List (List Char) :=
  ((literalsAt doc.allPlaces).filter fun literal => !isBlankText literal).map codeOnLine

theorem inOrder_joinSegments {doc : Value} (hproper : ProperTree maxDepth doc)
    {ss : List Segment} (hss : segments false doc = .ok ss) (compact : Bool) :
    InOrder (codes doc) (joinSegments compact ss) := by
  have hcodes : codes doc = (codeTexts (contents ss)).map flattenLines := by
    have htexts : codeTexts (contents ss) = (codeTexts ss).filter fun t => !isBlankText t := by
      unfold codeTexts contents
      rw [List.filter_map, List.filter_filter, List.filter_filter]
      exact congrArg _ (List.filter_congr fun s _ => Bool.and_comm _ _)
    rw [htexts, codeTexts_segments hproper hss, List.filter_map, List.map_map]
    unfold codes
    refine congrArg (List.map codeOnLine) (List.filter_congr fun literal _ => ?_)
    exact congrArg not (isBlankText_literalBody literal).symm
  rw [hcodes, joinSegments_eq_contents]
  exact inOrder_unwords compact (contents ss)

/-! ### What is trimmed -/

/-- The segments begin and end without blanks, as far as it is code that they begin or
end with. -/
def EdgesKept (ss : List Segment) : Prop :=
  (∀ s ∈ (contents ss).head?, s.isCode = true → Text.FlushLeft s.text) ∧
    ∀ s ∈ (contents ss).getLast?, s.isCode = true → Text.FlushRight s.text

instance (ss : List Segment) : Decidable (EdgesKept ss) :=
  inferInstanceAs (Decidable (_ ∧ _))

/-- Prose has no blanks at its ends in compact mode. -/
theorem flush_segmentText {s : Segment} (hs : s.isCode = false) :
    Text.FlushLeft (segmentText true s) ∧ Text.FlushRight (segmentText true s) := by
  rw [← Text.trim_eq_self_iff, segmentText_prose hs, Text.trim_unwords_words]

theorem flushLeft_segmentText_iff (s : Segment) :
    Text.FlushLeft (segmentText true s) ↔ (s.isCode = true → Text.FlushLeft s.text) := by
  cases hs : s.isCode with
  | false => simp [(flush_segmentText hs).1]
  | true => simp [segmentText_code true hs, flushLeft_flattenLines]

theorem flushRight_segmentText_iff (s : Segment) :
    Text.FlushRight (segmentText true s) ↔ (s.isCode = true → Text.FlushRight s.text) := by
  cases hs : s.isCode with
  | false => simp [(flush_segmentText hs).2]
  | true => simp [segmentText_code true hs, flushRight_flattenLines]

/-- **Trimming takes the blanks of code at the two ends** and nothing else. -/
theorem trim_joinSegments_iff (ss : List Segment) :
    Text.trim (joinSegments true ss) = joinSegments true ss ↔ EdgesKept ss := by
  have hne : ∀ s ∈ contents ss, segmentText true s ≠ [] := fun s => segmentText_ne_nil true
  rw [Text.trim_eq_self_iff, joinSegments_eq_contents]
  unfold EdgesKept
  refine and_congr ?_ ?_
  · rcases hcontents : contents ss with - | ⟨s, rest⟩
    · simp [Text.flushLeft_nil]
    · rw [hcontents] at hne
      rw [List.map_cons, Text.flushLeft_unwords (hne s List.mem_cons_self),
        flushLeft_segmentText_iff]
      simp
  · rcases (contents ss).eq_nil_or_concat' with hnil | ⟨rest, s, hcontents⟩
    · rw [hnil]
      simp [Text.flushRight_nil]
    · rw [hcontents] at hne ⊢
      rw [List.map_append, List.map_singleton,
        Text.flushRight_unwords (hne s List.mem_concat_self), flushRight_segmentText_iff]
      simp

end Finger

/-! ### Rendering for Finger -/

/-- **What Finger makes of code.**  Without a width the line is the row of the segments,
in compact mode trimmed as a whole.  In the row the code blocks that have content stand
in their order and without overlap, each with a space for every line end and otherwise
as it is, a block of one line as its literal.  The line is the row unless the row is
trimmed and begins or ends with blanks of code. -/
theorem finger_keeps_code {doc : Value} {text : List Char} (htext : plainText doc = .ok text)
    {o : RenderOptions} (ho : o.Valid) (hwidth : o.width = 0) :
    ∃ ss row line,
      segments false doc = .ok ss ∧
      render doc (.string Target.finger.name) (.record o.record) = .ok line ∧
      InOrder (Finger.codes doc) row ∧
      line = (if o.compactMode then Text.trim row else row) ∧
      (line = row ↔ o.compactMode = false ∨ Finger.EdgesKept ss) ∧
      (o.compactMode = false ∨ Finger.EdgesKept ss → InOrder (Finger.codes doc) line ∧
        ∀ literal ∈ literalsAt doc.allPlaces, ¬ isBlankText literal = true → '\n' ∉ literal →
          literal <:+: line) := by
  have hcheck := check_of_plainText htext
  have hproper := Structure.check_eq_ok_iff.mp hcheck
  obtain ⟨ss, hss, -⟩ := exists_segments_of_plainText htext
  have hrender := render_finger_eq hcheck hss ho
  rw [if_neg (by omega)] at hrender
  have hrow := Finger.inOrder_joinSegments hproper hss o.compactMode
  have hline : Finger.oneLine o.compactMode ss = Finger.joinSegments o.compactMode ss ↔
      o.compactMode = false ∨ Finger.EdgesKept ss := by
    unfold Finger.oneLine
    cases o.compactMode with
    | false => simp
    | true => simpa using Finger.trim_joinSegments_iff ss
  refine ⟨ss, Finger.joinSegments o.compactMode ss, Finger.oneLine o.compactMode ss, hss, hrender,
    hrow, rfl, hline, fun hkept => ?_⟩
  rw [hline.mpr hkept]
  refine ⟨hrow, fun literal hliteral hcontent hnewline => ?_⟩
  have hcode : literal ∈ Finger.codes doc := by
    refine List.mem_map.mpr ⟨literal, List.mem_filter.mpr ⟨hliteral, ?_⟩,
      Finger.codeOnLine_of_notMem hnewline⟩
    simpa using hcontent
  exact hrow.isInfix_of_mem hcode

/-- Code of two lines between prose, and code without content. -/
def Value.codeBetweenProse : Value :=
  .document 0 (.tuple [.paragraph 1 (.tuple [.text 2 (.string ['a'])]),
    .codeBlock 3 (.string "  x\r\n\ty \n".toList) .null,
    .blockquote 4 (.tuple [.codeBlock 5 (.string ['\n', '\t']) .null,
      .paragraph 6 (.tuple [.text 7 (.string ['b', ' '])])])])

theorem finger_keeps_code_between_prose :
    ∃ line, render Value.codeBetweenProse (.string Target.finger.name)
        (.record (RenderOptions.record { compactMode := true })) = .ok line ∧
      InOrder ["  x \ty ".toList] line := by
  have htext : plainText Value.codeBetweenProse =
      .ok "a\n  x\r\n\ty \n\n\t\nb ".toList := rfl
  obtain ⟨ss, row, line, hss, hrender, -, -, -, hkept⟩ :=
    @finger_keeps_code _ _ htext { compactMode := true } (by decide) rfl
  obtain rfl := Except.ok.inj hss
  exact ⟨line, hrender, (hkept (.inr (by decide))).1⟩

/-- Where a document begins with code in compact mode, the code loses its indentation:
a block of one line need not stand on the line as it is. -/
theorem exists_code_not_kept :
    ∃ (doc : Value) (text literal line : List Char),
      plainText doc = .ok text ∧
      literal ∈ literalsAt doc.allPlaces ∧ ¬ isBlankText literal = true ∧ '\n' ∉ literal ∧
      render doc (.string Target.finger.name)
        (.record (RenderOptions.record { compactMode := true })) = .ok line ∧
      ¬ literal <:+: line :=
  ⟨.document 0 (.tuple [.codeBlock 1 (.string "  x = 1".toList) .null]), "  x = 1".toList,
    "  x = 1".toList, "x = 1".toList, rfl, by decide, by decide, by decide, rfl, by decide⟩

end SmallWeb
