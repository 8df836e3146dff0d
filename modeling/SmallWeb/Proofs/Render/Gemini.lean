/-
SmallWeb/Proofs/Render/Gemini.lean

The layout of gemtext.

Gemtext depends on no numbers, so its layout has no parameter and every log is
final.  The links of a top-level block are noted while the block is walked and
become lines after it; the layout makes these lines from the links of the block.

Main result: `Gemini.render_eq`, a render in closed form.  It never fails.
-/
import SmallWeb.Proofs.Render.Outcome

namespace SmallWeb.Gemini

/-! ### The layout -/

/-- What stands before a heading: its level in number signs. -/
def headingMark (level : Int) : List Char := List.replicate level.toNat '#' ++ [' ']

/-- The lines of a literal: none where it is empty. -/
def bodyLines (literal : List Char) : List (List Char) :=
  if (dropFinalNewline literal).isEmpty then [] else Text.lines (dropFinalNewline literal)

/-- The lines of a code block between fences. -/
def codeText (literal : List Char) (language : Option (List Char)) : List (List Char) :=
  (fence ++ language.getD []) :: (bodyLines literal ++ [fence])

/-- The text of a link, on one line. -/
def linkTitle (text : List Char) : List Char := Text.trim (Text.replaceChar '\n' ' ' text)

/-- The layout of gemtext. -/
def layout : Layout where
  headingMark := headingMark
  headingText := Text.replaceChar '\n' ' '
  code := codeText
  code_ne_nil _ _ := List.cons_ne_nil _ _
  rule _ := ['-', '-', '-']
  ruleFits _ := true
  bullet := bullet
  fenced := true
  codeSpan literal := literal
  link _ text := text
  after notes := notes.map fun (href, text) => .verbatim (linkLine href (linkTitle text))

/-- The log after a link. -/
def note (log : LinkLog) (n : List Char × List Char) : LinkLog :=
  { log with pending := log.pending ++ [(n.1, linkTitle n.2)] }

/-! ### Computation lemmas -/

theorem headingMarker_eq {level : Value} {n : Int} (h : level.level? = some n) :
    headingMarker level = .ok (headingMark n) := by
  obtain ⟨hint, hle⟩ := Value.level?_eq_some_iff.mp h
  have hrepeat : Text.repeated? n '#' = some (List.replicate n.toNat '#') := by
    unfold Text.repeated? Text.maxLength
    rw [if_pos (by omega)]
  unfold headingMarker
  rw [hint]
  simp only [hrepeat]
  rfl

theorem codeLines_eq (literal : List Char) (language : Value) :
    codeLines (.string literal) language =
      .ok ((codeText literal language.language?).map .verbatim) := by
  have hheader : header language = fence ++ language.language?.getD [] := by
    unfold header Value.language?
    split
    · rfl
    · rw [Option.getD_none, List.append_nil]
  unfold codeLines codeText
  rw [hheader]
  rfl

theorem itemLines_eq (first rest : List Char) {lines : List Line} (hne : lines ≠ []) :
    itemLines first rest lines = prependLines first rest (layout.openItem lines) := by
  cases lines with
  | nil => exact absurd rfl hne
  | cons l ls => cases l <;> rfl

/-! ### Gemtext follows its layout -/

open Walk

/-- **Gemtext follows its layout.** -/
theorem follows : format.Follows layout note fun _ => True where
  heading {level n text t log log'} width hlevel htext := by
    have hmark := Gives.ofExcept (headingMarker_eq hlevel) log
    refine hmark.bind_of_ok (htext.bind_of_ok ?_)
    exact Gives.ofExcept (by rw [proseLines_eq]; rfl) _
  codeBlock literal language log := Gives.ofExcept (codeLines_eq literal language) log
  thematicBreak _ log := Gives.pure _ log
  marker := gives_itemMarker bullet
  continuation _ := rfl
  itemLines first rest _ hne := itemLines_eq first rest hne
  quoteLine l := by cases l <;> rfl
  codeSpan _ := rfl
  link_nil _ log := Gives.pure _ log
  link {href} text log hhref _ := by
    have htruthy : (Value.string href).truthy = true := by simpa [Value.truthy] using hhref
    show Gives (Gemini.link (.string href) text) log true (.string text) (note log (href, text))
    unfold Gemini.link
    rw [if_pos htruthy]
    exact (gives_noteLink href (linkTitle text) log).bind_of_ok (Gives.pure _ _)
  settled_of_note _ := trivial

/-! ### Documents -/

/-- The log after a top-level block whose links are `ns`. -/
def close (log : LinkLog) (ns : List (List Char × List Char)) : LinkLog :=
  { log with written := log.written + ns.length }

theorem foldl_note (ns : List (List Char × List Char)) (log : LinkLog) :
    ns.foldl note log =
      { log with pending := log.pending ++ ns.map fun n => (n.1, linkTitle n.2) } := by
  induction ns generalizing log with
  | nil => simp
  | cons n ns ih =>
    rw [List.foldl_cons, ih]
    simp [note]

/-- A top-level block is closed with the lines of its links. -/
theorem closes : format.Closes layout note (fun _ => True) (fun log => log.pending = []) close where
  afterBlock {log} ns hfresh := by
    show afterBlock (ns.foldl note log) = _
    rw [foldl_note]
    unfold afterBlock
    rw [hfresh]
    refine Prod.ext ?_ ?_
    · show List.map _ ([] ++ ns.map _) = _
      rw [List.nil_append, List.map_map]
      rfl
    · show LinkLog.mk _ _ _ = LinkLog.mk _ _ _
      rw [List.nil_append, List.length_map, hfresh]
  fresh_close _ hfresh := hfresh
  settled_of_close _ := trivial

mutual

theorem fits_eq_true (b : Block) (width : Nat) : layout.fits width b = true := by
  cases b with
  | list ordered bss start => exact itemsFit_eq_true bss width ordered start 0
  | blockquote children => exact blocksFit_eq_true children _
  | _ => rfl

/-- All rules can be drawn. -/
theorem blocksFit_eq_true (bs : List Block) (width : Nat) : layout.blocksFit width bs = true := by
  cases bs with
  | nil => rfl
  | cons b bs => rw [Layout.blocksFit, fits_eq_true b, blocksFit_eq_true bs, Bool.and_true]

theorem itemsFit_eq_true (bss : List (List Block)) (width : Nat) (ordered : Bool) (start : Int)
    (index : Nat) : layout.itemsFit width ordered start index bss = true := by
  cases bss with
  | nil => rfl
  | cons bs bss =>
    rw [Layout.itemsFit, blocksFit_eq_true bs, itemsFit_eq_true bss, Bool.and_true]

end

/-- The lines of a document. -/
def documentLines (o : RenderOptions) (d : Document) : List Line :=
  layout.document o.width.toNat d

/-- **A render of gemtext** in closed form. -/
theorem render_eq {o : RenderOptions} (ho : o.Valid) {doc : Value}
    (hcheck : Structure.check maxDepth doc = .ok ()) {d : Document}
    (hd : Document.ofValue? doc = some d) (hheight : Block.runHeight d.blocks ≤ maxDepth) :
    renderChecked .gemini o doc = .ok (Text.unlines ((documentLines o d).map Line.text)) := by
  have hwidth : o.width = (o.width.toNat : Int) := (Int.toNat_of_nonneg ho).symm
  have hlines : Gives (format.documentLines o.width.toNat doc) {} _ _ _ :=
    follows.documentLines closes hd hheight rfl trivial
  -- No rule of gemtext depends on the width, so nothing can fail.
  rw [blocksFit_eq_true] at hlines
  rw [renderChecked_eq_renderWith hcheck]
  show (Renderer.render ⟨format, o.width, {}⟩ doc).1 = _
  rw [hwidth, (Renderer.render_of_gives hlines).1]
  rfl

end SmallWeb.Gemini
