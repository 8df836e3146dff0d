/-
SmallWeb/Proofs/Render/Gopher.lean

The layout of Gopher text.

`Gopher.layout o refs` is what is left of Gopher text when the list of links
`refs` is known beforehand: a link that is numbered gets its position in that
list.  The walk finds the same numbers, since no number in the index of a registry is
ever changed: if all numbers in the index are positions in `refs` when the walk is over
(`Settled`), they are so at every point of it.

Main result: `Gopher.render_eq`, a render in closed form.  It fails only where a
rule is longer than texts can be, and never at a width that is the length of a text
(`Gopher.blocksFit_of_width_le`).
-/
import SmallWeb.Proofs.Document.Links
import SmallWeb.Proofs.LinkRegistry
import SmallWeb.Proofs.Render.Line
import SmallWeb.Proofs.Render.Outcome
import SmallWeb.Proofs.Text.Lines

namespace SmallWeb.Gopher

/-! ### The layout -/

/-- Whether links are numbered and listed at the end. -/
def footnoting (o : RenderOptions) : Bool := o.preserveLinks && o.linkStyle != .inline

/-- The length of a rule. -/
def ruleLength (width : Nat) : Nat := if width = 0 then 3 else width

/-- What is shown of a link: its text, or else its target. -/
def shown (href text : List Char) : List Char := if text.isEmpty then href else text

/-- A link by the options, with its number in the list of links. -/
def linkText (o : RenderOptions) (refs : List (List Char)) (href text : List Char) : List Char :=
  if footnoting o then shown href text ++ [' ', '['] ++ Text.ofNat (refs.idxOf href + 1) ++ [']']
  else if o.preserveLinks then
    if text.isEmpty then href else text ++ [' ', '('] ++ href ++ [')']
  else text

/-- The lines of a code block: its literal, less the line feeds at the end. -/
def codeText (literal : List Char) : List (List Char) :=
  Text.lines (Text.dropEndWhile (· == '\n') literal)

/-- The layout of Gopher text, given the list of links. -/
def layout (o : RenderOptions) (refs : List (List Char)) : Layout where
  headingMark _ := []
  headingText text := text
  code literal _ := codeText literal
  code_ne_nil _ _ := Text.lines_ne_nil _
  rule width := List.replicate (ruleLength width) '-'
  ruleFits width := ruleLength width ≤ Text.maxLength
  bullet := bullet
  fenced := false
  codeSpan literal := if o.stripFormatting then literal else ['\x60'] ++ literal ++ ['\x60']
  link := linkText o refs
  after _ := []

/-- The log after a link. -/
def note (o : RenderOptions) (log : LinkLog) (n : List Char × List Char) : LinkLog :=
  if footnoting o then { log with registry := (log.registry.register n.1).2 } else log

/-- The numbers in the index are final: each is the position of its target in the list of
links, from one on. -/
def Settled (refs : List (List Char)) (log : LinkLog) : Prop :=
  ∀ href n, log.registry.index.get? href = some n → n = refs.idxOf href + 1

/-! ### Computation lemmas -/

theorem footnoting_eq_false {o : RenderOptions} (h : ¬ footnoting o = true) :
    o.preserveLinks = false ∨ o.linkStyle = .inline := by
  simpa [footnoting, Classical.or_iff_not_imp_left] using h

theorem rule_eq (width : Nat) : rule width =
    if ruleLength width ≤ Text.maxLength then .ok (List.replicate (ruleLength width) '-')
    else .error .tooLong := by
  have hlength : (if (width : Int) > 0 then (width : Int) else 3) = (ruleLength width : Nat) := by
    unfold ruleLength
    split <;> split <;> omega
  unfold rule Text.repeated?
  rw [hlength, Int.toNat_natCast]
  by_cases h : ruleLength width ≤ Text.maxLength
  · rw [if_pos (by omega), if_pos h]
  · rw [if_neg (by omega), if_neg h]

theorem quoteLine_eq (o : RenderOptions) (l : Line) :
    (format o).quoteLine l = l.prepend quoteMark := by
  cases l with
  | prose s => rfl
  | verbatim s =>
    have hmark : Text.trimEnd quoteMark = ['>'] := by decide
    show Line.verbatim (quotedVerbatim s) = .verbatim _
    rw [hmark]
    cases s <;> rfl

theorem registry_note {o : RenderOptions} (h : footnoting o = true) (log : LinkLog)
    (n : List Char × List Char) : (note o log n).registry = (log.registry.register n.1).2 := by
  rw [note, if_pos h]

/-! ### Gopher text follows its layout -/

open Walk

/-- A link with a target: the number that the registry gives is the one that the
layout has. -/
theorem gives_link (o : RenderOptions) {refs : List (List Char)} {href : List Char}
    (text : List Char) {log : LinkLog} (hhref : href ≠ [])
    (hs : Settled refs (note o log (href, text))) :
    Gives (link o (.string href) text) log true (.string (linkText o refs href text))
      (note o log (href, text)) := by
  have htruthy : (Value.string href).truthy = true := by simpa [Value.truthy] using hhref
  unfold link linkText
  rw [htruthy]
  by_cases hfoot : footnoting o = true
  · obtain ⟨hlinks, hstyle⟩ : o.preserveLinks = true ∧ o.linkStyle ≠ .inline := by
      simpa [footnoting] using hfoot
    have hnumber : (log.registry.register href).1 = refs.idxOf href + 1 := by
      -- The number that the registry gives now is in the index, and there all are final.
      refine hs href _ ?_
      rw [registry_note hfoot]
      exact log.registry.get?_register_self href
    rw [hlinks, if_neg (by simp), if_neg hstyle, if_pos hfoot, note, if_pos hfoot, ← hnumber]
    exact Gives.bind_of_ok (gives_registerLink href log) (Gives.pure _ _)
  · rw [if_neg hfoot, note, if_neg hfoot]
    rcases footnoting_eq_false hfoot with hlinks | hstyle
    · rw [hlinks]
      exact Gives.pure _ log
    · rw [hstyle]
      cases hlinks : o.preserveLinks with
      | false => exact Gives.pure _ log
      | true =>
        rw [if_neg (by simp), if_pos rfl, if_pos rfl]
        cases text <;> exact Gives.pure _ log

theorem settled_of_note (o : RenderOptions) {refs : List (List Char)} {log : LinkLog}
    {n : List Char × List Char} (h : Settled refs (note o log n)) : Settled refs log := by
  unfold note at h
  split at h
  · exact fun href number hget => h href number (LinkRegistry.get?_register_of_eq_some hget n.1)
  · exact h

/-- **Gopher text follows its layout.** -/
theorem follows (o : RenderOptions) (refs : List (List Char)) :
    (format o).Follows (layout o refs) (note o) (Settled refs) where
  heading width _ htext :=
    htext.bind_of_ok (Gives.ofExcept (by rw [proseLines_eq]; rfl) _)
  codeBlock literal _ log := Gives.ofExcept rfl log
  thematicBreak width log := by
    show Gives (Walk.ofExcept (rule width) >>= fun s => pure [Line.prose s]) log
      (decide (ruleLength width ≤ Text.maxLength)) _ log
    refine Gives.bind_pure (fun s => [Line.prose s]) ?_
    rw [rule_eq]
    by_cases h : ruleLength width ≤ Text.maxLength
    · rw [if_pos h, decide_eq_true h]
      exact Gives.ofExcept rfl log
    · rw [if_neg h, decide_eq_false h]
      rfl
  marker := gives_itemMarker bullet
  continuation _ := rfl
  itemLines first rest lines hne := by
    cases lines with
    | nil => exact absurd rfl hne
    | cons l ls => rfl
  quoteLine := quoteLine_eq o
  codeSpan literal := by
    show codeSpan o (.string literal) = _
    unfold codeSpan layout
    cases o.stripFormatting <;> rfl
  link_nil text log := by
    show Gives (link o (.string []) text) log true (.string text) log
    unfold link
    rw [if_pos (by simp [Value.truthy])]
    exact Gives.pure _ log
  link := gives_link o
  settled_of_note := settled_of_note o

/-! ### Documents -/

/-- The list of links of a document. -/
def refs (o : RenderOptions) (d : Document) : List (List Char) :=
  if footnoting o then d.targets.eraseDups else []

/-- The registry after the links of a document. -/
def registry (o : RenderOptions) (d : Document) : LinkRegistry :=
  .ofCalls (if footnoting o then d.targets else [])

theorem targets_registry (o : RenderOptions) (d : Document) :
    (registry o d).targets = refs o d := by
  rw [registry, LinkRegistry.targets_ofCalls, refs]
  split <;> rfl

theorem isEmpty_entries_registry (o : RenderOptions) (d : Document) :
    (registry o d).entries.isEmpty = (refs o d).isEmpty := by
  rw [← targets_registry, LinkRegistry.targets, List.isEmpty_map]

/-- When the links of a document are registered, all numbers are final. -/
theorem settled_registry (o : RenderOptions) (d : Document) :
    Settled (refs o d) { registry := registry o d } := by
  intro href n hget
  rw [← targets_registry]
  exact ((LinkRegistry.inStep_ofCalls _).get?_eq_some_iff.mp hget).2

theorem foldl_note (o : RenderOptions) (ns : List (List Char × List Char)) (log : LinkLog) :
    ns.foldl (note o) log =
      if footnoting o then { log with registry := log.registry.registerAll (ns.map Prod.fst) }
      else log := by
  induction ns generalizing log with
  | nil => simp [LinkRegistry.registerAll]
  | cons n ns ih =>
    rw [List.foldl_cons, ih, note]
    by_cases h : footnoting o = true
    · simp only [if_pos h]
      rfl
    · simp only [if_neg h]

/-- Nothing is written between the blocks at the top level. -/
theorem closes (o : RenderOptions) (refs : List (List Char)) :
    (format o).Closes (layout o refs) (note o) (Settled refs) (fun _ => True)
      fun log ns => ns.foldl (note o) log where
  afterBlock _ _ := rfl
  fresh_close _ _ := trivial
  settled_of_close h := h

/-- **The log of a render** has the registry of the document. -/
theorem foldl_blockNotes (o : RenderOptions) (refs' : List (List Char)) (d : Document) :
    (d.blocks.map (layout o refs').blockNotes).foldl (fun log ns => ns.foldl (note o) log) {} =
      { registry := registry o d } := by
  have htargets : (d.blocks.map (layout o refs').blockNotes).flatten.map Prod.fst = d.targets := by
    rw [Layout.flatten_blockNotes, Layout.blocksNotes_fst]
    rfl
  rw [← List.foldl_flatten, foldl_note, htargets, registry]
  by_cases h : footnoting o = true
  · rw [if_pos h, if_pos h]
    rfl
  · rw [if_neg h, if_neg h]
    rfl

/-- Whether the rules of a document can be drawn. -/
def fits (o : RenderOptions) (d : Document) : Bool :=
  (layout o (refs o d)).blocksFit o.width.toNat d.blocks

/-- The lines of a document without the list of links. -/
def body (o : RenderOptions) (d : Document) : List Line :=
  (layout o (refs o d)).document o.width.toNat d

/-- The body of a document is the stack of its blocks. -/
theorem body_eq (o : RenderOptions) (d : Document) :
    body o d = stackBlocks ((layout o (refs o d)).blocks o.width.toNat d.blocks) := by
  rw [Layout.blocks_eq_map]
  refine congrArg stackBlocks (List.map_congr_left fun b _ => ?_)
  exact List.append_nil _

/-- The lines of a document. -/
def documentLines (o : RenderOptions) (d : Document) : List Line :=
  finish { registry := registry o d } (body o d)

/-- The lines of the list of links, behind what separates them from the body. -/
def linkSection (o : RenderOptions) (d : Document) : List Line :=
  if (refs o d).isEmpty then []
  else separator (body o d) ++ (Text.lines (registry o d).footnotes).map .prose

theorem documentLines_eq (o : RenderOptions) (d : Document) :
    documentLines o d = body o d ++ linkSection o d := by
  unfold documentLines finish linkSection
  rw [isEmpty_entries_registry]
  by_cases h : (refs o d).isEmpty = true
  · rw [if_pos h, if_pos h, List.append_nil]
  · have hne : ((Text.lines (registry o d).footnotes).map Line.prose).isEmpty = false := by
      simpa using Text.lines_ne_nil (registry o d).footnotes
    rw [if_neg h, if_neg h, appendBlock_eq, hne, if_neg (by simp), List.append_assoc]

/-- **A render of Gopher text** in closed form, and the registry that the renderer
keeps. -/
theorem render_eq {o : RenderOptions} (ho : o.Valid) {doc : Value}
    (hcheck : Structure.check maxDepth doc = .ok ()) {d : Document}
    (hd : Document.ofValue? doc = some d) (hheight : Block.runHeight d.blocks ≤ maxDepth) :
    renderChecked .gopher o doc =
        (if fits o d then .ok (Text.unlines ((documentLines o d).map Line.text))
          else .error .tooLong) ∧
      (fits o d = true → ((gopherRenderer o).render doc).2.log.registry = registry o d) := by
  have hwidth : o.width = (o.width.toNat : Int) := (Int.toNat_of_nonneg ho).symm
  -- The layout is given the list that the render will have made in the end.
  have hsettled : Settled (refs o d) { registry := registry o d } := settled_registry o d
  rw [← foldl_blockNotes o (refs o d) d] at hsettled
  have hlines : Gives ((format o).documentLines o.width.toNat doc) {} _ _ _ :=
    (follows o (refs o d)).documentLines (closes o (refs o d)) hd hheight trivial hsettled
  rw [foldl_blockNotes] at hlines
  rw [renderChecked_eq_renderWith hcheck]
  unfold gopherRenderer
  show (Renderer.render ⟨format o, o.width, {}⟩ doc).1 = _ ∧ _
  rw [hwidth]
  have hrender := @Renderer.render_of_gives _ _ _ _ _ {} _ hlines
  refine ⟨hrender.1, fun hfits => ?_⟩
  rw [hrender.2 hfits]

/-! ### Rules that can be drawn -/

theorem innerRoom_le {width taken n : Nat} (hn : 0 < n) (h : width ≤ n) :
    innerRoom width taken ≤ n := by
  unfold innerRoom
  split <;> omega

mutual

theorem fits_of_width_le (o : RenderOptions) (refs : List (List Char)) (b : Block) {width : Nat}
    (h : width ≤ Text.maxLength) : (layout o refs).fits width b = true := by
  have hpos : 0 < Text.maxLength := by decide
  cases b with
  | heading level inline => rfl
  | paragraph inline => rfl
  | list ordered bss start => exact itemsFit_of_width_le o refs bss ordered start 0 h
  | codeBlock literal language => rfl
  | blockquote children => exact blocksFit_of_width_le o refs children (innerRoom_le hpos h)
  | thematicBreak =>
    have hlength : ruleLength width ≤ Text.maxLength := by
      unfold ruleLength
      split
      · decide
      · exact h
    exact decide_eq_true hlength

/-- **All rules can be drawn** at a width that is the length of a text. -/
theorem blocksFit_of_width_le (o : RenderOptions) (refs : List (List Char)) (bs : List Block)
    {width : Nat} (h : width ≤ Text.maxLength) : (layout o refs).blocksFit width bs = true := by
  cases bs with
  | nil => rfl
  | cons b bs =>
    rw [Layout.blocksFit, fits_of_width_le o refs b h, blocksFit_of_width_le o refs bs h]
    rfl

theorem itemsFit_of_width_le (o : RenderOptions) (refs : List (List Char))
    (bss : List (List Block)) (ordered : Bool) (start : Int) (index : Nat) {width : Nat}
    (h : width ≤ Text.maxLength) :
    (layout o refs).itemsFit width ordered start index bss = true := by
  have hpos : 0 < Text.maxLength := by decide
  cases bss with
  | nil => rfl
  | cons bs bss =>
    rw [Layout.itemsFit, blocksFit_of_width_le o refs bs (innerRoom_le hpos h),
      itemsFit_of_width_le o refs bss ordered start (index + 1) h]
    rfl

end

end SmallWeb.Gopher
