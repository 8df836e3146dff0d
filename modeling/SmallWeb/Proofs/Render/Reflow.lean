/-
SmallWeb/Proofs/Render/Reflow.lean

Gopher text at one width and at another.

Two renders that differ in the width break their lines at different places, at
every level of nesting, and one without a limit does not wrap at all.  They are
not compared line by line.  Each of them has the words of one outline, which knows
no width: the outline goes down to the leaves (`Layout.HasOutline`), and a leaf has
the same words at every width (`Gopher.lineWords_leaf`).  The list of links behind
the body is the same in both, since it is never wrapped and the numbers in it come
from the tree alone.

Quotes and rules are left out: a quote puts its mark before every line, and a rule
is as long as the width.

Main result: `gopher_words_at_every_width`.
-/
import SmallWeb.Proofs.Document.Everywhere
import SmallWeb.Proofs.Render.Words

namespace SmallWeb

open Text (words)

/-! ### Trees without quotes and rules -/

/-- No quote and no rule stands at a place. -/
def PlainPlaces (ps : List Place) : Prop :=
  ∀ p ∈ ps, p.value.isQuote = false ∧ p.value.isRule = false

instance (ps : List Place) : Decidable (PlainPlaces ps) :=
  inferInstanceAs (Decidable (∀ p ∈ ps, p.value.isQuote = false ∧ p.value.isRule = false))

/-- A block that is neither a quote nor a rule. -/
def Block.isPlain : Block → Bool
  | .blockquote _ => false
  | .thematicBreak => false
  | _ => true

theorem tells_isPlain :
    Tells (fun v => v.isQuote = false ∧ v.isRule = false) Block.isPlain := by
  rintro v b hv ⟨hquote, hrule⟩
  cases v with
  | heading id level inline =>
    obtain ⟨n, is, -, -, rfl⟩ := Block.ofValue?_heading_eq_some hv
    rfl
  | paragraph id inline =>
    obtain ⟨is, -, rfl⟩ := Option.map_eq_some_iff.mp hv
    rfl
  | list id ordered items start =>
    obtain ⟨bss, n, -, -, rfl⟩ := Block.ofValue?_list_eq_some hv
    rfl
  | codeBlock id literal language =>
    cases literal with
    | string literal =>
      obtain rfl : Block.codeBlock literal language.language? = b := Option.some.inj hv
      rfl
    | _ => simp [Block.ofValue?] at hv
  | blockquote id children => simp [Value.isQuote] at hquote
  | thematicBreak id => simp [Value.isRule] at hrule
  | _ => simp [Block.ofValue?] at hv

mutual

/-- A block is simple if it is plain everywhere. -/
theorem Block.isSimple_eq_everywhere (b : Block) : b.isSimple = b.everywhere Block.isPlain := by
  cases b with
  | list ordered bss start => exact Block.itemsSimple_eq_everywhere bss
  | _ => rfl

theorem Block.runSimple_eq_everywhere (bs : List Block) :
    Block.runSimple bs = Block.runEverywhere Block.isPlain bs := by
  cases bs with
  | nil => rfl
  | cons b bs =>
    rw [Block.runSimple, Block.runEverywhere, Block.isSimple_eq_everywhere b,
      Block.runSimple_eq_everywhere bs]

theorem Block.itemsSimple_eq_everywhere (bss : List (List Block)) :
    Block.itemsSimple bss = Block.itemsEverywhere Block.isPlain bss := by
  cases bss with
  | nil => rfl
  | cons bs bss =>
    rw [Block.itemsSimple, Block.itemsEverywhere, Block.runSimple_eq_everywhere bs,
      Block.itemsSimple_eq_everywhere bss]

end

/-- The blocks of a document are simple if its places are plain. -/
theorem Document.runSimple_of_plainPlaces {v : Value} {d : Document}
    (hv : Document.ofValue? v = some d) (hplaces : PlainPlaces v.allPlaces) :
    Block.runSimple d.blocks = true := by
  rw [Block.runSimple_eq_everywhere]
  exact tells_isPlain.document_everywhere hv hplaces

/-! ### The words of Gopher text -/

namespace Gopher

variable (o : RenderOptions)

/-- The words of the list of links. -/
def linkWords (d : Document) : List (List Char) :=
  if (refs o d).isEmpty then [] else words (registry o d).footnotes

theorem lineWords_linkSection (d : Document) :
    lineWords (linkSection o d) = linkWords o d := by
  unfold linkSection linkWords
  split
  · rfl
  · have hseparator : lineWords (separator (body o d)) = [] := by
      rcases separator_eq_or (body o d) with h | h
      · rw [h]
        rfl
      · rw [h]
        rfl
    rw [lineWords_append, hseparator, lineWords_map_prose, Text.flatMap_words_lines]
    rfl

/-- **The words of Gopher text** without quotes and rules: the outline of the blocks,
and the list of links.  The width does not occur in them. -/
theorem lineWords_documentLines {d : Document} (hd : Block.runSimple d.blocks = true) :
    lineWords (documentLines o d) =
      Block.runOutline ['•'] (leafWords o (refs o d)) d.blocks ++ linkWords o d := by
  have hbody : lineWords (body o d) =
      Block.runOutline ['•'] (leafWords o (refs o d)) d.blocks := by
    rw [body_eq, lineWords_stackBlocks]
    exact (hasOutline_leafWords o (refs o d)).lineWords_blocks d.blocks hd _
  rw [documentLines_eq, lineWords_append, hbody, lineWords_linkSection]

/-- The words of the leaves do not depend on the width. -/
theorem leafWords_width (refs' : List (List Char)) (width : Int) :
    leafWords { o with width } refs' = leafWords o refs' := by
  funext b
  cases b <;> rfl

end Gopher

/-- **The width changes the blanks of Gopher text only.**  A proper tree without
quotes and rules is rendered at every width, without a limit as well, and the words
are the same at any two of them: those of the running text, the markers of lists
and of links, and the list of links. -/
theorem gopher_words_at_every_width {doc : Value} (hcheck : Structure.check maxDepth doc = .ok ())
    (hstarts : doc.integerStarts = true) (hplain : PlainPlaces doc.allPlaces)
    (o : RenderOptions) {width width' : Int} (hwidth : 0 ≤ width) (hwidth' : 0 ≤ width') :
    ∃ out out',
      render doc (.string Target.gopher.name)
        (.record (RenderOptions.record { o with width := width })) = .ok out ∧
      render doc (.string Target.gopher.name)
        (.record (RenderOptions.record { o with width := width' })) = .ok out' ∧
      words out = words out' := by
  obtain ⟨d, hd, hheight⟩ := exists_document hcheck hstarts
  have hsimple := Document.runSimple_of_plainPlaces hd hplain
  -- At each width: the render succeeds, and its words are told without the width.
  have key : ∀ w : Int, 0 ≤ w → ∃ out,
      render doc (.string Target.gopher.name)
        (.record (RenderOptions.record { o with width := w })) = .ok out ∧
      words out =
        Block.runOutline ['•'] (Gopher.leafWords o (Gopher.refs o d)) d.blocks ++
          Gopher.linkWords o d := by
    intro w hw
    have hvalid : RenderOptions.Valid { o with width := w } := hw
    have hfits : Gopher.fits { o with width := w } d = true :=
      Layout.blocksFit_of_runSimple _ _ hsimple _
    have hrender := (Gopher.render_eq hvalid hcheck hd hheight).1
    rw [hfits, if_pos rfl, ← render_record Target.gopher hvalid] at hrender
    refine ⟨_, hrender, ?_⟩
    rw [words_unlines_map_text, Gopher.lineWords_documentLines _ hsimple, Gopher.leafWords_width]
    rfl
  obtain ⟨out, hout, hwords⟩ := key width hwidth
  obtain ⟨out', hout', hwords'⟩ := key width' hwidth'
  exact ⟨out, out', hout, hout', hwords.trans hwords'.symm⟩

/-- A link in a list in a list. -/
def Value.linkInNestedList : Value :=
  .document 0 (.tuple [.list 1 (.bool true) (.tuple [.tuple
    [.list 2 (.bool false) (.tuple [.tuple [.paragraph 3 (.tuple [.text 4 (.string ['a', ' ']),
      .link 5 (.string ['u']) (.tuple [.text 6 (.string ['b'])])])]]) .null]]) (.int 9)])

/-- The link is numbered, without a limit and at the width of three characters. -/
theorem gopher_words_at_every_width_of_nested_link :
    ∃ out out',
      render Value.linkInNestedList (.string Target.gopher.name)
        (.record (RenderOptions.record { width := 0 })) = .ok out ∧
      render Value.linkInNestedList (.string Target.gopher.name)
        (.record (RenderOptions.record { width := 3 })) = .ok out' ∧
      words out = words out' :=
  gopher_words_at_every_width rfl rfl (by decide) {} (by decide) (by decide)

end SmallWeb
