/-
SmallWeb/Proofs/Render/LinkLines.lean

The link lines of gemtext.

A link is met deep inside a block, in the middle of its running text, and its
line is written when the top-level block is over.  In between it waits in the
log.  Here the log does not show any more: the lines behind a block are told from
the links of that block alone (`Gemini.after_blockNotes`), since every block
starts with no link waiting and leaves none.

Main result: `gemini_lists_links`.
-/
import SmallWeb.Proofs.Document.Links
import SmallWeb.Proofs.Render.PlainText

namespace SmallWeb

/-! ### The lines of links -/

namespace Gemini

/-- The link that waits for its line: its target and the text of its children as
the extractor gives it, on one line. -/
def waiting (l : List Char × List Inline) : List Char × List Char :=
  (l.1, linkTitle (Inline.runPlain false l.2))

/-- The line of a link. -/
def lineOf (l : List Char × List Inline) : Line :=
  .verbatim (linkLine l.1 (linkTitle (Inline.runPlain false l.2)))

/-- The lines of a top-level block and of its links. -/
def group (width : Nat) (b : Block) : List Line := layout.block width b ++ b.links.map lineOf

/-- **Behind a block stand the lines of its links.** -/
theorem after_blockNotes (b : Block) : layout.after (layout.blockNotes b) = b.links.map lineOf := by
  rw [layout.blockNotes_eq]
  show List.map _ (b.links.map _) = _
  rw [List.map_map]
  refine List.map_congr_left fun l _ => ?_
  show Line.verbatim (linkLine l.1 (linkTitle (layout.run l.2))) = lineOf l
  rw [Layout.run_eq_plain showsPlain]
  rfl

example : (Block.paragraph [.link ['u'] [.text ['a'], .lineBreak, .link ['v'] [.text ['b']]]]
    ).links.map (fun l => (Gemini.lineOf l).text) = ["=> v b".toList, "=> u a b".toList] := by
  decide

/-- The links of a block wait in their order. -/
theorem foldl_note_blockNotes (b : Block) (log : LinkLog) :
    (layout.blockNotes b).foldl note log =
      { log with pending := log.pending ++ b.links.map waiting } := by
  rw [foldl_note, layout.blockNotes_eq, List.map_map]
  congr 2
  refine List.map_congr_left fun l _ => ?_
  show (l.1, linkTitle (layout.run l.2)) = waiting l
  rw [Layout.run_eq_plain showsPlain]
  rfl

/-- Closing blocks counts their links. -/
theorem foldl_close (nss : List (List (List Char × List Char))) (log : LinkLog) :
    nss.foldl close log = { log with written := log.written + nss.flatten.length } := by
  induction nss generalizing log with
  | nil => rfl
  | cons ns nss ih =>
    rw [List.foldl_cons, ih, List.flatten_cons, List.length_append, ← Nat.add_assoc]
    rfl

/-- The body of a block: the walk yields it from any log, and leaves the links of
the block waiting behind those that wait already. -/
theorem outcome_block {v : Value} {b : Block} (hv : Block.ofValue? v = some b)
    (hheight : 1 + b.height ≤ maxDepth) (width : Nat) (log : LinkLog) :
    (format.block 1 width v).outcome log =
      (.ok (layout.block width b),
        { log with pending := log.pending ++ b.links.map waiting }) := by
  have hblock : Walk.Gives (format.block 1 width v) log (layout.fits width b)
      (layout.block width b) ((layout.blockNotes b).foldl note log) :=
    follows.block v hv hheight trivial
  rwa [fits_eq_true, foldl_note_blockNotes, Walk.gives_true_iff] at hblock

theorem documentLines_eq (o : RenderOptions) (d : Document) :
    documentLines o d = stackBlocks (d.blocks.map (group o.width.toNat)) := by
  unfold documentLines Layout.document
  congr 1
  refine List.map_congr_left fun b _ => ?_
  rw [after_blockNotes, group]

/-- The log of a render counts the links of the document. -/
theorem linkCount_render {o : RenderOptions} (ho : o.Valid) {doc : Value} {d : Document}
    (hd : Document.ofValue? doc = some d) (hheight : Block.runHeight d.blocks ≤ maxDepth) :
    format.linkCount ((geminiRenderer o).render doc).2.log = d.links.length := by
  have hwidth : o.width = (o.width.toNat : Int) := (Int.toNat_of_nonneg ho).symm
  have hlines : Walk.Gives (format.documentLines o.width.toNat doc) {} _ _ _ :=
    follows.documentLines closes hd hheight rfl trivial
  rw [blocksFit_eq_true] at hlines
  -- Every block of the top level adds the links it has noted when it is closed.
  have hlog := (@Renderer.render_of_gives _ _ _ _ _ {} _ hlines).2 rfl
  show (Renderer.render ⟨format, o.width, {}⟩ doc).2.log.written = _
  rw [hwidth, hlog, foldl_close, layout.flatten_blockNotes, layout.blocksNotes_eq,
    List.length_map]
  exact Nat.zero_add _

end Gemini

/-! ### Renders -/

theorem Block.height_lt_of_mem {b : Block} {bs : List Block} (h : b ∈ bs) :
    b.height < Block.runHeight bs := by
  induction bs with
  | nil => exact absurd h List.not_mem_nil
  | cons c bs ih =>
    rw [Block.runHeight]
    rcases List.mem_cons.mp h with rfl | h
    · exact Nat.lt_of_lt_of_le (Nat.lt_succ_self _) (Nat.le_max_left _ _)
    · exact Nat.lt_of_lt_of_le (ih h) (Nat.le_max_right _ _)

/-- **Gemtext lists its links.**  The output is the bodies of the top-level blocks
in their order, at most one empty line before each, and directly behind every
body one line for each link with a target in that block, an inner link before the
one around it.  The line shows the target and the text that the extractor gives
for the children of the link.  The renderer counts all links of the document.  Of
the options only the width matters. -/
theorem gemini_lists_links {doc : Value} (hcheck : Structure.check maxDepth doc = .ok ())
    (hstarts : doc.integerStarts = true) :
    ∃ d, Document.ofValue? doc = some d ∧
      (∀ o : RenderOptions, o.Valid → ∃ ls,
        render doc (.string Target.gemini.name) (.record o.record) =
          .ok (Text.unlines (ls.map Line.text)) ∧
        ls = stackBlocks (d.blocks.map (Gemini.group o.width.toNat)) ∧
        Spaced (d.blocks.map (Gemini.group o.width.toNat)) ls ∧
        (∀ b ∈ d.blocks, ∀ v, Block.ofValue? v = some b → ∀ log,
          (Gemini.format.block 1 o.width v).outcome log =
            (.ok (Gemini.layout.block o.width.toNat b),
              { log with pending := log.pending ++ b.links.map Gemini.waiting })) ∧
        Gemini.format.linkCount ((geminiRenderer o).render doc).2.log = d.links.length) ∧
      (∀ l ∈ d.links, ∀ children, Inline.run? children = some l.2 →
        extractInline false children = .ok (Inline.runPlain false l.2)) ∧
      ∀ o o' : RenderOptions, o.Valid → o.width = o'.width →
        render doc (.string Target.gemini.name) (.record o.record) =
          render doc (.string Target.gemini.name) (.record o'.record) := by
  obtain ⟨d, hd, hheight⟩ := exists_document hcheck hstarts
  have hrender : ∀ o : RenderOptions, o.Valid →
      render doc (.string Target.gemini.name) (.record o.record) =
        .ok (Text.unlines ((Gemini.documentLines o d).map Line.text)) := by
    intro o ho
    rw [render_record _ ho, Gemini.render_eq ho hcheck hd hheight]
  refine ⟨d, hd, fun o ho => ⟨Gemini.documentLines o d, hrender o ho, ?_, ?_, ?_, ?_⟩, ?_, ?_⟩
  · exact Gemini.documentLines_eq o d
  · rw [Gemini.documentLines_eq]
    exact spaced_stackBlocks _
  · -- Blocks of the top level lie at depth 1, and the tree is not too deep for them.
    intro b hb v hv log
    have hwidth : o.width = (o.width.toNat : Int) := (Int.toNat_of_nonneg ho).symm
    have hdepth := Block.height_lt_of_mem hb
    rw [hwidth, Int.toNat_natCast]
    exact Gemini.outcome_block hv (by omega) _ log
  · exact Gemini.linkCount_render ho hd hheight
  · intro l hl children hchildren
    have hdepth := Block.runHeight_lt_of_mem_runLinks hl
    exact extractInline_eq false hchildren (by omega)
  · intro o o' ho hwidth
    have ho' : o'.Valid := by
      unfold RenderOptions.Valid at ho ⊢
      rwa [← hwidth]
    rw [hrender o ho, hrender o' ho', Gemini.documentLines, Gemini.documentLines, hwidth]

/-- A link inside a link inside a quoted item, and a second block that repeats its
target. -/
def Value.quotedLinkInLink : Value :=
  .document 0 (.tuple [
    .blockquote 1 (.tuple [.list 2 (.bool false) (.tuple [.tuple [.paragraph 3 (.tuple
      [.link 4 (.string ['u']) (.tuple [.text 5 (.string ['a']), .lineBreak 6,
        .link 7 (.string ['v']) (.tuple [.text 8 (.string ['b'])])])])]]) .null]),
    .paragraph 9 (.tuple [.link 10 (.string ['v']) (.tuple [])])])

theorem gemini_lists_links_of_nested_link :
    Gemini.format.linkCount ((geminiRenderer Target.gemini.defaults).render
      Value.quotedLinkInLink).2.log = 3 := by
  obtain ⟨d, hd, hlines, -⟩ := @gemini_lists_links Value.quotedLinkInLink rfl rfl
  obtain ⟨ls, -, -, -, -, hcount⟩ := hlines Target.gemini.defaults (by decide)
  obtain rfl := Option.some.inj hd
  exact hcount

end SmallWeb
