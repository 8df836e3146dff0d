/-
SmallWeb/Proofs/Render/Composition.lean

Outputs of documents that follow one another.

A document can be cut between two blocks at the top level and its parts rendered on
their own.  The output of the whole is that of the first part, then that of the second
one, with an empty line in between unless there is one already or a part has no lines.
Two things could stand against this.  The separator before a block depends on all the
output so far: but appending blocks is associative, since the last block with lines
decides.  And the log goes on from block to block: but `Format.Separate` says of a
format that at the end of a block at the top level the log is as good as new.

Gemtext is of this kind, since the lines of its links follow each block.  Gopher text is
where it numbers no links; with a list of links at the end it cannot be.

Main result: `render_append`.
-/
import SmallWeb.Proofs.Render.Gemini
import SmallWeb.Proofs.Render.Gopher
import SmallWeb.Proofs.Render.InStep
import SmallWeb.Proofs.Structure

namespace SmallWeb

open Walk

/-- The blocks of a document at the top level. -/
def Value.blocks? : Value → Option (List Value)
  | .document _ (.tuple vs) => some vs
  | .document _ (.array vs) => some vs
  | _ => none

/-! ### Outputs -/

/-- The lines of an output, or the fault of the render. -/
def Renderer.lines (r : Renderer) (doc : Value) : Except Fault (List (List Char)) :=
  ((r.format.documentLines r.width doc).outcome (r.format.restart r.log)).1.map
    (List.map Line.text)

/-- A render joins the lines with line feeds. -/
theorem Renderer.render_eq_lines (r : Renderer) (doc : Value) :
    (r.render doc).1 = (r.lines doc).map Text.unlines := by
  show ((r.format.render r.width doc).outcome (r.format.restart r.log)).1 = _
  rw [Format.render, outcome_bind, lines]
  rcases (r.format.documentLines r.width doc).outcome (r.format.restart r.log) with
    ⟨e | ls, log⟩ <;> rfl

theorem Renderer.exists_lines {r : Renderer} {doc : Value} {out : List Char}
    (h : (r.render doc).1 = .ok out) : ∃ ls, r.lines doc = .ok ls := by
  rw [r.render_eq_lines] at h
  cases hlines : r.lines doc with
  | error e =>
    rw [hlines] at h
    cases h
  | ok ls => exact ⟨ls, rfl⟩

/-- Two outputs, one behind the other: an empty line separates them unless the first one
ends in an empty line, and an output without lines leaves no trace. -/
def joinOutputs (ls ms : List (List Char)) : List (List Char) :=
  if ms = [] then ls
  else if ls = [] then ms
  else if ls.getLast? = some [] then ls ++ ms
  else ls ++ [] :: ms

/-- Outputs are joined as blocks are appended. -/
theorem map_text_appendBlock (ls ms : List Line) :
    (appendBlock ls ms).map Line.text = joinOutputs (ls.map Line.text) (ms.map Line.text) := by
  unfold joinOutputs appendBlock
  cases ms with
  | nil => rfl
  | cons m ms =>
    rw [List.getLast?_map]
    rcases hlast : ls.getLast? with - | l
    · rw [List.getLast?_eq_none_iff.mp hlast]
      rfl
    · have hne : ls ≠ [] := by
        rintro rfl
        cases hlast
      by_cases hl : l.text = []
      · simp [hne, hl]
      · simp [hne, hl, show Line.text (.prose []) = [] from rfl]

/-! ### Formats without a trace -/

/-- A format whose log, at the end of a block at the top level, is as good as new: `R`
keeps two walks over one tree in step, and then relates the log to the empty one. -/
structure Format.Separate (fmt : Format) (R : LinkLog → LinkLog → Prop) : Prop where
  inStep : fmt.InStep Value.SameTarget R
  start : R (fmt.restart {}) {}
  closed {log log' : LinkLog} : R log log' → R (fmt.afterBlock log).2 {}
  finish {log : LinkLog} (output : List Line) : R log {} → fmt.finish log output = output

namespace Format.Separate

variable {fmt : Format} {R : LinkLog → LinkLog → Prop}

/-- The log at the end of a block. -/
theorem topBlock_closed (F : fmt.Separate R) {v : Value} {width : Int} {log log' : LinkLog}
    (hlog : R log {}) {lines : List Line}
    (h : (fmt.topBlock width v).outcome log = (.ok lines, log')) : R log' {} := by
  rw [Format.topBlock] at h
  obtain ⟨own, mid, hown, hclosing⟩ := outcome_bind_eq_ok_iff.mp h
  obtain ⟨-, hblock⟩ := F.inStep.block v (Value.Retargeted.same v) 1 width hlog
  rw [hown] at hblock
  -- The log that is kept is the one from behind the block.
  cases hclosing
  exact F.closed hblock

/-- The log at the end of several blocks. -/
theorem topBlocks_closed (F : fmt.Separate R) {vs : List Value} {width : Int}
    {log log' : LinkLog} (hlog : R log {}) {groups : List (List Line)}
    (h : (fmt.topBlocks width vs).outcome log = (.ok groups, log')) : R log' {} := by
  induction vs generalizing log groups with
  | nil =>
    cases h
    exact hlog
  | cons v vs ih =>
    rw [Format.topBlocks] at h
    obtain ⟨lines, mid, hfirst, h⟩ := outcome_bind_eq_ok_iff.mp h
    obtain ⟨rest, last, hrest, h⟩ := outcome_bind_eq_ok_iff.mp h
    cases h
    exact ih (F.topBlock_closed hlog hfirst) hrest

/-- The blocks of one part and then those of the other. -/
theorem topBlocks_append (fmt : Format) (width : Int) (vs ws : List Value) :
    fmt.topBlocks width (vs ++ ws) = do
      let groups ← fmt.topBlocks width vs
      return groups ++ (← fmt.topBlocks width ws) := by
  induction vs with
  | nil => simp [Format.topBlocks]
  | cons v vs ih => simp [Format.topBlocks, ih]

/-- **The second part is walked as if it stood alone.** -/
theorem result_topBlocks_append (F : fmt.Separate R) (width : Int) (vs ws : List Value) :
    ((fmt.topBlocks width (vs ++ ws)).outcome (fmt.restart {})).1 = do
      let groups ← ((fmt.topBlocks width vs).outcome (fmt.restart {})).1
      return groups ++ (← ((fmt.topBlocks width ws).outcome (fmt.restart {})).1) := by
  rw [topBlocks_append, outcome_bind]
  rcases hfirst : (fmt.topBlocks width vs).outcome (fmt.restart {}) with ⟨e | groups, mid⟩
  · rfl
  · -- The second part starts from what the first one leaves, or from a new log.
    have hmid : R mid {} := F.topBlocks_closed F.start hfirst
    obtain ⟨hsecond, -⟩ := F.inStep.topBlocks (Value.Retargeted.same_all ws) width hmid
    obtain ⟨hfresh, -⟩ := F.inStep.topBlocks (Value.Retargeted.same_all ws) width F.start
    dsimp only
    rw [outcome_bind, hfresh, ← hsecond]
    rcases (fmt.topBlocks width ws).outcome mid with ⟨e | rest, last⟩ <;> rfl

/-- The lines of a document are those of its blocks. -/
theorem lines_eq (F : fmt.Separate R) {doc : Value} {vs : List Value} (hdoc : doc.blocks? = some vs)
    (width : Int) :
    Renderer.lines ⟨fmt, width, {}⟩ doc = do
      let groups ← ((fmt.topBlocks width vs).outcome (fmt.restart {})).1
      return (stackBlocks groups).map Line.text := by
  have hbody : fmt.bodyLines width doc = do return stackBlocks (← fmt.topBlocks width vs) := by
    unfold Value.blocks? at hdoc
    split at hdoc <;> cases hdoc <;> rfl
  unfold Renderer.lines
  dsimp only
  rw [Format.documentLines_eq, hbody, bind_assoc, outcome_bind]
  rcases hrun : (fmt.topBlocks width vs).outcome (fmt.restart {}) with ⟨e | groups, log⟩
  · rfl
  · have hlog : R log {} := F.topBlocks_closed F.start hrun
    have hfinish : fmt.finish log (stackBlocks groups) = stackBlocks groups := F.finish _ hlog
    exact congrArg (fun ls => Except.ok (List.map Line.text ls)) hfinish

/-- **The lines of a document are those of its parts**, joined. -/
theorem lines_append (F : fmt.Separate R) {a b ab : Value} {vs ws : List Value}
    (ha : a.blocks? = some vs) (hb : b.blocks? = some ws) (hab : ab.blocks? = some (vs ++ ws))
    (width : Int) :
    Renderer.lines ⟨fmt, width, {}⟩ ab = do
      let ls ← Renderer.lines ⟨fmt, width, {}⟩ a
      return joinOutputs ls (← Renderer.lines ⟨fmt, width, {}⟩ b) := by
  rw [F.lines_eq ha, F.lines_eq hb, F.lines_eq hab, F.result_topBlocks_append]
  rcases ((fmt.topBlocks width vs).outcome (fmt.restart {})).1 with e | groups
  · rfl
  · rcases ((fmt.topBlocks width ws).outcome (fmt.restart {})).1 with e | groups'
    · rfl
    · have hstack := map_text_appendBlock (stackBlocks groups) (stackBlocks groups')
      rw [← stackBlocks_append] at hstack
      exact congrArg Except.ok hstack

end Format.Separate

/-- Gemtext: the links of a block are written after it, and then none are pending. -/
theorem Gemini.separate : format.Separate fun log log' => log.pending = log'.pending where
  inStep := by
    refine inStep_of_link ?_ fun {log log'} hlog => ⟨?_, rfl⟩
    · rintro href _ children text rfl
      unfold link
      split
      · exact (InStep.noteLink fun hlog => congrArg (· ++ _) hlog).bind fun _ => InStep.pure _
      · exact InStep.pure _
    · show log.pending.map _ = log'.pending.map _
      rw [hlog]
  start := rfl
  closed _ := rfl
  finish _ _ := rfl

/-- Gopher text where no links are numbered: nothing is ever put into the registry. -/
theorem Gopher.separate {o : RenderOptions} (h : footnoting o = false) :
    (format o).Separate fun log log' => log.registry = {} ∧ log'.registry = {} where
  inStep := by
    refine inStep_of_link o ?_
    rintro href _ children text rfl -
    unfold link
    have hnot : ¬ footnoting o = true := Bool.not_eq_true _ ▸ h
    rcases footnoting_eq_false hnot with hlinks | hstyle
    · rw [hlinks]
      exact InStep.pure _
    · rw [if_pos hstyle]
      split <;> exact InStep.pure _
  start := ⟨rfl, rfl⟩
  closed h := ⟨h.1, rfl⟩
  finish {log} output hlog := by
    show Gopher.finish log output = output
    unfold Gopher.finish
    rw [hlog.1]
    rfl

/-! ### Parts of checked documents -/

/-- The places of a document are its own, that of its sequence of blocks, and those of
the blocks. -/
theorem properTree_iff_of_blocks {limit : Int} {doc : Value} {vs : List Value}
    (hdoc : doc.blocks? = some vs) :
    ProperTree limit doc ↔
      (∀ p ∈ Value.placesAll .block 1 vs, p.Fits limit) ∧
        (nodesAt (Value.placesAll .block 1 vs)).Nodup := by
  obtain ⟨id, blocks, rfl, hsequence, hwithin⟩ : ∃ id blocks, doc = .document id blocks ∧
      blocks.isSequence = true ∧ blocks.within .blocks 1 = Value.placesAll .block 1 vs := by
    unfold Value.blocks? at hdoc
    split at hdoc <;> cases hdoc <;> exact ⟨_, _, rfl, rfl, rfl⟩
  have hfits : Place.Fits limit ⟨.blocks, 1, blocks⟩ :=
    Structure.fits_sequence (.inl rfl) hsequence
  have hnodes : nodesAt (blocks.places .blocks 1) = nodesAt (Value.placesAll .block 1 vs) := by
    rw [← hwithin]
    cases blocks <;> simp [Value.isSequence] at hsequence <;> rfl
  rw [properTree_document_iff, hnodes, Value.places, hwithin, List.forall_mem_cons]
  exact and_congr_left fun _ => and_iff_right hfits

theorem Value.placesAll_append (role : Role) (depth : Nat) (vs ws : List Value) :
    Value.placesAll role depth (vs ++ ws) =
      Value.placesAll role depth vs ++ Value.placesAll role depth ws := by
  induction vs with
  | nil => rfl
  | cons v vs ih =>
    rw [List.cons_append, Value.placesAll_cons, Value.placesAll_cons, ih, List.append_assoc]

/-- The parts of a document that the structure check accepts are accepted. -/
theorem check_parts {limit : Int} {a b ab : Value} {vs ws : List Value}
    (ha : a.blocks? = some vs) (hb : b.blocks? = some ws) (hab : ab.blocks? = some (vs ++ ws))
    (hcheck : Structure.check limit ab = .ok ()) :
    Structure.check limit a = .ok () ∧ Structure.check limit b = .ok () := by
  rw [Structure.check_eq_ok_iff] at hcheck
  rw [Structure.check_eq_ok_iff, Structure.check_eq_ok_iff, properTree_iff_of_blocks ha,
    properTree_iff_of_blocks hb]
  obtain ⟨hfits, honce⟩ := (properTree_iff_of_blocks hab).mp hcheck
  rw [Value.placesAll_append] at hfits honce
  rw [List.forall_mem_append] at hfits
  rw [nodesAt, List.filterMap_append] at honce
  obtain ⟨honcea, honceb, -⟩ := List.nodup_append.mp honce
  exact ⟨⟨hfits.1, honcea⟩, hfits.2, honceb⟩

theorem Value.allIntegerStarts_append (vs ws : List Value) :
    Value.allIntegerStarts (vs ++ ws) =
      (Value.allIntegerStarts vs && Value.allIntegerStarts ws) := by
  induction vs with
  | nil => rfl
  | cons v vs ih => simp only [List.cons_append, Value.allIntegerStarts, ih, Bool.and_assoc]

/-- The lists of the parts start as well as those of the whole. -/
theorem integerStarts_parts {a b ab : Value} {vs ws : List Value} (ha : a.blocks? = some vs)
    (hb : b.blocks? = some ws) (hab : ab.blocks? = some (vs ++ ws))
    (hstarts : ab.integerStarts = true) : a.integerStarts = true ∧ b.integerStarts = true := by
  have hall : ∀ {doc : Value} {us : List Value}, doc.blocks? = some us →
      doc.integerStarts = Value.allIntegerStarts us := by
    intro doc us hdoc
    unfold Value.blocks? at hdoc
    split at hdoc <;> cases hdoc <;> rfl
  rw [hall hab, Value.allIntegerStarts_append, Bool.and_eq_true] at hstarts
  rw [hall ha, hall hb]
  exact hstarts

/-! ### Renders -/

/-- What the structure check accepts has lines as gemtext, if its lists start well. -/
theorem Gemini.exists_lines {o : RenderOptions} (ho : o.Valid) {doc : Value}
    (hcheck : Structure.check maxDepth doc = .ok ()) (hstarts : doc.integerStarts = true) :
    ∃ ls, (geminiRenderer o).lines doc = .ok ls := by
  obtain ⟨d, hd, hheight⟩ := exists_document hcheck hstarts
  have hrender := Gemini.render_eq ho hcheck hd hheight
  rw [renderChecked_eq_renderWith hcheck] at hrender
  exact Renderer.exists_lines hrender

/-- It has lines as Gopher text as well, at a width that is the length of a text. -/
theorem Gopher.exists_lines {o : RenderOptions} (ho : o.Valid)
    (hwidth : o.width ≤ Text.maxLength) {doc : Value}
    (hcheck : Structure.check maxDepth doc = .ok ()) (hstarts : doc.integerStarts = true) :
    ∃ ls, (gopherRenderer o).lines doc = .ok ls := by
  obtain ⟨d, hd, hheight⟩ := exists_document hcheck hstarts
  have hfits : fits o d = true := blocksFit_of_width_le o (refs o d) d.blocks (by omega)
  have hrender := (Gopher.render_eq ho hcheck hd hheight).1
  rw [renderChecked_eq_renderWith hcheck, if_pos hfits] at hrender
  exact Renderer.exists_lines hrender

/-- **Documents can be rendered in parts.**  Let the blocks of `ab` be those of `a` and
then those of `b`, and let the structure check accept it.  Each of the three renders is
its lines, joined with line feeds, and the lines of `ab` are those of `a`, then an empty
line unless these end in one, and then those of `b`; where `a` or `b` has no lines they
are those of the other.  If a part has a fault, it is the fault of the whole.  This holds
of gemtext under all valid options, and of Gopher text where no links are numbered.

There are no faults where ordered lists start with whole numbers, except that a rule in
Gopher text can be longer than any text. -/
theorem render_append {a b ab : Value} {vs ws : List Value} (ha : a.blocks? = some vs)
    (hb : b.blocks? = some ws) (hab : ab.blocks? = some (vs ++ ws))
    (hcheck : Structure.check maxDepth ab = .ok ()) {o : RenderOptions} (ho : o.Valid) :
    ((∀ doc ∈ [a, b, ab], render doc (.string Target.gemini.name) (.record o.record) =
        ((geminiRenderer o).lines doc).map Text.unlines) ∧
      ((geminiRenderer o).lines ab = do
        let ls ← (geminiRenderer o).lines a
        return joinOutputs ls (← (geminiRenderer o).lines b)) ∧
      (ab.integerStarts = true → ∀ doc ∈ [a, b], ∃ ls, (geminiRenderer o).lines doc = .ok ls)) ∧
    (Gopher.footnoting o = false →
      (∀ doc ∈ [a, b, ab], render doc (.string Target.gopher.name) (.record o.record) =
        ((gopherRenderer o).lines doc).map Text.unlines) ∧
      ((gopherRenderer o).lines ab = do
        let ls ← (gopherRenderer o).lines a
        return joinOutputs ls (← (gopherRenderer o).lines b)) ∧
      (ab.integerStarts = true → o.width ≤ Text.maxLength →
        ∀ doc ∈ [a, b], ∃ ls, (gopherRenderer o).lines doc = .ok ls)) := by
  obtain ⟨hchecka, hcheckb⟩ := check_parts ha hb hab hcheck
  have hrender : ∀ (t : Target), ∀ doc ∈ [a, b, ab],
      render doc (.string t.name) (.record o.record) = t.renderWith o doc := by
    intro t doc hdoc
    have hchecked : Structure.check maxDepth doc = .ok () := by
      simp only [List.mem_cons, List.not_mem_nil, or_false] at hdoc
      rcases hdoc with rfl | rfl | rfl <;> assumption
    rw [render_record t ho, renderChecked_eq_renderWith hchecked]
  have hparts : ab.integerStarts = true → ∀ doc ∈ [a, b],
      Structure.check maxDepth doc = .ok () ∧ doc.integerStarts = true := by
    intro hstarts doc hdoc
    obtain ⟨hstartsa, hstartsb⟩ := integerStarts_parts ha hb hab hstarts
    simp only [List.mem_cons, List.not_mem_nil, or_false] at hdoc
    rcases hdoc with rfl | rfl
    · exact ⟨hchecka, hstartsa⟩
    · exact ⟨hcheckb, hstartsb⟩
  refine ⟨⟨fun doc hdoc => ?_, Gemini.separate.lines_append ha hb hab o.width,
    fun hstarts doc hdoc => ?_⟩, fun hfoot => ⟨fun doc hdoc => ?_,
    (Gopher.separate hfoot).lines_append ha hb hab o.width, fun hstarts hwidth doc hdoc => ?_⟩⟩
  · exact (hrender .gemini doc hdoc).trans (Renderer.render_eq_lines _ doc)
  · obtain ⟨hchecked, hstart⟩ := hparts hstarts doc hdoc
    exact Gemini.exists_lines ho hchecked hstart
  · exact (hrender .gopher doc hdoc).trans (Renderer.render_eq_lines _ doc)
  · obtain ⟨hchecked, hstart⟩ := hparts hstarts doc hdoc
    exact Gopher.exists_lines ho hwidth hchecked hstart

/-- A paragraph that is a link. -/
def Value.linkParagraph : Value :=
  .paragraph 1 (.tuple [.link 2 (.string ['u']) (.tuple [.text 3 (.string ['a'])])])

/-- A paragraph in a quote. -/
def Value.quotedParagraph : Value :=
  .blockquote 4 (.array [.paragraph 5 (.tuple [.text 6 (.string ['b'])])])

/-- The two blocks in one document and in two. -/
theorem render_append_link_and_quote :
    (geminiRenderer {}).lines (.document 0 (.tuple [.linkParagraph, .quotedParagraph])) =
        .ok [['a'], "=> u a".toList, [], "> b".toList] ∧
    (gopherRenderer { preserveLinks := false }).lines
        (.document 0 (.tuple [.linkParagraph, .quotedParagraph])) =
      .ok [['a'], [], "> b".toList] := by
  have hwhole := fun (o : RenderOptions) (ho : o.Valid) => @render_append
    (.document 7 (.tuple [.linkParagraph])) (.document 8 (.array [.quotedParagraph]))
    (.document 0 (.tuple [.linkParagraph, .quotedParagraph])) _ _ rfl rfl rfl rfl o ho
  obtain ⟨⟨-, hgemini, -⟩, -⟩ := hwhole {} (by decide)
  obtain ⟨-, hgopher⟩ := hwhole { preserveLinks := false } (by decide)
  rw [hgemini, (hgopher rfl).2.1]
  exact ⟨rfl, rfl⟩

end SmallWeb
