/-
SmallWeb/Proofs/Render/InStep.lean

Two walks in step.

Some questions about a render are about two of them: what a renderer object still
knows of earlier documents, what the targets of links do to the output, whether the
blocks before a block matter to it.  The two walks start from different logs, or go
over trees with different links, and they meet the same fault or yield the same.

`x.InStep R y` puts this into one statement for a relation `R` between logs.  It is
kept by every way of composing walks (`InStep.bind`), and it says nothing about
proper trees: walks that fail keep in step as well, with what they leave in the log.
So it is enough to look at the operations of a format one by one
(`Format.InStep`), and the walks over all trees follow by one induction.

Main result: `Format.InStep.bodyLines`.
-/
import SmallWeb.Proofs.Document.Retargeting
import SmallWeb.Proofs.Render.Run
import SmallWeb.Render.Gemini
import SmallWeb.Render.Gopher

namespace SmallWeb

namespace Walk

variable {α β : Type} {R : LinkLog → LinkLog → Prop}

/-! ### What walks can yield -/

/-- A walk yields a value from some log. -/
def Yields (x : Walk α) (a : α) : Prop := ∃ log log', x.outcome log = (.ok a, log')

theorem eq_of_yields_pure {a b : α} (h : (pure a : Walk α).Yields b) : b = a := by
  obtain ⟨log, log', h⟩ := h
  cases h
  rfl

theorem eq_ok_of_yields_ofExcept {e : Except Fault α} {a : α} (h : (Walk.ofExcept e).Yields a) :
    e = .ok a := by
  obtain ⟨log, log', h⟩ := h
  exact congrArg Prod.fst h

theorem not_yields_throw {e : Fault} {a : α} : ¬ (throw e : Walk α).Yields a := by
  rintro ⟨log, log', h⟩
  cases h

/-- What a composed walk yields comes from something that its first part yields. -/
theorem Yields.of_bind {x : Walk α} {f : α → Walk β} {b : β} (h : (x >>= f).Yields b) :
    ∃ a, x.Yields a ∧ (f a).Yields b := by
  obtain ⟨log, log', h⟩ := h
  obtain ⟨a, mid, hx, hf⟩ := outcome_bind_eq_ok_iff.mp h
  exact ⟨a, ⟨log, mid, hx⟩, mid, log', hf⟩

/-! ### Walks in step -/

/-- From logs that `R` relates, two walks come to the same end, with a value or a
fault, and they leave logs that `R` relates. -/
def InStep (R : LinkLog → LinkLog → Prop) (x y : Walk α) : Prop :=
  ∀ ⦃log log' : LinkLog⦄, R log log' →
    (x.outcome log).1 = (y.outcome log').1 ∧ R (x.outcome log).2 (y.outcome log').2

theorem InStep.ofExcept (e : Except Fault α) : InStep R (Walk.ofExcept e) (Walk.ofExcept e) :=
  fun _ _ hlog => ⟨rfl, hlog⟩

theorem InStep.pure (a : α) : InStep R (Pure.pure a) (Pure.pure a) :=
  fun _ _ hlog => ⟨rfl, hlog⟩

theorem InStep.throw (e : Fault) : InStep R (throw e : Walk α) (throw e : Walk α) :=
  fun _ _ hlog => ⟨rfl, hlog⟩

/-- **Walks in step compose**, if the rests are in step for what the first parts can
yield. -/
theorem InStep.bind_of_yields {x y : Walk α} {f g : α → Walk β} (hx : InStep R x y)
    (hf : ∀ a, x.Yields a → InStep R (f a) (g a)) : InStep R (x >>= f) (y >>= g) := by
  intro log log' hlog
  obtain ⟨hresult, hleft⟩ := hx hlog
  rw [outcome_bind, outcome_bind]
  rcases hxlog : x.outcome log with ⟨e | a, mid⟩
  · rcases hylog : y.outcome log' with ⟨e' | a', mid'⟩
    · rw [hxlog, hylog] at hresult hleft
      cases hresult
      exact ⟨rfl, hleft⟩
    · rw [hxlog, hylog] at hresult
      cases hresult
  · rcases hylog : y.outcome log' with ⟨e' | a', mid'⟩
    · rw [hxlog, hylog] at hresult
      cases hresult
    · rw [hxlog, hylog] at hresult hleft
      cases hresult
      exact hf a ⟨log, mid, hxlog⟩ hleft

theorem InStep.bind {x y : Walk α} {f g : α → Walk β} (hx : InStep R x y)
    (hf : ∀ a, InStep R (f a) (g a)) : InStep R (x >>= f) (y >>= g) :=
  hx.bind_of_yields fun a _ => hf a

/-- Two targets that get the same number in registries that `R` relates. -/
theorem InStep.registerLink {href href' : List Char}
    (h : ∀ {log log' : LinkLog}, R log log' →
      (log.registry.register href).1 = (log'.registry.register href').1 ∧
        R { log with registry := (log.registry.register href).2 }
          { log' with registry := (log'.registry.register href').2 }) :
    (Walk.registerLink href).InStep R (Walk.registerLink href') :=
  fun _ _ hlog => ⟨congrArg Except.ok (h hlog).1, (h hlog).2⟩

theorem InStep.noteLink {href text : List Char}
    (h : ∀ {log log' : LinkLog}, R log log' →
      R { log with pending := log.pending ++ [(href, text)] }
        { log' with pending := log'.pending ++ [(href, text)] }) :
    (Walk.noteLink href text).InStep R (Walk.noteLink href text) :=
  fun _ _ hlog => ⟨rfl, h hlog⟩

end Walk

open Walk

/-! ### Formats in step -/

/-- A format whose operations keep two walks in step.  Links may have targets that
differ as `S` says; the text of the link is one that its children can have. -/
structure Format.InStep (fmt : Format) (S : Value → Value → Value → Prop)
    (R : LinkLog → LinkLog → Prop) : Prop where
  heading (level : Value) {text text' : Walk (List Char)} (width : Int) : text.InStep R text' →
    (fmt.heading level text width).InStep R (fmt.heading level text' width)
  codeBlock (literal language : Value) :
    (fmt.codeBlock literal language).InStep R (fmt.codeBlock literal language)
  thematicBreak (width : Int) : (fmt.thematicBreak width).InStep R (fmt.thematicBreak width)
  marker (ordered start : Value) (index : Nat) :
    (fmt.marker ordered start index).InStep R (fmt.marker ordered start index)
  link {href href' children : Value} {text : List Char} : S href href' children →
    (fmt.run children).Yields text → (fmt.link href text).InStep R (fmt.link href' text)
  afterBlock {log log' : LinkLog} : R log log' →
    (fmt.afterBlock log).1 = (fmt.afterBlock log').1 ∧
      R (fmt.afterBlock log).2 (fmt.afterBlock log').2

namespace Format

/-- The blocks at the top level, each as its lines. -/
def topGroups (fmt : Format) (width : Int) : Value → Walk (List (List Line))
  | .tuple vs => fmt.topBlocks width vs
  | .array vs => fmt.topBlocks width vs
  | v =>
    match v.plainElements? with
    | some es => plainBlocks 1 es
    | none => throw .wrongType

/-- The output lines of a value in the place of a document, before the output is
finished. -/
def bodyLines (fmt : Format) (width : Int) : Value → Walk (List Line)
  | .document _ blocks => do return stackBlocks (← fmt.topGroups width blocks)
  | _ => throw .noField

/-- The output is the body, finished with the log that the walk over it leaves. -/
theorem documentLines_eq (fmt : Format) (width : Int) (v : Value) :
    fmt.documentLines width v = do
      let body ← fmt.bodyLines width v
      return fmt.finish (← get) body := by
  cases v with
  | document id blocks =>
    rw [bodyLines, bind_assoc]
    cases blocks <;> rfl
  | _ => rfl

namespace InStep

variable {fmt : Format} {S : Value → Value → Value → Prop} {R : LinkLog → LinkLog → Prop}

/-! #### Running text #### -/

mutual

/-- The walks over two runs. -/
theorem run (F : fmt.InStep S R) (v : Value) {v' : Value} (h : v.Retargeted S v') :
    (fmt.run v).InStep R (fmt.run v') := by
  cases v with
  | tuple vs =>
    cases h with
    | tuple hvs =>
      rw [Format.run, Format.run]
      exact (pieces F vs hvs).bind fun ps => InStep.ofExcept (joinPieces ps)
  | array vs =>
    cases h with
    | array hvs =>
      rw [Format.run, Format.run]
      exact (pieces F vs hvs).bind fun ps => InStep.ofExcept (joinPieces ps)
  | string t =>
    cases h
    cases t with
    | nil => exact InStep.pure []
    | cons c t => exact InStep.throw _
  | record fields =>
    cases h
    cases fields with
    | nil => exact InStep.pure []
    | cons field fields => exact InStep.throw _
  | _ => cases h; exact InStep.throw .wrongType

/-- The walks over the nodes of two runs. -/
theorem pieces (F : fmt.InStep S R) (vs : List Value) {vs' : List Value}
    (h : List.Forall₂ (Value.Retargeted S) vs vs') :
    (fmt.pieces vs).InStep R (fmt.pieces vs') := by
  cases vs with
  | nil =>
    cases h
    exact InStep.pure []
  | cons v vs =>
    obtain ⟨v', ws, hv, hvs, rfl⟩ := List.forall₂_cons_left_iff.mp h
    rw [Format.pieces, Format.pieces]
    refine (piece F v hv).bind fun p => ?_
    exact (pieces F vs hvs).bind fun ps => InStep.pure (p :: ps)

/-- The walks over two inline nodes. -/
theorem piece (F : fmt.InStep S R) (v : Value) {v' : Value} (h : v.Retargeted S v') :
    (fmt.piece v).InStep R (fmt.piece v') := by
  cases v with
  | text id t =>
    cases h
    exact InStep.pure t
  | code id literal =>
    cases h
    exact InStep.pure (fmt.codeSpan literal)
  | lineBreak id =>
    cases h
    exact InStep.pure (Value.string ['\n'])
  | emphasis id children =>
    cases h with
    | emphasis hchildren =>
      rw [Format.piece, Format.piece]
      exact (run F children hchildren).bind fun t => InStep.pure (Value.string t)
  | strong id children =>
    cases h with
    | strong hchildren =>
      rw [Format.piece, Format.piece]
      exact (run F children hchildren).bind fun t => InStep.pure (Value.string t)
  | link id href children =>
    cases h with
    | link hhref hchildren =>
      rw [Format.piece, Format.piece]
      -- What a format does with a link may hang on the text below it.
      exact (run F children hchildren).bind_of_yields fun t ht => F.link hhref ht
  | _ => cases h; exact InStep.throw _

end

/-! #### Blocks #### -/

/-- What is neither a sequence nor a node has the same blocks in both. -/
theorem plainBlocks (depth : Nat) (es : List (List Char)) :
    (Format.plainBlocks depth es).InStep R (Format.plainBlocks depth es) := by
  cases es with
  | nil => exact InStep.pure []
  | cons e es => exact (InStep.ofExcept (checkDepth depth)).bind fun _ => InStep.throw _

/-- The walks over an item, from those over its blocks. -/
theorem item (F : fmt.InStep S R) (ordered start : Value) (index : Nat) (width : Int)
    {content content' : Int → Walk (List (List Line))}
    (h : ∀ inner, (content inner).InStep R (content' inner)) :
    (fmt.item ordered start index width content).InStep R
      (fmt.item ordered start index width content') := by
  rw [Format.item, Format.item]
  refine (F.marker ordered start index).bind fun marker => ?_
  exact (h _).bind fun groups => InStep.pure _

theorem plainItems (F : fmt.InStep S R) (depth : Nat) (width : Int) (ordered start : Value)
    (es : List (List Char)) (index : Nat) :
    (fmt.plainItems depth width ordered start index es).InStep R
      (fmt.plainItems depth width ordered start index es) := by
  induction es generalizing index with
  | nil => exact InStep.pure []
  | cons e es ih =>
    rw [Format.plainItems]
    refine (F.item ordered start index width fun _ => plainBlocks depth _).bind fun lines => ?_
    exact (ih (index + 1)).bind fun rest => InStep.pure (lines :: rest)

mutual

/-- **The walks over two blocks.** -/
theorem block (F : fmt.InStep S R) (v : Value) {v' : Value} (h : v.Retargeted S v')
    (depth : Nat) (width : Int) :
    (fmt.block depth width v).InStep R (fmt.block depth width v') := by
  -- Both blocks are at one depth, so both are entered or neither is.
  have henter : (Walk.ofExcept (checkDepth depth)).InStep R (Walk.ofExcept (checkDepth depth)) :=
    InStep.ofExcept (checkDepth depth)
  cases v with
  | heading id level inline =>
    cases h with
    | heading hinline =>
      rw [Format.block, Format.block]
      exact henter.bind fun _ => F.heading level width (F.run inline hinline)
  | paragraph id inline =>
    cases h with
    | paragraph hinline =>
      rw [Format.block, Format.block]
      refine henter.bind fun _ => (F.run inline hinline).bind fun text => ?_
      exact InStep.ofExcept _
  | list id ordered items start =>
    cases h with
    | list hitems =>
      rw [Format.block, Format.block]
      refine henter.bind fun _ => ?_
      exact (itemsOf F items hitems (depth + 1) width ordered start).bind fun groups =>
        InStep.pure groups.flatten
  | codeBlock id literal language =>
    cases h with
    | codeBlock =>
      rw [Format.block, Format.block]
      exact henter.bind fun _ => F.codeBlock literal language
  | blockquote id children =>
    cases h with
    | blockquote hchildren =>
      rw [Format.block, Format.block]
      refine henter.bind fun _ => ?_
      exact (blocksOf F children hchildren (depth + 1) (innerWidth width 2)).bind fun groups =>
        InStep.pure _
  | thematicBreak id =>
    cases h with
    | thematicBreak =>
      rw [Format.block, Format.block]
      exact henter.bind fun _ => F.thematicBreak width
  | _ => cases h; exact henter.bind fun _ => InStep.throw _

/-- The walks over two sequences of blocks. -/
theorem blocksOf (F : fmt.InStep S R) (v : Value) {v' : Value} (h : v.Retargeted S v')
    (depth : Nat) (width : Int) :
    (fmt.blocksOf depth width v).InStep R (fmt.blocksOf depth width v') := by
  cases v with
  | tuple vs =>
    cases h with
    | tuple hvs =>
      rw [Format.blocksOf, Format.blocksOf]
      exact blocks F vs hvs depth width
  | array vs =>
    cases h with
    | array hvs =>
      rw [Format.blocksOf, Format.blocksOf]
      exact blocks F vs hvs depth width
  | string t =>
    cases h
    exact plainBlocks depth _
  | record fields =>
    cases h
    exact plainBlocks depth _
  | _ => cases h; exact InStep.throw .wrongType

/-- The walks over the blocks of two sequences. -/
theorem blocks (F : fmt.InStep S R) (vs : List Value) {vs' : List Value}
    (h : List.Forall₂ (Value.Retargeted S) vs vs') (depth : Nat) (width : Int) :
    (fmt.blocks depth width vs).InStep R (fmt.blocks depth width vs') := by
  cases vs with
  | nil =>
    cases h
    exact InStep.pure []
  | cons v vs =>
    obtain ⟨v', ws, hv, hvs, rfl⟩ := List.forall₂_cons_left_iff.mp h
    rw [Format.blocks, Format.blocks]
    refine (block F v hv depth width).bind fun lines => ?_
    exact (blocks F vs hvs depth width).bind fun rest => InStep.pure (lines :: rest)

/-- The walks over the items of two lists. -/
theorem itemsOf (F : fmt.InStep S R) (v : Value) {v' : Value} (h : v.Retargeted S v')
    (depth : Nat) (width : Int) (ordered start : Value) :
    (fmt.itemsOf depth width ordered start v).InStep R
      (fmt.itemsOf depth width ordered start v') := by
  cases v with
  | tuple vs =>
    cases h with
    | tuple hvs =>
      rw [Format.itemsOf, Format.itemsOf]
      exact eachItem F vs hvs depth width ordered start 0
  | array vs =>
    cases h with
    | array hvs =>
      rw [Format.itemsOf, Format.itemsOf]
      exact eachItem F vs hvs depth width ordered start 0
  | string t =>
    cases h
    exact F.plainItems depth width ordered start _ 0
  | record fields =>
    cases h
    exact F.plainItems depth width ordered start _ 0
  | _ => cases h; exact InStep.throw .wrongType

/-- The walks over the items from some index on. -/
theorem eachItem (F : fmt.InStep S R) (vs : List Value) {vs' : List Value}
    (h : List.Forall₂ (Value.Retargeted S) vs vs') (depth : Nat) (width : Int)
    (ordered start : Value) (index : Nat) :
    (fmt.eachItem depth width ordered start index vs).InStep R
      (fmt.eachItem depth width ordered start index vs') := by
  cases vs with
  | nil =>
    cases h
    exact InStep.pure []
  | cons v vs =>
    obtain ⟨v', ws, hv, hvs, rfl⟩ := List.forall₂_cons_left_iff.mp h
    rw [Format.eachItem, Format.eachItem]
    refine (F.item ordered start index width fun inner => blocksOf F v hv depth inner).bind
      fun lines => ?_
    exact (eachItem F vs hvs depth width ordered start (index + 1)).bind fun rest =>
      InStep.pure (lines :: rest)

end

/-! #### Documents #### -/

/-- The walks over two blocks at the top level and what follows them. -/
theorem topBlock (F : fmt.InStep S R) {v v' : Value} (h : v.Retargeted S v') (width : Int) :
    (fmt.topBlock width v).InStep R (fmt.topBlock width v') := by
  rw [Format.topBlock, Format.topBlock]
  refine (F.block v h 1 width).bind fun lines log log' hlog => ?_
  -- Behind the block only the log is looked at.
  obtain ⟨hafter, hleft⟩ := F.afterBlock hlog
  have hresult : (Except.ok (lines ++ (fmt.afterBlock log).1) : Except Fault (List Line)) =
      .ok (lines ++ (fmt.afterBlock log').1) := by rw [hafter]
  exact ⟨hresult, hleft⟩

/-- The walks over the blocks at the top level. -/
theorem topBlocks (F : fmt.InStep S R) {vs vs' : List Value}
    (h : List.Forall₂ (Value.Retargeted S) vs vs') (width : Int) :
    (fmt.topBlocks width vs).InStep R (fmt.topBlocks width vs') := by
  induction h with
  | nil => exact InStep.pure []
  | cons hv hvs ih =>
    rw [Format.topBlocks, Format.topBlocks]
    refine (F.topBlock hv width).bind fun lines => ?_
    exact ih.bind fun rest => InStep.pure (lines :: rest)

/-- The walks over the contents of two documents. -/
theorem topGroups (F : fmt.InStep S R) {v v' : Value} (h : v.Retargeted S v') (width : Int) :
    (fmt.topGroups width v).InStep R (fmt.topGroups width v') := by
  cases h with
  | tuple hvs => exact F.topBlocks hvs width
  | array hvs => exact F.topBlocks hvs width
  | string => exact plainBlocks 1 _
  | record => exact plainBlocks 1 _
  | _ => exact InStep.throw .wrongType

/-- **The walks over two documents**: they come to the same body, or to the same
fault. -/
theorem bodyLines (F : fmt.InStep S R) {v v' : Value} (h : v.Retargeted S v') (width : Int) :
    (fmt.bodyLines width v).InStep R (fmt.bodyLines width v') := by
  cases h with
  | document hblocks =>
    rw [Format.bodyLines, Format.bodyLines]
    exact (F.topGroups hblocks width).bind fun groups => InStep.pure (stackBlocks groups)
  | _ => exact InStep.throw .noField

/-- **The walks that end in the output**, for a format that writes the same after a
body where `R` relates the logs. -/
theorem render (F : fmt.InStep S R)
    (hfinish : ∀ {log log' : LinkLog} (body : List Line), R log log' →
      fmt.finish log body = fmt.finish log' body)
    {v v' : Value} (h : v.Retargeted S v') (width : Int) :
    (fmt.render width v).InStep R (fmt.render width v') := by
  rw [Format.render, Format.render, documentLines_eq, documentLines_eq]
  refine ((F.bodyLines h width).bind fun body log log' hlog => ?_).bind fun ls => InStep.pure _
  exact ⟨congrArg Except.ok (hfinish body hlog), hlog⟩

end InStep

end Format

/-! ### The formats -/

section

variable {S : Value → Value → Value → Prop} {R : LinkLog → LinkLog → Prop}

/-- Markers are not concerned with links. -/
theorem inStep_itemMarker (bullet : List Char) (ordered start : Value) (index : Nat) :
    (itemMarker bullet ordered start index).InStep R (itemMarker bullet ordered start index) := by
  unfold itemMarker
  split
  · exact (InStep.ofExcept _).bind fun n => InStep.pure _
  · exact InStep.pure bullet

/-- In Gopher text it is only links that look at the log. -/
theorem Gopher.inStep_of_link (o : RenderOptions)
    (hlink : ∀ {href href' children : Value} {text : List Char}, S href href' children →
      ((format o).run children).Yields text →
      (Gopher.link o href text).InStep R (Gopher.link o href' text)) :
    (format o).InStep S R where
  heading _ _ _ _ htext := htext.bind fun _ => InStep.ofExcept _
  codeBlock _ _ := InStep.ofExcept _
  thematicBreak _ := (InStep.ofExcept _).bind fun _ => InStep.pure _
  marker := inStep_itemMarker bullet
  link := hlink
  afterBlock hlog := ⟨rfl, hlog⟩

/-- In gemtext links look at the log, and so does what follows a block. -/
theorem Gemini.inStep_of_link
    (hlink : ∀ {href href' children : Value} {text : List Char}, S href href' children →
      (Gemini.link href text).InStep R (Gemini.link href' text))
    (hafter : ∀ {log log' : LinkLog}, R log log' →
      (afterBlock log).1 = (afterBlock log').1 ∧ R (afterBlock log).2 (afterBlock log').2) :
    format.InStep S R where
  heading level _ _ _ htext :=
    (InStep.ofExcept (headingMarker level)).bind fun _ =>
      htext.bind fun _ => InStep.ofExcept _
  codeBlock _ _ := InStep.ofExcept _
  thematicBreak _ := InStep.pure _
  marker := inStep_itemMarker bullet
  link hhref _ := hlink hhref
  afterBlock := hafter

end

end SmallWeb
