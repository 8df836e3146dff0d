/-
SmallWeb/Proofs/Render/Outcome.lean

What the line-oriented renderers give.

Between the blocks at the top level a format may write lines about the links of
the block before and tidy its log.  `Format.Closes` says that it does so in the
way of its layout; with it the walk over a whole document comes out as the lines
of `Layout.document`.

Main result: `Follows.documentLines`, which `Renderer.render_of_gives` turns into
the result of a renderer and the log that it keeps.  The last section settles what
the entry point does before it renders.
-/
import SmallWeb.Proofs.Options.Check
import SmallWeb.Proofs.Render.Following
import SmallWeb.Render

namespace SmallWeb

open Walk

/-! ### Whole documents -/

/-- A format closes the blocks at the top level as its layout says.  A log is
`fresh` at the beginning of such a block, and `close` is the log after it, from
the links in it. -/
structure Format.Closes (fmt : Format) (s : Layout)
    (note : LinkLog → List Char × List Char → LinkLog) (settled fresh : LinkLog → Prop)
    (close : LinkLog → List (List Char × List Char) → LinkLog) : Prop where
  afterBlock {log : LinkLog} (ns : List (List Char × List Char)) : fresh log →
    fmt.afterBlock (ns.foldl note log) = (s.after ns, close log ns)
  fresh_close {log : LinkLog} (ns : List (List Char × List Char)) : fresh log →
    fresh (close log ns)
  settled_of_close {log : LinkLog} {ns : List (List Char × List Char)} :
    settled (close log ns) → settled (ns.foldl note log)

namespace Format.Follows

variable {fmt : Format} {s : Layout} {note : LinkLog → List Char × List Char → LinkLog}
variable {settled fresh : LinkLog → Prop}
variable {close : LinkLog → List (List Char × List Char) → LinkLog}

/-- A log that becomes final by further blocks is final as far as it goes. -/
theorem settled_of_foldl_close (F : fmt.Follows s note settled)
    (C : fmt.Closes s note settled fresh close) {log : LinkLog}
    {nss : List (List (List Char × List Char))} (h : settled (nss.foldl close log)) :
    settled log := by
  induction nss generalizing log with
  | nil => exact h
  | cons ns nss ih => exact F.settled_of_foldl (C.settled_of_close (ih h))

/-- The walk over a block at the top level and what follows it. -/
theorem topBlock (F : fmt.Follows s note settled) (C : fmt.Closes s note settled fresh close)
    {v : Value} {b : Block} {width : Nat} {log : LinkLog} (hv : Block.ofValue? v = some b)
    (hheight : 1 + b.height ≤ maxDepth) (hfresh : fresh log)
    (hs : settled (close log (s.blockNotes b))) :
    Gives (fmt.topBlock width v) log (s.fits width b)
      (s.block width b ++ s.after (s.blockNotes b)) (close log (s.blockNotes b)) := by
  have hblock : Gives (fmt.block 1 width v) log (s.fits width b) (s.block width b)
      ((s.blockNotes b).foldl note log) := F.block v hv hheight (C.settled_of_close hs)
  -- Behind the block only the log is looked at, which cannot fail.
  rw [Format.topBlock]
  refine hblock.bind_then ?_
  rw [gives_true_iff, outcome_bind_of_ok (outcome_get _), C.afterBlock _ hfresh]
  exact outcome_bind_of_ok (outcome_set _ _)

/-- The walk over the blocks at the top level. -/
theorem topBlocks (F : fmt.Follows s note settled) (C : fmt.Closes s note settled fresh close)
    {vs : List Value} {bs : List Block} {width : Nat} {log : LinkLog}
    (hvs : Block.all? vs = some bs) (hheight : Block.runHeight bs ≤ maxDepth)
    (hfresh : fresh log) (hs : settled ((bs.map s.blockNotes).foldl close log)) :
    Gives (fmt.topBlocks width vs) log (s.blocksFit width bs)
      (bs.map fun b => s.block width b ++ s.after (s.blockNotes b))
      ((bs.map s.blockNotes).foldl close log) := by
  induction vs generalizing bs log with
  | nil =>
    obtain rfl : [] = bs := Option.some.inj hvs
    exact Gives.pure _ log
  | cons v vs ih =>
    obtain ⟨b, bs', hb, hbs, rfl⟩ := Block.all?_cons_eq_some hvs
    rw [Block.runHeight] at hheight
    -- Every block starts from a fresh log, since the one before has been closed.
    rw [List.map_cons, List.foldl_cons] at hs
    have hfirst : Gives (fmt.topBlock width v) log (s.fits width b)
        (s.block width b ++ s.after (s.blockNotes b)) (close log (s.blockNotes b)) :=
      F.topBlock C hb (by omega) hfresh (F.settled_of_foldl_close C hs)
    have hrest := ih hbs (by omega) (C.fresh_close _ hfresh) hs
    exact hfirst.bind (Gives.bind_pure (_ :: ·) hrest)

/-- **The walk over a document** yields the lines of the layout, finished with the
log that the links of all blocks leave. -/
theorem documentLines (F : fmt.Follows s note settled)
    (C : fmt.Closes s note settled fresh close) {v : Value} {d : Document} {width : Nat}
    {log : LinkLog} (hv : Document.ofValue? v = some d)
    (hheight : Block.runHeight d.blocks ≤ maxDepth) (hfresh : fresh log)
    (hs : settled ((d.blocks.map s.blockNotes).foldl close log)) :
    Gives (fmt.documentLines width v) log (s.blocksFit width d.blocks)
      (fmt.finish ((d.blocks.map s.blockNotes).foldl close log) (s.document width d))
      ((d.blocks.map s.blockNotes).foldl close log) := by
  cases v with
  | document id blocks =>
    obtain ⟨bs, hbs, rfl⟩ := Option.map_eq_some_iff.mp hv
    have hget : ∀ (log' : LinkLog) (ls : List (List Line)),
        Gives (do return fmt.finish (← get) (stackBlocks ls)) log' true
          (fmt.finish log' (stackBlocks ls)) log' :=
      fun log' ls => outcome_bind_of_ok (outcome_get log')
    cases blocks with
    | tuple vs =>
      rw [Format.documentLines]
      exact (F.topBlocks C hbs hheight hfresh hs).bind_then (hget _ _)
    | array vs =>
      rw [Format.documentLines]
      exact (F.topBlocks C hbs hheight hfresh hs).bind_then (hget _ _)
    | _ => simp [Block.run?] at hbs
  | _ => simp [Document.ofValue?] at hv

end Format.Follows

/-- A render, from the walk over the document. -/
theorem Renderer.render_of_gives {fmt : Format} {width : Nat} {v : Value} {ok : Bool}
    {lines : List Line} {log log' : LinkLog}
    (h : Gives (fmt.documentLines width v) (fmt.restart log) ok lines log') :
    (Renderer.render ⟨fmt, width, log⟩ v).1 =
        (if ok then .ok (Text.unlines (lines.map Line.text)) else .error .tooLong) ∧
      (ok = true → (Renderer.render ⟨fmt, width, log⟩ v).2.log = log') := by
  have hrender : Gives (fmt.render width v) (fmt.restart log) ok
      (Text.unlines (lines.map Line.text)) log' :=
    Gives.bind_pure (fun ls => Text.unlines (List.map Line.text ls)) h
  cases ok with
  | false => exact ⟨hrender, fun hok => absurd hok (by simp)⟩
  | true =>
    have hresult : (fmt.render width v).outcome (fmt.restart log) = (.ok _, log') := hrender
    exact ⟨congrArg Prod.fst hresult, fun _ => congrArg Prod.snd hresult⟩

/-! ### Finger -/

/-- A line for Finger is never refused. -/
theorem Finger.exists_line {o : RenderOptions} (ho : o.Valid) (segments : List Segment) :
    ∃ t, Finger.line o segments = .ok t := by
  unfold Finger.line
  dsimp only
  split
  · split
    · unfold truncate
      rw [if_neg (Int.not_lt.mpr ho)]
      exact ⟨_, rfl⟩
    · exact ⟨_, rfl⟩
  · exact ⟨_, rfl⟩

/-! ### The entry point -/

/-- Every target goes by its name. -/
theorem Target.ofValue_name (t : Target) : Target.ofValue (.string t.name) = .ok t := by
  cases t <;> rfl

/-- A render with valid options. -/
theorem render_record {doc : Value} (t : Target) {o : RenderOptions} (ho : o.Valid) :
    render doc (.string t.name) (.record o.record) = renderChecked t o doc := by
  unfold render
  rw [Target.ofValue_name, Except.mapError, ok_bind, OptionsInput.resolve,
    RenderOptions.validate_record ho, Except.mapError, ok_bind]

/-- What the structure check accepts is a document, and no deeper than walks may
go. -/
theorem exists_document {doc : Value} (hcheck : Structure.check maxDepth doc = .ok ())
    (hstarts : doc.integerStarts = true) :
    ∃ d, Document.ofValue? doc = some d ∧ Block.runHeight d.blocks ≤ maxDepth := by
  have hlimit : (0 : Int) ≤ (maxDepth : Nat) := Int.natCast_nonneg maxDepth
  obtain ⟨d, hd, hheight⟩ := Document.ofValue?_of_check hlimit hstarts hcheck
  exact ⟨d, hd, Int.ofNat_le.mp hheight⟩

/-- A tree that the structure check accepts is rendered. -/
theorem renderChecked_eq_renderWith {doc : Value} {t : Target} {o : RenderOptions}
    (h : Structure.check maxDepth doc = .ok ()) : renderChecked t o doc = t.renderWith o doc := by
  unfold renderChecked
  rw [h, Except.mapError, ok_bind]

end SmallWeb
