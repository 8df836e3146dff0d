/-
SmallWeb/Proofs/Render/RunningText.lean

The walk over running text and the extractor, side by side.

Both are recursions over the same nodes.  The walk asks a format about code and links and
carries a log, the extractor counts depth, and neither knows of the other.  Where the
format adds nothing to code and shows of a link what the extractor shows (`AddsNothing`),
the two keep in step at every node, so the walk yields what the extractor yields, text or
fault, from any log.

The nodes need not be typed: the target of a link may be any value, and where a text is
none the two fail alike.  What is needed is that nodes stand where nodes belong, since the
extractor passes over other values and the walk refuses them, and that no run lies too
deep for the extractor, since the walk does not count.

Main result: `running_text_agrees`.
-/
import SmallWeb.Proofs.Render.Gopher
import SmallWeb.Proofs.Render.InStep
import SmallWeb.Proofs.Structure

namespace SmallWeb

/-- A run of inline nodes: sequences stand in the places of sequences and inline nodes in
the places of inline nodes, at every depth. -/
def Value.IsRun (v : Value) : Prop := ∀ p ∈ v.places .inlines 1, p.role.admits p.value = true

instance (v : Value) : Decidable v.IsRun :=
  inferInstanceAs (Decidable (∀ p ∈ v.places .inlines 1, p.role.admits p.value = true))

namespace Walk

variable {α β : Type} {R : LinkLog → LinkLog → Prop}

/-- A computation without a log that is composed of two is a walk composed of two. -/
theorem ofExcept_bind (e : Except Fault α) (g : α → Except Fault β) :
    Walk.ofExcept (e >>= g) = (Walk.ofExcept e >>= fun a => Walk.ofExcept (g a)) := by
  cases e <;> rfl

/-- A composed walk is in step with a composed computation if their parts are. -/
theorem InStep.bind_ofExcept {x : Walk α} {f : α → Walk β} {e : Except Fault α}
    {g : α → Except Fault β} (hx : InStep R x (Walk.ofExcept e))
    (hf : ∀ a, InStep R (f a) (Walk.ofExcept (g a))) :
    InStep R (x >>= f) (Walk.ofExcept (e >>= g)) := by
  rw [ofExcept_bind]
  exact hx.bind hf

end Walk

/-! ### Formats that add nothing -/

/-- A format shows code bare, and of a link what the extractor shows of it, with targets or
without them. -/
structure Format.AddsNothing (fmt : Format) (hrefs : Bool) (R : LinkLog → LinkLog → Prop) :
    Prop where
  codeSpan (literal : Value) : fmt.codeSpan literal = literal
  link (href : Value) (text : List Char) : (fmt.link href text).InStep R
    (pure (if hrefs && href.truthy then withTarget text href else .string text))

/-- Gemtext notes its links and shows their text. -/
theorem Gemini.addsNothing : Gemini.format.AddsNothing false fun _ _ => True where
  codeSpan _ := rfl
  link href text := by
    show (Gemini.link href text).InStep _ (pure (.string text))
    intro log log' _
    unfold Gemini.link
    split <;> exact ⟨rfl, trivial⟩

/-- Gopher text without targets shows the text of its links. -/
theorem Gopher.addsNothing_of_not_preserveLinks {o : RenderOptions}
    (hstrip : o.stripFormatting = true) (hlinks : o.preserveLinks = false)
    (R : LinkLog → LinkLog → Prop) : (Gopher.format o).AddsNothing false R where
  codeSpan _ := if_pos hstrip
  link href text := by
    have hlink : Gopher.link o href text = pure (.string text) := if_pos (by simp [hlinks])
    show (Gopher.link o href text).InStep R (pure (.string text))
    rw [hlink]
    exact Walk.InStep.pure _

/-- Gopher text with targets in their places shows them as the extractor does. -/
theorem Gopher.addsNothing_of_inline {o : RenderOptions} (hstrip : o.stripFormatting = true)
    (hlinks : o.preserveLinks = true) (hstyle : o.linkStyle = .inline)
    (R : LinkLog → LinkLog → Prop) : (Gopher.format o).AddsNothing true R where
  codeSpan _ := if_pos hstrip
  link href text := by
    show (Gopher.link o href text).InStep R _
    unfold Gopher.link
    rw [hlinks, hstyle]
    cases href.truthy <;> exact Walk.InStep.pure _

/-! ### The two recursions -/

namespace Format.AddsNothing

open Walk Extract

variable {fmt : Format} {hrefs : Bool} {R : LinkLog → LinkLog → Prop}

mutual

/-- **A run is walked as it is extracted**, if the extractor comes to its end. -/
theorem run (F : fmt.AddsNothing hrefs R) (v : Value) {depth : Nat}
    (hv : ∀ p ∈ v.places .inlines depth, p.role.admits p.value = true) {t : List Char}
    (h : runText false depth v = .ok t) :
    (fmt.run v).InStep R (Walk.ofExcept (runText hrefs depth v)) := by
  obtain ⟨hself, hwithin⟩ := List.forall_mem_cons.mp hv
  cases v with
  | tuple vs =>
    obtain ⟨⟨⟩, hdepth, h⟩ := bind_eq_ok_iff.mp h
    obtain ⟨ps, hps, -⟩ := bind_eq_ok_iff.mp h
    rw [Format.run, runText, hdepth, ok_bind]
    exact (pieces F vs hwithin hps).bind_ofExcept fun qs => InStep.ofExcept (joinPieces qs)
  | array vs =>
    obtain ⟨⟨⟩, hdepth, h⟩ := bind_eq_ok_iff.mp h
    obtain ⟨ps, hps, -⟩ := bind_eq_ok_iff.mp h
    rw [Format.run, runText, hdepth, ok_bind]
    exact (pieces F vs hwithin hps).bind_ofExcept fun qs => InStep.ofExcept (joinPieces qs)
  | _ => exact absurd hself (by simp [Role.admits, Value.isSequence])

/-- The nodes of a run. -/
theorem pieces (F : fmt.AddsNothing hrefs R) (vs : List Value) {depth : Nat}
    (hvs : ∀ p ∈ Value.placesAll .inline depth vs, p.role.admits p.value = true)
    {ps : List Value} (h : Extract.pieces false depth vs = .ok ps) :
    (fmt.pieces vs).InStep R (Walk.ofExcept (Extract.pieces hrefs depth vs)) := by
  cases vs with
  | nil => exact InStep.pure _
  | cons v vs =>
    obtain ⟨first, hfirst, h⟩ := bind_eq_ok_iff.mp h
    obtain ⟨rest, hrest, -⟩ := bind_eq_ok_iff.mp h
    rw [Value.placesAll_cons, List.forall_mem_append] at hvs
    -- The walk has one piece for a node where the extractor has a list of pieces.
    have hstep : fmt.pieces (v :: vs) =
        ((do return [← fmt.piece v]) >>= fun ps => do return ps ++ (← fmt.pieces vs)) := by
      rw [Format.pieces]
      simp only [bind_assoc, pure_bind, List.singleton_append]
    rw [hstep, Extract.pieces]
    exact (piece F v hvs.1 hfirst).bind_ofExcept fun ps =>
      (pieces F vs hvs.2 hrest).bind_ofExcept fun qs => InStep.pure (ps ++ qs)

/-- One node. -/
theorem piece (F : fmt.AddsNothing hrefs R) (v : Value) {depth : Nat}
    (hv : ∀ p ∈ v.places .inline depth, p.role.admits p.value = true) {ps : List Value}
    (h : Extract.piece false depth v = .ok ps) :
    (do return [← fmt.piece v] : Walk (List Value)).InStep R
      (Walk.ofExcept (Extract.piece hrefs depth v)) := by
  obtain ⟨hself, hwithin⟩ := List.forall_mem_cons.mp hv
  cases v with
  | text id t => exact InStep.pure [t]
  | code id literal =>
    rw [Format.piece, F.codeSpan]
    exact InStep.pure [literal]
  | lineBreak id => exact InStep.pure [Value.string ['\n']]
  | emphasis id children =>
    obtain ⟨t, ht, -⟩ := bind_eq_ok_iff.mp h
    rw [Format.piece, Extract.piece, bind_assoc]
    exact (run F children hwithin ht).bind_ofExcept fun t => InStep.pure [Value.string t]
  | strong id children =>
    obtain ⟨t, ht, -⟩ := bind_eq_ok_iff.mp h
    rw [Format.piece, Extract.piece, bind_assoc]
    exact (run F children hwithin ht).bind_ofExcept fun t => InStep.pure [Value.string t]
  | link id href children =>
    obtain ⟨t, ht, -⟩ := bind_eq_ok_iff.mp h
    rw [Format.piece, Extract.piece, bind_assoc]
    exact (run F children hwithin ht).bind_ofExcept fun t =>
      (F.link href t).bind fun p => InStep.pure [p]
  | _ => exact absurd hself (by simp [Role.admits, Value.isInline])

end

end Format.AddsNothing

/-! ### Typed runs -/

/-- Where links are not numbered a walk over a typed run yields a text. -/
theorem Gopher.exists_outcome_run {o : RenderOptions} (hstyle : o.linkStyle = .inline)
    {v : Value} {is : List Inline} (hv : Inline.run? v = some is) :
    ∃ t log, ((Gopher.format o).run v).outcome {} = (.ok t, log) := by
  have hfoot : Gopher.footnoting o = false := by simp [Gopher.footnoting, hstyle]
  have hsettled : Gopher.Settled []
      (((Gopher.layout o []).runNotes is).foldl (Gopher.note o) {}) := by
    -- Nothing is numbered, so the index stays empty.
    rw [Gopher.foldl_note, hfoot]
    exact fun href n hget => absurd hget (Option.some_ne_none n).symm
  exact ⟨_, _, Walk.gives_true_iff.mp ((Gopher.follows o []).run v hv hsettled)⟩

/-- **Running text is walked as it is extracted.**  For a run of inline nodes that the
extractor reads, from any log: gemtext shows the text that the extractor gives, whatever
the options, and so does Gopher text without markup and without targets.  Gopher text
without markup and with targets in their places gives what the extractor gives with
targets, and this is a text if the fields of the nodes are. -/
theorem running_text_agrees {v : Value} (hv : v.IsRun) {t : List Char}
    (ht : extractInline false v = .ok t) (o : RenderOptions) (log : LinkLog) :
    (((geminiRenderer o).format.run v).outcome log).1 = .ok t ∧
    (o.stripFormatting = true → o.preserveLinks = false →
      ((gopherRenderer o).format.run v).outcome log = (.ok t, log)) ∧
    (o.stripFormatting = true → o.preserveLinks = true → o.linkStyle = .inline →
      ((gopherRenderer o).format.run v).outcome log = (extractInline true v, log)) ∧
    ((Inline.run? v).isSome → ∃ t', extractInline true v = .ok t') := by
  have hinline : ∀ o : RenderOptions, o.stripFormatting = true → o.preserveLinks = true →
      o.linkStyle = .inline → ∀ log,
      ((gopherRenderer o).format.run v).outcome log = (extractInline true v, log) := by
    intro o hstrip hlinks hstyle log
    have hrun := (Gopher.addsNothing_of_inline hstrip hlinks hstyle Eq).run v hv ht
    exact Prod.ext (hrun rfl).1 (hrun rfl).2
  refine ⟨?_, fun hstrip hlinks => ?_, fun hstrip hlinks hstyle =>
    hinline o hstrip hlinks hstyle log, fun htyped => ?_⟩
  · have hrun := Gemini.addsNothing.run v hv ht
    exact (@hrun log log trivial).1.trans ht
  · have hrun := (Gopher.addsNothing_of_not_preserveLinks hstrip hlinks Eq).run v hv ht
    exact Prod.ext ((hrun rfl).1.trans ht) (hrun rfl).2
  · obtain ⟨is, his⟩ := Option.isSome_iff_exists.mp htyped
    obtain ⟨t', log', ht'⟩ := Gopher.exists_outcome_run
      (o := { linkStyle := .inline, stripFormatting := true }) rfl his
    have hsame := (hinline { linkStyle := .inline, stripFormatting := true } rfl rfl rfl {}).symm
    exact ⟨t', congrArg Prod.fst (hsame.trans ht')⟩

/-- A link without text, and one without a target around code and another link. -/
def Value.linksInLinks : Value :=
  .tuple [.link 1 (.string ['u']) (.tuple []), .text 2 (.string [' ']),
    .strong 3 (.array [.link 4 (.string []) (.tuple [.code 5 (.string ['a']),
      .link 6 (.string ['v']) (.tuple [.emphasis 7 (.tuple [.text 8 (.string ['b'])])])])])]

theorem running_text_agrees_of_links_in_links :
    ∃ t t', extractInline false Value.linksInLinks = .ok t ∧
      extractInline true Value.linksInLinks = .ok t' ∧ t = " ab".toList ∧
      t' = "u ab (v)".toList ∧
      (((geminiRenderer {}).format.run Value.linksInLinks).outcome {}).1 = .ok t ∧
      ((gopherRenderer { linkStyle := .inline, stripFormatting := true }).format.run
        Value.linksInLinks).outcome {} = (.ok t', {}) := by
  obtain ⟨hgemini, -, hgopher, htyped⟩ := @running_text_agrees Value.linksInLinks (by decide) _
    rfl { linkStyle := .inline, stripFormatting := true } {}
  obtain ⟨t', ht'⟩ := htyped rfl
  have hinline := hgopher rfl rfl rfl
  rw [ht'] at hinline
  exact ⟨_, t', rfl, ht', rfl, (Except.ok.inj ht').symm, hgemini, hinline⟩

end SmallWeb
