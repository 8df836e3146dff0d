/-
SmallWeb/Proofs/Render/LinkPolicy.lean

What the targets of links do to the output.

Two documents that differ in the targets of their links are rendered side by side.
Where the options hide targets, nothing of them may show: the two renders come to the
same end.  Where the options number them, they may show in the list of links only.
Then the two walks number their links alike, provided that equal targets stay equal and
different ones different, and the registry of the one is that of the other with its
targets renamed.  A link without any text is the exception, since its target stands in
for the text; so every link has to have text below it.

Both are instances of walks in step.  Main result: `render_of_retargeted`.
-/
import SmallWeb.Proofs.Extract.Targets
import SmallWeb.Proofs.Render.Footnotes
import SmallWeb.Proofs.Render.InStep
import SmallWeb.Proofs.Render.Request

namespace SmallWeb

open Walk

/-! ### Runs that have text -/

namespace Value

mutual

/-- Whether a run, or a node in a run, has a text or code that is not empty at or below
it. -/
def hasLiteral : Value → Bool
  | .tuple vs => anyHasLiteral vs
  | .array vs => anyHasLiteral vs
  | .text _ (.string t) => !t.isEmpty
  | .code _ (.string t) => !t.isEmpty
  | .emphasis _ children => hasLiteral children
  | .strong _ children => hasLiteral children
  | .link _ _ children => hasLiteral children
  | _ => false

/-- Whether one of several values has. -/
def anyHasLiteral : List Value → Bool
  | [] => false
  | v :: vs => hasLiteral v || anyHasLiteral vs

end

/-- The targets of two links, where one target is the other renamed and the link has
text. -/
def Renames (s : List Char → List Char) (href href' children : Value) : Prop :=
  ∃ h, href = .string h ∧ href' = .string (s h) ∧ children.hasLiteral = true

end Value

/-- A piece that is not the empty text shows in the text of the pieces. -/
theorem ne_nil_of_joinPieces {ps : List Value} {t : List Char} (h : joinPieces ps = .ok t)
    {p : Value} (hmem : p ∈ ps) (hp : p ≠ .string []) : t ≠ [] := by
  induction ps generalizing t with
  | nil => exact absurd hmem List.not_mem_nil
  | cons q ps ih =>
    cases q with
    | string s =>
      simp only [joinPieces, bind_eq_ok_iff, pure_eq_ok_iff] at h
      obtain ⟨rest, hrest, rfl⟩ := h
      rcases List.mem_cons.mp hmem with rfl | hmem
      · exact fun hnil => hp (congrArg Value.string (List.append_eq_nil_iff.mp hnil).1)
      · exact fun hnil => ih hrest hmem (List.append_eq_nil_iff.mp hnil).2
    | _ => cases h

namespace Gopher

variable (o : RenderOptions)

theorem link_ne_nil {href p : Value} {text : List Char} (htext : text ≠ [])
    (h : (link o href text).Yields p) : p ≠ .string [] := by
  unfold link at h
  split at h
  · rw [eq_of_yields_pure h]
    exact fun hnil => htext (Value.string.inj hnil)
  · split at h
    · rw [eq_of_yields_pure h, withTarget, if_neg (by simpa using htext)]
      simp
    · obtain ⟨n, -, hn⟩ := h.of_bind
      rw [eq_of_yields_pure hn]
      simp

mutual

/-- **A run that has text is not empty** in the output. -/
theorem run_ne_nil (v : Value) (hv : v.hasLiteral = true) {t : List Char}
    (h : ((format o).run v).Yields t) : t ≠ [] := by
  cases v with
  | tuple vs =>
    rw [Format.run] at h
    obtain ⟨ps, hps, hjoin⟩ := h.of_bind
    obtain ⟨p, hmem, hp⟩ := exists_mem_pieces vs hv hps
    exact ne_nil_of_joinPieces (eq_ok_of_yields_ofExcept hjoin) hmem hp
  | array vs =>
    rw [Format.run] at h
    obtain ⟨ps, hps, hjoin⟩ := h.of_bind
    obtain ⟨p, hmem, hp⟩ := exists_mem_pieces vs hv hps
    exact ne_nil_of_joinPieces (eq_ok_of_yields_ofExcept hjoin) hmem hp
  | string s => cases hv
  | record fields => cases hv
  | _ => exact absurd h not_yields_throw

theorem exists_mem_pieces (vs : List Value) (hvs : Value.anyHasLiteral vs = true)
    {ps : List Value} (h : ((format o).pieces vs).Yields ps) : ∃ p ∈ ps, p ≠ .string [] := by
  cases vs with
  | nil => cases hvs
  | cons v vs =>
    rw [Format.pieces] at h
    obtain ⟨p, hp, h⟩ := h.of_bind
    obtain ⟨rest, hrest, h⟩ := h.of_bind
    obtain rfl := eq_of_yields_pure h
    rcases Bool.or_eq_true_iff.mp hvs with hv | hvs
    · exact ⟨p, List.mem_cons_self, piece_ne_nil v hv hp⟩
    · obtain ⟨q, hmem, hq⟩ := exists_mem_pieces vs hvs hrest
      exact ⟨q, List.mem_cons_of_mem p hmem, hq⟩

theorem piece_ne_nil (v : Value) (hv : v.hasLiteral = true) {p : Value}
    (h : ((format o).piece v).Yields p) : p ≠ .string [] := by
  cases v with
  | text id t =>
    rw [Format.piece] at h
    obtain rfl := eq_of_yields_pure h
    rintro rfl
    cases hv
  | code id literal =>
    rw [Format.piece] at h
    obtain rfl := eq_of_yields_pure h
    show codeSpan o literal ≠ .string []
    unfold codeSpan
    split
    · rintro rfl
      cases hv
    · simp
  | lineBreak id => cases hv
  | emphasis id children =>
    rw [Format.piece] at h
    obtain ⟨t, ht, h⟩ := h.of_bind
    obtain rfl := eq_of_yields_pure h
    exact fun hnil => run_ne_nil children hv ht (Value.string.inj hnil)
  | strong id children =>
    rw [Format.piece] at h
    obtain ⟨t, ht, h⟩ := h.of_bind
    obtain rfl := eq_of_yields_pure h
    exact fun hnil => run_ne_nil children hv ht (Value.string.inj hnil)
  | link id href children =>
    rw [Format.piece] at h
    obtain ⟨t, ht, h⟩ := h.of_bind
    exact link_ne_nil o (run_ne_nil children hv ht) h
  | _ => exact absurd h not_yields_throw

end

/-! ### Hidden targets -/

/-- Links whose targets are hidden do not look at the log either. -/
theorem inStep_of_hidden {o : RenderOptions} (h : o.preserveLinks = false)
    {S : Value → Value → Value → Prop} {R : LinkLog → LinkLog → Prop} :
    (format o).InStep S R := by
  refine inStep_of_link o fun {href href' children text} _ _ => ?_
  have hlink : ∀ target, link o target text = pure (.string text) := by
    intro target
    unfold link
    rw [h]
    rfl
  rw [hlink, hlink]
  exact InStep.pure _

/-! ### Renamed targets -/

/-- The second log has the targets of the first renamed. -/
def Renamed (s : List Char → List Char) (log log' : LinkLog) : Prop :=
  LinkRegistry.Renamed s log.registry log'.registry

/-- **Links with renamed targets get the same numbers.** -/
theorem inStep_of_renames {o : RenderOptions} (ho : footnoting o = true)
    {s : List Char → List Char} (hs : Function.Injective s) (hnil : s [] = []) :
    (format o).InStep (Value.Renames s) (Renamed s) := by
  obtain ⟨hlinks, hstyle⟩ : o.preserveLinks = true ∧ o.linkStyle ≠ .inline := by
    simpa [footnoting] using ho
  refine inStep_of_link o ?_
  rintro _ _ children text ⟨href, rfl, rfl, hliteral⟩ hyields
  -- The text is shown in both, since there is some.
  have htext : text.isEmpty = false :=
    List.isEmpty_eq_false_iff.mpr (run_ne_nil o children hliteral hyields)
  have htruthy : (Value.string (s href)).truthy = (Value.string href).truthy := by
    cases href with
    | nil => rw [hnil]
    | cons c cs =>
      have hne : s (c :: cs) ≠ [] := fun hempty =>
        List.cons_ne_nil c cs (hs (hempty.trans hnil.symm))
      simpa [Value.truthy] using hne
  unfold link
  rw [htruthy, hlinks, htext, if_neg hstyle]
  split
  · exact InStep.pure _
  · refine (InStep.registerLink fun {log log'} hlog => ?_).bind fun n => InStep.pure _
    obtain ⟨hnumber, hregister⟩ := LinkRegistry.Renamed.register hs hlog href
    exact ⟨hnumber.symm, hregister⟩

/-! ### Bodies and lists of links -/

/-- The lines of a document before the list of links, or the fault. -/
def bodyOf (doc : Value) : Except Fault (List Line) :=
  (((format o).bodyLines o.width doc).outcome {}).1

/-- The numbered targets after a render. -/
def entriesOf (doc : Value) : List (Nat × List Char) :=
  ((gopherRenderer o).render doc).2.log.registry.entries

/-- An output: a body and, behind an empty line, the list of links if there are any. -/
def output (body : List Line) (entries : List (Nat × List Char)) : List Char :=
  Text.unlines (body.map Line.text ++
    if entries.isEmpty then [] else (separator body).map Line.text ++ linkList entries)

/-- The list of links is written from the numbered targets. -/
theorem unlines_finish (log : LinkLog) (body : List Line) :
    Text.unlines ((finish log body).map Line.text) = output body log.registry.entries := by
  unfold finish output
  by_cases hempty : log.registry.entries.isEmpty = true
  · rw [if_pos hempty, if_pos hempty, List.append_nil]
  · have hlist_ne : linkList log.registry.entries ≠ [] := List.cons_ne_nil _ _
    have hlines : ((Text.lines log.registry.footnotes).map Line.prose).isEmpty = false := by
      simpa using Text.lines_ne_nil log.registry.footnotes
    rw [if_neg hempty, if_neg hempty, appendBlock_eq, hlines, if_neg (by simp), List.map_append,
      Line.map_text_prose, footnotes_eq (by simpa using hempty),
      Text.unlines_append_lines_unlines _ _ hlist_ne, List.map_append, List.append_assoc]

/-- What is written behind the body leaves the log as it is. -/
theorem outcome_render (doc : Value) :
    ((format o).render o.width doc).outcome {} =
      match ((format o).bodyLines o.width doc).outcome {} with
      | (.ok body, log) => (.ok (output body log.registry.entries), log)
      | (.error e, log) => (.error e, log) := by
  rw [Format.render, Format.documentLines_eq, bind_assoc, outcome_bind]
  rcases ((format o).bodyLines o.width doc).outcome {} with ⟨e | body, log⟩
  · rfl
  · exact congrArg (fun text => (Except.ok text, log)) (unlines_finish log body)

theorem entriesOf_eq (doc : Value) :
    entriesOf o doc =
      (((format o).bodyLines o.width doc).outcome {}).2.registry.entries := by
  show (((format o).render o.width doc).outcome {}).2.registry.entries = _
  rw [outcome_render]
  rcases ((format o).bodyLines o.width doc).outcome {} with ⟨e | body, log⟩ <;> rfl

/-- **A render is the body with the list of links**, of the numbered targets. -/
theorem render_eq_output {doc : Value} (hcheck : Structure.check maxDepth doc = .ok ()) :
    renderChecked .gopher o doc = (bodyOf o doc).map fun body => output body (entriesOf o doc) := by
  rw [renderChecked_eq_renderWith hcheck, entriesOf_eq, bodyOf]
  show (((format o).render o.width doc).outcome {}).1 = _
  rw [outcome_render]
  rcases ((format o).bodyLines o.width doc).outcome {} with ⟨e | body, log⟩ <;> rfl

/-- Renamed targets leave the body as it is and are renamed in the list of links. -/
theorem bodyOf_and_entriesOf_of_renames {o : RenderOptions} (ho : footnoting o = true)
    {s : List Char → List Char} (hs : Function.Injective s) (hnil : s [] = [])
    {doc doc' : Value} (h : doc.Retargeted (Value.Renames s) doc') :
    bodyOf o doc' = bodyOf o doc ∧
      entriesOf o doc' = (entriesOf o doc).map fun (n, href) => (n, s href) := by
  have hempty : Renamed s {} {} := ⟨fun _ => rfl, rfl⟩
  obtain ⟨hbody, hlog⟩ := (inStep_of_renames ho hs hnil).bodyLines h o.width hempty
  refine ⟨hbody.symm, ?_⟩
  rw [entriesOf_eq, entriesOf_eq]
  exact hlog.entries

end Gopher

/-! ### Renders -/

/-- A render is settled by what it does with options that can be used. -/
theorem render_congr {t : Target} {doc doc' : Value} {options : OptionsInput}
    (h : ∀ o, options.resolve t = .ok o → renderChecked t o doc = renderChecked t o doc') :
    render doc (.string t.name) options = render doc' (.string t.name) options := by
  unfold render
  rw [Target.ofValue_name, Except.mapError, ok_bind, ok_bind]
  cases hoptions : options.resolve t with
  | error cause => rfl
  | ok o => exact h o hoptions

/-- **The targets of links and the output.**  Of two documents that differ in the targets
of their links and pass the structure check:

* Where the options hide targets, the renders as Gopher text come to the same end, and so
  do those for Finger under any options.
* Where the options number targets, let each link of the second document have the target
  of the first renamed, no two targets becoming the same and the empty one staying
  empty, and let each link have text below it.  Then the bodies are the same, the
  entries are the same but for the renamed targets, and both outputs are the body with
  the list of these entries. -/
theorem render_of_retargeted {doc doc' : Value} (hcheck : Structure.check maxDepth doc = .ok ())
    (hcheck' : Structure.check maxDepth doc' = .ok ()) :
    (doc.Retargeted (fun _ _ _ => True) doc' →
      (∀ r : OptionRecord, r.preserveLinks = .bool false →
        render doc (.string Target.gopher.name) (.record r) =
          render doc' (.string Target.gopher.name) (.record r)) ∧
      ∀ options, render doc (.string Target.finger.name) options =
        render doc' (.string Target.finger.name) options) ∧
    ∀ s : List Char → List Char, Function.Injective s → s [] = [] →
      doc.Retargeted (Value.Renames s) doc' →
      ∀ o : RenderOptions, o.Valid → Gopher.footnoting o = true →
        Gopher.bodyOf o doc' = Gopher.bodyOf o doc ∧
        Gopher.entriesOf o doc' = (Gopher.entriesOf o doc).map (fun (n, href) => (n, s href)) ∧
        render doc (.string Target.gopher.name) (.record o.record) =
          (Gopher.bodyOf o doc).map (fun body => Gopher.output body (Gopher.entriesOf o doc)) ∧
        render doc' (.string Target.gopher.name) (.record o.record) =
          (Gopher.bodyOf o doc').map
            fun body => Gopher.output body (Gopher.entriesOf o doc') := by
  refine ⟨fun h => ⟨fun r hr => ?_, fun options => ?_⟩, fun s hs hnil h o ho hfoot => ?_⟩
  · refine render_congr fun o hresolve => ?_
    obtain ⟨rfl, -⟩ := OptionRecord.validate_eq_ok_iff.mp hresolve
    have hhidden : o.preserveLinks = false := Value.bool.inj hr
    rw [renderChecked_eq_renderWith hcheck, renderChecked_eq_renderWith hcheck']
    have hstep : (Gopher.format o).InStep (fun _ _ _ => True) Eq := Gopher.inStep_of_hidden hhidden
    exact (hstep.render (by rintro log _ body rfl; rfl) h o.width rfl).1
  · refine render_congr fun o _ => ?_
    rw [renderChecked_eq_renderWith hcheck, renderChecked_eq_renderWith hcheck']
    show Finger.render o doc = Finger.render o doc'
    unfold Finger.render
    rw [segments_of_retargeted h]
  · obtain ⟨hbody, hentries⟩ := Gopher.bodyOf_and_entriesOf_of_renames hfoot hs hnil h
    exact ⟨hbody, hentries, (render_record .gopher ho).trans (Gopher.render_eq_output o hcheck),
      (render_record .gopher ho).trans (Gopher.render_eq_output o hcheck')⟩

/-- A link, and a link to another target with a link to the same one in it. -/
def nestedLinks (first second : List Char) : Value :=
  .document 0 (.tuple [.paragraph 1 (.tuple
    [.link 2 (.string first) (.tuple [.text 3 (.string ['a'])]),
      .link 4 (.string second) (.tuple
        [.link 5 (.string first) (.tuple [.code 6 (.string ['b'])])])])])

theorem nestedLinks_retargeted {S : Value → Value → Value → Prop}
    {first second first' second' : List Char}
    (hfirst : ∀ children, children.hasLiteral = true → S (.string first) (.string first') children)
    (hsecond : ∀ children, children.hasLiteral = true →
      S (.string second) (.string second') children) :
    (nestedLinks first second).Retargeted S (nestedLinks first' second') := by
  have hcode : (Value.code 6 (.string ['b'])).Retargeted S (.code 6 (.string ['b'])) := .code
  have htext : (Value.text 3 (.string ['a'])).Retargeted S (.text 3 (.string ['a'])) := .text
  exact .document (.tuple (.cons (.paragraph (.tuple
    (.cons (.link (hfirst _ rfl) (.tuple (.cons htext .nil)))
    (.cons (.link (hsecond _ rfl) (.tuple
      (.cons (.link (hfirst _ rfl) (.tuple (.cons hcode .nil))) .nil))) .nil)))) .nil))

/-- Two targets, one of them used again inside a link to the other. -/
theorem render_of_retargeted_nested_links :
    render (nestedLinks ['u'] ['v']) (.string Target.finger.name) .defaults =
        render (nestedLinks ['x', 'u'] ['x', 'v']) (.string Target.finger.name) .defaults ∧
      Gopher.bodyOf {} (nestedLinks ['x', 'u'] ['x', 'v']) =
        Gopher.bodyOf {} (nestedLinks ['u'] ['v']) ∧
      Gopher.entriesOf {} (nestedLinks ['x', 'u'] ['x', 'v']) =
        [(1, ['x', 'u']), (2, ['x', 'v'])] := by
  have hinjective : Function.Injective fun h : List Char => if h.isEmpty then [] else 'x' :: h := by
    intro h h' hsame
    cases h <;> cases h' <;> simp_all
  obtain ⟨hhidden, hrenamed⟩ := @render_of_retargeted (nestedLinks ['u'] ['v'])
    (nestedLinks ['x', 'u'] ['x', 'v']) rfl rfl
  obtain ⟨-, hfinger⟩ := hhidden (nestedLinks_retargeted (fun _ _ => trivial) fun _ _ => trivial)
  obtain ⟨hbody, hentries, -⟩ := hrenamed _ hinjective rfl
    (nestedLinks_retargeted (fun _ h => ⟨_, rfl, rfl, h⟩) fun _ h => ⟨_, rfl, rfl, h⟩)
    {} (by decide) rfl
  exact ⟨hfinger .defaults, hbody, hentries⟩

end SmallWeb
