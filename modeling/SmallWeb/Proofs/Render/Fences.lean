/-
SmallWeb/Proofs/Render/Fences.lean

Preformatted text in gemtext, as a reader finds it.

A reader goes through gemtext line by line and keeps one thing in mind: whether the
text is preformatted at the moment.  A line that begins with three backquotes changes
that, and all other lines are what they are.  So one stray fence turns around the
meaning of everything after it.

`Fenced bodies ls` says of the lines of an output that they are code blocks with these
bodies, each between its own two fences, and other lines without a single backquote.
All containers keep this, since they put nothing before a preformatted line
(`Fenced.map`, `Fenced.itemLines`, `Fenced.stackBlocks`).  Whether the reader finds the
bodies is then a question about the bodies alone: a body with a line that looks like a
fence cannot be told from two.

Main result: `gemtext_regions_are_code`.
-/
import SmallWeb.Proofs.Render.Characters
import SmallWeb.Proofs.Render.CodeBlocks

namespace SmallWeb

/-! ### Reading gemtext -/

namespace Gemtext

/-- A line that begins or ends preformatted text. -/
def isToggle (line : List Char) : Bool := Gemini.fence.isPrefixOf line

/-- What a reader has found so far: the preformatted regions that are over, and the
lines of the present one if the text is preformatted at the moment. -/
structure Reading where
  regions : List (List (List Char)) := []
  current : Option (List (List Char)) := none
  deriving DecidableEq, Repr

/-- The reader goes over one line. -/
def Reading.step (r : Reading) (line : List Char) : Reading :=
  if isToggle line then
    match r.current with
    | none => { r with current := some [] }
    | some ls => { regions := r.regions ++ [ls], current := none }
  else { r with current := r.current.map (· ++ [line]) }

/-- What a reader finds in the lines of a text. -/
def read (lines : List (List Char)) : Reading := lines.foldl Reading.step {}

theorem isToggle_of_notMem {line : List Char} (h : '\x60' ∉ line) : isToggle line = false := by
  rw [← Bool.not_eq_true]
  intro htoggle
  obtain ⟨rest, rfl⟩ := List.isPrefixOf_iff_prefix.mp htoggle
  have hfence : '\x60' ∈ Gemini.fence := by decide
  exact h (List.mem_append_left rest hfence)

theorem isToggle_fence (rest : List Char) : isToggle (Gemini.fence ++ rest) = true :=
  List.isPrefixOf_iff_prefix.mpr (List.prefix_append _ _)

/-- Lines that are no fences are collected inside preformatted text and passed over
outside. -/
theorem foldl_step_of_not_toggle {lines : List (List Char)} (h : ∀ l ∈ lines, isToggle l = false)
    (r : Reading) :
    lines.foldl Reading.step r = { r with current := r.current.map (· ++ lines) } := by
  induction lines generalizing r with
  | nil => simp
  | cons l lines ih =>
    obtain ⟨hl, hlines⟩ := List.forall_mem_cons.mp h
    have hstep : r.step l = { r with current := r.current.map (· ++ [l]) } := by
      rw [Reading.step, if_neg (by simp [hl])]
    rw [List.foldl_cons, hstep, ih hlines]
    simp only [Option.map_map, Function.comp_def, List.append_assoc, List.singleton_append]

/-- A body between fences is one region. -/
theorem foldl_step_code {header : List Char} {body : List (List Char)}
    (h : ∀ l ∈ body, isToggle l = false) (regions : List (List (List Char))) :
    ((Gemini.fence ++ header) :: (body ++ [Gemini.fence])).foldl Reading.step ⟨regions, none⟩ =
      ⟨regions ++ [body], none⟩ := by
  have hopen : Reading.step ⟨regions, none⟩ (Gemini.fence ++ header) = ⟨regions, some []⟩ := by
    rw [Reading.step, isToggle_fence]
    rfl
  have hclose : Reading.step ⟨regions, some body⟩ Gemini.fence = ⟨regions ++ [body], none⟩ := rfl
  rw [List.foldl_cons, hopen, List.foldl_append, foldl_step_of_not_toggle h]
  exact hclose

/-- No line of a region, nor of the present one, is a fence. -/
def Reading.Sound (r : Reading) : Prop :=
  (∀ body ∈ r.regions, ∀ l ∈ body, isToggle l = false) ∧
    ∀ body, r.current = some body → ∀ l ∈ body, isToggle l = false

theorem Reading.Sound.step {r : Reading} (h : r.Sound) (line : List Char) : (r.step line).Sound := by
  obtain ⟨hregions, hcurrent⟩ := h
  by_cases hline : isToggle line = true
  · rw [Reading.step, if_pos hline]
    cases hpresent : r.current with
    | none =>
      refine ⟨hregions, fun body hbody => ?_⟩
      obtain rfl := Option.some.inj hbody
      exact fun l hl => absurd hl List.not_mem_nil
    | some ls =>
      -- The present region is over, and it has been sound all along.
      have hover : ∀ body ∈ [ls], ∀ l ∈ body, isToggle l = false :=
        List.forall_mem_singleton.mpr (hcurrent ls hpresent)
      exact ⟨List.forall_mem_append.mpr ⟨hregions, hover⟩, fun body hbody => by cases hbody⟩
  · rw [Reading.step, if_neg hline]
    refine ⟨hregions, fun body hbody => ?_⟩
    obtain ⟨ls, hls, rfl⟩ := Option.map_eq_some_iff.mp hbody
    have hcontent : ∀ l ∈ [line], isToggle l = false :=
      List.forall_mem_singleton.mpr (Bool.not_eq_true _ ▸ hline)
    exact List.forall_mem_append.mpr ⟨hcurrent ls hls, hcontent⟩

/-- **A reader never takes a fence for content.** -/
theorem sound_read (lines : List (List Char)) : (read lines).Sound := by
  have hrun : ∀ (lines : List (List Char)) (r : Reading), r.Sound →
      (lines.foldl Reading.step r).Sound := by
    intro lines
    induction lines with
    | nil => exact fun r hr => hr
    | cons l lines ih => exact fun r hr => ih _ (hr.step l)
  exact hrun lines {} ⟨by simp, by simp⟩

end Gemtext

/-! ### Fenced lines -/

open Gemini Gemtext

/-- Lines that are code blocks with the given bodies, each between two fences, and other
lines without backquotes. -/
inductive Fenced : List (List (List Char)) → List Line → Prop
  | nil : Fenced [] []
  | flow {bodies : List (List (List Char))} {l : Line} {ls : List Line} :
      '\x60' ∉ l.text → Fenced bodies ls → Fenced bodies (l :: ls)
  | code {header : List Char} {body : List (List Char)} {bodies : List (List (List Char))}
      {ls : List Line} : '\n' ∉ header → (∀ l ∈ body, '\n' ∉ l) → Fenced bodies ls →
      Fenced (body :: bodies) (((fence ++ header) :: (body ++ [fence])).map .verbatim ++ ls)

namespace Fenced

variable {bodies bodies' : List (List (List Char))} {ls ms : List Line}

theorem append (h : Fenced bodies ls) (h' : Fenced bodies' ms) :
    Fenced (bodies ++ bodies') (ls ++ ms) := by
  induction h with
  | nil => exact h'
  | flow hl _ ih => exact .flow hl ih
  | code hheader hbody _ ih =>
    rw [List.append_assoc]
    exact .code hheader hbody ih

/-- Lines without backquotes. -/
theorem of_notMem (h : ∀ l ∈ ls, '\x60' ∉ l.text) : Fenced [] ls := by
  induction ls with
  | nil => exact .nil
  | cons l ls ih =>
    obtain ⟨hl, hls⟩ := List.forall_mem_cons.mp h
    exact .flow hl (ih hls)

/-- **What leaves preformatted lines alone** and brings no backquotes into prose keeps
the fences. -/
theorem map {f : Line → Line} (hverbatim : ∀ s, f (.verbatim s) = .verbatim s)
    (hprose : ∀ s, '\x60' ∉ s → '\x60' ∉ (f (.prose s)).text) (h : Fenced bodies ls) :
    Fenced bodies (ls.map f) := by
  induction h with
  | nil => exact .nil
  | @flow bodies l ls hl _ ih =>
    refine .flow ?_ ih
    cases l with
    | prose s => exact hprose s hl
    | verbatim s => rwa [hverbatim]
  | @code header body bodies ls hheader hbody _ ih =>
    have hsame : (((fence ++ header) :: (body ++ [fence])).map Line.verbatim).map f =
        ((fence ++ header) :: (body ++ [fence])).map Line.verbatim := by
      rw [List.map_map]
      exact List.map_congr_left fun s _ => hverbatim s
    rw [List.map_append, hsame]
    exact .code hheader hbody ih

/-- Where the first line is preformatted, an empty one opens the item. -/
theorem exists_openItem (h : Fenced bodies ls) :
    ∃ s ms, layout.openItem ls = .prose s :: ms ∧ '\x60' ∉ s ∧ Fenced bodies ms := by
  cases h with
  | nil => exact ⟨[], [], rfl, List.not_mem_nil, .nil⟩
  | @flow _ l ls hl hls =>
    cases l with
    | prose s => exact ⟨s, ls, rfl, hl, hls⟩
    | verbatim s => exact ⟨[], _, rfl, List.not_mem_nil, .flow hl hls⟩
  | code hheader hbody hls => exact ⟨[], _, rfl, List.not_mem_nil, .code hheader hbody hls⟩

/-- The lines of an item behind a marker. -/
theorem itemLines {marker : List Char} (hmarker : '\x60' ∉ marker) (h : Fenced bodies ls) :
    Fenced bodies (layout.itemLines marker ls) := by
  obtain ⟨s, ms, hopen, hs, hms⟩ := h.exists_openItem
  rw [Layout.itemLines, hopen]
  refine .flow (Line.notMem_text_prepend hmarker hs) (map Line.prepend_nil_verbatim ?_ hms)
  exact fun s hs => Line.notMem_text_prepend List.not_mem_nil hs

theorem flatten {groups : List (List (List (List Char)))} {lss : List (List Line)}
    (h : List.Forall₂ Fenced groups lss) : Fenced groups.flatten lss.flatten := by
  induction h with
  | nil => exact .nil
  | cons hfirst _ ih => exact hfirst.append ih

/-- Blocks with empty lines between them. -/
theorem stackBlocks {groups : List (List (List (List Char)))} {lss : List (List Line)}
    (h : List.Forall₂ Fenced groups lss) : Fenced groups.flatten (stackBlocks lss) := by
  have hspaced := spaced_stackBlocks lss
  generalize SmallWeb.stackBlocks lss = ls at hspaced
  induction hspaced generalizing groups with
  | nil =>
    cases h
    exact .nil
  | @cons block blocks gap rest hgap _ ih =>
    cases h with
    | cons hblock hrest =>
      have hempty : Fenced [] gap := by
        rcases hgap with rfl | rfl
        · exact .nil
        · exact .flow List.not_mem_nil .nil
      exact (hempty.append hblock).append (ih hrest)

/-- **A reader finds the bodies**, if none of their lines looks like a fence. -/
theorem foldl_step (h : Fenced bodies ls)
    (hbodies : ∀ body ∈ bodies, ∀ l ∈ body, isToggle l = false)
    (regions : List (List (List Char))) :
    ((ls.map Line.text).flatMap Text.lines).foldl Reading.step ⟨regions, none⟩ =
      ⟨regions ++ bodies, none⟩ := by
  induction h generalizing regions with
  | nil => rw [List.append_nil]; rfl
  | @flow bodies l ls hl _ ih =>
    have hpieces : ∀ piece ∈ Text.lines l.text, isToggle piece = false := fun piece hpiece =>
      isToggle_of_notMem fun hmem => hl (Text.mem_of_mem_lines hpiece hmem)
    rw [List.map_cons, List.flatMap_cons, List.foldl_append, foldl_step_of_not_toggle hpieces]
    exact ih hbodies regions
  | @code header body bodies ls hheader hbody _ ih =>
    obtain ⟨hfirst, hrest⟩ := List.forall_mem_cons.mp hbodies
    have hfence : '\n' ∉ fence := by decide
    have hline : ∀ l ∈ (fence ++ header) :: (body ++ [fence]), Text.lines l = [l] := by
      intro l hl
      refine Text.lines_of_notMem ?_
      rcases List.mem_cons.mp hl with rfl | hl
      · exact List.not_mem_append hfence hheader
      · exact List.forall_mem_append.mpr ⟨hbody, List.forall_mem_singleton.mpr hfence⟩ l hl
    have hgroup : ((((fence ++ header) :: (body ++ [fence])).map Line.verbatim).map
        Line.text).flatMap Text.lines = (fence ++ header) :: (body ++ [fence]) := by
      rw [Line.map_text_verbatim, List.flatMap_congr hline]
      exact List.flatMap_singleton' _
    rw [List.map_append, List.flatMap_append, List.foldl_append, hgroup, foldl_step_code hfirst,
      ih hrest, List.append_assoc]
    rfl

theorem read_unlines (h : Fenced bodies ls)
    (hbodies : ∀ body ∈ bodies, ∀ l ∈ body, isToggle l = false) :
    read (Text.lines (Text.unlines (ls.map Line.text))) = ⟨bodies, none⟩ := by
  by_cases hls : ls = []
  · subst hls
    cases h
    rfl
  · rw [Text.lines_unlines (by simpa using hls)]
    exact h.foldl_step hbodies []

end Fenced

namespace Gemini

/-! ### Running text without backquotes -/

/-- A space for each line feed is no backquote. -/
theorem notMem_replaceChar {text : List Char} (h : '\x60' ∉ text) :
    '\x60' ∉ Text.replaceChar '\n' ' ' text := by
  intro hmem
  rcases Text.mem_of_mem_replaceChar hmem with hmem | hmem
  · exact h hmem
  · exact absurd hmem (by decide)

/-- Gemtext adds no backquotes to running text. -/
theorem notMem_run (is : List Inline) (h : ∀ t ∈ Inline.runStrings is, '\x60' ∉ t) :
    '\x60' ∉ layout.run is := by
  have hkept : layout.CharsKept fun c => c ≠ '\x60' := charsKept (by decide) (by decide)
  have hstrings : ∀ t ∈ Inline.runStrings is, ∀ c ∈ t, c ≠ '\x60' := by
    rintro t ht c hc rfl
    exact h t ht hc
  exact fun hmem => hkept.forall_mem_run is hstrings _ hmem rfl

/-- A link, as target and text, without backquotes. -/
def NoteUnquoted (n : List Char × List Char) : Prop := '\x60' ∉ n.1 ∧ '\x60' ∉ n.2

mutual

theorem notes_unquoted (i : Inline) (h : ∀ t ∈ i.strings, '\x60' ∉ t) :
    ∀ n ∈ layout.notes i, NoteUnquoted n := by
  cases i with
  | emphasis children => exact runNotes_unquoted children h
  | strong children => exact runNotes_unquoted children h
  | link href children =>
    obtain ⟨hhref, hchildren⟩ := List.forall_mem_cons.mp h
    rw [Layout.notes, List.forall_mem_append]
    refine ⟨runNotes_unquoted children hchildren, ?_⟩
    split
    · simp
    · exact List.forall_mem_singleton.mpr ⟨hhref, notMem_run children hchildren⟩
  | _ => exact fun n hn => absurd hn List.not_mem_nil

theorem runNotes_unquoted (is : List Inline) (h : ∀ t ∈ Inline.runStrings is, '\x60' ∉ t) :
    ∀ n ∈ layout.runNotes is, NoteUnquoted n := by
  cases is with
  | nil => exact fun n hn => absurd hn List.not_mem_nil
  | cons i is =>
    obtain ⟨hi, his⟩ := List.forall_mem_append.mp h
    exact List.forall_mem_append.mpr ⟨notes_unquoted i hi, runNotes_unquoted is his⟩

end

mutual

theorem blockNotes_unquoted (b : Block) (h : ∀ t ∈ b.strings, '\x60' ∉ t) :
    ∀ n ∈ layout.blockNotes b, NoteUnquoted n := by
  cases b with
  | heading level inline => exact runNotes_unquoted inline h
  | paragraph inline => exact runNotes_unquoted inline h
  | list ordered bss start => exact itemsNotes_unquoted bss h
  | blockquote children => exact blocksNotes_unquoted children h
  | _ => exact fun n hn => absurd hn List.not_mem_nil

theorem blocksNotes_unquoted (bs : List Block) (h : ∀ t ∈ Block.runStrings bs, '\x60' ∉ t) :
    ∀ n ∈ layout.blocksNotes bs, NoteUnquoted n := by
  cases bs with
  | nil => exact fun n hn => absurd hn List.not_mem_nil
  | cons b bs =>
    obtain ⟨hb, hbs⟩ := List.forall_mem_append.mp h
    exact List.forall_mem_append.mpr ⟨blockNotes_unquoted b hb, blocksNotes_unquoted bs hbs⟩

theorem itemsNotes_unquoted (bss : List (List Block))
    (h : ∀ t ∈ Block.itemsStrings bss, '\x60' ∉ t) :
    ∀ n ∈ layout.itemsNotes bss, NoteUnquoted n := by
  cases bss with
  | nil => exact fun n hn => absurd hn List.not_mem_nil
  | cons bs bss =>
    obtain ⟨hbs, hbss⟩ := List.forall_mem_append.mp h
    exact List.forall_mem_append.mpr ⟨blocksNotes_unquoted bs hbs, itemsNotes_unquoted bss hbss⟩

end

/-- The lines of the links of a block have no backquotes. -/
theorem notMem_after {notes : List (List Char × List Char)} (h : ∀ n ∈ notes, NoteUnquoted n) :
    ∀ l ∈ layout.after notes, '\x60' ∉ l.text := by
  intro l hl
  obtain ⟨⟨href, text⟩, hn, rfl⟩ := List.mem_map.mp hl
  obtain ⟨hhref, htext⟩ := h _ hn
  have htitle : '\x60' ∉ linkTitle text :=
    fun hmem => notMem_replaceChar htext (Text.mem_of_mem_trim hmem)
  show '\x60' ∉ linkLine href (linkTitle text)
  unfold linkLine
  split <;> simp [hhref, htitle]

/-! ### Blocks between fences -/

/-- Prose has no backquotes if its prefix and its text have none. -/
theorem fenced_proseBlock {width : Nat} {lead text : List Char} (hlead : '\x60' ∉ lead)
    (htext : '\x60' ∉ text) : Fenced [] (proseBlock width lead text) := by
  refine Fenced.of_notMem fun l hl => ?_
  obtain ⟨piece, hpiece, s, hs, rfl⟩ := exists_of_mem_proseBlock hl
  intro hmem
  rcases mem_of_mem_wrapLine hs hmem with hmem | hmem | hmem
  · exact hlead hmem
  · exact htext (Text.mem_of_mem_lines hpiece hmem)
  · exact absurd hmem (by decide)

theorem notMem_marker (ordered : Bool) (start : Int) (index : Nat) :
    '\x60' ∉ layout.marker ordered start index := by
  have hnumber : '\x60' ∉ Text.ofInt (start + index) := by
    intro hmem
    rcases Text.isDigit_of_mem_ofInt hmem with h | h <;> exact absurd h (by decide)
  unfold Layout.marker
  split
  · exact List.not_mem_append hnumber (by decide)
  · decide

/-- A quote leaves preformatted lines alone and marks prose. -/
theorem fenced_quote {bodies : List (List (List Char))} {ls : List Line} (h : Fenced bodies ls) :
    Fenced bodies (ls.map layout.quoteLine) := by
  have hmark : '\x60' ∉ quoteMark := by decide
  exact h.map (fun _ => rfl) fun _ hs => Line.notMem_text_prepend hmark hs

/-- The bodies of code blocks. -/
def bodies (cs : List (List Char × Option (List Char))) : List (List (List Char)) :=
  cs.map fun c => bodyLines c.1

theorem bodies_runCodeBlocks (bs : List Block) :
    bodies (Block.runCodeBlocks bs) = (bs.map fun b => bodies b.codeBlocks).flatten := by
  induction bs with
  | nil => rfl
  | cons b bs ih =>
    rw [Block.runCodeBlocks, bodies, List.map_append, List.map_cons, List.flatten_cons, ← ih]
    rfl

mutual

/-- **The code blocks in a block stand between their fences**, at the beginning of
lines, in whatever containers they are. -/
theorem block_fenced (width : Nat) (b : Block) (h : ∀ t ∈ b.strings, '\x60' ∉ t)
    (hlanguages : ∀ c ∈ b.codeBlocks, ∀ name, c.2 = some name → '\n' ∉ name) :
    Fenced (bodies b.codeBlocks) (layout.block width b) := by
  cases b with
  | heading level inline =>
    have hsigns : '\x60' ∉ List.replicate level.toNat '#' :=
      fun hmem => absurd (List.eq_of_mem_replicate hmem) (by decide)
    refine fenced_proseBlock (List.not_mem_append hsigns (by decide)) ?_
    exact notMem_replaceChar (notMem_run inline h)
  | paragraph inline => exact fenced_proseBlock List.not_mem_nil (notMem_run inline h)
  | list ordered bss start =>
    rw [Layout.block]
    exact items_fenced width ordered start 0 bss h hlanguages
  | codeBlock literal language =>
    have hheader : '\n' ∉ language.getD [] := by
      cases language with
      | none => exact List.not_mem_nil
      | some name => exact hlanguages _ List.mem_cons_self name rfl
    have hcode := Fenced.code hheader (notMem_newline_bodyLines literal) Fenced.nil
    rwa [List.append_nil] at hcode
  | blockquote children =>
    rw [Layout.block, Block.codeBlocks, bodies_runCodeBlocks]
    exact fenced_quote (Fenced.stackBlocks (blocks_fenced _ children h hlanguages))
  | thematicBreak =>
    have hrule : '\x60' ∉ ['-', '-', '-'] := by decide
    exact .flow hrule .nil

theorem blocks_fenced (width : Nat) (bs : List Block)
    (h : ∀ t ∈ Block.runStrings bs, '\x60' ∉ t)
    (hlanguages : ∀ c ∈ Block.runCodeBlocks bs, ∀ name, c.2 = some name → '\n' ∉ name) :
    List.Forall₂ Fenced (bs.map fun b => bodies b.codeBlocks) (layout.blocks width bs) := by
  cases bs with
  | nil => exact .nil
  | cons b bs =>
    obtain ⟨hb, hbs⟩ := List.forall_mem_append.mp h
    obtain ⟨hfirst, hrest⟩ := List.forall_mem_append.mp hlanguages
    exact .cons (block_fenced width b hb hfirst) (blocks_fenced width bs hbs hrest)

theorem items_fenced (width : Nat) (ordered : Bool) (start : Int) (index : Nat)
    (bss : List (List Block)) (h : ∀ t ∈ Block.itemsStrings bss, '\x60' ∉ t)
    (hlanguages : ∀ c ∈ Block.itemsCodeBlocks bss, ∀ name, c.2 = some name → '\n' ∉ name) :
    Fenced (bodies (Block.itemsCodeBlocks bss))
      (layout.items width ordered start index bss).flatten := by
  cases bss with
  | nil => exact .nil
  | cons bs bss =>
    obtain ⟨hbs, hbss⟩ := List.forall_mem_append.mp h
    obtain ⟨hfirst, hrest⟩ := List.forall_mem_append.mp hlanguages
    have hitem : ∀ room, Fenced (bodies (Block.runCodeBlocks bs))
        (layout.itemLines (layout.marker ordered start index)
          (layout.blocks room bs).flatten) := by
      intro room
      rw [bodies_runCodeBlocks]
      exact Fenced.itemLines (notMem_marker ordered start index)
        (Fenced.flatten (blocks_fenced room bs hbs hfirst))
    rw [Block.itemsCodeBlocks, bodies, List.map_append, Layout.items, List.flatten_cons]
    exact (hitem _).append (items_fenced width ordered start (index + 1) bss hbss hrest)

end

/-- The code blocks in a document stand between their fences. -/
theorem document_fenced (o : RenderOptions) (d : Document) (h : ∀ t ∈ d.strings, '\x60' ∉ t)
    (hlanguages : ∀ c ∈ d.codeBlocks, ∀ name, c.2 = some name → '\n' ∉ name) :
    Fenced (bodies d.codeBlocks) (documentLines o d) := by
  have hgroups : ∀ bs : List Block, (∀ t ∈ Block.runStrings bs, '\x60' ∉ t) →
      (∀ c ∈ Block.runCodeBlocks bs, ∀ name, c.2 = some name → '\n' ∉ name) →
      List.Forall₂ Fenced (bs.map fun b => bodies b.codeBlocks)
        (bs.map fun b => layout.block o.width.toNat b ++ layout.after (layout.blockNotes b)) := by
    intro bs hbs hlanguages
    induction bs with
    | nil => exact .nil
    | cons b bs ih =>
      obtain ⟨hb, hbs⟩ := List.forall_mem_append.mp hbs
      obtain ⟨hfirst, hrest⟩ := List.forall_mem_append.mp hlanguages
      have hafter := Fenced.of_notMem (notMem_after (blockNotes_unquoted b hb))
      have hgroup := (block_fenced o.width.toNat b hb hfirst).append hafter
      rw [List.append_nil] at hgroup
      exact .cons hgroup (ih hbs hrest)
  rw [Document.codeBlocks, bodies_runCodeBlocks]
  exact Fenced.stackBlocks (hgroups d.blocks h hlanguages)

end Gemini

/-! ### Renders -/

/-- **A reader of gemtext finds the code.**  Let the running text and the targets of a
document have no backquotes, and its languages no line feeds.  Under all valid options
the preformatted regions that a reader finds in the output are the bodies of the code
blocks, one region for each of them and in their order, and no other line is
preformatted, exactly if no line of a body begins with three backquotes. -/
theorem gemtext_regions_are_code {doc : Value} (hcheck : Structure.check maxDepth doc = .ok ())
    (hstarts : doc.integerStarts = true) :
    ∃ d, Document.ofValue? doc = some d ∧
      ((∀ t ∈ d.strings, '\x60' ∉ t) →
        (∀ c ∈ d.codeBlocks, ∀ language, c.2 = some language → '\n' ∉ language) →
        ∀ o : RenderOptions, o.Valid → ∃ out,
          render doc (.string Target.gemini.name) (.record o.record) = .ok out ∧
            (read (Text.lines out) = ⟨d.codeBlocks.map fun c => Gemini.bodyLines c.1, none⟩ ↔
              ∀ c ∈ d.codeBlocks, ∀ l ∈ Gemini.bodyLines c.1, isToggle l = false)) := by
  obtain ⟨d, hd, hheight⟩ := exists_document hcheck hstarts
  refine ⟨d, hd, fun hstrings hlanguages o ho => ?_⟩
  have hrender := (render_record .gemini ho).trans (Gemini.render_eq ho hcheck hd hheight)
  refine ⟨_, hrender, fun hread => ?_, fun hbodies => ?_⟩
  · -- What a reader takes for content is no fence.
    obtain ⟨hregions, -⟩ := sound_read (Text.lines (Text.unlines
      ((Gemini.documentLines o d).map Line.text)))
    rw [hread] at hregions
    exact fun c hc => hregions _ (List.mem_map_of_mem hc)
  · refine (Gemini.document_fenced o d hstrings hlanguages).read_unlines fun body hbody => ?_
    obtain ⟨c, hc, rfl⟩ := List.mem_map.mp hbody
    exact hbodies c hc

/-- Code at the beginning of a quoted item, and an empty code block. -/
def Value.quotedAndEmptyCode : Value :=
  .document 0 (.tuple [
    .blockquote 1 (.tuple [.list 2 (.bool false)
      (.tuple [.tuple [.codeBlock 3 (.string "> a\n\nb\n".toList) .null]]) .null]),
    .codeBlock 4 (.string []) (.string ['c'])])

theorem gemtext_regions_are_code_of_quoted_item :
    ∃ out, render Value.quotedAndEmptyCode (.string Target.gemini.name)
        (.record Target.gemini.defaults.record) = .ok out ∧
      read (Text.lines out) = ⟨[["> a".toList, [], ['b']], []], none⟩ := by
  obtain ⟨d, hd, hregions⟩ := @gemtext_regions_are_code Value.quotedAndEmptyCode rfl rfl
  obtain rfl := Option.some.inj hd
  obtain ⟨out, hout, hread⟩ := hregions (by decide) (by decide) Target.gemini.defaults (by decide)
  exact ⟨out, hout, hread.mpr (by decide)⟩

/-- A code block whose body is a fence. -/
def Value.fenceAsCode : Value :=
  .document 0 (.tuple [.codeBlock 1 (.string Gemini.fence) .null])

/-- **Code that a reader does not find.** -/
theorem exists_code_read_as_fence :
    ¬ ∀ doc : Value, Structure.check maxDepth doc = .ok () → doc.integerStarts = true →
      ∃ d, Document.ofValue? doc = some d ∧
        ((∀ t ∈ d.strings, '\x60' ∉ t ∧ '\n' ∉ t) →
          (∀ c ∈ d.codeBlocks, ∀ language, c.2 = some language →
            '\x60' ∉ language ∧ '\n' ∉ language) →
          ∀ o : RenderOptions, o.Valid → ∃ out,
            render doc (.string Target.gemini.name) (.record o.record) = .ok out ∧
              read (Text.lines out) =
                ⟨d.codeBlocks.map fun c => Gemini.bodyLines c.1, none⟩) := by
  intro hall
  obtain ⟨d, hd, hregions⟩ := hall Value.fenceAsCode rfl rfl
  obtain rfl := Option.some.inj hd
  obtain ⟨out, hout, hread⟩ := hregions (by decide) (by decide) {} (by decide)
  have hlines : render Value.fenceAsCode (.string Target.gemini.name)
      (.record (RenderOptions.record {})) =
        .ok (Text.unlines [Gemini.fence, Gemini.fence, Gemini.fence]) := rfl
  rw [hlines] at hout
  obtain rfl := Except.ok.inj hout
  exact absurd hread (by decide)

end SmallWeb
