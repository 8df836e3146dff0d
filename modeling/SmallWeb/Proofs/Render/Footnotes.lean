/-
SmallWeb/Proofs/Render/Footnotes.lean

The numbers of links in Gopher text.

The number behind a link is given while the walk goes over it, and the list of
links is written when the walk is over.  Both are told here from the targets of
the document alone, in the order in which the walk finishes the links: the list
is these targets, each once, and the number of a link is the place of its target
in the list.  That the walk agrees with this is `Gopher.render_eq`; what is left
is how the list hangs behind the body.

Main result: `footnotes_number_links`.
-/
import SmallWeb.Proofs.Render.Gopher

namespace SmallWeb

/-! ### Documents with links have lines -/

mutual

/-- A block without lines has no links. -/
theorem Block.targets_of_hasLines_eq_false {b : Block} (h : b.hasLines = false) :
    b.targets = [] := by
  cases b with
  | heading level inline => simp [Block.hasLines] at h
  | paragraph inline => simp [Block.hasLines] at h
  | list ordered bss start =>
    cases bss with
    | nil => rfl
    | cons bs bss => simp [Block.hasLines] at h
  | codeBlock literal language => rfl
  | blockquote children => exact Block.runTargets_of_anyHasLines_eq_false h
  | thematicBreak => rfl

theorem Block.runTargets_of_anyHasLines_eq_false {bs : List Block}
    (h : Block.anyHasLines bs = false) : Block.runTargets bs = [] := by
  cases bs with
  | nil => rfl
  | cons b bs =>
    obtain ⟨hfirst, hrest⟩ := Bool.or_eq_false_iff.mp h
    rw [Block.runTargets, Block.targets_of_hasLines_eq_false hfirst,
      Block.runTargets_of_anyHasLines_eq_false hrest, List.append_nil]

end

namespace Gopher

/-- A document with links has a body. -/
theorem body_ne_nil (o : RenderOptions) {d : Document} (h : d.targets ≠ []) : body o d ≠ [] := by
  have hlines : Block.anyHasLines d.blocks = true := by
    by_contra hnone
    exact h (Block.runTargets_of_anyHasLines_eq_false (Bool.not_eq_true _ ▸ hnone))
  rw [body_eq, ← List.isEmpty_eq_false_iff, stackBlocks, foldl_appendBlock_isEmpty,
    Layout.blocks_all_isEmpty, hlines]
  rfl

/-! ### The list of links -/

theorem refs_ne_nil_iff (o : RenderOptions) (d : Document) :
    refs o d ≠ [] ↔ footnoting o = true ∧ d.targets ≠ [] := by
  unfold refs
  by_cases hfoot : footnoting o = true
  · rw [if_pos hfoot]
    -- Erasing repetitions does not empty a list.
    have hsame : d.targets.eraseDups = [] ↔ d.targets = [] := by
      simp only [List.eq_nil_iff_forall_not_mem, List.mem_eraseDups]
    constructor
    · intro h
      exact ⟨hfoot, fun hnone => h (hsame.mpr hnone)⟩
    · rintro ⟨-, h⟩ hnone
      exact h (hsame.mp hnone)
  · rw [if_neg hfoot]
    constructor
    · intro h
      exact absurd rfl h
    · rintro ⟨h, -⟩
      exact absurd h hfoot

theorem nodup_refs (o : RenderOptions) (d : Document) : (refs o d).Nodup := by
  unfold refs
  split
  · exact nodup_eraseDups d.targets
  · exact List.nodup_nil

/-- The numbered targets of a document. -/
def entries (o : RenderOptions) (d : Document) : List (Nat × List Char) :=
  LinkRegistry.numbered (refs o d)

theorem entries_registry (o : RenderOptions) (d : Document) :
    (registry o d).entries = entries o d := by
  rw [entries, ← targets_registry]
  exact (LinkRegistry.inStep_ofCalls _).entries_eq

/-- A target has its number, and no other target has it. -/
theorem mem_entries_iff_eq {o : RenderOptions} {d : Document} (hfoot : footnoting o = true)
    {href href' : List Char} (hmem : href ∈ d.targets) :
    ((refs o d).idxOf href + 1, href') ∈ entries o d ↔ href' = href := by
  have hrefs : href ∈ refs o d := by
    unfold refs
    rw [if_pos hfoot]
    exact List.mem_eraseDups.mpr hmem
  unfold entries
  rw [LinkRegistry.mem_numbered_iff (nodup_refs o d)]
  constructor
  · rintro ⟨-, hplace⟩
    have hindex : (refs o d).idxOf href = (refs o d).idxOf href' := by omega
    exact ((List.idxOf_inj hrefs).mp hindex).symm
  · rintro rfl
    exact ⟨hrefs, rfl⟩

/-- The lines of the list of links, from the numbered targets. -/
def linkList (entries : List (Nat × List Char)) : List (List Char) :=
  "Links:".toList :: entries.map fun (n, href) => LinkRegistry.entryLine n href

theorem footnotes_eq {r : LinkRegistry} (h : r.entries ≠ []) :
    r.footnotes = Text.unlines (linkList r.entries) := by
  unfold LinkRegistry.footnotes LinkRegistry.footnoteLines
  rw [if_neg (by simpa using h)]
  rfl

/-- **The list of links** stands at the end of the output, behind an empty line. -/
theorem unlines_linkSection (o : RenderOptions) {d : Document} (h : refs o d ≠ []) :
    ∃ before, Text.unlines ((body o d ++ linkSection o d).map Line.text) =
        Text.unlines (before ++ [] :: linkList (entries o d)) ∧
      ((body o d).map Line.text = before ∨ (body o d).map Line.text = before ++ [[]]) := by
  -- There are links, so there is a body, and the separator leaves an empty line
  -- behind it.
  obtain ⟨before, hseparated, hbefore⟩ :=
    exists_append_separator (body_ne_nil o ((refs_ne_nil_iff o d).mp h).2)
  refine ⟨before, ?_, hbefore⟩
  have hne : (registry o d).entries ≠ [] := by
    rw [← List.isEmpty_eq_false_iff, isEmpty_entries_registry]
    exact List.isEmpty_eq_false_iff.mpr h
  have hlist : (registry o d).footnotes = Text.unlines (linkList (entries o d)) := by
    rw [footnotes_eq hne, entries_registry]
  have hlist_ne : linkList (entries o d) ≠ [] := List.cons_ne_nil _ _
  unfold linkSection
  rw [if_neg (by simpa using h), ← List.append_assoc, List.map_append, Line.map_text_prose,
    hseparated, hlist, Text.unlines_append_lines_unlines _ _ hlist_ne, List.append_assoc]
  rfl

/-- **The number of a link** is that of its target in the list. -/
theorem text_link (o : RenderOptions) {d : Document} (hfoot : footnoting o = true)
    {href : List Char} (hhref : href ≠ []) (children : List Inline) :
    (layout o (refs o d)).text (.link href children) =
      shown href ((layout o (refs o d)).run children) ++ [' ', '['] ++
        Text.ofNat ((refs o d).idxOf href + 1) ++ [']'] := by
  have hnot : href.isEmpty = false := List.isEmpty_eq_false_iff.mpr hhref
  rw [Layout.text, hnot, if_neg (by simp)]
  exact if_pos hfoot

end Gopher

/-! ### Renders -/

/-- **Gopher text numbers its links.**  The result of a render is the body and the
section behind it.  Where links are numbered, the entries of the registry are the targets
of the document in the order of first occurrence, counted from one on, every link shows
the number of its target in that list, which no other target has, and the section is the list,
behind an empty line.  Where no links are numbered, or there are none, there is no
section. -/
theorem footnotes_number_links {doc : Value} {o : RenderOptions} (ho : o.Valid)
    (hcheck : Structure.check maxDepth doc = .ok ()) (hstarts : doc.integerStarts = true) :
    ∃ d, Document.ofValue? doc = some d ∧
      render doc (.string Target.gopher.name) (.record o.record) =
        (if Gopher.fits o d then
          .ok (Text.unlines ((Gopher.body o d ++ Gopher.linkSection o d).map Line.text))
        else .error .tooLong) ∧
      (Gopher.fits o d = true → ((gopherRenderer o).render doc).2.log.registry.entries =
        LinkRegistry.numbered (if Gopher.footnoting o then d.targets.eraseDups else [])) ∧
      (Gopher.footnoting o = true → ∀ href ∈ d.targets, ∃ n,
        (∀ href', (n, href') ∈ Gopher.entries o d ↔ href' = href) ∧
        ∀ children, (Gopher.layout o (Gopher.refs o d)).text (.link href children) =
          Gopher.shown href ((Gopher.layout o (Gopher.refs o d)).run children) ++ [' ', '['] ++
            Text.ofNat n ++ [']']) ∧
      (Gopher.footnoting o = true → d.targets ≠ [] → ∃ before,
        Text.unlines ((Gopher.body o d ++ Gopher.linkSection o d).map Line.text) =
          Text.unlines (before ++ [] :: Gopher.linkList (Gopher.entries o d)) ∧
        ((Gopher.body o d).map Line.text = before ∨
          (Gopher.body o d).map Line.text = before ++ [[]])) ∧
      (¬ (Gopher.footnoting o = true ∧ d.targets ≠ []) → Gopher.linkSection o d = []) := by
  obtain ⟨d, hd, hheight⟩ := exists_document hcheck hstarts
  obtain ⟨hrender, hlog⟩ := Gopher.render_eq ho hcheck hd hheight
  refine ⟨d, hd, ?_, fun hfits => ?_, fun hfoot href hmem => ?_, fun hfoot hlinks => ?_,
    fun hnone => ?_⟩
  · rw [render_record _ ho, hrender, Gopher.documentLines_eq]
  · rw [hlog hfits]
    exact Gopher.entries_registry o d
  · have hhref : href ≠ [] := d.ne_nil_of_mem_targets hmem
    refine ⟨_, fun href' => ?_, Gopher.text_link o hfoot hhref⟩
    exact Gopher.mem_entries_iff_eq hfoot hmem
  · exact Gopher.unlines_linkSection o ((Gopher.refs_ne_nil_iff o d).mpr ⟨hfoot, hlinks⟩)
  · have hrefs : Gopher.refs o d = [] := by
      by_contra hne
      exact hnone ((Gopher.refs_ne_nil_iff o d).mp hne)
    rw [Gopher.linkSection, hrefs]
    rfl

/-- Three links, two of them to one target. -/
def Value.repeatedTarget : Value :=
  .document 0 (.tuple [.paragraph 1 (.tuple [.link 2 (.string ['u']) (.tuple []),
    .link 3 (.string ['v']) (.tuple []),
    .link 4 (.string ['u']) (.tuple [.text 5 (.string ['a'])])])])

theorem footnotes_number_links_of_repeated_target :
    ((gopherRenderer Target.gopher.defaults).render Value.repeatedTarget).2.log.registry.entries =
      [(1, ['u']), (2, ['v'])] := by
  obtain ⟨d, hd, -, hregistry, -⟩ :=
    @footnotes_number_links Value.repeatedTarget Target.gopher.defaults (by decide) rfl rfl
  obtain rfl := Option.some.inj hd
  exact hregistry rfl

end SmallWeb
