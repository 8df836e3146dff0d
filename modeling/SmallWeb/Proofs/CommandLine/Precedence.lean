/-
SmallWeb/Proofs/CommandLine/Precedence.lean

Which entry decides about an option.

Three layers of entries are written into one dictionary: the lines of the
frontmatter, the width, and the overrides.  `Arguments.layers` is their sequence,
and the entry that should decide about an option is the last one in it that names
the option (`Arguments.chosen?`).

The dictionary is keyed by spelling.  An entry under a spelling that has been used
before replaces the value at its old place, whereas the options are set in the
order of the places.  So the spelling that was used last of all for the first time
decides, with the value that was last written under it (`Arguments.effective?`).
This is the chosen value where the chosen entry has that spelling, as it has
wherever an option is spelled in one way only; it is not where an older spelling
is used again after a newer one (`older_spelling_is_overruled`).

Main result: `options_by_precedence`.
-/
import SmallWeb.CommandLine
import SmallWeb.Proofs.Dictionary
import SmallWeb.Proofs.Frontmatter
import SmallWeb.Proofs.Options.Override
import SmallWeb.Proofs.Text.Number

namespace SmallWeb.CommandLine

open Dictionary

/-! ### The layers -/

/-- The entries of a frontmatter, from its lines between the fences. -/
def frontEntries (block : List (List Char)) : List (List Char × List Char) :=
  block.filterMap Frontmatter.entry?

/-- The entry of the width, if there is one. -/
def Arguments.widthEntries (a : Arguments) : List (List Char × List Char) :=
  a.width.toList.map fun n => ("width".toList, Text.ofInt n)

/-- The entries of all layers in order.  Of the frontmatter only those count that
name an option. -/
def Arguments.layers (a : Arguments) (block : List (List Char)) :
    List (List Char × List Char) :=
  (frontEntries block).filter (fun e => (OptionName.ofKey? e.1).isSome) ++ a.widthEntries ++
    a.overrides

/-- The text that precedence gives to an option: that of the last override for
it, or else, for the width, the width, or else that of the last line of the
frontmatter for it. -/
def Arguments.chosen? (a : Arguments) (block : List (List Char)) (name : OptionName) :
    Option (List Char) :=
  ((lastNaming? name a.overrides).map Prod.snd).or
    ((if name = .width then a.width.map Text.ofInt else none).or
      ((lastNaming? name (frontEntries block)).map Prod.snd))

/-- The text that an option is set from: the one that was written last under the
newest spelling of the option. -/
def Arguments.effective? (a : Arguments) (block : List (List Char)) (name : OptionName) :
    Option (List Char) :=
  (newestKey? name.isNamedBy (a.layers block)).bind fun key => lastValue? key (a.layers block)

/-- The last entry for an option has the newest spelling of the option. -/
def Arguments.EndsNewest (a : Arguments) (block : List (List Char)) (name : OptionName) : Prop :=
  (lastNaming? name (a.layers block)).map Prod.fst =
    newestKey? name.isNamedBy (a.layers block)

instance (a : Arguments) (block : List (List Char)) (name : OptionName) :
    Decidable (a.EndsNewest block name) := inferInstanceAs (Decidable (_ = _))

/-- The entries that are written are those of the layers. -/
theorem Arguments.optionEntries_eq (a : Arguments) (block : List (List Char)) :
    a.optionEntries (ofList (frontEntries block)) =
      ofList ((a.layers block).map (mapValue Value.string)) := by
  show ofList ((((ofList (frontEntries block)).filterKeys _).entries ++ _ ++ _).map
    (mapValue Value.string)) = _
  rw [filterKeys_ofList, List.append_assoc, List.map_append, map_entries_ofList,
    ofList_entries_append, ← List.map_append, ← List.append_assoc]
  rfl

/-! ### The chosen entry -/

/-- Entries that name no option do not matter to any. -/
theorem lastNaming?_filter (name : OptionName) (es : List (List Char × List Char)) :
    lastNaming? name (es.filter fun e => (OptionName.ofKey? e.1).isSome) =
      lastNaming? name es := by
  unfold lastNaming?
  rw [← List.filter_reverse, List.find?_filter]
  congr 1
  funext e
  by_cases h : name.isNamedBy e.1 = true
  · simp [h, OptionName.isNamedBy_iff.mp h]
  · simp [h]

theorem ofKey?_width : OptionName.ofKey? "width".toList = some .width := by decide

theorem Arguments.lastNaming?_widthEntries (a : Arguments) (name : OptionName) :
    (lastNaming? name a.widthEntries).map Prod.snd =
      if name = .width then a.width.map Text.ofInt else none := by
  unfold widthEntries
  cases a.width with
  | none => simp [lastNaming?]
  | some n =>
    show (lastNaming? name [_]).map _ = _
    rw [lastNaming?_singleton]
    by_cases h : name = .width
    · rw [if_pos h, if_pos (OptionName.isNamedBy_iff.mpr (h ▸ ofKey?_width))]
      rfl
    · have hnot : ¬ name.isNamedBy "width".toList = true := by
        rw [OptionName.isNamedBy_iff, ofKey?_width]
        simpa using Ne.symm h
      rw [if_neg h, if_neg hnot]
      rfl

/-- **The chosen entry** is the last one of all layers. -/
theorem Arguments.chosen?_eq (a : Arguments) (block : List (List Char)) (name : OptionName) :
    a.chosen? block name = (lastNaming? name (a.layers block)).map Prod.snd := by
  rw [layers, lastNaming?_append, lastNaming?_append, lastNaming?_filter, Option.map_or,
    Option.map_or, lastNaming?_widthEntries]
  rfl

/-- What is found by a wider search first is found by a narrower one. -/
theorem find?_of_imp {α : Type} {p q : α → Bool} {l : List α} {a : α}
    (h : l.find? p = some a) (ha : q a = true) (himp : ∀ b, q b = true → p b = true) :
    l.find? q = some a := by
  induction l with
  | nil => exact absurd h (by simp)
  | cons b l ih =>
    by_cases hp : p b = true
    · rw [List.find?_cons_of_pos hp] at h
      obtain rfl := Option.some.inj h
      exact List.find?_cons_of_pos ha
    · rw [List.find?_cons_of_neg hp] at h
      rw [List.find?_cons_of_neg fun hq => hp (himp b hq)]
      exact ih h

/-- **Where the last entry for an option has its newest spelling**, the chosen text
is the one that the option is set from. -/
theorem Arguments.effective?_eq_chosen? {a : Arguments} {block : List (List Char)}
    {name : OptionName} (h : a.EndsNewest block name) :
    a.effective? block name = a.chosen? block name := by
  rw [chosen?_eq, effective?, ← h]
  rcases hlast : lastNaming? name (a.layers block) with - | e
  · rfl
  · -- The last entry that names the option is also the last one under its key.
    have hsame : (a.layers block).reverse.find? (fun e' => e'.1 == e.1) = some e := by
      refine find?_of_imp hlast (beq_self_eq_true e.1) fun e' he' => ?_
      rw [eq_of_beq he']
      exact isNamedBy_of_lastNaming? hlast
    show lastValue? e.1 (a.layers block) = some e.2
    rw [lastValue?, hsame]
    rfl

/-- Where an option is spelled in one way only, its last entry has its newest
spelling. -/
theorem Arguments.endsNewest_of_one_spelling {a : Arguments} {block : List (List Char)}
    {name : OptionName} (h : ∀ e ∈ a.layers block, ∀ e' ∈ a.layers block,
      name.isNamedBy e.1 = true → name.isNamedBy e'.1 = true → e.1 = e'.1) :
    a.EndsNewest block name := by
  unfold EndsNewest newestKey?
  rcases hlast : lastNaming? name (a.layers block) with - | e
  · have hnone : ∀ e ∈ a.layers block, ¬ name.isNamedBy e.1 = true := by
      have hfind := List.find?_eq_none.mp hlast
      exact fun e he => hfind e (List.mem_reverse.mpr he)
    refine (List.find?_eq_none.mpr fun key hkey => ?_).symm
    obtain ⟨e, he, rfl⟩ := List.mem_map.mp (List.mem_eraseDups.mp (List.mem_reverse.mp hkey))
    exact hnone e he
  · have he := mem_of_lastNaming? hlast
    have hnamed := isNamedBy_of_lastNaming? hlast
    rcases hnew : ((a.layers block).map Prod.fst).eraseDups.reverse.find? name.isNamedBy
      with - | key
    · have hkey : e.1 ∈ ((a.layers block).map Prod.fst).eraseDups.reverse :=
        List.mem_reverse.mpr (List.mem_eraseDups.mpr (List.mem_map_of_mem he))
      exact absurd hnamed (List.find?_eq_none.mp hnew e.1 hkey)
    · have hkey := List.mem_reverse.mp (List.mem_of_find?_eq_some hnew)
      obtain ⟨e', he', rfl⟩ := List.mem_map.mp (List.mem_eraseDups.mp hkey)
      exact congrArg some (h e he e' he' hnamed (List.find?_some hnew))

/-! ### The options of a run -/

/-- The lines before the first fence, behind a fence at the beginning. -/
theorem split_eq {fence fence' : List Char} {block rest : List (List Char)}
    (hfence : Frontmatter.isFence fence = true)
    (hblock : ∀ l ∈ block, Frontmatter.isFence l = false)
    (hfence' : Frontmatter.isFence fence' = true) :
    Frontmatter.split (fence :: (block ++ fence' :: rest)) =
      (ofList (frontEntries block), rest) := by
  have hunfenced : ∀ l ∈ block, ¬ Frontmatter.IsFence l := by
    intro l hl hfence
    rw [← Frontmatter.isFence_iff, hblock l hl] at hfence
    cases hfence
  exact Frontmatter.split_of_fences (Frontmatter.isFence_iff.mp hfence) hunfenced
    (Frontmatter.isFence_iff.mp hfence')

/-- A width that is not negative may be given. -/
theorem accepts_ofInt {n : Int} (hn : 0 ≤ n) : OptionName.Accepts .width (Text.ofInt n) := by
  refine ⟨.int n, ?_, n, hn, rfl⟩
  rw [OptionName.read, Text.readPlainInt?_trim_ofInt]

/-- The value of an option is the one read from a text, or the default where there
is no text. -/
def SetFrom (o base : RenderOptions) (name : OptionName) (text? : Option (List Char)) : Prop :=
  name.Takes (text?.map Value.string) (base.record.get name) (o.record.get name)

/-- The options that the layers give. -/
theorem Arguments.exists_options {a : Arguments} {block : List (List Char)}
    (hlayers : ∀ e ∈ a.layers block, ∃ name : OptionName,
      OptionName.ofKey? e.1 = some name ∧ name.Accepts e.2) :
    ∃ o, a.target.defaults.record.override (a.optionEntries (ofList (frontEntries block))) =
        .ok o ∧ o.Valid ∧
      ∀ name, SetFrom o a.target.defaults name (a.effective? block name) := by
  rw [a.optionEntries_eq]
  have hentries : ∀ e ∈ (ofList ((a.layers block).map (mapValue Value.string))).entries,
      ∃ name w, OptionName.ofKey? e.1 = some name ∧ name.read e.2 = .ok w ∧ name.Admits w := by
    rw [← map_entries_ofList]
    intro e he
    obtain ⟨written, hwritten, rfl⟩ := List.mem_map.mp he
    obtain ⟨name, hkey, v, hread, hadmits⟩ := hlayers written (mem_of_mem_ofList hwritten)
    exact ⟨name, v, hkey, hread, hadmits⟩
  obtain ⟨o, ho, hvalid, htakes⟩ :=
    OptionRecord.exists_override a.target.valid_defaults hentries
  refine ⟨o, ho, hvalid, fun name => ?_⟩
  -- Options are set in the order of the places, so the last place decides.
  have heffective : (lastNaming? name
      (ofList ((a.layers block).map (mapValue Value.string))).entries).map Prod.snd =
        (a.effective? block name).map Value.string := by
    rw [← map_entries_ofList, effective?, ← find?_reverse_entries_ofList, lastNaming?,
      ← List.map_reverse, List.find?_map, Option.map_map, Option.map_map]
    rfl
  rw [SetFrom, ← heffective]
  exact htakes name

/-- A run on an input that begins with a frontmatter, where the keys of the
overrides name options and the values of all layers can be used.  The lines of the
input are a fence, `block`, a fence and `rest`. -/
structure Arguments.Acceptable (a : Arguments) (content : ByteArray)
    (block rest : List (List Char)) : Prop where
  input : ∃ text fence fence', (Source.octets content).decode = .ok text ∧
    Text.linesWithEnds (Text.unifyLineEnds text) = fence :: (block ++ fence' :: rest) ∧
    Frontmatter.isFence fence = true ∧ Frontmatter.isFence fence' = true
  unfenced : ∀ l ∈ block, Frontmatter.isFence l = false
  frontmatter : ∀ e ∈ frontEntries block, ∀ name : OptionName,
    OptionName.ofKey? e.1 = some name → name.Accepts e.2
  width : ∀ n ∈ a.width, 0 ≤ n
  overrides : ∀ e ∈ a.overrides, ∃ name : OptionName,
    OptionName.ofKey? e.1 = some name ∧ name.Accepts e.2

theorem Arguments.Acceptable.layers {a : Arguments} {content : ByteArray}
    {block rest : List (List Char)} (h : a.Acceptable content block rest) :
    ∀ e ∈ a.layers block, ∃ name : OptionName,
      OptionName.ofKey? e.1 = some name ∧ name.Accepts e.2 := by
  intro e he
  rcases List.mem_append.mp he with he | he
  · rcases List.mem_append.mp he with he | he
    · obtain ⟨he, hkey⟩ := List.mem_filter.mp he
      obtain ⟨name, hkey⟩ := Option.isSome_iff_exists.mp hkey
      exact ⟨name, hkey, h.frontmatter e he name hkey⟩
    · obtain ⟨n, hn, rfl⟩ := List.mem_map.mp he
      exact ⟨.width, ofKey?_width, accepts_ofInt (h.width n (Option.mem_toList.mp hn))⟩
  · exact h.overrides e he

/-- **The options of a run.**  A run with acceptable entries renders what stands
behind the frontmatter with valid options, whichever readers there are.  Each option is
set from the text that was written last under its newest spelling, or else is the default
of the target.  That is the text which precedence gives to the option wherever the last
entry for it has its newest spelling. -/
theorem options_by_precedence {a : Arguments} {content : ByteArray}
    {block rest : List (List Char)} (h : a.Acceptable content block rest) :
    ∃ o, a.target.defaults.record.override (a.optionEntries (ofList (frontEntries block))) =
        .ok o ∧ o.Valid ∧
      (∀ readers : Plugins Reader, a.render readers content =
        convertWith readers (.text rest.flatten) (.string a.target.name) (.record o.record)
          a.reader) ∧
      (∀ name, SetFrom o a.target.defaults name (a.effective? block name)) ∧
      ∀ name, a.EndsNewest block name →
        SetFrom o a.target.defaults name (a.chosen? block name) := by
  obtain ⟨o, ho, hvalid, hset⟩ := Arguments.exists_options h.layers
  refine ⟨o, ho, hvalid, fun readers => ?_, hset, fun name hends => ?_⟩
  · obtain ⟨text, fence, fence', hdecode, hlines, hfence, hfence'⟩ := h.input
    unfold Arguments.render
    rw [hdecode, ok_bind, hlines, split_eq hfence h.unfenced hfence']
    show ((a.target.defaults.record.override _).mapError Fault.config >>= _) = _
    rw [ho]
    rfl
  · rw [← Arguments.effective?_eq_chosen? hends]
    exact hset name

/-- Where an entry can be used for the option that it names, it can be used for
every option that it names. -/
theorem accepts_of_exists {e : List Char × List Char}
    (h : ∃ name : OptionName, OptionName.ofKey? e.1 = some name ∧ name.Accepts e.2) :
    ∀ name : OptionName, OptionName.ofKey? e.1 = some name → name.Accepts e.2 := by
  obtain ⟨name, hkey, haccepts⟩ := h
  intro name' hkey'
  obtain rfl : name = name' := Option.some.inj (hkey.symm.trans hkey')
  exact haccepts

/-- The link style is overridden under a new spelling, and the width under the spelling
that it has. -/
def Arguments.restyled : Arguments :=
  { input := ['a'], width := some 3, overrides := [("link-style".toList, "inline".toList)] }

/-- The frontmatter sets both. -/
def widthAndStyle : String := "---\nwidth: 5\nlink_style: line\n---\na\n"

/-- The lines between its fences. -/
def widthAndStyleBlock : List (List Char) := ["width: 5\n".toList, "link_style: line\n".toList]

theorem acceptable_restyled :
    Arguments.restyled.Acceptable widthAndStyle.toUTF8 widthAndStyleBlock
      [['a', '\n']] where
  input := ⟨widthAndStyle.toList, "---\n".toList, "---\n".toList, by rfl, by decide, by decide, by decide⟩
  unfenced := by decide
  frontmatter := by
    have hentries : frontEntries widthAndStyleBlock =
        [("width".toList, ['5']), ("link_style".toList, "line".toList)] := by decide
    rw [hentries]
    intro e he
    rcases List.mem_pair.mp he with rfl | rfl
    · exact accepts_of_exists ⟨.width, by decide, .int 5, by rfl, 5, by decide, rfl⟩
    · exact accepts_of_exists ⟨.linkStyle, by decide, .style .line, by rfl, .line, rfl⟩
  width := by decide
  overrides := by
    intro e he
    obtain rfl := List.mem_singleton.mp he
    exact ⟨.linkStyle, by decide, .style .inline, by rfl, .inline, rfl⟩

theorem options_by_precedence_of_new_spelling :
    ∃ o : RenderOptions, o.record.get .width = .int 3 ∧
      o.record.get .linkStyle = .style .inline ∧
      Arguments.restyled.render readers widthAndStyle.toUTF8 =
        convertWith readers (.text ['a', '\n']) (.string Target.gopher.name) (.record o.record)
          "markdown".toList := by
  obtain ⟨o, -, -, hrender, -, hset⟩ := options_by_precedence acceptable_restyled
  -- The width has one spelling in all layers, and the last entry for the style is the newest.
  have hwidth := hset .width (Arguments.endsNewest_of_one_spelling (by decide))
  have hstyle := hset .linkStyle (by decide)
  exact ⟨o, (Except.ok.inj hwidth).symm, (Except.ok.inj hstyle).symm, hrender readers⟩

/-- The width is given in the arguments. -/
def Arguments.widthGiven : Arguments := { input := "a.md".toList, width := some 3 }

/-- The frontmatter sets the width under two spellings. -/
def twoWidths : String := "---\nwidth: 5\nWidth: 7\n---\n***\n"

/-- The lines between its fences. -/
def twoWidthsBlock : List (List Char) := ["width: 5\n".toList, "Width: 7\n".toList]

theorem acceptable_widthGiven :
    Arguments.widthGiven.Acceptable twoWidths.toUTF8 twoWidthsBlock ["***\n".toList] where
  input := ⟨twoWidths.toList, "---\n".toList, "---\n".toList, by rfl, by decide, by decide,
    by decide⟩
  unfenced := by decide
  frontmatter := by
    have hentries : frontEntries twoWidthsBlock =
        [("width".toList, ['5']), ("Width".toList, ['7'])] := by decide
    rw [hentries]
    intro e he
    rcases List.mem_pair.mp he with rfl | rfl
    · exact accepts_of_exists ⟨.width, by decide, .int 5, by rfl, 5, by decide, rfl⟩
    · exact accepts_of_exists ⟨.width, by decide, .int 7, by rfl, 7, by decide, rfl⟩
  width := by decide
  overrides := by simp [Arguments.widthGiven]

/-- **Precedence fails** where an older spelling is used again after a newer one.
The frontmatter sets `width` and then `Width`, and the width that is given in the
arguments goes to the place of the former. -/
theorem older_spelling_is_overruled :
    ¬ ∀ (a : Arguments) (content : ByteArray) (block rest : List (List Char)),
      a.Acceptable content block rest →
      ∃ o, a.target.defaults.record.override (a.optionEntries (ofList (frontEntries block))) =
          .ok o ∧
        ∀ name, SetFrom o a.target.defaults name (a.chosen? block name) := by
  intro hclaim
  obtain ⟨o, ho, hset⟩ := hclaim _ _ _ _ acceptable_widthGiven
  -- The arguments ask for 3, and the options that the entries give have 7.
  have hchosen : Except.ok (.int 3) = Except.ok (o.record.get .width) := hset .width
  have heffective : o.record.get .width = .int 7 := by
    obtain rfl := Except.ok.inj (ho.symm.trans (by rfl : _ = Except.ok
      { Target.gopher.defaults with width := 7 }))
    rfl
  rw [heffective] at hchosen
  simp at hchosen

end SmallWeb.CommandLine
