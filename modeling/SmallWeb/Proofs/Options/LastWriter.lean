/-
SmallWeb/Proofs/Options/LastWriter.lean

Overriding options: the last writer wins.

A record is the values of its options (`OptionRecord.ext_get`), and what entries make of
one of them depends on the last entry that names it and on no other
(`OptionName.Obtains`).  So a whole run is told in terms of its entries: it succeeds
exactly if each entry names an option and can be read for it, and the values obtained in
the end are admitted.  Values that are replaced later need not be admitted, but they must
be readable.

Nothing in this depends on how entries for different options are arranged.

Main result: `override_last_writer_wins`.
-/
import SmallWeb.Proofs.Options.Override
import SmallWeb.Proofs.Options.Reading

namespace SmallWeb

/-! ### The last entry for an option -/

section

variable {α : Type} {name : OptionName} {es es' : List (List Char × α)} {e : List Char × α}

theorem OptionName.isNamedBy_iff_names {key : List Char} :
    name.isNamedBy key = true ↔ name.Names key :=
  OptionName.isNamedBy_iff.trans OptionName.ofKey?_eq_some_iff

theorem lastNaming?_eq_none_iff : lastNaming? name es = none ↔ ∀ e ∈ es, ¬ name.Names e.1 := by
  unfold lastNaming?
  rw [List.find?_eq_none]
  simp only [List.mem_reverse, OptionName.isNamedBy_iff_names]

theorem lastNaming?_eq_some_iff : lastNaming? name es = some e ↔
    ∃ xs ys, es = xs ++ e :: ys ∧ name.Names e.1 ∧ ∀ e' ∈ ys, ¬ name.Names e'.1 := by
  constructor
  · intro h
    obtain ⟨hnamed, ys, xs, heq, hys⟩ := List.find?_eq_some_iff_append.mp h
    refine ⟨xs.reverse, ys.reverse, ?_, OptionName.isNamedBy_iff_names.mp hnamed, ?_⟩
    · rw [← List.reverse_reverse es, heq]
      simp
    · intro e' he' hnames
      have hnot := hys e' (List.mem_reverse.mp he')
      rw [OptionName.isNamedBy_iff_names.mpr hnames] at hnot
      cases hnot
  · rintro ⟨xs, ys, rfl, hnames, hys⟩
    rw [← List.singleton_append, lastNaming?_append, lastNaming?_append,
      lastNaming?_eq_none_iff.mpr hys, lastNaming?_singleton,
      if_pos (OptionName.isNamedBy_iff_names.mpr hnames)]
    rfl

/-- The last entry for an option is the last of those that are for it. -/
theorem lastNaming?_eq_getLast? :
    lastNaming? name es = (es.filter fun e => name.isNamedBy e.1).getLast? := by
  unfold lastNaming?
  rw [← List.head?_filter, List.filter_reverse, List.head?_reverse]

/-- The same entries, with those for one and the same option in the same order. -/
structure Rearranged (es es' : List (List Char × α)) : Prop where
  perm : es.Perm es'
  inTurn : ∀ name : OptionName,
    (es.filter fun e => name.isNamedBy e.1) = es'.filter fun e => name.isNamedBy e.1

/-- Neighbours that are not for the same option may change places. -/
theorem Rearranged.swap (xs ys : List (List Char × α)) {e e' : List Char × α}
    (h : ∀ name : OptionName, ¬ (name.Names e.1 ∧ name.Names e'.1)) :
    Rearranged (xs ++ e :: e' :: ys) (xs ++ e' :: e :: ys) where
  perm := (List.Perm.swap e' e ys).append_left xs
  inTurn name := by
    rw [List.filter_append, List.filter_append]
    congr 1
    by_cases he : name.isNamedBy e.1 = true
    · have he' : ¬ name.isNamedBy e'.1 = true := fun he' =>
        h name ⟨OptionName.isNamedBy_iff_names.mp he, OptionName.isNamedBy_iff_names.mp he'⟩
      simp [List.filter_cons, he']
    · simp [List.filter_cons, he]

theorem Rearranged.symm (h : Rearranged es es') : Rearranged es' es :=
  ⟨h.perm.symm, fun name => (h.inTurn name).symm⟩

end

/-- A key names one option. -/
theorem OptionName.Names.unique {name name' : OptionName} {key : List Char} (h : name.Names key)
    (h' : name'.Names key) : name = name' :=
  Option.some.inj ((ofKey?_eq_some_iff.mpr h).symm.trans (ofKey?_eq_some_iff.mpr h'))

/-! ### The value of an option -/

/-- What entries make of the value of an option: the last entry for it decides, and without
one the value is kept. -/
inductive OptionName.Obtains (name : OptionName) (es : List (List Char × Value))
    (before : Value) : Value → Prop
  | last {xs ys : List (List Char × Value)} {e : List Char × Value} {w : Value} :
      es = xs ++ e :: ys → name.Names e.1 → (∀ e' ∈ ys, ¬ name.Names e'.1) → name.Reads e.2 w →
      Obtains name es before w
  | kept : (∀ e ∈ es, ¬ name.Names e.1) → Obtains name es before before

namespace OptionName

variable {name : OptionName} {es es' : List (List Char × Value)} {before v w : Value}

theorem obtains_iff_takes :
    name.Obtains es before w ↔ name.Takes ((lastNaming? name es).map Prod.snd) before w := by
  constructor
  · intro h
    cases h with
    | last hes hnames hys hreads =>
      rw [lastNaming?_eq_some_iff.mpr ⟨_, _, hes, hnames, hys⟩]
      exact read_eq_ok_iff.mpr hreads
    | kept hnone =>
      rw [lastNaming?_eq_none_iff.mpr hnone]
      rfl
  · intro h
    rcases hlast : lastNaming? name es with - | e
    · rw [hlast] at h
      obtain rfl : w = before := h
      exact .kept (lastNaming?_eq_none_iff.mp hlast)
    · rw [hlast] at h
      obtain ⟨xs, ys, hes, hnames, hys⟩ := lastNaming?_eq_some_iff.mp hlast
      exact .last hes hnames hys (read_eq_ok_iff.mp h)

/-- At most one value is obtained. -/
theorem Obtains.unique (hv : name.Obtains es before v) (hw : name.Obtains es before w) : v = w := by
  rw [obtains_iff_takes] at hv hw
  rcases hlast : (lastNaming? name es).map Prod.snd with - | given
  · rw [hlast] at hv hw
    exact Eq.trans hv (Eq.symm hw)
  · rw [hlast] at hv hw
    exact Except.ok.inj (hv.symm.trans hw)

/-- **Entries for other options** may stand anywhere. -/
theorem Obtains.of_rearranged (h : Rearranged es es') (hw : name.Obtains es before w) :
    name.Obtains es' before w := by
  rw [obtains_iff_takes, lastNaming?_eq_getLast?] at hw ⊢
  rwa [← h.inTurn name]

end OptionName

/-! ### Records -/

/-- Each entry names an option and can be read for it. -/
def Readable (es : List (List Char × Value)) : Prop :=
  ∀ e ∈ es, ∃ (name : OptionName) (w : Value), name.Names e.1 ∧ name.Reads e.2 w

theorem not_readable_iff {es : List (List Char × Value)} :
    ¬ Readable es ↔
      (∃ e ∈ es, ∀ name : OptionName, ¬ name.Names e.1) ∨
      ∃ e ∈ es, ∃ name : OptionName, name.Names e.1 ∧ ∀ w, ¬ name.Reads e.2 w := by
  constructor
  · intro h
    simp only [Readable, not_forall] at h
    obtain ⟨e, he, hnot⟩ := h
    by_cases hnames : ∃ name : OptionName, name.Names e.1
    · obtain ⟨name, hname⟩ := hnames
      exact .inr ⟨e, he, name, hname, fun w hreads => hnot ⟨name, w, hname, hreads⟩⟩
    · exact .inl ⟨e, he, fun name hname => hnames ⟨name, hname⟩⟩
  · rintro (⟨e, he, hnot⟩ | ⟨e, he, name, hname, hnot⟩) h
    · obtain ⟨name, w, hname, -⟩ := h e he
      exact hnot name hname
    · obtain ⟨name', w, hname', hreads⟩ := h e he
      obtain rfl : name = name' := hname.unique hname'
      exact hnot w hreads

theorem Rearranged.readable_iff {es es' : List (List Char × Value)} (h : Rearranged es es') :
    Readable es ↔ Readable es' :=
  forall_congr' fun _ => imp_congr_left h.perm.mem_iff

namespace OptionRecord

variable {base r r' : OptionRecord} {es : List (List Char × Value)}

/-- A record is the values of its options. -/
theorem ext_get (h : ∀ name, r.get name = r'.get name) : r = r' := by
  have hwidth : r.width = r'.width := h .width
  have hlinks : r.preserveLinks = r'.preserveLinks := h .preserveLinks
  have hstyle : r.linkStyle = r'.linkStyle := h .linkStyle
  have hcompact : r.compactMode = r'.compactMode := h .compactMode
  have hstrip : r.stripFormatting = r'.stripFormatting := h .stripFormatting
  cases r
  cases r'
  simp_all

/-- Entries that have been applied could be read. -/
theorem readable_of_applyAll (h : r.applyAll es = .ok r') : Readable es := by
  induction es generalizing r with
  | nil => exact fun e he => absurd he List.not_mem_nil
  | cons e es ih =>
    rw [applyAll, bind_eq_ok_iff] at h
    obtain ⟨next, hfirst, hrest⟩ := h
    refine List.forall_mem_cons.mpr ⟨?_, ih hrest⟩
    unfold apply at hfirst
    split at hfirst
    · cases hfirst
    · rename_i name hkey
      obtain ⟨w, hw, -⟩ := bind_eq_ok_iff.mp hfirst
      exact ⟨name, w, OptionName.ofKey?_eq_some_iff.mp hkey, OptionName.read_eq_ok_iff.mp hw⟩

theorem exists_applyAll_of_readable (r : OptionRecord) (hes : Readable es) :
    ∃ last, r.applyAll es = .ok last ∧
      ∀ name : OptionName, name.Obtains es (r.get name) (last.get name) := by
  have hread : ∀ e ∈ es, ∃ name w, OptionName.ofKey? e.1 = some name ∧ name.read e.2 = .ok w := by
    intro e he
    obtain ⟨name, w, hname, hreads⟩ := hes e he
    exact ⟨name, w, OptionName.ofKey?_eq_some_iff.mpr hname, OptionName.read_eq_ok_iff.mpr hreads⟩
  obtain ⟨last, hlast, htakes⟩ := r.exists_applyAll hread
  exact ⟨last, hlast, fun name => OptionName.obtains_iff_takes.mpr (htakes name)⟩

/-- **A run of entries** succeeds where all of them can be read, and what it makes of each
option is told by the last entry for it. -/
theorem applyAll_eq_ok_iff :
    r.applyAll es = .ok r' ↔
      Readable es ∧ ∀ name : OptionName, name.Obtains es (r.get name) (r'.get name) := by
  constructor
  · intro h
    have hes := readable_of_applyAll h
    obtain ⟨last, hlast, hobtains⟩ := r.exists_applyAll_of_readable hes
    obtain rfl : r' = last := Except.ok.inj (h.symm.trans hlast)
    exact ⟨hes, hobtains⟩
  · -- The run ends in some record, and there is only one with these values.
    rintro ⟨hes, hobtains⟩
    obtain ⟨last, hlast, hlasts⟩ := r.exists_applyAll_of_readable hes
    obtain rfl : last = r' := ext_get fun name => (hlasts name).unique (hobtains name)
    exact hlast

/-- **An override** succeeds where the entries can be read and the options obtained are
valid. -/
theorem override_eq_ok_iff {d : Dictionary Value} {o : RenderOptions} :
    base.override d = .ok o ↔
      Readable d.entries ∧
        (∀ name : OptionName, name.Obtains d.entries (base.get name) (o.record.get name)) ∧
        o.Valid := by
  unfold override
  rw [bind_eq_ok_iff]
  constructor
  · rintro ⟨r, hr, hvalidate⟩
    obtain ⟨rfl, ho⟩ := validate_eq_ok_iff.mp hvalidate
    obtain ⟨hes, hobtains⟩ := applyAll_eq_ok_iff.mp hr
    exact ⟨hes, hobtains, ho⟩
  · rintro ⟨hes, hobtains, ho⟩
    exact ⟨o.record, applyAll_eq_ok_iff.mpr ⟨hes, hobtains⟩, validate_eq_ok_iff.mpr ⟨rfl, ho⟩⟩

/-- A fault lies in an entry that cannot be read, or in a value that is obtained in the end and
not admitted. -/
theorem exists_fault_iff {d : Dictionary Value} :
    (∃ fault, base.override d = .error fault) ↔
      ¬ Readable d.entries ∨
        ∃ (name : OptionName) (w : Value),
          name.Obtains d.entries (base.get name) w ∧ ¬ name.Admits w := by
  have hfault : (∃ fault, base.override d = .error fault) ↔ ¬ ∃ o, base.override d = .ok o := by
    cases base.override d <;> simp
  rw [hfault]
  constructor
  · -- If all can be read, the run ends in a record, which fails the check.
    intro hnot
    by_contra hno
    rw [not_or, not_not] at hno
    obtain ⟨hes, hnone⟩ := hno
    obtain ⟨last, -, hobtains⟩ := base.exists_applyAll_of_readable hes
    have hadmits : ∀ name, OptionName.Admits name (last.get name) := by
      intro name
      by_contra h
      exact hnone ⟨name, last.get name, hobtains name, h⟩
    obtain ⟨o, ho, rfl⟩ := exists_record hadmits
    exact hnot ⟨o, override_eq_ok_iff.mpr ⟨hes, hobtains, ho⟩⟩
  · rintro (hes | ⟨name, w, hw, hnot⟩) ⟨o, ho⟩
    · exact hes (override_eq_ok_iff.mp ho).1
    · obtain ⟨-, hobtains, hvalid⟩ := override_eq_ok_iff.mp ho
      exact hnot ((hw.unique (hobtains name)) ▸ RenderOptions.admits_get hvalid name)

end OptionRecord

/-- **The last writer wins.**  An override fails exactly if some key names no option, some
value cannot be read for its option, or the record obtained has an option with a value that it
does not admit.  Otherwise the options pass the check, and each of them is what the last entry
for it is read as, or that of the base.  Whether an override succeeds, and with which options,
does not change where entries for different options change places. -/
theorem override_last_writer_wins (base : OptionRecord) (d : Dictionary Value) :
    ((∃ fault, base.override d = .error fault) ↔
      (∃ e ∈ d.entries, ∀ name : OptionName, ¬ name.Names e.1) ∨
      (∃ e ∈ d.entries, ∃ name : OptionName, name.Names e.1 ∧ ∀ w, ¬ name.Reads e.2 w) ∨
      ∃ (name : OptionName) (w : Value),
        name.Obtains d.entries (base.get name) w ∧ ¬ name.Admits w) ∧
    (∀ o, base.override d = .ok o →
      o.record.validate = .ok o ∧
      ∀ name : OptionName, name.Obtains d.entries (base.get name) (o.record.get name)) ∧
    ∀ d' : Dictionary Value, Rearranged d.entries d'.entries →
      ∀ o, base.override d = .ok o ↔ base.override d' = .ok o := by
  refine ⟨?_, ?_, ?_⟩
  · rw [OptionRecord.exists_fault_iff, not_readable_iff, or_assoc]
  · intro o ho
    obtain ⟨-, hobtains, hvalid⟩ := OptionRecord.override_eq_ok_iff.mp ho
    exact ⟨RenderOptions.validate_record hvalid, hobtains⟩
  · intro d' h o
    have hfield : ∀ name : OptionName,
        name.Obtains d.entries (base.get name) (o.record.get name) ↔
          name.Obtains d'.entries (base.get name) (o.record.get name) :=
      fun name => ⟨fun hw => hw.of_rearranged h, fun hw => hw.of_rearranged h.symm⟩
    rw [OptionRecord.override_eq_ok_iff, OptionRecord.override_eq_ok_iff,
      h.readable_iff, forall_congr' hfield]

/-- A negative width that is replaced under another spelling, in two arrangements. -/
theorem override_last_writer_wins_under_spellings :
    ∃ o, OptionRecord.override {} ⟨[("Width".toList, .int (-3)), ("compact".toList, .bool true),
        (" WIDTH ".toList, .string "0072".toList)]⟩ = .ok o ∧
      o = { width := 72, compactMode := true } ∧ o.record.validate = .ok o ∧
      OptionRecord.override {} ⟨[("Width".toList, .int (-3)),
        (" WIDTH ".toList, .string "0072".toList), ("compact".toList, .bool true)]⟩ = .ok o := by
  have hoptions : OptionRecord.override {} ⟨[("Width".toList, .int (-3)),
      ("compact".toList, .bool true), (" WIDTH ".toList, .string "0072".toList)]⟩ =
      .ok { width := 72, compactMode := true } := by rfl
  obtain ⟨hvalid, -⟩ := (override_last_writer_wins _ _).2.1 _ hoptions
  have hcompact : OptionName.ofKey? "compact".toList = some .compactMode := by decide
  have hwidth : OptionName.ofKey? " WIDTH ".toList = some .width := by decide
  refine ⟨_, hoptions, rfl, hvalid, ?_⟩
  refine ((override_last_writer_wins _ _).2.2 _ (Rearranged.swap [_] [] ?_) _).mp hoptions
  rintro name ⟨h, h'⟩
  obtain rfl := (OptionName.ofKey?_eq_some_iff.mp hcompact).unique h
  exact absurd ((OptionName.ofKey?_eq_some_iff.mp hwidth).unique h') (by decide)

end SmallWeb
