/-
SmallWeb/Proofs/Options/Override.lean

What overriding does to each option.

A record is looked at one option at a time (`OptionRecord.get`), and every step
is told in these terms: an entry changes the option that it names and no other,
so after a sequence of entries an option has the value of the last entry that
names it, or the one it had.  A record passes the check exactly where each option
has a value that it admits.

Main result: `OptionRecord.exists_override`.
-/
import SmallWeb.Options.Override
import SmallWeb.Proofs.Options.Check

namespace SmallWeb

/-! ### One option of a record -/

/-- The value of an option. -/
def OptionRecord.get (r : OptionRecord) : OptionName → Value
  | .width => r.width
  | .preserveLinks => r.preserveLinks
  | .linkStyle => r.linkStyle
  | .compactMode => r.compactMode
  | .stripFormatting => r.stripFormatting

/-- **Setting changes one option.** -/
theorem OptionRecord.get_set (r : OptionRecord) (name name' : OptionName) (v : Value) :
    (r.set name v).get name' = if name = name' then v else r.get name' := by
  cases name <;> cases name' <;> rfl

/-- The values that an option may have. -/
def OptionName.Admits (name : OptionName) (v : Value) : Prop :=
  match name with
  | .width => ∃ n : Int, 0 ≤ n ∧ v = .int n
  | .linkStyle => ∃ s, v = .style s
  | _ => ∃ b, v = .bool b

/-- The texts that an option may be given. -/
def OptionName.Accepts (name : OptionName) (text : List Char) : Prop :=
  ∃ v, name.read (.string text) = .ok v ∧ name.Admits v

theorem RenderOptions.admits_get {o : RenderOptions} (ho : o.Valid) (name : OptionName) :
    name.Admits (o.record.get name) := by
  cases name with
  | width => exact ⟨o.width, ho, rfl⟩
  | linkStyle => exact ⟨o.linkStyle, rfl⟩
  | _ => exact ⟨_, rfl⟩

/-- A record whose options all have values that they admit is one of valid
options. -/
theorem OptionRecord.exists_record {r : OptionRecord}
    (h : ∀ name, OptionName.Admits name (r.get name)) :
    ∃ o : RenderOptions, o.Valid ∧ o.record = r := by
  obtain ⟨n, hn, hwidth⟩ := h .width
  obtain ⟨s, hstyle⟩ := h .linkStyle
  obtain ⟨b, hlinks⟩ := h .preserveLinks
  obtain ⟨c, hcompact⟩ := h .compactMode
  obtain ⟨f, hstrip⟩ := h .stripFormatting
  refine ⟨⟨n, b, s, c, f⟩, hn, ?_⟩
  unfold RenderOptions.record
  rw [← hwidth, ← hstyle, ← hlinks, ← hcompact, ← hstrip]
  rfl

/-! ### Entries -/

section Entries

variable {α : Type}

/-- Whether a key names an option. -/
def OptionName.isNamedBy (name : OptionName) (key : List Char) : Bool :=
  OptionName.ofKey? key == some name

theorem OptionName.isNamedBy_iff {name : OptionName} {key : List Char} :
    name.isNamedBy key = true ↔ OptionName.ofKey? key = some name := beq_iff_eq

/-- The last entry that names an option. -/
def lastNaming? (name : OptionName) (es : List (List Char × α)) : Option (List Char × α) :=
  es.reverse.find? fun e => name.isNamedBy e.1

theorem lastNaming?_append (name : OptionName) (xs ys : List (List Char × α)) :
    lastNaming? name (xs ++ ys) = (lastNaming? name ys).or (lastNaming? name xs) := by
  unfold lastNaming?
  rw [List.reverse_append, List.find?_append]

theorem lastNaming?_singleton (name : OptionName) (e : List Char × α) :
    lastNaming? name [e] = if name.isNamedBy e.1 then some e else none := by
  unfold lastNaming?
  rw [List.reverse_singleton, List.find?_singleton]

theorem mem_of_lastNaming? {name : OptionName} {es : List (List Char × α)} {e : List Char × α}
    (h : lastNaming? name es = some e) : e ∈ es := List.mem_reverse.mp (List.mem_of_find?_eq_some h)

theorem isNamedBy_of_lastNaming? {name : OptionName} {es : List (List Char × α)}
    {e : List Char × α} (h : lastNaming? name es = some e) : name.isNamedBy e.1 = true := by
  have hnamed := List.find?_some h
  exact hnamed

end Entries

/-- The value of an option after something else was given for it, or nothing. -/
def OptionName.Takes (name : OptionName) (given? : Option Value) (before after : Value) : Prop :=
  match given? with
  | some v => name.read v = .ok after
  | none => after = before

/-- The record after one entry that can be read. -/
theorem OptionRecord.apply_eq (r : OptionRecord) {key : List Char} {name : OptionName} {v w : Value}
    (hkey : OptionName.ofKey? key = some name) (hv : name.read v = .ok w) :
    r.apply key v = .ok (r.set name w) := by
  unfold OptionRecord.apply
  rw [hkey]
  show (name.read v >>= fun w => pure (r.set name w)) = _
  rw [hv]
  rfl

/-- **After entries** every option has the value of the last one that names it. -/
theorem OptionRecord.exists_applyAll (r : OptionRecord) {es : List (List Char × Value)}
    (hes : ∀ e ∈ es, ∃ name w, OptionName.ofKey? e.1 = some name ∧ name.read e.2 = .ok w) :
    ∃ r', r.applyAll es = .ok r' ∧
      ∀ name : OptionName,
        name.Takes ((lastNaming? name es).map Prod.snd) (r.get name) (r'.get name) := by
  induction es generalizing r with
  | nil => exact ⟨r, rfl, fun _ => rfl⟩
  | cons e es ih =>
    obtain ⟨named, w, hkey, hw⟩ := hes e List.mem_cons_self
    obtain ⟨r', hr', htakes⟩ := ih (r.set named w) fun e he => hes e (List.mem_cons_of_mem _ he)
    refine ⟨r', ?_, fun name => ?_⟩
    · rw [OptionRecord.applyAll, r.apply_eq hkey hw, ok_bind, hr']
    · have hlast := lastNaming?_append name [e] es
      rw [List.singleton_append, lastNaming?_singleton] at hlast
      have hname := htakes name
      rw [hlast]
      -- A later entry for the option decides, and else this one if it names it.
      rcases hrest : lastNaming? name es with - | later
      · rw [hrest, OptionRecord.get_set] at hname
        have hname : r'.get name = if named = name then w else r.get name := hname
        by_cases h : named = name
        · subst h
          rw [if_pos (OptionName.isNamedBy_iff.mpr hkey)]
          rw [if_pos rfl] at hname
          rw [← hname] at hw
          exact hw
        · have hnot : ¬ name.isNamedBy e.1 = true := by
            rw [OptionName.isNamedBy_iff, hkey]
            simpa using h
          rw [if_neg hnot]
          rwa [if_neg h] at hname
      · rw [hrest] at hname
        exact hname

/-- **Overriding valid options** by entries that can be read, with values that
their options admit, gives valid options. -/
theorem OptionRecord.exists_override {base : RenderOptions} (hbase : base.Valid)
    {d : Dictionary Value} (hd : ∀ e ∈ d.entries, ∃ name w,
      OptionName.ofKey? e.1 = some name ∧ name.read e.2 = .ok w ∧ name.Admits w) :
    ∃ o, base.record.override d = .ok o ∧ o.Valid ∧
      ∀ name : OptionName, name.Takes ((lastNaming? name d.entries).map Prod.snd)
        (base.record.get name) (o.record.get name) := by
  have hreads : ∀ e ∈ d.entries, ∃ name w,
      OptionName.ofKey? e.1 = some name ∧ name.read e.2 = .ok w := by
    intro e he
    obtain ⟨name, w, hkey, hw, -⟩ := hd e he
    exact ⟨name, w, hkey, hw⟩
  obtain ⟨r, hr, htakes⟩ := base.record.exists_applyAll hreads
  have hadmits : ∀ name, OptionName.Admits name (r.get name) := by
    intro name
    have hname := htakes name
    rcases hlast : lastNaming? name d.entries with - | e
    · rw [hlast] at hname
      have hname : r.get name = base.record.get name := hname
      rw [hname]
      exact RenderOptions.admits_get hbase name
    · -- The entry that decides has a value that its option admits.
      have he := mem_of_lastNaming? hlast
      have hkey := OptionName.isNamedBy_iff.mp (isNamedBy_of_lastNaming? hlast)
      obtain ⟨name', w, hkey', hw, hw'⟩ := hd e he
      obtain rfl : name' = name := Option.some.inj (hkey'.symm.trans hkey)
      rw [hlast] at hname
      have hname : name'.read e.2 = .ok (r.get name') := hname
      obtain rfl : w = r.get name' := Except.ok.inj (hw.symm.trans hname)
      exact hw'
  obtain ⟨o, ho, rfl⟩ := OptionRecord.exists_record hadmits
  refine ⟨o, ?_, ho, htakes⟩
  unfold OptionRecord.override
  rw [hr, ok_bind, RenderOptions.validate_record ho]

end SmallWeb
