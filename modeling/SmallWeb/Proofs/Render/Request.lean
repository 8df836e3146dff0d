/-
SmallWeb/Proofs/Render/Request.lean

The faults of a render, whatever it is given.

A render settles the target and the options before it looks at the document, so
these faults do not depend on the document.  What targets and options can be used
is told here without the order in which they are looked at (`Requests`).

After that the structure of the tree is checked, and only a proper tree is walked.
So the faults of a tree are those of the check, of the extractor at the depth limit,
and the two of `Failure`, which have no place among the documented ones.

Main results: `render_fails_as_documented` and `exists_undocumented_fault`.
-/
import SmallWeb.Proofs.Extract.Depth
import SmallWeb.Proofs.Render.Failure

namespace SmallWeb

/-! ### Requests -/

/-- A target and options, as they are given, are for `t` and `o`. -/
structure Requests (target : Value) (options : OptionsInput) (t : Target) (o : RenderOptions) :
    Prop where
  /-- Case and surrounding blanks do not matter for the name of a target. -/
  named : Text.lower (Text.trim target.plain) = t.name
  /-- There are no options, or a record with a value of its type in each field. -/
  given : options = .defaults ∧ o = t.defaults ∨ options = .record o.record ∧ o.Valid

theorem Target.ofValue_eq_ok_iff {v : Value} {t : Target} :
    Target.ofValue v = .ok t ↔ Text.lower (Text.trim v.plain) = t.name := by
  unfold Target.ofValue
  dsimp only
  constructor
  · intro h
    split at h
    · rename_i t' hfound
      cases h
      have hname := List.find?_some hfound
      exact (beq_iff_eq.mp hname).symm
    · cases h
  · intro h
    rw [h]
    cases t <;> rfl

theorem OptionsInput.resolve_eq_ok_iff {t : Target} {options : OptionsInput} {o : RenderOptions} :
    options.resolve t = .ok o ↔
      options = .defaults ∧ o = t.defaults ∨ options = .record o.record ∧ o.Valid := by
  cases options with
  | defaults =>
    rw [OptionsInput.resolve, RenderOptions.validate_record t.valid_defaults]
    simp [eq_comm]
  | record r =>
    rw [OptionsInput.resolve, OptionRecord.validate_eq_ok_iff]
    simp
  | other v => simp [OptionsInput.resolve]

section

variable (doc : Value) {target : Value} {options : OptionsInput}

theorem Requests.valid {t : Target} {o : RenderOptions} (h : Requests target options t o) :
    o.Valid := by
  rcases h.given with ⟨-, rfl⟩ | ⟨-, ho⟩
  · exact t.valid_defaults
  · exact ho

/-- A request that can be settled is one for the document. -/
theorem render_of_requests {t : Target} {o : RenderOptions} (h : Requests target options t o) :
    render doc target options = renderChecked t o doc := by
  unfold render
  rw [Target.ofValue_eq_ok_iff.mpr h.named, Except.mapError, ok_bind,
    OptionsInput.resolve_eq_ok_iff.mpr h.given, Except.mapError, ok_bind]

/-- Any other is refused, whatever the document. -/
theorem exists_config_of_not_requests (h : ¬ ∃ t o, Requests target options t o) :
    ∃ cause, render doc target options = .error (.config cause) := by
  unfold render
  cases htarget : Target.ofValue target with
  | error cause => exact ⟨cause, rfl⟩
  | ok t =>
    rw [Except.mapError, ok_bind]
    cases hoptions : options.resolve t with
    | error cause => exact ⟨cause, rfl⟩
    | ok o =>
      exact absurd ⟨t, o, Target.ofValue_eq_ok_iff.mp htarget,
        OptionsInput.resolve_eq_ok_iff.mp hoptions⟩ h

end

/-! ### Faults of documents -/

theorem Failure.mono {wide wide' : Prop} {ps : List Place} {e : Fault} (h : wide → wide')
    (hfailure : Failure wide ps e) : Failure wide' ps e := by
  cases hfailure with
  | start hmem hstart => exact .start hmem hstart
  | rule hmem hrule hwide => exact .rule hmem hrule (h hwide)

/-- **A render of a tree, for each target.** -/
theorem renderChecked_cases {t : Target} {o : RenderOptions} (ho : o.Valid) (doc : Value) :
    (∃ out, renderChecked t o doc = .ok out ∧ (t ≠ .finger → StartsWell doc.allPlaces)) ∨
    (∃ cause, renderChecked t o doc = .error (.tree cause)) ∨
      ∃ e, renderChecked t o doc = .error e ∧ t ≠ .finger ∧
        Failure (t = .gopher ∧ Text.maxLength < o.width) doc.allPlaces e := by
  cases hcheck : Structure.check maxDepth doc with
  | error cause =>
    refine .inr (.inl ⟨cause, ?_⟩)
    unfold renderChecked
    rw [hcheck]
    rfl
  | ok u =>
    cases t with
    | gopher =>
      rcases renderChecked_gopher hcheck ho with ⟨out, hout, hstarts⟩ | ⟨e, he, hfailure⟩
      · exact .inl ⟨out, hout, fun _ => hstarts⟩
      · exact .inr (.inr ⟨e, he, by simp, hfailure.mono fun hwide => ⟨rfl, hwide⟩⟩)
    | gemini =>
      rcases renderChecked_gemini hcheck ho with ⟨out, hout, hstarts⟩ | ⟨e, he, hfailure⟩
      · exact .inl ⟨out, hout, fun _ => hstarts⟩
      · exact .inr (.inr ⟨e, he, by simp, hfailure.mono False.elim⟩)
    | finger =>
      have hreads : Reads (segments false doc) (RunsShallow doc.allPlaces) fun _ => True :=
        reads_segments (Structure.check_eq_ok_iff.mp hcheck)
      rw [renderChecked_eq_renderWith hcheck]
      show (∃ out, Finger.render o doc = .ok out ∧ _) ∨
        (∃ cause, Finger.render o doc = .error (.tree cause)) ∨ _
      unfold Finger.render
      by_cases hshallow : RunsShallow doc.allPlaces
      · obtain ⟨ss, hss, -⟩ := hreads.value hshallow
        obtain ⟨out, hout⟩ := Finger.exists_line ho ss
        rw [hss, ok_bind, hout]
        exact .inl ⟨out, rfl, by simp⟩
      · rw [hreads.fault hshallow]
        exact .inr (.inl ⟨_, rfl⟩)

theorem renderChecked_fault {doc : Value} {t : Target} {o : RenderOptions} (ho : o.Valid)
    {fault : Fault} (h : renderChecked t o doc = .error fault) :
    (∃ cause, fault = .tree cause) ∨
      t ≠ .finger ∧ Failure (t = .gopher ∧ Text.maxLength < o.width) doc.allPlaces fault := by
  rcases renderChecked_cases ho doc with ⟨out, hout, -⟩ | ⟨cause, hcause⟩ | ⟨e, he, ht, hfailure⟩
  · rw [hout] at h
    cases h
  · rw [hcause] at h
    cases h
    exact .inl ⟨cause, rfl⟩
  · rw [he] at h
    cases h
    exact .inr ⟨ht, hfailure⟩

theorem startsWell_of_renderChecked {doc : Value} {t : Target} {o : RenderOptions} (ho : o.Valid)
    (ht : t ≠ .finger) {out : List Char} (h : renderChecked t o doc = .ok out) :
    StartsWell doc.allPlaces := by
  rcases renderChecked_cases ho doc with ⟨-, -, hstarts⟩ | ⟨cause, hcause⟩ | ⟨e, he, -⟩
  · exact hstarts ht
  · rw [hcause] at h
    cases h
  · rw [he] at h
    cases h

/-- **The faults of a render.**  A render ends with a fault of targets and options
exactly where what is given cannot be used, whatever the document.  Its other faults
are those of a tree, but for two: in Gopher text and gemtext a list that starts
badly, and in Gopher text a rule at a width beyond the length of any text.  And a
document with a list that starts badly is indeed never rendered for these targets. -/
theorem render_fails_as_documented (doc target : Value) (options : OptionsInput) :
    ((∃ cause, render doc target options = .error (.config cause)) ↔
      ¬ ∃ t o, Requests target options t o) ∧
    (∀ fault, render doc target options = .error fault →
      (∃ cause, fault = .config cause) ∨ (∃ cause, fault = .tree cause) ∨
        ∃ t o, Requests target options t o ∧ t ≠ .finger ∧
          Failure (t = .gopher ∧ Text.maxLength < o.width) doc.allPlaces fault) ∧
    ∀ t o, Requests target options t o → t ≠ .finger →
      (∃ out, render doc target options = .ok out) → StartsWell doc.allPlaces := by
  refine ⟨⟨?_, exists_config_of_not_requests doc⟩, ?_, ?_⟩
  · rintro ⟨cause, hcause⟩ ⟨t, o, hrequests⟩
    rw [render_of_requests doc hrequests] at hcause
    rcases renderChecked_fault hrequests.valid hcause with ⟨cause', hcause'⟩ | ⟨-, hfailure⟩
    · cases hcause'
    · cases hfailure
  · intro fault hfault
    by_cases hsettled : ∃ t o, Requests target options t o
    · obtain ⟨t, o, hrequests⟩ := hsettled
      rw [render_of_requests doc hrequests] at hfault
      rcases renderChecked_fault hrequests.valid hfault with htree | ⟨ht, hfailure⟩
      · exact .inr (.inl htree)
      · exact .inr (.inr ⟨t, o, hrequests, ht, hfailure⟩)
    · obtain ⟨cause, hcause⟩ := exists_config_of_not_requests doc hsettled
      rw [hcause] at hfault
      cases hfault
      exact .inl ⟨cause, rfl⟩
  · rintro t o hrequests ht ⟨out, hout⟩
    rw [render_of_requests doc hrequests] at hout
    exact startsWell_of_renderChecked hrequests.valid ht hout

/-- A list whose items are numbered from a text. -/
def Value.startFromText : Value :=
  .document 0 (.tuple [.list 1 (.bool true) (.tuple [.tuple []]) (.string ['1'])])

/-- **A render with an undocumented fault.** -/
theorem exists_undocumented_fault :
    ¬ ∀ (doc target : Value) (options : OptionsInput),
      (∃ out, render doc target options = .ok out) ∨
        (∃ cause, render doc target options = .error (.config cause)) ∨
          ∃ cause, render doc target options = .error (.tree cause) := by
  intro hall
  have hfails : render Value.startFromText (.string Target.gopher.name) .defaults =
      .error .wrongType := rfl
  rcases hall Value.startFromText (.string Target.gopher.name) .defaults with
    ⟨out, hout⟩ | ⟨cause, hcause⟩ | ⟨cause, hcause⟩
  · rw [hfails] at hout
    cases hout
  · rw [hfails] at hcause
    cases hcause
  · rw [hfails] at hcause
    cases hcause

end SmallWeb
