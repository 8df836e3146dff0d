/-
SmallWeb/Proofs/Options/Check.lean

Which records pass the check.

Each part of the check admits one kind of value.  So a record passes exactly if it is the
record of options that are valid, and these are the options that the check gives.

Main result: `OptionRecord.validate_eq_ok_iff`.
-/
import SmallWeb.Options
import SmallWeb.Proofs.Result

namespace SmallWeb

/-! ### Valid options -/

instance (o : RenderOptions) : Decidable o.Valid := inferInstanceAs (Decidable (0 ≤ o.width))

/-- Valid options pass the check. -/
theorem RenderOptions.validate_record {o : RenderOptions} (ho : o.Valid) :
    o.record.validate = .ok o := by
  have hwidth : checkWidth (.int o.width) = .ok o.width := if_neg (Int.not_lt.mpr ho)
  unfold OptionRecord.validate RenderOptions.record
  rw [hwidth]
  rfl

theorem Target.valid_defaults (t : Target) : t.defaults.Valid := by
  cases t <;> decide

/-! ### The parts of the check -/

theorem checkWidth_eq_ok_iff {v : Value} {n : Int} :
    checkWidth v = .ok n ↔ v = .int n ∧ 0 ≤ n := by
  cases v with
  | int m =>
    show (if m < 0 then Except.error (ConfigFault.negativeWidth m) else .ok m) = .ok n ↔ _
    by_cases hneg : m < 0
    · rw [if_pos hneg]
      simp only [reduceCtorEq, Value.int.injEq, false_iff, not_and]
      rintro rfl
      exact Int.not_le.mpr hneg
    · rw [if_neg hneg]
      simp only [Except.ok.injEq, Value.int.injEq]
      constructor
      · rintro rfl
        exact ⟨rfl, Int.not_lt.mp hneg⟩
      · exact And.left
  | _ => simp [checkWidth]

theorem checkStyle_eq_ok_iff {v : Value} {s : LinkStyle} : checkStyle v = .ok s ↔ v = .style s := by
  cases v <;> simp [checkStyle]

theorem checkFlag_eq_ok_iff {name : OptionName} {v : Value} {b : Bool} :
    checkFlag name v = .ok b ↔ v = .bool b := by
  cases v <;> simp [checkFlag]

/-- **A record passes the check** where it is the record of valid options. -/
theorem OptionRecord.validate_eq_ok_iff {r : OptionRecord} {o : RenderOptions} :
    r.validate = .ok o ↔ r = o.record ∧ o.Valid := by
  constructor
  · intro h
    simp only [OptionRecord.validate, bind_eq_ok_iff, checkWidth_eq_ok_iff, checkStyle_eq_ok_iff,
      checkFlag_eq_ok_iff, pure_eq_ok_iff] at h
    obtain ⟨width, ⟨hwidth, hvalid⟩, style, hstyle, links, hlinks, compact, hcompact, strip,
      hstrip, rfl⟩ := h
    cases r
    cases hwidth
    cases hstyle
    cases hlinks
    cases hcompact
    cases hstrip
    exact ⟨rfl, hvalid⟩
  · rintro ⟨rfl, ho⟩
    exact RenderOptions.validate_record ho

end SmallWeb
