/-
SmallWeb/Proofs/Text/Trim.lean

Trimming at the end of a text.

Containers prepend to lines and trim the result, one after the other from the
inside out.  What makes this tractable is one equation:

    trimEnd (a ++ trimEnd b) = trimEnd (a ++ b)

Trimming inside does not show once the outside is trimmed, so any number of
prefixes collapses into one.
-/
import Mathlib.Data.List.DropRight
import SmallWeb.Text.Blank

namespace SmallWeb.Text

/-! ### Trimming and concatenation -/

theorem trimEnd_eq_rdropWhile (s : List Char) : trimEnd s = s.rdropWhile isBlank := rfl

@[simp] theorem trimEnd_nil : trimEnd [] = [] := rfl

/-- Two texts in a row are blank if both are. -/
theorem isBlankText_append (a b : List Char) :
    isBlankText (a ++ b) = (isBlankText a && isBlankText b) := List.all_append

/-- Trimming leaves nothing exactly where there is no content. -/
theorem trimEnd_eq_nil_iff {s : List Char} : trimEnd s = [] ↔ isBlankText s = true := by
  rw [trimEnd_eq_rdropWhile, List.rdropWhile_eq_nil_iff, isBlankText, List.all_eq_true]

/-- A text that ends without a blank is trimmed. -/
theorem trimEnd_eq_self {s : List Char} (h : ∀ c ∈ s, ¬ isBlank c = true) : trimEnd s = s := by
  rw [trimEnd_eq_rdropWhile, List.rdropWhile_eq_self_iff]
  intro hne
  exact h _ (List.getLast_mem hne)

/-- Behind a text with content only that text is trimmed. -/
theorem trimEnd_append (a b : List Char) :
    trimEnd (a ++ b) = if isBlankText b then trimEnd a else a ++ trimEnd b := by
  induction b using List.reverseRecOn with
  | nil => simp [isBlankText]
  | append_singleton b c ih =>
    rw [trimEnd_eq_rdropWhile, ← List.append_assoc, List.rdropWhile_concat]
    rw [trimEnd_eq_rdropWhile (b ++ [c]), List.rdropWhile_concat]
    by_cases hc : isBlank c = true
    · rw [if_pos hc, if_pos hc, ← trimEnd_eq_rdropWhile, ih]
      simp [isBlankText, hc, trimEnd_eq_rdropWhile]
    · rw [if_neg hc, if_neg hc]
      simp [isBlankText, hc]

theorem trimEnd_append_of_not_blank {a b : List Char} (h : ¬ isBlankText b = true) :
    trimEnd (a ++ b) = a ++ trimEnd b := by
  rw [trimEnd_append, if_neg h]

@[simp] theorem trimEnd_trimEnd (s : List Char) : trimEnd (trimEnd s) = trimEnd s :=
  List.rdropWhile_idempotent _ _

theorem isBlankText_trimEnd (s : List Char) : isBlankText (trimEnd s) = isBlankText s := by
  rw [Bool.eq_iff_iff, ← trimEnd_eq_nil_iff, ← trimEnd_eq_nil_iff, trimEnd_trimEnd]

/-- **Trimming inside does not show** once the outside is trimmed. -/
theorem trimEnd_append_trimEnd (a b : List Char) :
    trimEnd (a ++ trimEnd b) = trimEnd (a ++ b) := by
  rw [trimEnd_append, trimEnd_append a b, isBlankText_trimEnd, trimEnd_trimEnd]

/-! ### Lengths -/

theorem trimEnd_length_le (s : List Char) : (trimEnd s).length ≤ s.length :=
  (List.rdropWhile_prefix isBlank s).length_le

theorem mem_of_mem_trimEnd {s : List Char} {c : Char} (h : c ∈ trimEnd s) : c ∈ s :=
  (List.rdropWhile_prefix isBlank s).subset h

end SmallWeb.Text
