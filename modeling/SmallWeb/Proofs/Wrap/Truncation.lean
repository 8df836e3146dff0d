/-
SmallWeb/Proofs/Wrap/Truncation.lean

Cutting a text to a budget, and to another one after that.

A text that has to be cut keeps three characters less than the budget and gets as much
of the ellipsis as the budget has room for (`cutTo_eq_append`); for a budget of less
than three characters nothing is kept, and the ellipsis itself is cut.

A second cut has an effect only where its budget is the smaller one.  What it keeps then
lies in what the first cut has kept, since both leave the same room for the ellipsis, and
the ellipsis of the first cut is thrown away.  So only the smaller budget counts
(`cutTo_cutTo`).  This needs no case for the budgets that are smaller than the ellipsis.

Main result: `truncations_compose`.
-/
import Mathlib.Data.List.Perm.Basic
import SmallWeb.Wrap

namespace SmallWeb

/-! ### One cut -/

theorem cutTo_of_le {width : Nat} {text : List Char} (h : text.length ≤ width) :
    cutTo width text = text := if_pos h

theorem cutTo_of_lt {width : Nat} {text : List Char} (h : width < text.length) :
    cutTo width text =
      if width < 3 then ellipsis.take width else text.take (width - 3) ++ ellipsis :=
  if_neg (Nat.not_le.mpr h)

/-- **A text that has to be cut** keeps what the ellipsis leaves room for. -/
theorem cutTo_eq_append {width : Nat} {text : List Char} (h : width < text.length) :
    cutTo width text = text.take (width - 3) ++ ellipsis.take width := by
  have hellipsis : ellipsis.length = 3 := rfl
  rw [cutTo_of_lt h]
  split
  · rename_i hsmall
    have hnone : width - 3 = 0 := by omega
    rw [hnone, List.take_zero, List.nil_append]
  · rename_i hroom
    have hwhole : ellipsis.take width = ellipsis := List.take_of_length_le (by omega)
    rw [hwhole]

/-- A text that has to be cut fills the budget. -/
theorem cutTo_length_of_lt {width : Nat} {text : List Char} (h : width < text.length) :
    (cutTo width text).length = width := by
  have hellipsis : ellipsis.length = 3 := rfl
  rw [cutTo_eq_append h, List.length_append, List.length_take, List.length_take, hellipsis]
  omega

theorem length_cutTo (width : Nat) (text : List Char) :
    (cutTo width text).length = min text.length width := by
  rcases Nat.lt_or_ge width text.length with h | h
  · rw [cutTo_length_of_lt h, Nat.min_eq_right (Nat.le_of_lt h)]
  · rw [cutTo_of_le h, Nat.min_eq_left h]

/-- **A cut leaves the beginning of a text as it is**, up to the ellipsis. -/
theorem take_cutTo {n width : Nat} (text : List Char) (hn : n ≤ width - 3) :
    (cutTo width text).take n = text.take n := by
  rcases Nat.lt_or_ge width text.length with h | h
  · have hkept : n ≤ (text.take (width - 3)).length := by
      rw [List.length_take]
      omega
    rw [cutTo_eq_append h, List.take_append_of_le_length hkept, List.take_take,
      Nat.min_eq_left hn]
  · rw [cutTo_of_le h]

/-! ### Several cuts -/

/-- **Only the smaller budget counts.** -/
theorem cutTo_cutTo (width width' : Nat) (text : List Char) :
    cutTo width' (cutTo width text) = cutTo (min width width') text := by
  rcases Nat.lt_or_ge width' width with hlt | hle
  · rw [Nat.min_eq_right (Nat.le_of_lt hlt)]
    rcases Nat.lt_or_ge width text.length with hcut | hfits
    · -- Both cuts take effect.  The second one keeps less, and the rest is dots.
      have hagain : width' < (cutTo width text).length := by rwa [cutTo_length_of_lt hcut]
      have hkept : width' - 3 ≤ width - 3 := by omega
      rw [cutTo_eq_append hagain, take_cutTo text hkept, cutTo_eq_append (by omega)]
    · rw [cutTo_of_le hfits]
  · have hfits : (cutTo width text).length ≤ width' := by
      rw [length_cutTo]
      omega
    rw [cutTo_of_le hfits, Nat.min_eq_left hle]

/-- Budgets may change places. -/
instance : RightCommutative fun (text : List Char) (width : Nat) => cutTo width text where
  right_comm text width width' := by rw [cutTo_cutTo, cutTo_cutTo, Nat.min_comm]

theorem foldl_cutTo (text : List Char) (width : Nat) (widths : List Nat) :
    widths.foldl (fun text width => cutTo width text) (cutTo width text) =
      cutTo (widths.foldl min width) text := by
  induction widths generalizing width with
  | nil => rfl
  | cons width' widths ih => rw [List.foldl_cons, cutTo_cutTo, ih, List.foldl_cons]

/-! ### Truncation -/

theorem truncate_natCast (text : List Char) (width : Nat) :
    truncate text width = .ok (cutTo width text) := by
  have hnot : ¬ (width : Int) < 0 := by omega
  rw [truncate, if_neg hnot, Int.toNat_natCast]

/-- A text that is cut to one budget after the other. -/
def truncateAll (text : List Char) (widths : List Nat) : Except ConfigFault (List Char) :=
  widths.foldlM (fun text (width : Nat) => truncate text width) text

theorem truncateAll_eq (text : List Char) (widths : List Nat) :
    truncateAll text widths = .ok (widths.foldl (fun text width => cutTo width text) text) := by
  unfold truncateAll
  induction widths generalizing text with
  | nil => rfl
  | cons width widths ih =>
    rw [List.foldlM_cons, truncate_natCast]
    exact ih (cutTo width text)

/-- The smallest of several budgets decides. -/
theorem truncateAll_of_min? {text : List Char} {widths : List Nat} {width : Nat}
    (h : widths.min? = some width) : truncateAll text widths = truncate text width := by
  cases widths with
  | nil => cases h
  | cons first widths =>
    rw [List.min?_cons'] at h
    rw [truncateAll_eq, truncate_natCast, List.foldl_cons, foldl_cutTo, Option.some.inj h]

/-- **Truncation composes.**  Truncating to any width succeeds.  The result is as long as the
text or the width, whichever is less; it is the text where the text fits, and begins like the
text up to the ellipsis where not.  Truncating it again is truncating the text to the smaller
of the two widths, so a truncated text stays as it is, and of any number of budgets the
smallest one decides, in whichever order they are applied. -/
theorem truncations_compose (text : List Char) (width : Nat) :
    ∃ cut, truncate text width = .ok cut ∧
      cut.length = min text.length width ∧
      cut.take (width - 3) = text.take (width - 3) ∧
      (text.length ≤ width → cut = text) ∧
      (width < text.length → cut = text.take (width - 3) ++ ellipsis.take width) ∧
      (∀ width' : Nat, truncate cut width' = truncate text (min width width' : Nat)) ∧
      truncate cut width = .ok cut ∧
      (∀ widths : List Nat, widths.min? = some width → truncateAll text widths = .ok cut) ∧
      ∀ widths widths' : List Nat, widths.Perm widths' →
        truncateAll text widths = truncateAll text widths' := by
  have htwice : ∀ width' : Nat,
      truncate (cutTo width text) width' = truncate text (min width width' : Nat) := by
    intro width'
    rw [truncate_natCast, truncate_natCast, cutTo_cutTo]
  refine ⟨cutTo width text, truncate_natCast text width, length_cutTo width text,
    take_cutTo text (Nat.le_refl _), cutTo_of_le, cutTo_eq_append, htwice, ?_, ?_, ?_⟩
  · rw [htwice, Nat.min_self, truncate_natCast]
  · intro widths hmin
    rw [truncateAll_of_min? hmin, truncate_natCast]
  · intro widths widths' hperm
    rw [truncateAll_eq, truncateAll_eq, hperm.foldl_eq]

/-- Three budgets around the length of the ellipsis, in two orders. -/
theorem truncations_compose_below_ellipsis :
    truncateAll "hello world".toList [8, 2, 3] = .ok ['.', '.'] ∧
      truncateAll "hello world".toList [3, 8, 2] = .ok ['.', '.'] := by
  obtain ⟨cut, hcut, -, -, -, -, -, -, hleast, horder⟩ :=
    truncations_compose "hello world".toList 2
  obtain rfl : ['.', '.'] = cut := Except.ok.inj hcut
  have hperm : [3, 8, 2].Perm [8, 2, 3] := by decide
  exact ⟨hleast [8, 2, 3] rfl, (horder _ _ hperm).trans (hleast [8, 2, 3] rfl)⟩

end SmallWeb
