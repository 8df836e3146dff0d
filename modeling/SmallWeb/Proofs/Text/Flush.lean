/-
SmallWeb/Proofs/Text/Flush.lean

Texts without blanks at their ends.

Trimming leaves a text as it is exactly where it neither begins with a blank nor ends in
one (`trim_eq_self_iff`).  A row of texts begins as its first text and ends as its last.
-/
import SmallWeb.Proofs.Text.Spacing

namespace SmallWeb.Text

/-- A text that does not begin with a blank. -/
def FlushLeft (s : List Char) : Prop := ∀ c ∈ s.head?, ¬ isBlank c = true

/-- A text that does not end in a blank. -/
def FlushRight (s : List Char) : Prop := ∀ c ∈ s.getLast?, ¬ isBlank c = true

instance (s : List Char) : Decidable (FlushLeft s) :=
  decidable_of_iff (s.head?.all fun c => !isBlank c) (by simp [FlushLeft, Option.all_eq_true])

instance (s : List Char) : Decidable (FlushRight s) :=
  decidable_of_iff (s.getLast?.all fun c => !isBlank c) (by simp [FlushRight, Option.all_eq_true])

theorem flushLeft_nil : FlushLeft [] := by simp [FlushLeft]

theorem flushRight_nil : FlushRight [] := by simp [FlushRight]

theorem trimStart_eq_self_iff {s : List Char} : trimStart s = s ↔ FlushLeft s := by
  unfold trimStart FlushLeft
  cases s with
  | nil => simp
  | cons c s => simp [List.dropWhile_eq_self_iff]

theorem trimEnd_eq_self_iff {s : List Char} : trimEnd s = s ↔ FlushRight s := by
  rw [trimEnd_eq_rdropWhile, List.rdropWhile_eq_self_iff, FlushRight]
  constructor
  · intro h c hc
    obtain ⟨hne, rfl⟩ := List.mem_getLast?_eq_getLast hc
    exact h hne
  · intro h hne
    exact h _ (List.getLast?_eq_some_getLast hne)

/-- **Trimming changes nothing** where there are no blanks at the ends. -/
theorem trim_eq_self_iff {s : List Char} : trim s = s ↔ FlushLeft s ∧ FlushRight s := by
  rw [← trimStart_eq_self_iff, ← trimEnd_eq_self_iff]
  constructor
  · intro h
    have hsuffix : trimStart s <:+ s := List.dropWhile_suffix isBlank
    have hstart := hsuffix.length_le
    have hend := trimEnd_length_le (trimStart s)
    rw [← trim, h] at hend
    -- Both steps make the text shorter if they change it, and it has its length still.
    have hflush : trimStart s = s := hsuffix.eq_of_length (by omega)
    rw [trim, hflush] at h
    exact ⟨hflush, h⟩
  · rintro ⟨hstart, hend⟩
    rw [trim, hstart, hend]

theorem flushRight_cons {c : Char} {s : List Char} (hs : s ≠ []) :
    FlushRight (c :: s) ↔ FlushRight s := by
  unfold FlushRight
  rw [List.getLast?_cons_of_ne_nil hs]

/-- A row begins as its first text. -/
theorem flushLeft_unwords {t : List Char} (ht : t ≠ []) (ts : List (List Char)) :
    FlushLeft (unwords (t :: ts)) ↔ FlushLeft t := by
  obtain ⟨c, t, rfl⟩ := List.exists_cons_of_ne_nil ht
  rw [unwords_char_cons]
  rfl

/-- A row ends as its last text. -/
theorem flushRight_unwords {t : List Char} (ht : t ≠ []) (ts : List (List Char)) :
    FlushRight (unwords (ts ++ [t])) ↔ FlushRight t := by
  cases ts with
  | nil => rw [List.nil_append, unwords_singleton]
  | cons u ts =>
    rw [unwords_append (List.cons_ne_nil u ts) (List.cons_ne_nil t []), unwords_singleton,
      FlushRight, FlushRight, List.getLast?_append_of_ne_nil _ (List.cons_ne_nil ' ' t),
      List.getLast?_cons_of_ne_nil ht]

end SmallWeb.Text
