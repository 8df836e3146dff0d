/-
SmallWeb/Proofs/Text/Words.lean

The words of a text.

Words split at a blank (`words_append_cons`), and everything else about them
follows from this one equation.  Two texts keep their words when they are put
together if they are `Apart`, that is, if a blank stands on either side of the
seam; and words are the same whatever blanks stand between them.
-/
import Mathlib.Data.List.Chain
import SmallWeb.Proofs.Text.Lines

namespace SmallWeb.Text

@[simp] theorem words_nil : words [] = [] := rfl

/-- **Words split at a blank.** -/
theorem words_append_cons {c : Char} (hc : isBlank c = true) (a b : List Char) :
    words (a ++ c :: b) = words a ++ words b := by
  unfold words
  rw [splitWhere_append_cons hc, List.filter_append]

theorem words_cons_of_blank {c : Char} (hc : isBlank c = true) (s : List Char) :
    words (c :: s) = words s := words_append_cons hc [] s

theorem words_concat_of_blank {c : Char} (hc : isBlank c = true) (s : List Char) :
    words (s ++ [c]) = words s := by
  rw [words_append_cons hc, words_nil, List.append_nil]

/-- A text without blanks is a word, if it is not empty. -/
theorem words_of_forall_not {s : List Char} (hne : s ≠ []) (h : ∀ c ∈ s, ¬ isBlank c = true) :
    words s = [s] := by
  unfold words
  rw [splitWhere_of_forall_not h, List.filter_singleton, List.isEmpty_eq_false_iff.mpr hne]
  rfl

/-! ### Blanks -/

theorem isBlankText_cons (c : Char) (s : List Char) :
    isBlankText (c :: s) = (isBlank c && isBlankText s) := List.all_cons

/-- Blanks before a text do not show in its words. -/
theorem words_append_left {a : List Char} (ha : isBlankText a = true) (b : List Char) :
    words (a ++ b) = words b := by
  induction a with
  | nil => rfl
  | cons c a ih =>
    rw [isBlankText_cons, Bool.and_eq_true] at ha
    rw [List.cons_append, words_cons_of_blank ha.1, ih ha.2]

/-- A text without content has no words. -/
theorem words_eq_nil {s : List Char} (h : isBlankText s = true) : words s = [] := by
  have hwords := words_append_left h []
  rwa [List.append_nil] at hwords

/-- A text without words has no content. -/
theorem words_eq_nil_iff {s : List Char} : words s = [] ↔ isBlankText s = true := by
  refine ⟨fun h => ?_, words_eq_nil⟩
  induction s with
  | nil => rfl
  | cons c s ih =>
    by_cases hc : isBlank c = true
    · rw [words_cons_of_blank hc] at h
      rw [isBlankText_cons, hc, ih h]
      rfl
    · obtain ⟨part, parts, hs⟩ := List.exists_cons_of_ne_nil (splitWhere_ne_nil isBlank s)
      rw [words, splitWhere_cons_of_not hc hs, List.filter_cons_of_pos (by simp)] at h
      exact absurd h (List.cons_ne_nil _ _)

/-- Two texts with the same words have content or not. -/
theorem isBlankText_congr {s t : List Char} (h : words s = words t) :
    isBlankText s = isBlankText t := by
  rw [Bool.eq_iff_iff, ← words_eq_nil_iff, ← words_eq_nil_iff, h]

/-- Blanks at the end do not show in the words. -/
theorem words_dropEndWhile {p : Char → Bool} (hp : ∀ c, p c = true → isBlank c = true)
    (s : List Char) : words (dropEndWhile p s) = words s := by
  induction s using List.reverseRecOn with
  | nil => rfl
  | append_singleton s c ih =>
    show words ((s ++ [c]).rdropWhile p) = _
    rw [List.rdropWhile_concat]
    split
    · rename_i hc
      rw [words_concat_of_blank (hp c hc)]
      exact ih
    · rfl

theorem words_trimEnd (s : List Char) : words (trimEnd s) = words s :=
  words_dropEndWhile (fun _ hc => hc) s

/-- Only the blanks between the words may change. -/
theorem words_map {f : Char → Char} (hblank : ∀ c, isBlank (f c) = isBlank c)
    (hword : ∀ c, ¬ isBlank c = true → f c = c) (s : List Char) : words (s.map f) = words s := by
  unfold words
  congr 1
  induction s with
  | nil => rfl
  | cons c s ih =>
    rw [List.map_cons, splitWhere, splitWhere, hblank, ih]
    by_cases hc : isBlank c = true
    · rw [if_pos hc, if_pos hc]
    · rw [if_neg hc, if_neg hc, hword c hc]

/-- Putting a blank for a blank does not show in the words. -/
theorem words_replaceChar {source target : Char} (hsource : isBlank source = true)
    (htarget : isBlank target = true) (s : List Char) :
    words (replaceChar source target s) = words s := by
  refine words_map (fun c => ?_) (fun c hc => ?_) s
  · split
    · rename_i heq
      rw [heq, hsource, htarget]
    · rfl
  · exact if_neg fun heq : c = source => hc (heq ▸ hsource)

/-! ### Seams -/

/-- A blank stands on one of the two sides where the texts meet, if both are
there. -/
def Apart (a b : List Char) : Prop :=
  ∀ c ∈ a.getLast?, ∀ d ∈ b.head?, isBlank c = true ∨ isBlank d = true

/-- **Texts that are apart keep their words.** -/
theorem words_append {a b : List Char} (h : Apart a b) : words (a ++ b) = words a ++ words b := by
  rcases a.eq_nil_or_concat' with rfl | ⟨a, c, rfl⟩
  · rfl
  · cases b with
    | nil => rw [List.append_nil, words_nil, List.append_nil]
    | cons d b =>
      rcases h c (by simp) d (by simp) with hc | hd
      · rw [List.append_assoc, List.singleton_append, words_append_cons hc,
          words_concat_of_blank hc]
      · rw [words_append_cons hd, words_cons_of_blank hd]

/-- A text that is empty or ends in a blank. -/
def EndsBlank (s : List Char) : Prop := ∀ c ∈ s.getLast?, isBlank c = true

theorem EndsBlank.words_append {a : List Char} (h : EndsBlank a) (b : List Char) :
    words (a ++ b) = words a ++ words b :=
  Text.words_append fun c hc _ _ => .inl (h c hc)

theorem endsBlank_nil : EndsBlank [] := by simp [EndsBlank]

theorem endsBlank_concat (s : List Char) {c : Char} (hc : isBlank c = true) :
    EndsBlank (s ++ [c]) := by
  simp [EndsBlank, hc]

theorem endsBlank_of_isBlankText {s : List Char} (h : isBlankText s = true) : EndsBlank s :=
  fun c hc => List.all_eq_true.mp h c (List.mem_of_getLast? hc)

/-- Texts in a row, each apart from the next one, keep their words. -/
theorem words_flatten {parts : List (List Char)} (hne : [] ∉ parts) (h : parts.IsChain Apart) :
    words parts.flatten = parts.flatMap words := by
  induction parts with
  | nil => rfl
  | cons a parts ih =>
    have hrest : words parts.flatten = parts.flatMap words :=
      ih (fun hmem => hne (List.mem_cons_of_mem a hmem)) h.tail
    have hapart : Apart a parts.flatten := by
      cases parts with
      | nil => simp [Apart]
      | cons b parts =>
        -- The part that follows is not empty, so the rest begins as it does.
        obtain ⟨d, b', hb⟩ := List.exists_cons_of_ne_nil fun hb : b = [] => hne (by simp [hb])
        have hab := h.rel
        rw [hb] at hab ⊢
        exact hab
    rw [List.flatten_cons, words_append hapart, hrest, List.flatMap_cons]

/-! ### Lines -/

/-- The words of parts that are joined with a blank are those of each of them. -/
theorem words_joinWith {c : Char} (hc : isBlank c = true) (parts : List (List Char)) :
    words (joinWith [c] parts) = parts.flatMap words := by
  induction parts with
  | nil => rfl
  | cons a parts ih =>
    cases parts with
    | nil => simp [joinWith]
    | cons b parts =>
      rw [joinWith, List.intercalate_cons_cons, List.append_assoc, List.singleton_append,
        words_append_cons hc, ← joinWith, ih, ← List.flatMap_cons]

/-- The words of lines are those of the text of the lines. -/
theorem words_unlines (ls : List (List Char)) : words (unlines ls) = ls.flatMap words :=
  words_joinWith (by decide) ls

theorem flatMap_words_lines (s : List Char) : (lines s).flatMap words = words s := by
  rw [← words_unlines, unlines_lines]

/-! ### Numbers -/

theorem not_isBlank_of_graphic {c : Char} (h : 0x21 ≤ c.toNat ∧ c.toNat ≤ 0x7e) :
    ¬ isBlank c = true := by
  simp only [isBlank, inRanges, blankRanges, List.any_cons, List.any_nil, Bool.or_eq_true,
    Bool.and_eq_true, decide_eq_true_eq, Bool.or_false]
  omega

/-- A number is one word. -/
theorem not_isBlank_of_mem_ofInt {n : Int} {c : Char} (h : c ∈ ofInt n) : ¬ isBlank c = true := by
  have hdigit : ∀ m : Nat, ∀ c ∈ ofNat m, ¬ isBlank c = true := by
    intro m c hc
    have hc : c.isDigit = true := Nat.isDigit_of_mem_toDigits (by omega) (by omega) hc
    simp only [Char.isDigit, Bool.and_eq_true, decide_eq_true_eq] at hc
    have hlow : 48 ≤ c.toNat := UInt32.le_iff_toNat_le.mp hc.1
    have hhigh : c.toNat ≤ 57 := UInt32.le_iff_toNat_le.mp hc.2
    exact not_isBlank_of_graphic (by omega)
  cases n with
  | ofNat m => exact hdigit m c h
  | negSucc m =>
    rcases List.mem_cons.mp h with rfl | h
    · decide
    · exact hdigit _ c h

end SmallWeb.Text
