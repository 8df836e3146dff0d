/-
SmallWeb/Proofs/Text/Lines.lean

Lines of a text and texts of lines.

`splitWhere_append_cons` is the equation from which the rest follows: a text
splits at a separator into the parts before it and the parts after it.  Lines
that are joined with line feeds and cut again are the lines of each of them, so
a line without a line feed comes back as it was.
-/
import Mathlib.Data.List.Basic
import SmallWeb.Proofs.Text.Trim
import SmallWeb.Text.Digit

namespace SmallWeb.Text

/-! ### Splitting -/

theorem splitWhere_ne_nil (p : Char → Bool) (s : List Char) : splitWhere p s ≠ [] := by
  cases s with
  | nil => simp [splitWhere]
  | cons c s =>
    unfold splitWhere
    split
    · simp
    · split <;> simp

/-- A character that is no separator goes into the first part. -/
theorem splitWhere_cons_of_not {p : Char → Bool} {c : Char} (hc : ¬ p c = true)
    {s part : List Char} {parts : List (List Char)} (hs : splitWhere p s = part :: parts) :
    splitWhere p (c :: s) = (c :: part) :: parts := by
  rw [splitWhere, if_neg hc, hs]

/-- **A text splits at a separator.** -/
theorem splitWhere_append_cons {p : Char → Bool} {c : Char} (hc : p c = true)
    (a b : List Char) : splitWhere p (a ++ c :: b) = splitWhere p a ++ splitWhere p b := by
  induction a with
  | nil => simp [splitWhere, hc]
  | cons d a ih =>
    obtain ⟨part, parts, ha⟩ := List.exists_cons_of_ne_nil (splitWhere_ne_nil p a)
    by_cases hd : p d = true
    · rw [List.cons_append, splitWhere, if_pos hd, ih, splitWhere, if_pos hd, List.cons_append]
    · rw [ha, List.cons_append] at ih
      rw [List.cons_append, splitWhere_cons_of_not hd ih, splitWhere_cons_of_not hd ha,
        List.cons_append]

theorem splitWhere_of_forall_not {p : Char → Bool} {s : List Char}
    (h : ∀ c ∈ s, ¬ p c = true) : splitWhere p s = [s] := by
  induction s with
  | nil => rfl
  | cons c s ih =>
    have hs : splitWhere p s = [s] := ih fun d hd => h d (List.mem_cons_of_mem c hd)
    exact splitWhere_cons_of_not (h c List.mem_cons_self) hs

/-- No part holds a separator. -/
theorem not_of_mem_splitWhere {p : Char → Bool} {s part : List Char}
    (h : part ∈ splitWhere p s) : ∀ c ∈ part, ¬ p c = true := by
  induction s generalizing part with
  | nil =>
    obtain rfl : part = [] := by simpa [splitWhere] using h
    simp
  | cons d s ih =>
    obtain ⟨first, parts, hs⟩ := List.exists_cons_of_ne_nil (splitWhere_ne_nil p s)
    by_cases hd : p d = true
    · rw [splitWhere, if_pos hd, List.mem_cons] at h
      rcases h with rfl | h
      · simp
      · exact ih h
    · rw [splitWhere_cons_of_not hd hs, List.mem_cons] at h
      rcases h with rfl | h
      · intro c hc
        rcases List.mem_cons.mp hc with rfl | hc
        · exact hd
        · exact ih (hs ▸ List.mem_cons_self) c hc
      · exact ih (hs ▸ List.mem_cons_of_mem first h)

/-! ### Cutting -/

/-- A text that holds a separator is cut at the first one. -/
theorem cut?_eq (sep : Char) (s : List Char) :
    cut? sep s =
      if sep ∈ s then some (s.takeWhile (· != sep), (s.dropWhile (· != sep)).tail) else none := by
  induction s with
  | nil => rfl
  | cons c s ih =>
    rw [cut?]
    by_cases hc : c = sep
    · subst hc
      simp
    · have hne : (c != sep) = true := bne_iff_ne.mpr hc
      have hmem : sep ∈ c :: s ↔ sep ∈ s := by simp [Ne.symm hc]
      rw [if_neg hc, ih, List.takeWhile_cons, List.dropWhile_cons, if_pos hne, if_pos hne]
      by_cases hs : sep ∈ s
      · rw [if_pos hs, if_pos (hmem.mpr hs)]
        rfl
      · rw [if_neg hs, if_neg (mt hmem.mp hs)]
        rfl

/-- What stands before a separator is cut off if the separator is the first one. -/
theorem cut?_append_cons {sep : Char} {a : List Char} (h : sep ∉ a) (b : List Char) :
    cut? sep (a ++ sep :: b) = some (a, b) := by
  have hmem : sep ∈ a ++ sep :: b := List.mem_append_right _ List.mem_cons_self
  have hbefore : ∀ c ∈ a, (c != sep) = true := by
    rintro c hc
    exact bne_iff_ne.mpr fun heq => h (heq ▸ hc)
  rw [cut?_eq, if_pos hmem, List.takeWhile_append_of_pos hbefore,
    List.dropWhile_append_of_pos hbefore]
  simp

/-! ### Lines -/

theorem lines_ne_nil (s : List Char) : lines s ≠ [] := splitWhere_ne_nil _ s

theorem lines_of_notMem {s : List Char} (h : '\n' ∉ s) : lines s = [s] := by
  refine splitWhere_of_forall_not fun c hc heq => h ?_
  rwa [← eq_of_beq heq]

theorem notMem_of_mem_lines {s l : List Char} (h : l ∈ lines s) : '\n' ∉ l := by
  intro hn
  exact not_of_mem_splitWhere h '\n' hn (beq_self_eq_true _)

theorem lines_append_newline (a b : List Char) :
    lines (a ++ '\n' :: b) = lines a ++ lines b :=
  splitWhere_append_cons (p := fun c => c == '\n') (beq_self_eq_true '\n') a b

@[simp] theorem unlines_singleton (l : List Char) : unlines [l] = l := by
  rw [unlines, joinWith, List.intercalate_singleton]

theorem unlines_cons_cons (l m : List Char) (ls : List (List Char)) :
    unlines (l :: m :: ls) = l ++ '\n' :: unlines (m :: ls) := by
  rw [unlines, joinWith, List.intercalate_cons_cons, List.append_assoc]
  rfl

/-- Lines joined and cut again are the lines of each of them. -/
theorem lines_unlines {ls : List (List Char)} (h : ls ≠ []) :
    lines (unlines ls) = ls.flatMap lines := by
  induction ls with
  | nil => exact absurd rfl h
  | cons l ls ih =>
    cases ls with
    | nil => simp
    | cons m ls =>
      rw [unlines_cons_cons, lines_append_newline, ih (List.cons_ne_nil m ls),
        ← List.flatMap_cons]

/-- Lines without line feeds come back as they were. -/
theorem lines_unlines_of_notMem {ls : List (List Char)} (hne : ls ≠ [])
    (h : ∀ l ∈ ls, '\n' ∉ l) : lines (unlines ls) = ls := by
  rw [lines_unlines hne, List.flatMap_congr fun l hl => lines_of_notMem (h l hl),
    List.flatMap_singleton']

/-- A text is its lines joined. -/
theorem unlines_lines (s : List Char) : unlines (lines s) = s := by
  induction s with
  | nil => rfl
  | cons c s ih =>
    obtain ⟨l, ls, hs⟩ := List.exists_cons_of_ne_nil (lines_ne_nil s)
    by_cases hc : c = '\n'
    · have hl : lines (c :: s) = [] :: lines s := by rw [hc]; rfl
      rw [hl, hs, unlines_cons_cons, ← hs, ih, hc, List.nil_append]
    · have hl : lines (c :: s) = (c :: l) :: ls :=
        splitWhere_cons_of_not (p := fun d => d == '\n') (fun h => hc (eq_of_beq h)) hs
      rw [hl]
      rw [hs] at ih
      cases ls with
      | nil => rw [unlines_singleton] at ih ⊢; rw [ih]
      | cons m ls => rw [unlines_cons_cons] at ih ⊢; rw [← ih, List.cons_append]

/-- The lines of joined lines may be replaced by any lines with the same join. -/
theorem unlines_append_lines_unlines (ls ms : List (List Char)) (h : ms ≠ []) :
    unlines (ls ++ lines (unlines ms)) = unlines (ls ++ ms) := by
  induction ls with
  | nil => rw [List.nil_append, List.nil_append, unlines_lines]
  | cons l ls ih =>
    obtain ⟨a, as, ha⟩ := List.exists_cons_of_ne_nil
      (List.append_ne_nil_of_right_ne_nil ls (lines_ne_nil (unlines ms)))
    obtain ⟨b, bs, hb⟩ := List.exists_cons_of_ne_nil (List.append_ne_nil_of_right_ne_nil ls h)
    rw [ha, hb] at ih
    rw [List.cons_append, List.cons_append, ha, hb, unlines_cons_cons, unlines_cons_cons, ih]

/-! ### Texts of one line -/

theorem notMem_newline_append {a b : List Char} (ha : '\n' ∉ a) (hb : '\n' ∉ b) :
    '\n' ∉ a ++ b := by
  intro hn
  rcases List.mem_append.mp hn with h | h
  · exact ha h
  · exact hb h

theorem notMem_newline_replicate {n : Nat} {c : Char} (hc : c ≠ '\n') :
    '\n' ∉ List.replicate n c :=
  fun hn => hc (List.eq_of_mem_replicate hn).symm

/-- Trimming brings in nothing. -/
theorem notMem_newline_trimEnd {s : List Char} (h : '\n' ∉ s) : '\n' ∉ trimEnd s :=
  fun hn => h (mem_of_mem_trimEnd hn)

/-- A number is made of digits behind a sign. -/
theorem isDigit_of_mem_ofInt {n : Int} {c : Char} (h : c ∈ ofInt n) :
    c = '-' ∨ c.isDigit = true := by
  have hnat : ∀ m : Nat, c ∈ ofNat m → c.isDigit = true :=
    fun m hm => Nat.isDigit_of_mem_toDigits (by omega) (by omega) hm
  cases n with
  | ofNat m => exact .inr (hnat m h)
  | negSucc m => exact (List.mem_cons.mp h).imp_right (hnat _)

theorem notMem_newline_ofInt (n : Int) : '\n' ∉ ofInt n := by
  intro hn
  rcases isDigit_of_mem_ofInt hn with h | h <;> exact absurd h (by decide)

/-! ### Characters of changed texts -/

theorem mem_of_mem_lines {s l : List Char} {c : Char} (hl : l ∈ lines s) (hc : c ∈ l) : c ∈ s := by
  have hjoined : ∀ ls : List (List Char), l ∈ ls → c ∈ unlines ls := by
    intro ls hmem
    induction ls with
    | nil => exact absurd hmem List.not_mem_nil
    | cons m ls ih =>
      cases ls with
      | nil =>
        rw [List.mem_singleton.mp hmem] at hc
        rwa [unlines_singleton]
      | cons k ls =>
        rw [unlines_cons_cons]
        rcases List.mem_cons.mp hmem with rfl | hmem
        · exact List.mem_append_left _ hc
        · exact List.mem_append_right _ (List.mem_cons_of_mem _ (ih hmem))
  have hmem := hjoined (lines s) hl
  rwa [unlines_lines] at hmem

theorem mem_of_mem_trim {s : List Char} {c : Char} (h : c ∈ trim s) : c ∈ s :=
  (List.dropWhile_sublist isBlank).subset (mem_of_mem_trimEnd h)

theorem mem_of_mem_replaceChar {source target c : Char} {s : List Char}
    (h : c ∈ replaceChar source target s) : c ∈ s ∨ c = target := by
  obtain ⟨d, hd, rfl⟩ := List.mem_map.mp h
  split
  · exact .inr rfl
  · exact .inl hd

end SmallWeb.Text
