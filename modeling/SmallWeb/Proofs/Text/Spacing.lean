/-
SmallWeb/Proofs/Text/Spacing.lean

Words with single spaces between them.

Collapsing writes each run of blanks as one space, so what is left of a text when it
has been collapsed and trimmed is its words with a space between each two
(`trim_collapse`).  At the beginning of a text a run of blanks leaves a space that
only trimming removes; `trimEnd_collapse` keeps account of it, and everything else
in the induction is about where a word begins.

Texts of this form stay as they are when they are trimmed, and several of them in a
row are again of this form (`unwords_filter_map_unwords`).
-/
import SmallWeb.Proofs.Text.Words

namespace SmallWeb.Text

/-- Words in a row, with a space between each two of them. -/
def unwords (ws : List (List Char)) : List Char := joinWith [' '] ws

@[simp] theorem unwords_nil : unwords [] = [] := rfl

@[simp] theorem unwords_singleton (w : List Char) : unwords [w] = w := by
  rw [unwords, joinWith, List.intercalate_singleton]

theorem unwords_cons_cons (w v : List Char) (ws : List (List Char)) :
    unwords (w :: v :: ws) = w ++ ' ' :: unwords (v :: ws) := by
  rw [unwords, joinWith, List.intercalate_cons_cons, List.append_assoc]
  rfl

theorem unwords_char_cons (c : Char) (w : List Char) (ws : List (List Char)) :
    unwords ((c :: w) :: ws) = c :: unwords (w :: ws) := by
  cases ws with
  | nil => rw [unwords_singleton, unwords_singleton]
  | cons v ws => rw [unwords_cons_cons, unwords_cons_cons, List.cons_append]

/-- Words in a row give a text as soon as there is one. -/
theorem unwords_eq_nil_iff {ws : List (List Char)} (hws : ∀ w ∈ ws, w ≠ []) :
    unwords ws = [] ↔ ws = [] := by
  cases ws with
  | nil => simp
  | cons w ws =>
    have hw : w ≠ [] := hws w List.mem_cons_self
    cases ws with
    | nil => simpa using hw
    | cons v ws => simp [unwords_cons_cons]

/-- A word is neither empty nor does it hold a blank. -/
theorem ne_nil_and_not_blank_of_mem_words {s w : List Char} (h : w ∈ words s) :
    w ≠ [] ∧ ∀ c ∈ w, ¬ isBlank c = true := by
  obtain ⟨hpart, hne⟩ := List.mem_filter.mp h
  exact ⟨by simpa using hne, not_of_mem_splitWhere hpart⟩

/-! ### Where words begin -/

/-- Whether a text begins with a blank. -/
def startsBlank (s : List Char) : Bool := (s.head?.map isBlank).getD false

/-- A character before a blank, or at the end, is a word. -/
theorem words_cons_of_startsBlank {c : Char} {s : List Char} (hc : ¬ isBlank c = true)
    (hs : s = [] ∨ startsBlank s = true) : words (c :: s) = [c] :: words s := by
  have hword : words [c] = [[c]] := by
    refine words_of_forall_not (List.cons_ne_nil c []) fun d hd => ?_
    rwa [List.mem_singleton.mp hd]
  have hapart : Apart [c] s := by
    intro c' _ d hd
    rcases hs with rfl | hs
    · cases hd
    · rw [startsBlank, Option.mem_def.mp hd] at hs
      exact .inr hs
  rw [← List.singleton_append, words_append hapart, hword, List.singleton_append]

/-- A character before another one goes into its word. -/
theorem exists_words_cons {c d : Char} (hc : ¬ isBlank c = true) (hd : ¬ isBlank d = true)
    (s : List Char) :
    ∃ w ws, words (d :: s) = w :: ws ∧ words (c :: d :: s) = (c :: w) :: ws := by
  obtain ⟨part, parts, hs⟩ := List.exists_cons_of_ne_nil (splitWhere_ne_nil isBlank s)
  have hrest := splitWhere_cons_of_not hd hs
  have hall := splitWhere_cons_of_not hc hrest
  refine ⟨d :: part, parts.filter fun w => !w.isEmpty, ?_, ?_⟩
  · rw [words, hrest]
    rfl
  · rw [words, hall]
    rfl

/-- Behind one more character two texts keep having the same words, if they begin
alike. -/
theorem words_cons_congr (c : Char) {s t : List Char} (hwords : words s = words t)
    (hstarts : startsBlank s = startsBlank t) : words (c :: s) = words (c :: t) := by
  by_cases hc : isBlank c = true
  · rw [words_cons_of_blank hc, words_cons_of_blank hc, hwords]
  · by_cases hs : startsBlank s = true
    · have ht : startsBlank t = true := hstarts ▸ hs
      rw [words_cons_of_startsBlank hc (.inr hs), words_cons_of_startsBlank hc (.inr ht), hwords]
    · have ht : ¬ startsBlank t = true := hstarts ▸ hs
      -- Both texts begin with a word, or both are empty.
      cases s with
      | nil =>
        cases t with
        | nil => rfl
        | cons e t =>
          obtain ⟨w, ws, ht, -⟩ := exists_words_cons (c := e) ht ht t
          rw [ht] at hwords
          cases hwords
      | cons d s =>
        obtain ⟨w, ws, hs, hcs⟩ := exists_words_cons hc hs s
        cases t with
        | nil =>
          rw [hs] at hwords
          cases hwords
        | cons e t =>
          obtain ⟨v, vs, ht, hct⟩ := exists_words_cons hc ht t
          rw [hs, ht] at hwords
          obtain ⟨rfl, rfl⟩ := List.cons.inj hwords
          rw [hcs, hct]

/-! ### Collapsing -/

theorem collapse_cons_of_blank {c : Char} (hc : isBlank c = true) (s : List Char) :
    collapse (c :: s) = if startsBlank s then collapse s else ' ' :: collapse s := by
  rw [collapse, if_pos hc]
  rfl

theorem collapse_cons_of_not {c : Char} (hc : ¬ isBlank c = true) (s : List Char) :
    collapse (c :: s) = c :: collapse s := by
  rw [collapse, if_neg hc]

theorem trimEnd_cons_of_not {c : Char} (hc : ¬ isBlank c = true) (s : List Char) :
    trimEnd (c :: s) = c :: trimEnd s := by
  have h := trimEnd_append [c] s
  rw [List.singleton_append] at h
  rw [h]
  split
  · rename_i hs
    rw [trimEnd_eq_nil_iff.mpr hs]
    exact trimEnd_eq_self fun d hd => by rwa [List.mem_singleton.mp hd]
  · rfl

/-- The space that a run of blanks leaves before the first word. -/
def leadingSpace (s : List Char) : List Char :=
  if startsBlank s && !(words s).isEmpty then [' '] else []

theorem leadingSpace_of_not {s : List Char} (hs : ¬ startsBlank s = true) :
    leadingSpace s = [] := by
  rw [leadingSpace, eq_false_of_ne_true hs]
  rfl

theorem leadingSpace_of_startsBlank {s : List Char} (hs : startsBlank s = true) :
    leadingSpace s = if (words s).isEmpty then [] else [' '] := by
  rw [leadingSpace, hs]
  cases words s <;> rfl

/-- A space before a text shows if there is a word behind it. -/
theorem trimEnd_space_cons {s : List Char} {ws : List (List Char)} (hws : ∀ w ∈ ws, w ≠ [])
    (hs : trimEnd s = unwords ws) :
    trimEnd (' ' :: s) = (if ws.isEmpty then [] else [' ']) ++ unwords ws := by
  rw [← List.singleton_append, trimEnd_append]
  cases ws with
  | nil =>
    rw [if_pos (trimEnd_eq_nil_iff.mp hs)]
    rfl
  | cons w ws =>
    have hcontent : ¬ isBlankText s = true := by
      rw [← trimEnd_eq_nil_iff, hs, unwords_eq_nil_iff hws]
      exact List.cons_ne_nil w ws
    rw [if_neg hcontent, hs]
    rfl

/-- **What is left of a text** when it has been collapsed and trimmed at its end: its
words, and a space before them where it begins with blanks. -/
theorem trimEnd_collapse (s : List Char) :
    trimEnd (collapse s) = leadingSpace s ++ unwords (words s) := by
  induction s with
  | nil => rfl
  | cons c s ih =>
    by_cases hc : isBlank c = true
    · have hstarts : startsBlank (c :: s) = true := hc
      rw [collapse_cons_of_blank hc, leadingSpace_of_startsBlank hstarts, words_cons_of_blank hc]
      by_cases hs : startsBlank s = true
      · -- The run goes on, and its last blank gives the space.
        rw [if_pos hs, ih, leadingSpace_of_startsBlank hs]
      · rw [leadingSpace_of_not hs] at ih
        rw [if_neg hs, trimEnd_space_cons (fun w hw => (ne_nil_and_not_blank_of_mem_words hw).1) ih]
    · have hstarts : ¬ startsBlank (c :: s) = true := hc
      rw [collapse_cons_of_not hc, trimEnd_cons_of_not hc, ih, leadingSpace_of_not hstarts,
        List.nil_append]
      cases s with
      | nil =>
        rw [words_cons_of_startsBlank hc (.inl rfl)]
        rfl
      | cons d s =>
        by_cases hd : isBlank d = true
        · -- The word ends here, and the space stands before the next one, if any.
          have hs : startsBlank (d :: s) = true := hd
          rw [words_cons_of_startsBlank hc (.inr hs), leadingSpace_of_startsBlank hs]
          cases words (d :: s) with
          | nil => rfl
          | cons w ws => exact (unwords_cons_cons [c] w ws).symm
        · obtain ⟨w, ws, hwords, hall⟩ := exists_words_cons hc hd s
          rw [leadingSpace_of_not (s := d :: s) hd, hwords, hall, unwords_char_cons]
          rfl

/-- Trimming at the beginning may come before collapsing. -/
theorem trimStart_collapse (s : List Char) : trimStart (collapse s) = collapse (trimStart s) := by
  induction s with
  | nil => rfl
  | cons c s ih =>
    by_cases hc : isBlank c = true
    · have htrim : trimStart (c :: s) = trimStart s := List.dropWhile_cons_of_pos hc
      rw [collapse_cons_of_blank hc, htrim, ← ih]
      split
      · rfl
      · exact List.dropWhile_cons_of_pos (by decide)
    · have htrim : ∀ t, trimStart (c :: t) = c :: t := fun t => List.dropWhile_cons_of_neg hc
      rw [collapse_cons_of_not hc, htrim, htrim, collapse_cons_of_not hc]

theorem words_trimStart (s : List Char) : words (trimStart s) = words s := by
  have hblank : isBlankText (s.takeWhile isBlank) = true := by
    rw [isBlankText, List.all_eq_true]
    exact fun c hc => List.mem_takeWhile_imp hc
  have hsplit : s.takeWhile isBlank ++ trimStart s = s := List.takeWhile_append_dropWhile
  rw [← words_append_left hblank, hsplit]

theorem words_trim (s : List Char) : words (trim s) = words s := by
  rw [trim, words_trimEnd, words_trimStart]

/-- **A text collapsed and trimmed** is its words with single spaces. -/
theorem trim_collapse (s : List Char) : trim (collapse s) = unwords (words s) := by
  have hstarts : ¬ startsBlank (trimStart s) = true := by
    unfold startsBlank trimStart
    cases hs : s.dropWhile isBlank with
    | nil => simp
    | cons c t =>
      have h := List.head?_dropWhile_not isBlank s
      rw [hs] at h
      simpa using h
  rw [trim, trimStart_collapse, trimEnd_collapse, leadingSpace_of_not hstarts, words_trimStart]
  rfl

/-! ### Texts of this form -/

theorem flatMap_words_words (s : List Char) : (words s).flatMap words = words s := by
  have hword : ∀ w ∈ words s, words w = [w] := by
    intro w hw
    obtain ⟨hne, hblank⟩ := ne_nil_and_not_blank_of_mem_words hw
    exact words_of_forall_not hne hblank
  rw [List.flatMap_congr hword, List.flatMap_singleton']

/-- The words of texts with spaces between them. -/
theorem words_unwords (ts : List (List Char)) : words (unwords ts) = ts.flatMap words :=
  words_joinWith (by decide) ts

/-- The words of a text stay the same when the blanks between them are made one
space. -/
theorem words_unwords_words (s : List Char) : words (unwords (words s)) = words s := by
  rw [words_unwords, flatMap_words_words]

theorem words_collapse (s : List Char) : words (collapse s) = words s := by
  rw [← words_trim (collapse s), trim_collapse, words_unwords_words]

theorem trim_trim (s : List Char) : trim (trim s) = trim s := by
  have hstart : trimStart (trim s) = trim s := by
    unfold trim
    cases hs : trimStart s with
    | nil => rfl
    | cons c t =>
      have hc : ¬ isBlank c = true := by
        have h := List.head?_dropWhile_not isBlank s
        rw [← trimStart, hs] at h
        simpa using h
      rw [trimEnd_cons_of_not hc]
      exact List.dropWhile_cons_of_neg hc
  rw [trim, hstart, trim, trimEnd_trimEnd]

theorem trim_unwords_words (s : List Char) : trim (unwords (words s)) = unwords (words s) := by
  rw [← trim_collapse, trim_trim]

theorem isBlankText_unwords_words (s : List Char) :
    isBlankText (unwords (words s)) = (words s).isEmpty := by
  cases hs : words s with
  | nil => rfl
  | cons w ws =>
    refine Bool.eq_false_iff.mpr fun hblank => ?_
    have hnil := words_eq_nil hblank
    rw [← hs, words_unwords_words, hs] at hnil
    exact List.cons_ne_nil w ws hnil

theorem ne_nil_of_mem_flatMap_words (ss : List (List Char)) :
    ∀ w ∈ ss.flatMap words, w ≠ [] := by
  intro w hw
  obtain ⟨s, -, hws⟩ := List.mem_flatMap.mp hw
  exact (ne_nil_and_not_blank_of_mem_words hws).1

/-- A text with content is not empty. -/
theorem ne_nil_of_mem_filter {ts : List (List Char)} :
    ∀ t ∈ ts.filter fun t => !isBlankText t, t ≠ [] := by
  rintro _ ht rfl
  simpa [isBlankText] using (List.mem_filter.mp ht).2

/-- Texts without content have no words. -/
theorem flatMap_words_filter (ts : List (List Char)) :
    (ts.filter fun t => !isBlankText t).flatMap words = ts.flatMap words := by
  induction ts with
  | nil => rfl
  | cons t ts ih =>
    rw [List.filter_cons, List.flatMap_cons]
    by_cases ht : isBlankText t = true
    · rw [if_neg (by simp [ht]), words_eq_nil ht]
      exact ih
    · rw [if_pos (by simp [ht]), List.flatMap_cons, ih]

theorem unwords_append {ws vs : List (List Char)} (hws : ws ≠ []) (hvs : vs ≠ []) :
    unwords (ws ++ vs) = unwords ws ++ ' ' :: unwords vs := by
  induction ws with
  | nil => exact absurd rfl hws
  | cons w ws ih =>
    cases ws with
    | nil =>
      obtain ⟨v, vs, rfl⟩ := List.exists_cons_of_ne_nil hvs
      rw [List.singleton_append, unwords_cons_cons, unwords_singleton]
    | cons u ws =>
      rw [List.cons_append, List.cons_append, unwords_cons_cons, ← List.cons_append,
        ih (List.cons_ne_nil u ws), unwords_cons_cons, List.append_assoc, List.cons_append]

/-- **Texts of this form in a row**, those without words left out, are again of this
form. -/
theorem unwords_filter_map_unwords (ss : List (List Char)) :
    unwords ((ss.map fun s => unwords (words s)).filter fun t => !isBlankText t) =
      unwords (ss.flatMap words) := by
  induction ss with
  | nil => rfl
  | cons s ss ih =>
    rw [List.map_cons, List.filter_cons, isBlankText_unwords_words, List.flatMap_cons]
    by_cases hs : words s = []
    · rw [hs]
      exact ih
    · rw [if_pos (by simpa using hs)]
      by_cases hss : ss.flatMap words = []
      · have hrest := ih
        rw [hss, unwords_nil, unwords_eq_nil_iff ne_nil_of_mem_filter] at hrest
        rw [hrest, hss, unwords_singleton, List.append_nil]
      · have hrest := mt (unwords_eq_nil_iff (ne_nil_of_mem_flatMap_words ss)).mp hss
        rw [← ih, unwords_eq_nil_iff ne_nil_of_mem_filter] at hrest
        rw [← List.singleton_append, unwords_append (List.cons_ne_nil _ _) hrest, ih,
          unwords_singleton, ← unwords_append hs hss]

/-! ### Texts of one line -/

theorem notMem_newline_collapse {s : List Char} (h : '\n' ∉ s) : '\n' ∉ collapse s := by
  fun_induction collapse s with
  | case1 => exact h
  | case2 c s _ _ ih => exact ih (List.not_mem_of_not_mem_cons h)
  | case3 c s _ _ ih => simp [ih (List.not_mem_of_not_mem_cons h)]
  | case4 c s _ ih =>
    have hc : '\n' ≠ c := List.ne_of_not_mem_cons h
    simp [hc, ih (List.not_mem_of_not_mem_cons h)]

theorem notMem_newline_unwords {ts : List (List Char)} (h : ∀ t ∈ ts, '\n' ∉ t) :
    '\n' ∉ unwords ts := by
  induction ts with
  | nil => exact List.not_mem_nil
  | cons t ts ih =>
    rw [List.forall_mem_cons] at h
    cases ts with
    | nil =>
      rw [unwords_singleton]
      exact h.1
    | cons u ts =>
      have hspace : '\n' ≠ ' ' := by decide
      rw [unwords_cons_cons]
      exact notMem_newline_append h.1 (List.not_mem_cons_of_ne_of_not_mem hspace (ih h.2))

end SmallWeb.Text
