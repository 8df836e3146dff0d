/-
SmallWeb/Proofs/Wrap/Bound.lean

How long a wrapped line is.

A line that has been filled is given by its chunks.  `Fits room` says that they
fit into the room, or that there is one chunk only, too long for any line and
not blank.  Filling yields such lines (`fill_fits`), each chunk of a line is a
chunk of the text, and a chunk with content is a word (`isWord_of_mem_chunks`).

Hence every line of a wrapped text is no longer than the width, or it is the
prefix and one word behind it (`wrapLine_bounded`).
-/
import Mathlib.Data.List.SplitBy
import SmallWeb.Proofs.Text.Trim
import SmallWeb.Wrap

namespace SmallWeb

/-! ### Words of a line -/

/-- A text with content that no line break may divide. -/
def IsWord (s : List Char) : Prop :=
  ¬ Text.isBlankText s = true ∧ ∀ c ∈ s, ¬ Text.isBreak c = true

theorem IsWord.trimEnd {s : List Char} (h : IsWord s) : IsWord (Text.trimEnd s) := by
  refine ⟨?_, fun c hc => h.2 c (Text.mem_of_mem_trimEnd hc)⟩
  rw [Text.isBlankText_trimEnd]
  exact h.1

/-- A character that is left after the breaks have become spaces is a space or
no break. -/
theorem not_isBreak_of_mem_softenBreaks {s : List Char} {c : Char}
    (hc : c ∈ softenBreaks s) (hne : c ≠ ' ') : ¬ Text.isBreak c = true := by
  obtain ⟨d, -, rfl⟩ := List.mem_map.mp hc
  by_cases hd : Text.isBreak d = true
  · exact absurd (if_pos hd) hne
  · rwa [if_neg hd]

/-- A chunk is a run of spaces or holds no space. -/
theorem all_space_or_no_space_of_mem_chunks {s chunk : List Char} (h : chunk ∈ chunks s) :
    (∀ c ∈ chunk, c = ' ') ∨ ∀ c ∈ chunk, c ≠ ' ' := by
  have hchain := List.isChain_of_mem_splitBy h
  clear h
  induction chunk with
  | nil => exact .inl (by simp)
  | cons c chunk ih =>
    have htail := ih hchain.tail
    cases chunk with
    | nil => by_cases hc : c = ' ' <;> simp [hc]
    | cons d chunk =>
      have hcd : c = ' ' ↔ d = ' ' := by
        have h := hchain.rel
        simpa using h
      rcases htail with hs | hs
      · left
        intro x hx
        rcases List.mem_cons.mp hx with rfl | hx
        · exact hcd.mpr (hs d List.mem_cons_self)
        · exact hs x hx
      · right
        intro x hx
        rcases List.mem_cons.mp hx with rfl | hx
        · intro hspace
          exact hs d List.mem_cons_self (hcd.mp hspace)
        · exact hs x hx

theorem mem_softenBreaks_of_mem_chunks {s chunk : List Char} {c : Char} (h : chunk ∈ chunks s)
    (hc : c ∈ chunk) : c ∈ softenBreaks s := by
  have hmem : c ∈ (chunks s).flatten := List.mem_flatten.mpr ⟨chunk, h, hc⟩
  rwa [chunks, List.flatten_splitBy] at hmem

/-- **A chunk with content is a word.** -/
theorem isWord_of_mem_chunks {s chunk : List Char} (h : chunk ∈ chunks s)
    (hcontent : ¬ Text.isBlankText chunk = true) : IsWord chunk := by
  refine ⟨hcontent, ?_⟩
  have hsub : ∀ c ∈ chunk, c ∈ softenBreaks s := fun c hc => mem_softenBreaks_of_mem_chunks h hc
  rcases all_space_or_no_space_of_mem_chunks h with hs | hs
  · refine absurd ?_ hcontent
    rw [Text.isBlankText, List.all_eq_true]
    intro c hc
    rw [hs c hc]
    decide
  · intro c hc
    exact not_isBreak_of_mem_softenBreaks (hsub c hc) (hs c hc)

/-! ### Filling -/

/-- The chunks of a line fit into the room, or there is one only, with
content. -/
def Fits (room : Nat) (line : List (List Char)) : Prop :=
  line.flatten.length ≤ room ∨ ∃ c, line = [c] ∧ ¬ Text.isBlankText c = true

theorem takeFitting_length_le (room : Nat) (cs : List (List Char)) :
    (takeFitting room cs).1.flatten.length ≤ room := by
  induction cs generalizing room with
  | nil => simp [takeFitting]
  | cons c cs ih =>
    unfold takeFitting
    split
    · rename_i hle
      have h := ih (room - c.length)
      simp only [List.flatten_cons, List.length_append]
      omega
    · simp

theorem takeFitting_append (room : Nat) (cs : List (List Char)) :
    (takeFitting room cs).1 ++ (takeFitting room cs).2 = cs := by
  induction cs generalizing room with
  | nil => rfl
  | cons c cs ih =>
    unfold takeFitting
    split
    · exact congrArg (c :: ·) (ih (room - c.length))
    · rfl

/-- A line and the chunks that are left are the chunks there were. -/
theorem nextLine_append (room : Nat) (cs : List (List Char)) :
    (nextLine room cs).1 ++ (nextLine room cs).2 = cs := by
  have h := takeFitting_append room cs
  unfold nextLine
  split
  · rename_i c rest e
    rw [e] at h
    exact h
  · exact h

/-- The chunks of the next line fit, or there is one only. -/
theorem nextLine_length_le (room : Nat) (cs : List (List Char)) :
    (nextLine room cs).1.flatten.length ≤ room ∨ ∃ c, (nextLine room cs).1 = [c] := by
  unfold nextLine
  split
  · rename_i c rest e
    exact .inr ⟨c, rfl⟩
  · exact .inl (takeFitting_length_le room cs)

theorem isSuffix_dropBlankHead (cs : List (List Char)) : dropBlankHead cs <:+ cs := by
  cases cs with
  | nil => exact List.suffix_rfl
  | cons c cs =>
    simp only [dropBlankHead]
    split
    · exact List.suffix_cons c cs
    · exact List.suffix_rfl

theorem isPrefix_dropBlankLast (cs : List (List Char)) : dropBlankLast cs <+: cs := by
  unfold dropBlankLast
  split
  · split
    · exact List.dropLast_prefix cs
    · exact List.prefix_rfl
  · exact List.prefix_rfl

/-- The end of a line may lose a blank chunk; a single chunk that remains has
content. -/
theorem fits_dropBlankLast {room : Nat} {cs : List (List Char)}
    (h : cs.flatten.length ≤ room ∨ ∃ c, cs = [c]) (hne : dropBlankLast cs ≠ []) :
    Fits room (dropBlankLast cs) := by
  rcases h with h | ⟨c, rfl⟩
  · exact .inl (Nat.le_trans (isPrefix_dropBlankLast cs).sublist.flatten.length_le h)
  · by_cases hc : Text.isBlankText c = true
    · exact absurd (by simp [dropBlankLast, hc]) hne
    · exact .inr ⟨c, by simp [dropBlankLast, hc], hc⟩

/-- **Filling respects the room**: the first line fits into the room for the first
line, and the others fit into the room for the others. -/
theorem fill_fits (first later : Nat) (started : Bool) (cs : List (List Char)) :
    (∀ l ∈ (fill first later started cs).head?, Fits (bif started then later else first) l) ∧
      ∀ l ∈ (fill first later started cs).tail, Fits later l := by
  fun_induction fill first later started cs with
  | case1 => simp
  | case2 started cs d ds hcs next hnone ih => exact ih
  | case3 started cs d ds hcs next hne ih =>
    refine ⟨?_, ?_⟩
    · intro l hl
      obtain rfl : _ = l := by simpa using hl
      exact fits_dropBlankLast (nextLine_length_le _ (d :: ds)) hne
    · intro l hl
      rcases hfill : fill first later true next.2 with - | ⟨m, ms⟩
      · rw [hfill] at hl
        simp at hl
      · rw [hfill] at hl ih
        rcases List.mem_cons.mp hl with rfl | hl
        · exact ih.1 l rfl
        · exact ih.2 l hl

/-- What remains of the chunks when a line may have begun with a blank. -/
theorem isSuffix_restart (started : Bool) (cs : List (List Char)) :
    (bif started then dropBlankHead cs else cs) <:+ cs := by
  cases started with
  | true => exact isSuffix_dropBlankHead cs
  | false => exact List.suffix_rfl

/-- A filled line is a part of the chunks. -/
theorem isInfix_of_mem_fill {first later : Nat} {started : Bool} {cs l : List (List Char)}
    (hl : l ∈ fill first later started cs) : l <:+: cs := by
  fun_induction fill first later started cs with
  | case1 => simp at hl
  | case2 started cs d ds hcs next hnone ih =>
    have hrest : next.2 <:+ d :: ds := ⟨next.1, nextLine_append _ _⟩
    have hstart : d :: ds <:+ cs := hcs ▸ isSuffix_restart started cs
    exact (ih hl).trans (hrest.trans hstart).isInfix
  | case3 started cs d ds hcs next hne ih =>
    have hstart : d :: ds <:+ cs := hcs ▸ isSuffix_restart started cs
    rcases List.mem_cons.mp hl with rfl | hl
    · have hline : next.1 <+: d :: ds := ⟨next.2, nextLine_append _ _⟩
      exact ((isPrefix_dropBlankLast next.1).trans hline).isInfix.trans hstart.isInfix
    · have hrest : next.2 <:+ d :: ds := ⟨next.1, nextLine_append _ _⟩
      exact (ih hl).trans (hrest.trans hstart).isInfix

/-- The chunks of every line are chunks that there were. -/
theorem mem_of_mem_fill {first later : Nat} {started : Bool} {cs l : List (List Char)}
    {c : List Char} (hl : l ∈ fill first later started cs) (hc : c ∈ l) : c ∈ cs :=
  (isInfix_of_mem_fill hl).subset hc

/-! ### Lines with a prefix -/

/-- A line of at most `width` characters, or the prefix and one word behind it. -/
def Bounded (width : Nat) (lead s : List Char) : Prop :=
  s.length ≤ width ∨ ∃ word, s = lead ++ word ∧ IsWord word

theorem prependEach_same (lead : List Char) (ls : List (List Char)) :
    prependEach lead lead ls = ls.map (lead ++ ·) := by
  cases ls <;> rfl

/-- The text of a filled line, behind a prefix and trimmed. -/
theorem bounded_of_fits {width room : Nat} {lead : List Char} {line : List (List Char)}
    {cs : List (List Char)} (hroom : lead.length + room ≤ width) (hfits : Fits room line)
    (hmem : ∀ c ∈ line, c ∈ cs) (hwords : ∀ c ∈ cs, ¬ Text.isBlankText c = true → IsWord c) :
    Bounded width lead (Text.trimEnd (lead ++ line.flatten)) := by
  rcases hfits with hle | ⟨c, rfl, hc⟩
  · left
    have htrim := Text.trimEnd_length_le (lead ++ line.flatten)
    rw [List.length_append] at htrim
    omega
  · right
    have hword : IsWord c := hwords c (hmem c List.mem_cons_self) hc
    refine ⟨Text.trimEnd c, ?_, hword.trimEnd⟩
    rw [List.flatten_singleton, Text.trimEnd_append_of_not_blank hc]

/-- **Every line of a wrapped text is bounded**, where the prefix leaves room for
a character. -/
theorem wrapLine_bounded {width : Nat} {lead text l : List Char} (hlead : lead.length < width)
    (hl : l ∈ wrapLine width lead lead text) : Bounded width lead l := by
  have hwidth : ¬ width = 0 := by omega
  have hlimit : max width (max (lead.length + 1) (lead.length + 1)) = width := by omega
  rw [wrapLine, if_neg hwidth, wrapAt, hlimit] at hl
  have hfits := fill_fits (width - lead.length) (width - lead.length) false (chunks text)
  have hwords : ∀ c ∈ chunks text, ¬ Text.isBlankText c = true → IsWord c :=
    fun c hc => isWord_of_mem_chunks hc
  rcases hfill : fill (width - lead.length) (width - lead.length) false (chunks text) with
    - | ⟨m, ms⟩
  · rw [hfill] at hl
    obtain rfl : l = Text.trimEnd lead := by simpa using hl
    have htrim := Text.trimEnd_length_le lead
    exact .inl (by omega)
  · rw [hfill] at hl hfits
    simp only [prependEach_same, List.map_map, List.mem_map, Function.comp_apply] at hl
    obtain ⟨line, hline, rfl⟩ := hl
    have hmem : ∀ c ∈ line, c ∈ chunks text := fun c hc => mem_of_mem_fill (hfill ▸ hline) hc
    have hroom : lead.length + (width - lead.length) ≤ width := by omega
    refine bounded_of_fits hroom ?_ hmem hwords
    rcases List.mem_cons.mp hline with rfl | hline
    · exact hfits.1 line rfl
    · exact hfits.2 line hline

/-- Wrapping yields a line at least. -/
theorem wrapLine_ne_nil (width : Nat) (initial subsequent text : List Char) :
    wrapLine width initial subsequent text ≠ [] := by
  unfold wrapLine wrapAt
  split
  · split <;> simp
  · dsimp only
    split
    · simp
    · rename_i ls hne
      rcases hls : fill _ _ false (chunks text) with - | ⟨m, ms⟩
      · exact absurd hls hne
      · simp [prependEach]

/-- The lines of a wrapped text are trimmed. -/
theorem trimEnd_of_mem_wrapLine {width : Nat} {initial subsequent text l : List Char}
    (hl : l ∈ wrapLine width initial subsequent text) : Text.trimEnd l = l := by
  unfold wrapLine wrapAt at hl
  have hmap : ∀ ls : List (List Char), l ∈ ls.map Text.trimEnd → Text.trimEnd l = l := by
    intro ls h
    obtain ⟨s, -, rfl⟩ := List.mem_map.mp h
    exact Text.trimEnd_trimEnd s
  split at hl
  · split at hl
    · exact hmap [initial] (by simpa using hl)
    · exact hmap [initial ++ text] (by simpa using hl)
  · dsimp only at hl
    split at hl
    · exact hmap [initial] (by simpa using hl)
    · exact hmap _ hl

/-- Wrapping brings in no characters but spaces. -/
theorem mem_of_mem_wrapLine {width : Nat} {lead text l : List Char} {c : Char}
    (hl : l ∈ wrapLine width lead lead text) (hc : c ∈ l) : c ∈ lead ∨ c ∈ text ∨ c = ' ' := by
  have htext : ∀ rest : List Char, (∀ d ∈ rest, d ∈ text ∨ d = ' ') →
      l = Text.trimEnd (lead ++ rest) → c ∈ lead ∨ c ∈ text ∨ c = ' ' := by
    rintro rest hrest rfl
    rcases List.mem_append.mp (Text.mem_of_mem_trimEnd hc) with h | h
    · exact .inl h
    · exact .inr (hrest c h)
  have hblank : l = Text.trimEnd lead → c ∈ lead ∨ c ∈ text ∨ c = ' ' := by
    rintro rfl
    exact .inl (Text.mem_of_mem_trimEnd hc)
  have hchunks : ∀ line : List (List Char), (∀ chunk ∈ line, chunk ∈ chunks text) →
      ∀ d ∈ line.flatten, d ∈ text ∨ d = ' ' := by
    intro line hline d hd
    obtain ⟨chunk, hchunk, hd⟩ := List.mem_flatten.mp hd
    obtain ⟨e, he, rfl⟩ :=
      List.mem_map.mp (mem_softenBreaks_of_mem_chunks (hline chunk hchunk) hd)
    split
    · exact .inr rfl
    · exact .inl he
  unfold wrapLine at hl
  split at hl
  · split at hl
    · exact hblank (List.mem_singleton.mp hl)
    · exact htext text (fun d hd => .inl hd) (List.mem_singleton.mp hl)
  · unfold wrapAt at hl
    dsimp only at hl
    split at hl
    · exact hblank (List.mem_singleton.mp hl)
    · simp only [prependEach_same, List.map_map, List.mem_map, Function.comp_apply] at hl
      obtain ⟨line, hline, rfl⟩ := hl
      exact htext line.flatten (hchunks line fun chunk => mem_of_mem_fill hline) rfl

end SmallWeb
