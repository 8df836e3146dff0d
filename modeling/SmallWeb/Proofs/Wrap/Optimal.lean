/-
SmallWeb/Proofs/Wrap/Optimal.lean

Wrapping takes the fewest lines.

Words with single spaces between them may be broken into lines in many ways: any cut of
the words into consecutive groups will do, as long as each group fits on a line or is a
single word (`IsBreaking`).  Filling is greedy, so it leaves no line on which the first
word of the next one would have had room (`Tight`).

These two facts suffice, and the algorithm plays no part in the rest: a tight breaking
stays ahead of every other one.  Line by line it has placed all the words that the other
has placed, since a line of the other that went further would hold a group that does not
fit (`IsBreaking.length_le_of_tight`).

On the side of the algorithm the chunks of such a text are the words and the spaces
between them, in turns.  Wherever a line ends, the space at the seam belongs to the end of
the line or to the beginning of the rest, and is dropped there (`exists_cut`).

Main result: `wrapping_takes_fewest_lines`.
-/
import SmallWeb.Proofs.Text.Flush
import SmallWeb.Proofs.Wrap.Fitting
import SmallWeb.Proofs.Wrap.Pieces

namespace SmallWeb

open Text (unwords isBlankText)

/-! ### Breaking words into lines -/

/-- Words broken into lines: consecutive groups, none of them empty, each of which fits or
is a single word. -/
structure IsBreaking (room : Nat) (words : List (List Char)) (groups : List (List (List Char))) :
    Prop where
  flatten_eq : groups.flatten = words
  nil_notMem : [] ∉ groups
  fits : ∀ g ∈ groups, g.length = 1 ∨ (unwords g).length ≤ room

/-- No line has room for the first word of the next one. -/
def Tight (room : Nat) (groups : List (List (List Char))) : Prop :=
  groups.IsChain fun g next => ∀ w ∈ next.head?, room < (unwords (g ++ [w])).length

namespace IsBreaking

variable {room : Nat} {words g : List (List Char)} {groups : List (List (List Char))}

theorem nil (room : Nat) : IsBreaking room [] [] :=
  ⟨rfl, List.not_mem_nil, fun _ hg => absurd hg List.not_mem_nil⟩

theorem eq_nil (h : IsBreaking room [] groups) : groups = [] := by
  cases groups with
  | nil => rfl
  | cons g groups =>
    have hflat := h.flatten_eq
    rw [List.flatten_cons, List.append_eq_nil_iff] at hflat
    exact absurd (hflat.1 ▸ List.mem_cons_self) h.nil_notMem

theorem cons (hne : g ≠ []) (hfits : g.length = 1 ∨ (unwords g).length ≤ room)
    (h : IsBreaking room words groups) : IsBreaking room (g ++ words) (g :: groups) where
  flatten_eq := by rw [List.flatten_cons, h.flatten_eq]
  nil_notMem := List.not_mem_cons_of_ne_of_not_mem (Ne.symm hne) h.nil_notMem
  fits := List.forall_mem_cons.mpr ⟨hfits, h.fits⟩

theorem tail (h : IsBreaking room words (g :: groups)) :
    IsBreaking room groups.flatten groups where
  flatten_eq := rfl
  nil_notMem := List.not_mem_of_not_mem_cons h.nil_notMem
  fits := (List.forall_mem_cons.mp h.fits).2

theorem head_ne_nil (h : IsBreaking room words (g :: groups)) : g ≠ [] :=
  fun hg => h.nil_notMem (hg ▸ List.mem_cons_self)

/-- A breaking begins with the first word. -/
theorem head?_eq (h : IsBreaking room words (g :: groups)) : g.head? = words.head? := by
  rw [← h.flatten_eq, List.flatten_cons, List.head?_append_of_ne_nil g h.head_ne_nil]

/-- The first line of a tight breaking and the word behind it do not fit. -/
theorem lt_of_tight (h : IsBreaking room words (g :: groups)) (htight : Tight room (g :: groups))
    {w : List Char} (hw : w ∈ groups.flatten.head?) : room < (unwords (g ++ [w])).length := by
  cases groups with
  | nil => exact absurd hw (by simp)
  | cons next groups => exact htight.rel w (h.tail.head?_eq ▸ hw)

end IsBreaking

/-- A part of a row of words is no longer than the row. -/
theorem length_unwords_le_of_infix {ws vs : List (List Char)} (h : ws <:+: vs) :
    (unwords ws).length ≤ (unwords vs).length := by
  have happend : ∀ xs ys : List (List Char), (unwords xs).length ≤ (unwords (xs ++ ys)).length ∧
      (unwords ys).length ≤ (unwords (xs ++ ys)).length := by
    intro xs ys
    by_cases hxs : xs = []
    · simp [hxs]
    · by_cases hys : ys = []
      · simp [hys]
      · rw [Text.unwords_append hxs hys, List.length_append, List.length_cons]
        omega
  obtain ⟨before, after, rfl⟩ := h
  exact Nat.le_trans (happend before ws).2 (happend (before ++ ws) after).1

/-- **A tight breaking stays ahead**: of words that are left, or of fewer, it makes no more
lines than any other breaking. -/
theorem IsBreaking.length_le_of_tight {room : Nat} {ws vs : List (List Char)}
    {groups others : List (List (List Char))} (hgroups : IsBreaking room ws groups)
    (htight : Tight room groups) (hothers : IsBreaking room vs others) (hahead : ws <:+ vs) :
    groups.length ≤ others.length := by
  induction others generalizing groups ws vs with
  | nil =>
    obtain rfl : [] = vs := hothers.flatten_eq
    obtain rfl : ws = [] := List.suffix_nil.mp hahead
    rw [hgroups.eq_nil]
  | cons h others ih =>
    cases groups with
    | nil => exact Nat.zero_le _
    | cons g groups =>
      refine Nat.succ_le_succ (ih hgroups.tail htight.tail hothers.tail ?_)
      have hws : g ++ groups.flatten <:+ h ++ others.flatten := by
        rw [← List.flatten_cons, ← List.flatten_cons, hgroups.flatten_eq, hothers.flatten_eq]
        exact hahead
      have hleft : groups.flatten <:+ h ++ others.flatten := (List.suffix_append g _).trans hws
      rcases List.suffix_or_suffix_of_suffix hleft (List.suffix_append h _) with hsuffix | hsuffix
      · exact hsuffix
      · obtain ⟨behind, hbehind⟩ := hsuffix
        cases behind with
        | nil => exact hbehind ▸ List.suffix_rfl
        | cons w behind =>
          -- The other has room for `g` and the word behind it, which is against tightness.
          rw [← hbehind, ← List.append_assoc] at hws
          have hinfix : g ++ [w] <:+: h := by
            obtain ⟨before, hbefore⟩ := hws
            rw [← List.append_assoc] at hbefore
            have hh := List.append_cancel_right hbefore
            exact ⟨before, behind, by rw [← hh]; simp⟩
          have hlt : room < (unwords (g ++ [w])).length :=
            hgroups.lt_of_tight htight (by rw [← hbehind]; rfl)
          have hle := length_unwords_le_of_infix hinfix
          have hlength := hinfix.length_le
          rw [List.length_append, List.length_singleton] at hlength
          have hpos := List.length_pos_iff.mpr hgroups.head_ne_nil
          rcases hothers.fits h List.mem_cons_self with hone | hfits <;> omega

/-! ### Rows of words -/

/-- The chunks of words with single spaces between them. -/
def row (ws : List (List Char)) : List (List Char) := ws.intersperse [' ']

theorem row_cons_of_ne_nil (w : List Char) {ws : List (List Char)} (hws : ws ≠ []) :
    row (w :: ws) = w :: [' '] :: row ws := by
  obtain ⟨v, ws, rfl⟩ := List.exists_cons_of_ne_nil hws
  rfl

theorem row_eq_nil_iff {ws : List (List Char)} : row ws = [] ↔ ws = [] := by
  cases ws with
  | nil => exact Iff.rfl
  | cons w ws => cases ws <;> simp [row]

theorem flatten_row (ws : List (List Char)) : (row ws).flatten = unwords ws := rfl

/-- A space between two texts is a chunk of its own, unless there is a break beside it. -/
theorem chunks_append_space {a b : List Char} (ha : ∀ c ∈ a.getLast?, ¬ Text.isBreak c = true)
    (hb : ∀ c ∈ b.head?, ¬ Text.isBreak c = true) :
    chunks (a ++ ' ' :: b) = chunks a ++ [' '] :: chunks b := by
  have hsoft : ∀ c, ¬ Text.isBreak c = true →
      ((if Text.isBreak c then ' ' else c) == ' ') = false := by
    intro c hc
    rw [if_neg hc, beq_eq_false_iff_ne]
    rintro rfl
    exact hc (by decide)
  have hlast : ∀ x ∈ (softenBreaks a).getLast?, (x == ' ') = false := by
    intro x hx
    rw [softenBreaks, List.getLast?_map] at hx
    obtain ⟨c, hc, rfl⟩ := Option.map_eq_some_iff.mp hx
    exact hsoft c (ha c hc)
  have hhead : ∀ y ∈ (softenBreaks b).head?, (y == ' ') = false := by
    intro y hy
    rw [softenBreaks, List.head?_map] at hy
    obtain ⟨c, hc, rfl⟩ := Option.map_eq_some_iff.mp hy
    exact hsoft c (hb c hc)
  have hspace : softenBreaks (a ++ ' ' :: b) = softenBreaks a ++ ' ' :: softenBreaks b := by
    rw [softenBreaks, List.map_append, List.map_cons]
    rfl
  rw [chunks, hspace, List.splitBy_append_cons, ← List.singleton_append, List.splitBy_append]
  · rfl
  · intro x hx y hy
    obtain rfl : ' ' = x := Option.some.inj hx
    rw [hhead y hy]
    rfl
  · intro x hx
    rw [hlast x hx]
    rfl

/-- The chunks of a row are its words and the spaces between them. -/
theorem chunks_unwords {ws : List (List Char)} (hws : ∀ w ∈ ws, IsWord w) :
    chunks (unwords ws) = row ws := by
  induction ws with
  | nil => rfl
  | cons w ws ih =>
    obtain ⟨hw, hvs⟩ := List.forall_mem_cons.mp hws
    cases ws with
    | nil => rw [Text.unwords_singleton, chunks_of_isWord hw]; rfl
    | cons v ws =>
      have hhead : ∀ c ∈ (unwords (v :: ws)).head?, ¬ Text.isBreak c = true := by
        obtain ⟨hv, -⟩ := List.forall_mem_cons.mp hvs
        cases v with
        | nil => exact absurd rfl hv.1
        | cons d v =>
          rw [Text.unwords_char_cons]
          exact fun c hc => Option.some.inj hc ▸ hv.2 d List.mem_cons_self
      rw [Text.unwords_cons_cons, chunks_append_space (fun c hc => hw.2 c (List.mem_of_getLast? hc))
        hhead, chunks_of_isWord hw, ih hvs, row_cons_of_ne_nil w (List.cons_ne_nil v ws)]
      rfl

/-! ### Lines of a row -/

theorem lt_of_takeFitting (room : Nat) (cs : List (List Char)) :
    ∀ c ∈ (takeFitting room cs).2.head?,
      room < (takeFitting room cs).1.flatten.length + c.length := by
  induction cs generalizing room with
  | nil => exact fun c hc => absurd hc (by simp [takeFitting])
  | cons d cs ih =>
    unfold takeFitting
    split
    · intro c hc
      have hlt := ih (room - d.length) c hc
      rw [List.flatten_cons, List.length_append]
      omega
    · rename_i hlong
      intro c hc
      obtain rfl : d = c := Option.some.inj hc
      rw [List.flatten_nil, List.length_nil]
      omega

/-- **Filling is greedy**: the next chunk would not fit. -/
theorem lt_of_nextLine (room : Nat) (cs : List (List Char)) :
    ∀ c ∈ (nextLine room cs).2.head?, room < (nextLine room cs).1.flatten.length + c.length := by
  have hlt := lt_of_takeFitting room cs
  unfold nextLine
  split
  · rename_i d rest hsplit
    rw [hsplit] at hlt
    have hlong := hlt d rfl
    rw [List.flatten_nil, List.length_nil] at hlong
    intro c _
    rw [List.flatten_singleton]
    omega
  · exact hlt

theorem nextLine_ne_nil (room : Nat) (c : List Char) (cs : List (List Char)) :
    (nextLine room (c :: cs)).1 ≠ [] := by
  intro hnil
  have hlt := nextLine_length_lt room c cs
  have happend := nextLine_append room (c :: cs)
  rw [hnil, List.nil_append] at happend
  rw [happend] at hlt
  exact Nat.lt_irrefl _ hlt

theorem dropBlankLast_cons (c : List Char) {cs : List (List Char)} (hcs : cs ≠ []) :
    dropBlankLast (c :: cs) = c :: dropBlankLast cs := by
  obtain ⟨before, d, rfl⟩ := (cs.eq_nil_or_concat').resolve_left hcs
  unfold dropBlankLast
  rw [← List.cons_append, List.getLast?_concat, List.getLast?_concat]
  dsimp only
  split
  · rw [List.dropLast_concat, List.dropLast_concat]
  · rfl

/-- Where a row may be cut: before its first word, behind the word, behind the space there, or
farther on. -/
theorem cut_row {w : List Char} {vs line rest : List (List Char)}
    (hcut : line ++ rest = row (w :: vs)) :
    line = [] ∨ (line = [w] ∧ vs = [] ∧ rest = []) ∨
      (line = [w] ∧ vs ≠ [] ∧ rest = [' '] :: row vs) ∨
      ∃ behind, line = w :: [' '] :: behind ∧ vs ≠ [] ∧ behind ++ rest = row vs := by
  cases line with
  | nil => exact .inl rfl
  | cons c line =>
    cases vs with
    | nil =>
      obtain ⟨rfl, hnil⟩ : c = w ∧ line ++ rest = [] := List.cons_eq_cons.mp hcut
      obtain ⟨rfl, rfl⟩ := List.append_eq_nil_iff.mp hnil
      exact .inr (.inl ⟨rfl, rfl, rfl⟩)
    | cons v vs =>
      have hne : v :: vs ≠ [] := List.cons_ne_nil v vs
      rw [row_cons_of_ne_nil w hne] at hcut
      obtain ⟨rfl, hseam⟩ : c = w ∧ line ++ rest = [' '] :: row (v :: vs) :=
        List.cons_eq_cons.mp hcut
      cases line with
      | nil => exact .inr (.inr (.inl ⟨rfl, hne, hseam⟩))
      | cons d line =>
        obtain ⟨rfl, htail⟩ : d = [' '] ∧ line ++ rest = row (v :: vs) :=
          List.cons_eq_cons.mp hseam
        exact .inr (.inr (.inr ⟨line, rfl, hne, htail⟩))

/-- **Wherever a row is cut**, the space at the seam is dropped, and rows are left.  With the
next chunk the line would not reach beyond the next word. -/
theorem exists_cut {ws line rest : List (List Char)} (hws : ∀ w ∈ ws, ¬ isBlankText w = true)
    (hcut : line ++ rest = row ws) :
    ∃ g later, g ++ later = ws ∧ dropBlankLast line = row g ∧ dropBlankHead rest = row later ∧
      (g = [] ↔ line = []) ∧
      ∀ w ∈ later.head?, ∀ c ∈ rest.head?, line ++ [c] <+: row (g ++ [w]) := by
  induction ws generalizing line with
  | nil =>
    obtain ⟨rfl, rfl⟩ := List.append_eq_nil_iff.mp hcut
    exact ⟨[], [], rfl, rfl, rfl, Iff.rfl, fun w hw => absurd hw (by simp)⟩
  | cons w vs ih =>
    obtain ⟨hw, hvs⟩ := List.forall_mem_cons.mp hws
    rcases cut_row hcut with rfl | ⟨rfl, rfl, rfl⟩ | ⟨rfl, hne, rfl⟩ | ⟨behind, rfl, hne, htail⟩
    · -- The row begins with content, so that nothing of it is dropped.
      obtain ⟨tail, htail⟩ : ∃ tail, row (w :: vs) = w :: tail := by cases vs <;> exact ⟨_, rfl⟩
      rw [List.nil_append, htail] at hcut
      refine ⟨[], w :: vs, rfl, rfl, ?_, Iff.rfl, ?_⟩
      · rw [hcut, htail, dropBlankHead, if_neg hw]
      · intro v hv c hc
        rw [hcut] at hc
        obtain rfl : w = v := Option.some.inj hv
        obtain rfl : w = c := Option.some.inj hc
        exact List.prefix_rfl
    · exact ⟨[w], [], rfl, dropBlankLast_singleton hw, rfl, by simp,
        fun v hv => absurd hv (by simp)⟩
    · -- The space begins the rest.
      refine ⟨[w], vs, rfl, dropBlankLast_singleton hw, ?_, by simp, ?_⟩
      · rw [dropBlankHead, if_pos (by decide)]
      · intro v _ c hc
        obtain rfl : [' '] = c := Option.some.inj hc
        exact ⟨[v], rfl⟩
    · obtain ⟨g, later, hwords, hline, hrest, hnil, hnext⟩ := ih hvs htail
      refine ⟨w :: g, later, congrArg (w :: ·) hwords, ?_, hrest, by simp, ?_⟩
      · rw [dropBlankLast_cons w (List.cons_ne_nil _ _)]
        by_cases hg : g = []
        · -- The space ends the line.
          rw [hnil.mp hg, hg]
          rfl
        · rw [dropBlankLast_cons _ (mt hnil.mpr hg), hline, row_cons_of_ne_nil w hg]
      · intro v hv c hc
        have hrow : row (w :: (g ++ [v])) = w :: [' '] :: row (g ++ [v]) :=
          row_cons_of_ne_nil w (by simp)
        rw [List.cons_append, List.cons_append, List.cons_append, hrow]
        exact List.cons_prefix_cons.mpr ⟨rfl, List.cons_prefix_cons.mpr ⟨rfl, hnext v hv c hc⟩⟩

/-- A line of the row fits, or it is a single word. -/
theorem fits_of_fits_row {room : Nat} {g : List (List Char)} (h : Fits room (row g)) :
    g.length = 1 ∨ (unwords g).length ≤ room := by
  rcases h with hle | ⟨c, hc, -⟩
  · exact .inr hle
  · left
    rcases g with - | ⟨w, - | ⟨v, g⟩⟩
    · exact absurd hc (by simp [row])
    · rfl
    · exact absurd hc (by simp [row])

/-- The first line of a row, what is left behind it, and that it could not hold more. -/
theorem exists_nextLine (room : Nat) {ws cs : List (List Char)}
    (hws : ∀ w ∈ ws, ¬ isBlankText w = true) (hcs : cs = row ws) (hne : cs ≠ []) :
    ∃ g later, g ++ later = ws ∧ g ≠ [] ∧ dropBlankLast (nextLine room cs).1 = row g ∧
      dropBlankHead (nextLine room cs).2 = row later ∧
      (g.length = 1 ∨ (unwords g).length ≤ room) ∧
      ∀ w ∈ later.head?, room < (unwords (g ++ [w])).length := by
  have happend := nextLine_append room cs
  obtain ⟨g, later, hwords, hline, hrest, hnil, hnext⟩ := exists_cut hws (happend.trans hcs)
  have hg : g ≠ [] := by
    obtain ⟨c, cs, rfl⟩ := List.exists_cons_of_ne_nil hne
    exact fun h => nextLine_ne_nil room c cs (hnil.mp h)
  refine ⟨g, later, hwords, hg, hline, hrest, ?_, ?_⟩
  · refine fits_of_fits_row (hline ▸ fits_dropBlankLast (nextLine_length_le room cs) ?_)
    rw [hline]
    exact mt row_eq_nil_iff.mp hg
  · intro w hw
    obtain ⟨c, hc⟩ : ∃ c, c ∈ (nextLine room cs).2.head? := by
      cases hleft : (nextLine room cs).2 with
      | nil =>
        rw [hleft] at hrest
        rw [row_eq_nil_iff.mp hrest.symm] at hw
        exact absurd hw (by simp)
      | cons c rest => exact ⟨c, rfl⟩
    have hlt := lt_of_nextLine room cs c hc
    have hle := (hnext w hw c hc).sublist.flatten.length_le
    rw [List.flatten_append, List.length_append, List.flatten_singleton, flatten_row] at hle
    omega

/-- **Filling a row of words** breaks it tightly. -/
theorem exists_groups (room : Nat) (started : Bool) (cs : List (List Char)) :
    ∀ ws : List (List Char), (∀ w ∈ ws, ¬ isBlankText w = true) →
      (bif started then dropBlankHead cs else cs) = row ws →
      ∃ groups, fill room room started cs = groups.map row ∧ IsBreaking room ws groups ∧
        Tight room groups := by
  fun_induction fill room room started cs with
  | case1 started cs hnil =>
    intro ws _ hcs
    obtain rfl : ws = [] := row_eq_nil_iff.mp (hcs.symm.trans hnil)
    exact ⟨[], rfl, IsBreaking.nil room, List.isChain_nil⟩
  | case2 started cs d ds hds next hnone ih =>
    -- A line of words is not dropped.
    intro ws hws hcs
    obtain ⟨g, later, -, hg, hline, -⟩ := exists_nextLine (bif started then room else room) hws
      (hds.symm.trans hcs) (List.cons_ne_nil d ds)
    exact absurd (row_eq_nil_iff.mp (hline.symm.trans hnone)) hg
  | case3 started cs d ds hds next hne ih =>
    intro ws hws hcs
    obtain ⟨g, later, hwords, hg, hline, hrest, hfits, htight⟩ := exists_nextLine
      (bif started then room else room) hws (hds.symm.trans hcs) (List.cons_ne_nil d ds)
    rw [Bool.cond_self] at hfits htight
    have hlater : ∀ w ∈ later, ¬ isBlankText w = true :=
      fun w hw => hws w (hwords ▸ List.mem_append_right g hw)
    obtain ⟨groups, hfill, hbreaking, hchain⟩ := ih later hlater hrest
    refine ⟨g :: groups, ?_, hwords ▸ hbreaking.cons hg hfits, List.isChain_cons.mpr ⟨?_, hchain⟩⟩
    · rw [hfill, List.map_cons]
      exact congrArg (· :: groups.map row) hline
    · intro next hnext w hw
      cases groups with
      | nil => exact absurd hnext (by simp)
      | cons other groups =>
        obtain rfl : other = next := Option.some.inj hnext
        exact htight w (hbreaking.head?_eq ▸ hw)

/-! ### Lines with a prefix -/

/-- The room for words behind a prefix, which leaves some in any case. -/
def roomBehind (width : Nat) (lead : List Char) : Nat :=
  max width (lead.length + 1) - lead.length

/-- A text without blanks is a word. -/
theorem isWord_of_not_blank {w : List Char} (hne : w ≠ [])
    (hw : ∀ c ∈ w, ¬ Text.isBlank c = true) : IsWord w := by
  refine ⟨fun hblank => ?_, fun c hc hbreak => hw c hc (isBlank_of_isBreak hbreak)⟩
  obtain ⟨c, w, rfl⟩ := List.exists_cons_of_ne_nil hne
  exact hw c List.mem_cons_self (List.all_eq_true.mp hblank c List.mem_cons_self)

/-- Nothing is trimmed behind words. -/
theorem trimEnd_append_unwords (lead : List Char) {g : List (List Char)} (hg : g ≠ [])
    (hwords : ∀ w ∈ g, w ≠ [] ∧ ∀ c ∈ w, ¬ Text.isBlank c = true) :
    Text.trimEnd (lead ++ unwords g) = lead ++ unwords g := by
  obtain ⟨before, w, rfl⟩ := (g.eq_nil_or_concat').resolve_left hg
  obtain ⟨hne, hw⟩ := hwords w (by simp)
  have hrow : unwords (before ++ [w]) ≠ [] :=
    mt (Text.unwords_eq_nil_iff fun v hv => (hwords v hv).1).mp (by simp)
  have hflush : Text.FlushRight (unwords (before ++ [w])) :=
    (Text.flushRight_unwords hne before).mpr fun c hc => hw c (List.mem_of_getLast? hc)
  refine Text.trimEnd_eq_self_iff.mpr ?_
  rwa [Text.FlushRight, List.getLast?_append_of_ne_nil lead hrow]

/-- **Wrapping takes the fewest lines.**  Words with single spaces between them, wrapped at a
positive width, are broken into groups that fit or are single words, one on each line.  No
line could have taken the first word of the next one, and no way of breaking the words makes
fewer groups. -/
theorem wrapping_takes_fewest_lines {width : Int} (hwidth : 0 < width) (lead : List Char)
    {ws : List (List Char)} (hne : ws ≠ [])
    (hws : ∀ w ∈ ws, w ≠ [] ∧ ∀ c ∈ w, ¬ Text.isBlank c = true) :
    ∃ groups, wrapLines (unwords ws) width lead lead = .ok (groups.map (lead ++ unwords ·)) ∧
      IsBreaking (roomBehind width.toNat lead) ws groups ∧
      Tight (roomBehind width.toNat lead) groups ∧
      ∀ others, IsBreaking (roomBehind width.toNat lead) ws others →
        groups.length ≤ others.length := by
  have hword : ∀ w ∈ ws, IsWord w := fun w hw => isWord_of_not_blank (hws w hw).1 (hws w hw).2
  obtain ⟨groups, hfill, hbreaking, htight⟩ := exists_groups (roomBehind width.toNat lead) false
    (chunks (unwords ws)) ws (fun w hw => (hword w hw).1) (chunks_unwords hword)
  refine ⟨groups, ?_, hbreaking, htight, fun others hothers =>
    hbreaking.length_le_of_tight htight hothers List.suffix_rfl⟩
  have hroom : wrapLimit width.toNat lead lead - lead.length = roomBehind width.toNat lead := by
    rw [wrapLimit, Nat.max_self, roomBehind]
  have hgroup : ∀ g ∈ groups, Text.trimEnd (lead ++ (row g).flatten) = lead ++ unwords g := by
    intro g hg
    refine trimEnd_append_unwords lead (ne_of_mem_of_not_mem hg hbreaking.nil_notMem) ?_
    exact fun w hw => hws w (hbreaking.flatten_eq ▸ List.mem_flatten.mpr ⟨g, hg, hw⟩)
  rw [wrapLines, if_neg (by omega), wrapLine, if_neg (by omega), wrapAt_eq, filled, hroom, hfill]
  cases groups with
  | nil => exact absurd hbreaking.flatten_eq.symm hne
  | cons g groups =>
    rw [← List.map_congr_left hgroup, List.map_cons]
    dsimp only
    rw [prependEach_same, ← List.map_cons, List.map_map, List.map_map, List.map_map]
    rfl

/-- A word that is longer than the room keeps its neighbours off its line. -/
theorem wrapping_takes_fewest_lines_around_long_word :
    wrapLines "a b longword c d".toList 5 ['>', ' '] ['>', ' '] =
        .ok ["> a b".toList, "> longword".toList, "> c d".toList] ∧
      ∀ others, IsBreaking 3 [['a'], ['b'], "longword".toList, ['c'], ['d']] others →
        3 ≤ others.length := by
  have hlines : wrapLine 5 ['>', ' '] ['>', ' '] "a b longword c d".toList =
      ["> a b".toList, "> longword".toList, "> c d".toList] := by decide +kernel
  have hwidth : (0 : Int) < 5 := by decide
  have hletters : ([['a'], ['b'], "longword".toList, ['c'], ['d']].all fun w =>
      !w.isEmpty && w.all fun c => !Text.isBlank c) = true := by decide
  have hwords : ∀ w ∈ [['a'], ['b'], "longword".toList, ['c'], ['d']],
      w ≠ [] ∧ ∀ c ∈ w, ¬ Text.isBlank c = true := by
    intro w hw
    obtain ⟨hne, hall⟩ := Bool.and_eq_true_iff.mp (List.all_eq_true.mp hletters w hw)
    exact ⟨by simpa using hne, by simpa using hall⟩
  obtain ⟨groups, hgroups, -, -, hfewest⟩ :=
    wrapping_takes_fewest_lines hwidth ['>', ' '] (List.cons_ne_nil _ _) hwords
  have hlength := congrArg List.length (hlines.symm.trans (Except.ok.inj hgroups))
  rw [List.length_map] at hlength
  exact ⟨congrArg Except.ok hlines, fun others hothers =>
    Nat.le_trans (Nat.le_of_eq hlength) (hfewest others hothers)⟩

end SmallWeb
