/-
SmallWeb/Proofs/Frontmatter.lean

Where the frontmatter ends and what it says.

The scan runs from line to line and finds the closing fence or the end of the input,
and only there it is known whether there was a frontmatter at all.  Here both are told
by position: `Unfenced` says that there is none, and `ClosesAt` that the closing fence
is the line with a given index.  One of them always holds.

The entries are told without the scan as well.  A line between the fences that holds a
colon has a key and a value (`keyOf`, `valueOf`), and writing these entries one after the
other leaves each key at its first place with its last value.

Main result: `split_at_fences`.
-/
import SmallWeb.Frontmatter
import SmallWeb.Proofs.Dictionary
import SmallWeb.Proofs.Text.Lines

namespace SmallWeb

namespace Frontmatter

/-! ### Fences -/

/-- A fence: three hyphens, and nothing but blanks behind them. -/
def IsFence (l : List Char) : Prop :=
  ∃ blanks, l = ['-', '-', '-'] ++ blanks ∧ ∀ c ∈ blanks, Text.isBlank c = true

theorem isFence_iff {l : List Char} : isFence l = true ↔ IsFence l := by
  constructor
  · intro h
    unfold isFence at h
    split at h
    · rename_i blanks
      exact ⟨blanks, rfl, List.all_eq_true.mp h⟩
    · cases h
  · rintro ⟨blanks, rfl, hblanks⟩
    exact List.all_eq_true.mpr hblanks

instance (l : List Char) : Decidable (IsFence l) := decidable_of_iff _ isFence_iff

/-- No frontmatter stands at the beginning: the first line is no fence, or no later
line is one. -/
def Unfenced (lines : List (List Char)) : Prop :=
  (∀ l ∈ lines.head?, ¬ IsFence l) ∨ ∀ l ∈ lines.tail, ¬ IsFence l

/-- The lines strictly between the first one and the one with index `j`. -/
def between (lines : List (List Char)) (j : Nat) : List (List Char) := (lines.take j).drop 1

/-- The first line is a fence, and the next fence is the line with index `j`. -/
structure ClosesAt (lines : List (List Char)) (j : Nat) : Prop where
  opens : ∃ l, lines[0]? = some l ∧ IsFence l
  later : 0 < j
  closes : ∃ l, lines[j]? = some l ∧ IsFence l
  first : ∀ l ∈ between lines j, ¬ IsFence l

/-! ### The scan -/

theorem cutAtFence?_eq_none_iff {ls : List (List Char)} :
    cutAtFence? ls = none ↔ ∀ l ∈ ls, ¬ IsFence l := by
  induction ls with
  | nil => simp [cutAtFence?]
  | cons l ls ih =>
    rw [cutAtFence?, List.forall_mem_cons, ← ih, ← isFence_iff]
    by_cases hl : isFence l = true <;> simp [hl]

/-- **The scan stops at the first fence.** -/
theorem cutAtFence?_eq_some_iff {ls block rest : List (List Char)} :
    cutAtFence? ls = some (block, rest) ↔
      ∃ l, ls = block ++ l :: rest ∧ IsFence l ∧ ∀ l ∈ block, ¬ IsFence l := by
  induction ls generalizing block with
  | nil => simp [cutAtFence?]
  | cons l ls ih =>
    rw [cutAtFence?]
    by_cases hl : isFence l = true
    · rw [if_pos hl]
      constructor
      · intro h
        obtain ⟨rfl, rfl⟩ := Prod.mk.inj (Option.some.inj h)
        exact ⟨l, rfl, isFence_iff.mp hl, by simp⟩
      · rintro ⟨l', hls, -, hblock⟩
        cases block with
        | nil =>
          obtain ⟨rfl, rfl⟩ := List.cons.inj hls
          rfl
        | cons b block =>
          obtain ⟨rfl, -⟩ := List.cons.inj hls
          exact absurd (isFence_iff.mp hl) (hblock l List.mem_cons_self)
    · rw [if_neg hl]
      constructor
      · intro h
        obtain ⟨⟨inner, rest'⟩, hcut, h⟩ := Option.map_eq_some_iff.mp h
        obtain ⟨rfl, rfl⟩ := Prod.mk.inj h
        obtain ⟨l', rfl, hl', hinner⟩ := ih.mp hcut
        exact ⟨l', rfl, hl', List.forall_mem_cons.mpr ⟨mt isFence_iff.mpr hl, hinner⟩⟩
      · rintro ⟨l', hls, hl', hblock⟩
        cases block with
        | nil =>
          obtain ⟨rfl, -⟩ := List.cons.inj hls
          exact absurd (isFence_iff.mpr hl') hl
        | cons b block =>
          obtain ⟨rfl, rfl⟩ := List.cons.inj hls
          rw [ih.mpr ⟨l', rfl, hl', (List.forall_mem_cons.mp hblock).2⟩]
          rfl

theorem split_of_unfenced {lines : List (List Char)} (h : Unfenced lines) :
    split lines = ({}, lines) := by
  cases lines with
  | nil => rfl
  | cons first rest =>
    rw [split]
    by_cases hfirst : isFence first = true
    · have hrest : ∀ l ∈ rest, ¬ IsFence l :=
        h.resolve_left fun hhead => hhead first rfl (isFence_iff.mp hfirst)
      rw [if_pos hfirst, cutAtFence?_eq_none_iff.mpr hrest]
    · rw [if_neg hfirst]

/-- Behind a fence, what stands before the next one is the block. -/
theorem split_of_fences {fence fence' : List Char} {block rest : List (List Char)}
    (hfence : IsFence fence) (hblock : ∀ l ∈ block, ¬ IsFence l) (hfence' : IsFence fence') :
    split (fence :: (block ++ fence' :: rest)) = (.ofList (block.filterMap entry?), rest) := by
  have hcut : cutAtFence? (block ++ fence' :: rest) = some (block, rest) :=
    cutAtFence?_eq_some_iff.mpr ⟨fence', rfl, hfence', hblock⟩
  rw [split, if_pos (isFence_iff.mpr hfence), hcut]

/-! ### Positions -/

/-- **Lines with a frontmatter** are a fence, the lines between, a fence and the
rest. -/
theorem ClosesAt.lines_eq {lines : List (List Char)} {j : Nat} (h : ClosesAt lines j) :
    ∃ fence fence', lines = fence :: (between lines j ++ fence' :: lines.drop (j + 1)) ∧
      IsFence fence ∧ IsFence fence' := by
  obtain ⟨fence, hfence, hopens⟩ := h.opens
  obtain ⟨fence', hfence', hcloses⟩ := h.closes
  obtain ⟨i, rfl⟩ := Nat.exists_eq_succ_of_ne_zero (Nat.ne_of_gt h.later)
  cases lines with
  | nil => cases hfence
  | cons first tail =>
    obtain rfl : first = fence := Option.some.inj hfence
    have htail : tail[i]? = some fence' := hfence'
    obtain ⟨hi, rfl⟩ := List.getElem?_eq_some_iff.mp htail
    refine ⟨first, tail[i], ?_, hopens, hcloses⟩
    show first :: tail = first :: (tail.take i ++ tail[i] :: tail.drop (i + 1))
    rw [← List.drop_eq_getElem_cons, List.take_append_drop]

/-- There is a frontmatter or there is none. -/
theorem unfenced_or_closesAt (lines : List (List Char)) :
    Unfenced lines ∨ ∃ j, ClosesAt lines j := by
  cases lines with
  | nil => exact .inl (.inl (by simp))
  | cons first tail =>
    by_cases hfirst : IsFence first
    · cases hcut : cutAtFence? tail with
      | none => exact .inl (.inr (cutAtFence?_eq_none_iff.mp hcut))
      | some found =>
        obtain ⟨block, rest⟩ := found
        obtain ⟨fence, rfl, hfence, hblock⟩ := cutAtFence?_eq_some_iff.mp hcut
        have hbetween : between (first :: (block ++ fence :: rest)) (block.length + 1) = block :=
          List.take_left
        exact .inr ⟨block.length + 1,
          { opens := ⟨first, rfl, hfirst⟩
            later := Nat.succ_pos _
            closes := ⟨fence, by simp, hfence⟩
            first := by rwa [hbetween] }⟩
    · exact .inl (.inl (by simpa using hfirst))

/-! ### Entries -/

/-- The key on a line: what stands before the first colon. -/
def keyOf (l : List Char) : List Char := Text.trim (l.takeWhile (· != ':'))

/-- The value on a line: what stands behind the first colon. -/
def valueOf (l : List Char) : List Char := Text.trim (l.dropWhile (· != ':')).tail

/-- The lines between the fences that have a key and a value. -/
def entryLines (lines : List (List Char)) (j : Nat) : List (List Char) :=
  (between lines j).filter (':' ∈ ·)

theorem filterMap_entry? (block : List (List Char)) :
    block.filterMap entry? = (block.filter (':' ∈ ·)).map fun l => (keyOf l, valueOf l) := by
  induction block with
  | nil => rfl
  | cons l block ih =>
    have hentry : entry? l = if ':' ∈ l then some (keyOf l, valueOf l) else none := by
      rw [ entry?, Text.cut?_eq]
      split <;> rfl
    by_cases hl : ':' ∈ l
    · rw [if_pos hl] at hentry
      rw [List.filterMap_cons_some hentry, ih, List.filter_cons_of_pos (by simpa using hl),
        List.map_cons]
    · rw [if_neg hl] at hentry
      rw [List.filterMap_cons_none hentry, ih, List.filter_cons_of_neg (by simpa using hl)]

/-- **Lines split exactly at the fences.**  Where there is no frontmatter, there are no
entries and the document is all lines.  Otherwise the document is what follows the closing
fence, to the last line; the keys are those of the lines between the fences that have a
colon, in the order of their first lines, and each has the value of its last one. -/
theorem split_at_fences (lines : List (List Char)) :
    (Unfenced lines → split lines = ({}, lines)) ∧
    (∀ j, ClosesAt lines j →
      (split lines).2 = lines.drop (j + 1) ∧
      (split lines).1.keys = ((entryLines lines j).map keyOf).eraseDups ∧
      ∀ key, (split lines).1.get? key =
        ((entryLines lines j).reverse.find? (keyOf · == key)).map valueOf) ∧
    (Unfenced lines ∨ ∃ j, ClosesAt lines j) := by
  refine ⟨split_of_unfenced, fun j hj => ?_, unfenced_or_closesAt lines⟩
  have hsplit : split lines = (.ofList (((entryLines lines j).map fun l => (keyOf l, valueOf l))),
      lines.drop (j + 1)) := by
    obtain ⟨fence, fence', hlines, hopens, hcloses⟩ := hj.lines_eq
    rw [entryLines, ← filterMap_entry?, ← split_of_fences hopens hj.first hcloses, ← hlines]
  rw [hsplit]
  refine ⟨rfl, ?_, fun key => ?_⟩
  · rw [Dictionary.keys_ofList, List.map_map]
    rfl
  · rw [Dictionary.get?_ofList, Dictionary.lastValue?, ← List.map_reverse, List.find?_map,
      Option.map_map]
    rfl

/-- A key that is written twice, a value with a colon, a line without one, and a third
fence in the document. -/
def repeatedKey : List (List Char) :=
  ["--- \n".toList, "a: 1\n".toList, "b:x:y\n".toList, "c\n".toList, " a :2\n".toList,
    "---".toList, "d: 3\n".toList, "---\n".toList]

theorem split_at_fences_of_repeated_key :
    ∃ entries, split repeatedKey = (entries, ["d: 3\n".toList, "---\n".toList]) ∧
      entries.keys = [['a'], ['b']] ∧ entries.get? ['a'] = some ['2'] ∧
      entries.get? ['b'] = some ['x', ':', 'y'] := by
  obtain ⟨-, hcloses, -⟩ := split_at_fences repeatedKey
  obtain ⟨hrest, hkeys, hvalues⟩ := hcloses 5
    { opens := ⟨_, rfl, by decide⟩
      later := by decide
      closes := ⟨_, rfl, by decide⟩
      first := by decide }
  exact ⟨_, Prod.ext rfl hrest, hkeys, hvalues _, hvalues _⟩

end Frontmatter

end SmallWeb
