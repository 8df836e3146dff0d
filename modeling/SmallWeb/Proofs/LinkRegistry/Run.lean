/-
SmallWeb/Proofs/LinkRegistry/Run.lean

The numbers that a run of calls gives.

The number that a call gives is in the index after it, and no later call changes it, so
it can be read off the index as it is when the run is over (`forall₂_numbers`).  Index and
entries are in step then: the number is the one under which the target is listed, and
that is its place among the targets (`numbers_eq`).  The targets are distinct, so a number
belongs to one target and a target has one number.

The list of links has a line for each entry behind its heading, and such a line is read by
a function of its own (`readLinkLine?`).  The number ends at the first closing bracket, since
digits are no brackets; what a target holds does not matter, unless it breaks the line.

Main result: `numbers_are_final_and_unique`.
-/
import Mathlib.Data.List.Forall2
import SmallWeb.Proofs.LinkRegistry
import SmallWeb.Proofs.Text.Lines
import SmallWeb.Proofs.Text.Number

namespace SmallWeb.LinkRegistry

/-! ### Numbers -/

/-- The numbers that the calls of a run give. -/
def numbers (r : LinkRegistry) : List (List Char) → List Nat
  | [] => []
  | href :: hrefs => (r.register href).1 :: (r.register href).2.numbers hrefs

/-- **The numbers of a run** are in the index when it is over. -/
theorem forall₂_numbers (r : LinkRegistry) (hrefs : List (List Char)) :
    List.Forall₂ (fun href n => (r.registerAll hrefs).index.get? href = some n)
      hrefs (r.numbers hrefs) := by
  induction hrefs generalizing r with
  | nil => exact .nil
  | cons href hrefs ih =>
    -- What the first call has put into the index, the rest of the run leaves there.
    have hfirst := get?_registerAll_of_eq_some (r.get?_register_self href) hrefs
    exact .cons hfirst (ih (r.register href).2)

/-- The number that a call gives is the one in the entries, then and later. -/
theorem InStep.mem_entries_iff {r : LinkRegistry} (h : r.InStep) {href : List Char} {n : Nat}
    (hnumber : r.index.get? href = some n) (m : Nat) : (m, href) ∈ r.entries ↔ m = n := by
  rw [← h.indexed, hnumber, Option.some.injEq, eq_comm]

/-- The numbers of a run are the places of its targets. -/
theorem numbers_eq (hrefs : List (List Char)) :
    numbers {} hrefs = hrefs.map fun href => hrefs.eraseDups.idxOf href + 1 := by
  have hplaces : List.Forall₂ (fun href n => hrefs.eraseDups.idxOf href + 1 = n)
      hrefs (numbers {} hrefs) := by
    refine (forall₂_numbers {} hrefs).imp fun href n hnumber => ?_
    have hplace := ((inStep_ofCalls hrefs).get?_eq_some_iff.mp hnumber).2
    rw [hplace, targets_ofCalls]
  rw [← List.forall₂_map_left_iff, List.forall₂_eq_eq_eq] at hplaces
  exact hplaces.symm

/-- Calls give one number exactly if they are for one target. -/
theorem getElem?_numbers_eq_iff (hrefs : List (List Char)) (i j : Nat) :
    (numbers {} hrefs)[i]? = (numbers {} hrefs)[j]? ↔ hrefs[i]? = hrefs[j]? := by
  rw [numbers_eq, List.getElem?_map, List.getElem?_map]
  constructor
  · intro h
    rcases hi : hrefs[i]? with - | href
    · rw [hi] at h
      exact (Option.map_eq_none_iff.mp h.symm).symm
    · rw [hi, Option.map_some] at h
      obtain ⟨href', hj, hsame⟩ := Option.map_eq_some_iff.mp h.symm
      have hmem : href ∈ hrefs.eraseDups := List.mem_eraseDups.mpr (List.mem_of_getElem? hi)
      have hindex : hrefs.eraseDups.idxOf href = hrefs.eraseDups.idxOf href' := by omega
      rw [hj, (List.idxOf_inj hmem).mp hindex]
  · intro h
    rw [h]

theorem InStep.contains_iff {r : LinkRegistry} (h : r.InStep) (href : List Char) :
    r.contains href = true ↔ ∃ n, (n, href) ∈ r.entries := by
  simp only [contains, Option.isSome_iff_exists, h.indexed]

theorem size_ofCalls (hrefs : List (List Char)) :
    (ofCalls hrefs).size = hrefs.eraseDups.length := by
  rw [← targets_ofCalls, targets, List.length_map, size]

/-! ### Reading the list of links -/

/-- Reads a line of the list of links. -/
def readLinkLine? : List Char → Option (Nat × List Char)
  | '[' :: line =>
    match Text.cut? ']' line with
    | some (number, ' ' :: href) => (Text.readDigits? number).map fun n => (n, href)
    | _ => none
  | _ => none

/-- Reads a list of links.  The empty text is the list without links. -/
def readFootnotes? (s : List Char) : Option (List (Nat × List Char)) :=
  if s = [] then some []
  else match Text.lines s with
    | heading :: lines => if heading = "Links:".toList then lines.mapM readLinkLine? else none
    | [] => none

theorem readLinkLine?_entryLine (n : Nat) (href : List Char) :
    readLinkLine? (entryLine n href) = some (n, href) := by
  have hdigits : ']' ∉ Text.ofNat n := by
    intro hmem
    rcases Text.isDigit_of_mem_ofInt (n := n) hmem with h | h <;> exact absurd h (by decide)
  have hline : entryLine n href = '[' :: (Text.ofNat n ++ ']' :: ' ' :: href) := by
    simp [entryLine]
  rw [hline, readLinkLine?, Text.cut?_append_cons hdigits]
  simp only [Text.readDigits?_ofNat, Option.map_some]

/-- **Written entries are read back.** -/
theorem mapM_readLinkLine? (entries : List (Nat × List Char)) :
    (entries.map fun (n, href) => entryLine n href).mapM readLinkLine? = some entries := by
  induction entries with
  | nil => rfl
  | cons e entries ih =>
    rw [List.map_cons, List.mapM_cons, readLinkLine?_entryLine, ih]
    rfl

theorem footnotes_of_nil {r : LinkRegistry} (h : r.entries = []) : r.footnotes = [] := by
  rw [footnotes, footnoteLines, h]
  rfl

/-- The list of links has the heading and a line for each entry. -/
theorem lines_footnotes {r : LinkRegistry} (hne : r.entries ≠ [])
    (hbreak : ∀ href ∈ r.targets, '\n' ∉ href) :
    Text.lines r.footnotes =
      "Links:".toList :: r.entries.map fun (n, href) => entryLine n href := by
  have hempty : ¬ r.entries.isEmpty = true := by simpa using hne
  rw [footnotes, footnoteLines, if_neg hempty]
  refine Text.lines_unlines_of_notMem (List.cons_ne_nil _ _) (List.forall_mem_cons.mpr ⟨?_, ?_⟩)
  · decide
  · intro l hl
    obtain ⟨⟨n, href⟩, hentry, rfl⟩ := List.mem_map.mp hl
    have hhref : href ∈ r.targets := List.mem_map_of_mem hentry
    have hnumber : '\n' ∉ Text.ofNat n := Text.notMem_newline_ofInt n
    simp [entryLine, hnumber, hbreak href hhref]

/-- **The entries are read back from the list of links.** -/
theorem readFootnotes?_footnotes {r : LinkRegistry} (hbreak : ∀ href ∈ r.targets, '\n' ∉ href) :
    readFootnotes? r.footnotes = some r.entries := by
  by_cases hnone : r.entries = []
  · rw [footnotes_of_nil hnone, readFootnotes?, if_pos rfl, hnone]
  · have hlines := lines_footnotes hnone hbreak
    have hne : r.footnotes ≠ [] := by
      intro h
      rw [h] at hlines
      exact absurd (List.cons.inj hlines).1 (by decide)
    rw [readFootnotes?, if_neg hne, hlines]
    exact (if_pos rfl).trans (mapM_readLinkLine? r.entries)

/-! ### Any run -/

/-- **Numbers are final and belong to one target each.**  After any sequence of calls on an
empty registry the index and the entries are in step: a target has a number in the index
exactly if it is listed under that number.  The entries are the distinct targets, in the
order in which they were registered first, counted from one on, and the size is their
number.  Every call has given the number that its target has in the entries, so two calls
have given the same number exactly if they were for the same target.  Whatever is
registered after that, the entries stay where they are, and the next call, too, gives the
number that its target has in the entries from then on.  The registry contains the targets
of its entries and no others.  The list of links is empty if there are no entries;
otherwise it has one line more than there are entries.  In either case the entries can be
read back from it, unless a target breaks a line. -/
theorem numbers_are_final_and_unique (hrefs : List (List Char)) :
    (∀ href n, (ofCalls hrefs).index.get? href = some n ↔
        (n, href) ∈ (ofCalls hrefs).entries) ∧
      (ofCalls hrefs).entries = numbered hrefs.eraseDups ∧
      (ofCalls hrefs).size = hrefs.eraseDups.length ∧
      List.Forall₂ (fun href n => ∀ m, (m, href) ∈ (ofCalls hrefs).entries ↔ m = n)
        hrefs (numbers {} hrefs) ∧
      (∀ i j : Nat, (numbers {} hrefs)[i]? = (numbers {} hrefs)[j]? ↔ hrefs[i]? = hrefs[j]?) ∧
      (∀ more, (ofCalls hrefs).entries <+: ((ofCalls hrefs).registerAll more).entries) ∧
      (∀ href n, (n, href) ∈ ((ofCalls hrefs).register href).2.entries ↔
        n = ((ofCalls hrefs).register href).1) ∧
      (∀ href, (ofCalls hrefs).contains href = true ↔
        ∃ n, (n, href) ∈ (ofCalls hrefs).entries) ∧
      ((ofCalls hrefs).size = 0 → (ofCalls hrefs).footnotes = []) ∧
      ((∀ href ∈ hrefs, '\n' ∉ href) →
        ((ofCalls hrefs).size ≠ 0 →
          (Text.lines (ofCalls hrefs).footnotes).length = (ofCalls hrefs).size + 1) ∧
        readFootnotes? (ofCalls hrefs).footnotes = some (ofCalls hrefs).entries) := by
  have hsteps := inStep_ofCalls hrefs
  refine ⟨hsteps.indexed, entries_ofCalls hrefs, size_ofCalls hrefs, ?_,
    getElem?_numbers_eq_iff hrefs, entries_prefix_registerAll _, ?_, hsteps.contains_iff, ?_, ?_⟩
  · exact (forall₂_numbers {} hrefs).imp fun _ _ hnumber => hsteps.mem_entries_iff hnumber
  · exact fun href => (hsteps.register href).mem_entries_iff (get?_register_self _ href)
  · exact fun hnone => footnotes_of_nil (List.length_eq_zero_iff.mp hnone)
  · intro hbreak
    have hbreak' : ∀ href ∈ (ofCalls hrefs).targets, '\n' ∉ href := by
      rw [targets_ofCalls]
      exact fun href hmem => hbreak href (List.mem_eraseDups.mp hmem)
    refine ⟨fun hsome => ?_, readFootnotes?_footnotes hbreak'⟩
    have hne : (ofCalls hrefs).entries ≠ [] := fun h => hsome (List.length_eq_zero_iff.mpr h)
    rw [lines_footnotes hne hbreak', List.length_cons, List.length_map, size]

/-- A target that is registered twice, and one that looks like the end of a number. -/
theorem numbers_are_final_and_unique_of_bracket :
    numbers {} [['u'], ['2', ']', ' '], ['u']] = [1, 2, 1] ∧
      readFootnotes? (ofCalls [['u'], ['2', ']', ' '], ['u']]).footnotes =
        some [(1, ['u']), (2, ['2', ']', ' '])] := by
  obtain ⟨-, -, -, -, -, -, -, -, -, hfootnotes⟩ :=
    numbers_are_final_and_unique [['u'], ['2', ']', ' '], ['u']]
  exact ⟨rfl, (hfootnotes (by decide)).2⟩

end SmallWeb.LinkRegistry
