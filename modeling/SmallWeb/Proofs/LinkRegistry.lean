/-
SmallWeb/Proofs/LinkRegistry.lean

The index and the entries of a registry.

A registry keeps its numbers in two places, and a call reads the one and writes both.
`register_cases` says all that a call can do.  A number in the index is never changed
(`get?_register_of_eq_some`), and entries are only added at the end
(`entries_prefix_register`); neither needs to know anything about the registry.

That the two places say the same is an invariant (`InStep`): it holds of the empty
registry, every call keeps it (`InStep.register`), and so does every run of calls
(`InStep.registerAll`).  With it the entries are the targets, counted from one on, each
listed once (`InStep.entries_eq`, `InStep.nodup_targets`), and after a run on the empty
registry they are the targets of the calls in the order of first occurrence
(`entries_ofCalls`).
-/
import Mathlib.Data.List.Basic
import Mathlib.Data.List.Induction
import Mathlib.Data.List.Nodup
import SmallWeb.LinkRegistry
import SmallWeb.Proofs.Dictionary

namespace SmallWeb.LinkRegistry

/-! ### One call -/

/-- **What a call does.**  A target that has a number gets it again.  A new one goes into
the index and behind the entries, under the next number. -/
theorem register_cases (r : LinkRegistry) (href : List Char) :
    (∃ n, r.index.get? href = some n ∧ r.register href = (n, r)) ∨
      r.index.get? href = none ∧ r.register href =
        (r.size + 1, ⟨r.index.write href (r.size + 1), r.entries ++ [(r.size + 1, href)]⟩) := by
  unfold register
  rcases hget : r.index.get? href with - | n
  · exact .inr ⟨rfl, rfl⟩
  · exact .inl ⟨n, rfl, rfl⟩

/-- The number that a call gives is in the index after it. -/
theorem get?_register_self (r : LinkRegistry) (href : List Char) :
    (r.register href).2.index.get? href = some (r.register href).1 := by
  rcases r.register_cases href with ⟨n, hget, hcall⟩ | ⟨-, hcall⟩
  · rw [hcall, hget]
  · rw [hcall, Dictionary.get?_write, if_pos rfl]

/-- **Numbers are final**: no call changes one that is in the index. -/
theorem get?_register_of_eq_some {r : LinkRegistry} {href : List Char} {n : Nat}
    (h : r.index.get? href = some n) (href' : List Char) :
    (r.register href').2.index.get? href = some n := by
  rcases r.register_cases href' with ⟨n', -, hcall⟩ | ⟨hnone, hcall⟩
  · rw [hcall, h]
  · have hne : href' ≠ href := by
      rintro rfl
      rw [hnone] at h
      cases h
    rw [hcall, Dictionary.get?_write, if_neg hne, h]

/-- A call adds an entry at the end, or none. -/
theorem entries_prefix_register (r : LinkRegistry) (href : List Char) :
    r.entries <+: (r.register href).2.entries := by
  rcases r.register_cases href with ⟨n, -, hcall⟩ | ⟨-, hcall⟩
  · exact hcall.symm ▸ List.prefix_rfl
  · exact hcall.symm ▸ List.prefix_append _ _

/-! ### Runs of calls -/

/-- A registry after a sequence of targets. -/
def registerAll (r : LinkRegistry) (hrefs : List (List Char)) : LinkRegistry :=
  hrefs.foldl (fun r href => (r.register href).2) r

/-- The registry after calls for these targets on an empty one. -/
def ofCalls (hrefs : List (List Char)) : LinkRegistry := registerAll {} hrefs

theorem registerAll_concat (r : LinkRegistry) (hrefs : List (List Char)) (href : List Char) :
    r.registerAll (hrefs ++ [href]) = ((r.registerAll hrefs).register href).2 :=
  List.foldl_append

/-- **No run changes a number** that is in the index. -/
theorem get?_registerAll_of_eq_some {r : LinkRegistry} {href : List Char} {n : Nat}
    (h : r.index.get? href = some n) (hrefs : List (List Char)) :
    (r.registerAll hrefs).index.get? href = some n := by
  induction hrefs generalizing r with
  | nil => exact h
  | cons href' hrefs ih => exact ih (get?_register_of_eq_some h href')

/-- **A run extends the entries at their end.** -/
theorem entries_prefix_registerAll (r : LinkRegistry) (hrefs : List (List Char)) :
    r.entries <+: (r.registerAll hrefs).entries := by
  induction hrefs generalizing r with
  | nil => exact List.prefix_rfl
  | cons href hrefs ih => exact (r.entries_prefix_register href).trans (ih (r.register href).2)

/-! ### Index and entries -/

/-- The index and the entries are in step: the index has a number for a target exactly if
the target is listed under that number, and the entries are numbered from one on. -/
structure InStep (r : LinkRegistry) : Prop where
  indexed (href : List Char) (n : Nat) : r.index.get? href = some n ↔ (n, href) ∈ r.entries
  counted : r.entries.map Prod.fst = List.range' 1 r.size

theorem inStep_empty : InStep {} where
  indexed _ _ := iff_of_false (Option.some_ne_none _).symm List.not_mem_nil
  counted := rfl

/-- **A call keeps index and entries in step.** -/
theorem InStep.register {r : LinkRegistry} (h : r.InStep) (href : List Char) :
    (r.register href).2.InStep := by
  rcases r.register_cases href with ⟨n, -, hcall⟩ | ⟨hnone, hcall⟩
  · rw [hcall]
    exact h
  · rw [hcall]
    refine ⟨fun href' n => ?_, ?_⟩
    · rw [Dictionary.get?_write, List.mem_append, List.mem_singleton, Prod.mk.injEq]
      by_cases hsame : href = href'
      · -- The target is new, so it is not among the old entries under any number.
        have hnot : (n, href') ∉ r.entries := by
          rw [← h.indexed, ← hsame, hnone]
          exact (Option.some_ne_none n).symm
        rw [if_pos hsame, Option.some.injEq]
        exact ⟨fun hn => .inr ⟨hn.symm, hsame.symm⟩,
          fun hmem => (hmem.resolve_left hnot).1.symm⟩
      · rw [if_neg hsame, h.indexed]
        exact ⟨.inl, fun hmem => hmem.resolve_right fun hnew => hsame hnew.2.symm⟩
    · rw [List.map_append, h.counted]
      show _ = List.range' 1 (r.entries ++ [_]).length
      rw [List.length_append, List.length_singleton, List.range'_concat, Nat.one_mul,
        Nat.add_comm 1]
      rfl

/-- **A run keeps index and entries in step.** -/
theorem InStep.registerAll {r : LinkRegistry} (h : r.InStep) (hrefs : List (List Char)) :
    (r.registerAll hrefs).InStep := by
  induction hrefs generalizing r with
  | nil => exact h
  | cons href hrefs ih => exact ih (h.register href)

theorem inStep_ofCalls (hrefs : List (List Char)) : (ofCalls hrefs).InStep :=
  inStep_empty.registerAll hrefs

/-! ### Targets -/

/-- The targets of the entries, in order. -/
def targets (r : LinkRegistry) : List (List Char) := r.entries.map Prod.snd

/-- Targets with their numbers, from one on. -/
def numbered (targets : List (List Char)) : List (Nat × List Char) :=
  (List.range' 1 targets.length).zip targets

/-- A target among distinct ones is numbered by its place. -/
theorem mem_numbered_iff {targets : List (List Char)} (hdistinct : targets.Nodup) {n : Nat}
    {href : List Char} :
    (n, href) ∈ numbered targets ↔ href ∈ targets ∧ n = targets.idxOf href + 1 := by
  -- Numbers are counted from one and places from zero.
  have hplace : (n, href) ∈ numbered targets ↔ ∃ i, targets[i]? = some href ∧ n = i + 1 := by
    simp only [numbered, List.mem_iff_getElem?, List.getElem?_zip_eq_some]
    refine exists_congr fun i => ?_
    rw [and_comm]
    refine and_congr_right fun hget => ?_
    rw [List.getElem?_range' (List.getElem?_eq_some_iff.mp hget).1, Option.some.injEq]
    omega
  rw [hplace]
  constructor
  · rintro ⟨i, hget, rfl⟩
    obtain ⟨hlt, rfl⟩ := List.getElem?_eq_some_iff.mp hget
    exact ⟨List.getElem_mem hlt, by rw [hdistinct.idxOf_getElem i hlt]⟩
  · rintro ⟨hmem, rfl⟩
    exact ⟨_, List.getElem?_idxOf hmem, rfl⟩

namespace InStep

variable {r : LinkRegistry}

/-- **The entries** are the targets, counted from one on. -/
theorem entries_eq (h : r.InStep) : r.entries = numbered r.targets := by
  refine List.zip_of_prod ?_ rfl
  rw [h.counted, size, targets, List.length_map]

/-- **No target is listed twice**: the index has one number for it. -/
theorem nodup_targets (h : r.InStep) : r.targets.Nodup := by
  have hentries : r.entries.Nodup := by
    refine List.Nodup.of_map Prod.fst ?_
    rw [h.counted]
    exact List.nodup_range'
  refine List.Nodup.map_on ?_ hentries
  rintro ⟨n, href⟩ hmem ⟨n', href'⟩ hmem' (rfl : href = href')
  have hnumber := (h.indexed href n).mpr hmem
  rw [(h.indexed href n').mpr hmem', Option.some.injEq] at hnumber
  rw [hnumber]

/-- The number of a target in the index is its place among the targets. -/
theorem get?_eq_some_iff (h : r.InStep) {href : List Char} {n : Nat} :
    r.index.get? href = some n ↔ href ∈ r.targets ∧ n = r.targets.idxOf href + 1 := by
  rw [h.indexed, h.entries_eq, mem_numbered_iff h.nodup_targets]

/-- The targets in the index are those of the entries. -/
theorem get?_eq_none_iff (h : r.InStep) {href : List Char} :
    r.index.get? href = none ↔ href ∉ r.targets := by
  rw [Option.eq_none_iff_forall_ne_some]
  simp only [ne_eq, h.get?_eq_some_iff, not_and]
  exact ⟨fun hall hmem => hall _ hmem rfl, fun hnot _ hmem => absurd hmem hnot⟩

theorem targets_register (h : r.InStep) (href : List Char) :
    (r.register href).2.targets =
      if href ∈ r.targets then r.targets else r.targets ++ [href] := by
  rcases r.register_cases href with ⟨n, hget, hcall⟩ | ⟨hnone, hcall⟩
  · rw [hcall, if_pos (h.get?_eq_some_iff.mp hget).1]
  · rw [hcall, if_neg (h.get?_eq_none_iff.mp hnone)]
    exact List.map_append

end InStep

/-- **Each target is listed once**, in the order of first occurrence. -/
theorem targets_ofCalls (hrefs : List (List Char)) :
    (ofCalls hrefs).targets = hrefs.eraseDups := by
  -- The last target is the one that the rest of the list decides about.
  induction hrefs using List.reverseRecOn with
  | nil => rfl
  | append_singleton hrefs href ih =>
    rw [ofCalls, registerAll_concat, ← ofCalls, (inStep_ofCalls hrefs).targets_register, ih,
      eraseDups_concat]
    simp only [List.mem_eraseDups]

/-- **The entries after a run** are its targets, each once, counted from one on. -/
theorem entries_ofCalls (hrefs : List (List Char)) :
    (ofCalls hrefs).entries = numbered hrefs.eraseDups := by
  rw [(inStep_ofCalls hrefs).entries_eq, targets_ofCalls]

/-! ### Renamed targets -/

/-- The second registry has the numbers of the first one for renamed targets. -/
structure Renamed (s : List Char → List Char) (r r' : LinkRegistry) : Prop where
  index (href : List Char) : r'.index.get? (s href) = r.index.get? href
  entries : r'.entries = r.entries.map fun (n, href) => (n, s href)

/-- **Numbers do not depend on the names of targets**: where no two targets become the
same, a renamed target gets the number of the target. -/
theorem Renamed.register {s : List Char → List Char} (hs : Function.Injective s)
    {r r' : LinkRegistry} (h : Renamed s r r') (href : List Char) :
    (r'.register (s href)).1 = (r.register href).1 ∧
      Renamed s (r.register href).2 (r'.register (s href)).2 := by
  have hsize : r'.size = r.size := by rw [size, h.entries, List.length_map, size]
  unfold LinkRegistry.register
  rw [h.index, hsize]
  rcases r.index.get? href with - | n
  · refine ⟨rfl, fun href' => ?_, ?_⟩
    · rw [Dictionary.get?_write, Dictionary.get?_write, h.index]
      simp only [hs.eq_iff]
    · rw [List.map_append, ← h.entries]
      rfl
  · exact ⟨rfl, h⟩

end SmallWeb.LinkRegistry
