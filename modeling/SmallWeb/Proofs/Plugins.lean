/-
SmallWeb/Proofs/Plugins.lean

A registry of names over a run of calls.

What a call gives back depends on the calls before it, and of these only on the ones that
have registered a value: `Registered` says that a run holds such a call for a key and
that the call succeeded.  The entries of the registry are these registrations
(`mem_entries_after_iff`), and no key has two of them.  Both are preserved by every call,
since a call adds one entry with a new key or changes nothing (`step_cases`).

The four kinds of calls are then told in terms of the run: a key can be registered as long
as nothing is registered under it, looking up a name finds what is, and the names are
the keys in the order of their code points.

Main result: `registry_is_written_once`.
-/
import Mathlib.Data.Char
import Mathlib.Data.List.Lex
import Mathlib.Data.List.Nodup
import SmallWeb.Plugins
import SmallWeb.Proofs.Dictionary

namespace SmallWeb

/-- **The order of code points** is the lexicographic one. -/
theorem Text.inOrder_iff {s t : List Char} : Text.inOrder s t = true ↔ ¬ t < s := by
  induction s generalizing t with
  | nil => simp [Text.inOrder]
  | cons c s ih =>
    cases t with
    | nil => simp [Text.inOrder]
    | cons d t =>
      have hlt : c.toNat < d.toNat ↔ c < d := Iff.rfl
      rw [Text.inOrder, Bool.or_eq_true, decide_eq_true_eq, Bool.and_eq_true, beq_iff_eq, ih,
        hlt, List.cons_lt_cons_iff]
      rcases lt_trichotomy c d with h | rfl | h
      · simp [h, h.not_gt, h.ne']
      · simp
      · simp [h, h.not_gt, h.ne']

namespace Plugins

variable {α : Type}

/-! ### Keys and names -/

/-- The keys of a registry, in the order of registration. -/
def keys (p : Plugins α) : List (List Char) := p.entries.map Prod.fst

theorem find?_eq_none_iff {p : Plugins α} {k : List Char} : p.find? k = none ↔ k ∉ p.keys := by
  unfold find? keys
  rw [Option.map_eq_none_iff, List.find?_eq_none, List.mem_map]
  constructor
  · rintro h ⟨e, he, rfl⟩
    exact h e he (beq_self_eq_true _)
  · intro h e he hkey
    exact h ⟨e, he, eq_of_beq hkey⟩

theorem find?_eq_some_iff {p : Plugins α} (hnodup : p.keys.Nodup) {k : List Char} {value : α} :
    p.find? k = some value ↔ (k, value) ∈ p.entries := by
  constructor
  · intro h
    obtain ⟨⟨k', v⟩, hfind, rfl⟩ := Option.map_eq_some_iff.mp h
    have hkey := List.find?_some hfind
    obtain rfl : k' = k := eq_of_beq hkey
    exact List.mem_of_find?_eq_some hfind
  · intro h
    exact Dictionary.get?_of_mem (d := ⟨p.entries⟩) hnodup h

theorem mem_names_iff {p : Plugins α} {k : List Char} : k ∈ p.names ↔ k ∈ p.keys :=
  (List.mergeSort_perm p.keys Text.inOrder).mem_iff

/-- **The names are in order**, and no two are the same. -/
theorem pairwise_names {p : Plugins α} (hnodup : p.keys.Nodup) : p.names.Pairwise (· < ·) := by
  have hsorted : p.names.Pairwise fun s t => Text.inOrder s t = true := by
    refine List.pairwise_mergeSort ?_ ?_ p.keys
    · intro s t u hst htu
      have hle := (not_lt.mp (Text.inOrder_iff.mp hst)).trans (not_lt.mp (Text.inOrder_iff.mp htu))
      exact Text.inOrder_iff.mpr (not_lt.mpr hle)
    · intro s t
      rw [Bool.or_eq_true, Text.inOrder_iff, Text.inOrder_iff, not_lt, not_lt]
      exact le_total s t
  have hdistinct : p.names.Nodup := (List.mergeSort_perm p.keys Text.inOrder).nodup_iff.mpr hnodup
  exact (hsorted.and hdistinct).imp fun ⟨hle, hne⟩ =>
    lt_of_le_of_ne (not_lt.mp (Text.inOrder_iff.mp hle)) hne

/-! ### Calls -/

/-- A call on a registry. -/
inductive Call (α : Type)
  | register (name : List Char) (value : α)
  | get (name : List Char)
  | contains (name : List Char)
  | names

/-- What a call gives back if it succeeds. -/
inductive Reply (α : Type)
  | registered
  | found (value : α)
  | contained (answer : Bool)
  | listed (names : List (List Char))

/-- What a call gives back, and the registry after the call. -/
def step (p : Plugins α) : Call α → Except Fault (Reply α) × Plugins α
  | .register name value =>
    match p.register name value with
    | .ok p => (.ok .registered, p)
    | .error fault => (.error fault, p)
  | .get name => ((p.get name).map .found, p)
  | .contains name => (.ok (.contained (p.contains name)), p)
  | .names => (.ok (.listed p.names), p)

/-- The registry after a run of calls on an empty one. -/
def after (calls : List (Call α)) : Plugins α := calls.foldl (fun p call => (p.step call).2) {}

theorem after_concat (calls : List (Call α)) (call : Call α) :
    after (calls ++ [call]) = ((after calls).step call).2 := List.foldl_append

theorem step_register_of_mem {p : Plugins α} {name : List Char} (h : key name ∈ p.keys)
    (value : α) : p.step (.register name value) = (.error (.duplicatePlugin (key name)), p) := by
  rcases hfind : p.find? (key name) with - | v
  · exact absurd h (find?_eq_none_iff.mp hfind)
  · simp [step, register, hfind]

theorem step_register_of_notMem {p : Plugins α} {name : List Char} (h : key name ∉ p.keys)
    (value : α) :
    p.step (.register name value) = (.ok .registered, ⟨p.entries ++ [(key name, value)]⟩) := by
  simp [step, register, find?_eq_none_iff.mpr h]

/-- **What a call can do**: it registers a value under a new key, or changes nothing. -/
theorem step_cases (p : Plugins α) (call : Call α) :
    (∃ name value, call = .register name value ∧ key name ∉ p.keys ∧
      p.step call = (.ok .registered, ⟨p.entries ++ [(key name, value)]⟩)) ∨
    (p.step call).1 ≠ .ok .registered ∧ (p.step call).2 = p := by
  cases call with
  | register name value =>
    by_cases h : key name ∈ p.keys
    · rw [step_register_of_mem h]
      exact .inr ⟨by simp, rfl⟩
    · exact .inl ⟨name, value, rfl, h, step_register_of_notMem h value⟩
  | get name =>
    refine .inr ⟨?_, rfl⟩
    rcases hget : p.get name with fault | value <;> simp [step, hget, Except.map]
  | contains name => exact .inr ⟨by simp [step], rfl⟩
  | names => exact .inr ⟨by simp [step], rfl⟩

/-- No call registers a key twice. -/
theorem nodup_keys_step {p : Plugins α} (hnodup : p.keys.Nodup) (call : Call α) :
    (p.step call).2.keys.Nodup := by
  rcases p.step_cases call with ⟨name, value, -, hnew, hstep⟩ | ⟨-, hsame⟩
  · have hkeys : (p.step call).2.keys = p.keys.concat (key name) := by
      rw [hstep]
      simp [keys]
    rw [hkeys]
    exact List.Nodup.concat hnew hnodup
  · rwa [hsame]

theorem nodup_keys_after (calls : List (Call α)) : (after calls).keys.Nodup := by
  induction calls using List.reverseRecOn with
  | nil => exact List.nodup_nil
  | append_singleton calls call ih =>
    rw [after_concat]
    exact nodup_keys_step ih call

/-! ### Registrations -/

/-- Behind `before`, a run has a call that registers a value under a key and succeeds. -/
def RegisteredAt (calls before : List (Call α)) (k : List Char) (value : α) : Prop :=
  ∃ name later, calls = before ++ .register name value :: later ∧ key name = k ∧
    ((after before).step (.register name value)).1 = .ok .registered

/-- Somewhere in a run, a value has been registered under a key. -/
def Registered (calls : List (Call α)) (k : List Char) (value : α) : Prop :=
  ∃ before, RegisteredAt calls before k value

/-- A registration lies in a run, or is its last call. -/
theorem registeredAt_concat_iff {calls before : List (Call α)} {call : Call α} {k : List Char}
    {value : α} : RegisteredAt (calls ++ [call]) before k value ↔
      RegisteredAt calls before k value ∨
        before = calls ∧ ∃ name, call = .register name value ∧ key name = k ∧
          ((after calls).step call).1 = .ok .registered := by
  constructor
  · rintro ⟨name, later, hcalls, hkey, hok⟩
    rcases List.eq_nil_or_concat' later with rfl | ⟨later, last, rfl⟩
    · obtain ⟨rfl, hcall⟩ := List.append_inj' hcalls rfl
      obtain rfl : call = .register name value := List.singleton_inj.mp hcall
      exact .inr ⟨rfl, name, rfl, hkey, hok⟩
    · rw [← List.cons_append, ← List.append_assoc] at hcalls
      exact .inl ⟨name, later, (List.append_inj' hcalls rfl).1, hkey, hok⟩
  · rintro (⟨name, later, rfl, hkey, hok⟩ | ⟨rfl, name, rfl, hkey, hok⟩)
    · exact ⟨name, later ++ [call], by simp, hkey, hok⟩
    · exact ⟨name, [], rfl, hkey, hok⟩

/-- **The entries are the registrations.** -/
theorem mem_entries_after_iff {calls : List (Call α)} {k : List Char} {value : α} :
    (k, value) ∈ (after calls).entries ↔ Registered calls k value := by
  induction calls using List.reverseRecOn with
  | nil =>
    constructor
    · intro h
      exact absurd h List.not_mem_nil
    · rintro ⟨before, name, later, hcalls, -⟩
      exact absurd hcalls.symm (by simp)
  | append_singleton calls call ih =>
    unfold Registered at ih ⊢
    simp only [registeredAt_concat_iff, exists_or, exists_eq_left, ← ih, after_concat]
    rcases (after calls).step_cases call with ⟨name, v, rfl, -, hstep⟩ | ⟨hrefused, hsame⟩
    · rw [hstep]
      simp [eq_comm, and_comm]
    · rw [hsame]
      simp [hrefused]

theorem mem_keys_after_iff {calls : List (Call α)} {k : List Char} :
    k ∈ (after calls).keys ↔ ∃ value, Registered calls k value := by
  simp only [← mem_entries_after_iff, keys, List.mem_map, Prod.exists, exists_and_right,
    exists_eq_right]

/-- **A key is registered once.** -/
theorem RegisteredAt.unique {calls before before' : List (Call α)} {k : List Char}
    {value value' : α} (h : RegisteredAt calls before k value)
    (h' : RegisteredAt calls before' k value') : before = before' ∧ value = value' := by
  -- A call that registers a key finds nothing under it.
  have hnew : ∀ {calls : List (Call α)} {name : List Char} {v v' : α},
      ((after calls).step (.register name v)).1 = .ok .registered →
      ¬ Registered calls (key name) v' := by
    intro calls name v v' hok hold
    rw [step_register_of_mem (mem_keys_after_iff.mpr ⟨v', hold⟩)] at hok
    cases hok
  induction calls using List.reverseRecOn with
  | nil =>
    obtain ⟨name, later, hcalls, -⟩ := h
    exact absurd hcalls.symm (by simp)
  | append_singleton calls call ih =>
    rcases registeredAt_concat_iff.mp h with hold | ⟨rfl, name, rfl, rfl, hok⟩
    · rcases registeredAt_concat_iff.mp h' with hold' | ⟨rfl, name, rfl, rfl, hok'⟩
      · exact ih hold hold'
      · exact absurd ⟨before, hold⟩ (hnew hok')
    · rcases registeredAt_concat_iff.mp h' with hold' | ⟨rfl, name', hcall, -, -⟩
      · exact absurd ⟨before', hold'⟩ (hnew hok)
      · obtain ⟨-, rfl⟩ := Call.register.inj hcall
        exact ⟨rfl, rfl⟩

/-! ### Any call after any run -/

/-- **A registry is a map that is written once.**  After any run of calls on an empty registry,
no key has been registered more than once.  A call registers a value exactly if nothing has
been registered under the key of the name, and is refused otherwise; looking up a name finds
what has been registered under its key and nothing else, and fails if there is nothing;
asking for a name tells whether there is something; and the names are the keys that have been
registered, in strictly increasing order.  Only a call that registers a value changes the
registry. -/
theorem registry_is_written_once (calls : List (Call α)) :
    (∀ k before before' value value', RegisteredAt calls before k value →
      RegisteredAt calls before' k value' → before = before' ∧ value = value') ∧
    (∀ name value, ((after calls).step (.register name value)).1 = .ok .registered ↔
      ¬ ∃ old, Registered calls (key name) old) ∧
    (∀ name value, (∃ old, Registered calls (key name) old) →
      (after calls).step (.register name value) =
        (.error (.duplicatePlugin (key name)), after calls)) ∧
    (∀ name value, (after calls).step (.get name) = (.ok (.found value), after calls) ↔
      Registered calls (key name) value) ∧
    (∀ name, (after calls).step (.get name) =
        (.error (.unknownPlugin name (after calls).names), after calls) ↔
      ¬ ∃ value, Registered calls (key name) value) ∧
    (∀ name, ∃ answer, (after calls).step (.contains name) =
        (.ok (.contained answer), after calls) ∧
      (answer = true ↔ ∃ value, Registered calls (key name) value)) ∧
    ∃ names, (after calls).step .names = (.ok (.listed names), after calls) ∧
      names.Pairwise (· < ·) ∧ ∀ k, k ∈ names ↔ ∃ value, Registered calls k value := by
  have hnodup := nodup_keys_after calls
  simp only [← mem_keys_after_iff]
  refine ⟨fun _ _ _ _ _ => RegisteredAt.unique, fun name value => ?_,
    fun name value hmem => step_register_of_mem hmem value, fun name value => ?_, fun name => ?_,
    fun name => ⟨_, rfl, ?_⟩, ⟨_, rfl, pairwise_names hnodup, fun k => mem_names_iff⟩⟩
  · by_cases hmem : key name ∈ (after calls).keys
    · simp [step_register_of_mem hmem, hmem]
    · simp [step_register_of_notMem hmem, hmem]
  · rw [← mem_entries_after_iff, ← find?_eq_some_iff hnodup]
    rcases hfind : (after calls).find? (key name) with - | found <;>
      simp [step, get, hfind, Except.map]
  · rw [← find?_eq_none_iff]
    rcases hfind : (after calls).find? (key name) with - | found <;>
      simp [step, get, hfind, Except.map]
  · rw [contains, Option.isSome_iff_ne_none, ne_eq, find?_eq_none_iff, not_not]

/-- Two calls for two spellings of one name. -/
def twoSpellings : List (Call Nat) := [.register " Ab".toList 1, .register "aB ".toList 2]

/-- The first value is found under a third spelling, and cannot be replaced under it. -/
theorem registry_is_written_once_under_spellings :
    ((after twoSpellings).step (.register "AB".toList 3)).1 =
        .error (.duplicatePlugin ['a', 'b']) ∧
      ((after twoSpellings).step (.get "AB".toList)).1 = .ok (.found 1) := by
  obtain ⟨-, -, hregister, hget, -⟩ := registry_is_written_once twoSpellings
  have hkey : key "AB".toList = ['a', 'b'] := by decide +kernel
  have hfirst : Registered twoSpellings (key "AB".toList) 1 :=
    ⟨[], " Ab".toList, _, rfl, by decide +kernel, rfl⟩
  constructor
  · rw [hregister "AB".toList 3 ⟨1, hfirst⟩, hkey]
  · rw [(hget "AB".toList 1).mpr hfirst]

end Plugins

end SmallWeb
