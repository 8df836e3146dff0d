/-
SmallWeb/Proofs/Dictionary.lean

Dictionaries that are written one entry after the other.

A key keeps the place where it was first written, and has the value that was
written last (`keys_ofList`, `get?_ofList`).  The two orders are different ones:
writing an old key again changes its value, but does not bring it to the end.

A dictionary may be written out and written on, its values may be mapped, and it
may be restricted to some of its keys; all three commute with writing, so a
dictionary that is made in several steps is one that is written at once.
-/
import SmallWeb.Dictionary
import SmallWeb.Proofs.Distinct

namespace SmallWeb.Dictionary

variable {α β : Type}

/-- The keys of a dictionary, in order. -/
def keys (d : Dictionary α) : List (List Char) := d.entries.map Prod.fst

/-- The value that entries write last under a key. -/
def lastValue? (key : List Char) (es : List (List Char × α)) : Option α :=
  (es.reverse.find? fun e => e.1 == key).map Prod.snd

theorem find?_cons_key (key : List Char) (e : List Char × α) (es : List (List Char × α)) :
    ((e :: es).find? fun e => e.1 == key) =
      if e.1 = key then some e else es.find? fun e => e.1 == key := by
  rw [List.find?_cons]
  by_cases h : e.1 = key
  · rw [if_pos h, h, beq_self_eq_true]
  · rw [if_neg h, beq_eq_false_iff_ne.mpr h]

theorem lastValue?_concat (key : List Char) (es : List (List Char × α)) (e : List Char × α) :
    lastValue? key (es ++ [e]) = if e.1 = key then some e.2 else lastValue? key es := by
  unfold lastValue?
  rw [List.reverse_append, List.reverse_singleton, List.singleton_append, find?_cons_key]
  split <;> rfl

/-! ### Writing a key -/

theorem map_fst_writeEntry (key : List Char) (value : α) (es : List (List Char × α)) :
    (writeEntry key value es).map Prod.fst =
      if key ∈ es.map Prod.fst then es.map Prod.fst else es.map Prod.fst ++ [key] := by
  induction es with
  | nil => rfl
  | cons e es ih =>
    obtain ⟨k, v⟩ := e
    rw [writeEntry]
    by_cases h : k = key
    · rw [if_pos h, if_pos (by simp [h])]
      rfl
    · rw [if_neg h, List.map_cons, ih, List.map_cons]
      by_cases hmem : key ∈ es.map Prod.fst
      · rw [if_pos hmem, if_pos (List.mem_cons_of_mem _ hmem)]
      · rw [if_neg hmem, if_neg (List.not_mem_cons_of_ne_of_not_mem (Ne.symm h) hmem),
          List.cons_append]

/-- A new key is added at the end. -/
theorem writeEntry_of_notMem {key : List Char} (value : α) {es : List (List Char × α)}
    (h : key ∉ es.map Prod.fst) : writeEntry key value es = es ++ [(key, value)] := by
  induction es with
  | nil => rfl
  | cons e es ih =>
    rw [List.map_cons, List.mem_cons, not_or] at h
    rw [writeEntry, if_neg (Ne.symm h.1), ih h.2, List.cons_append]

/-- **An old key keeps its place**, and a new one stands at the end. -/
theorem keys_write (d : Dictionary α) (key : List Char) (value : α) :
    (d.write key value).keys = if key ∈ d.keys then d.keys else d.keys ++ [key] :=
  map_fst_writeEntry key value d.entries

theorem find?_writeEntry (key key' : List Char) (value : α) (es : List (List Char × α)) :
    ((writeEntry key value es).find? fun e => e.1 == key') =
      if key = key' then some (key, value) else es.find? fun e => e.1 == key' := by
  induction es with
  | nil => exact find?_cons_key key' (key, value) []
  | cons e es ih =>
    obtain ⟨k, v⟩ := e
    rw [writeEntry]
    by_cases h : k = key
    · subst h
      rw [if_pos rfl, find?_cons_key, find?_cons_key]
      by_cases h' : k = key' <;> simp [h']
    · rw [if_neg h, find?_cons_key, find?_cons_key, ih]
      by_cases h' : key = key'
      · simp [← h', h]
      · simp [h']

/-- **Writing changes one key.** -/
theorem get?_write (d : Dictionary α) (key key' : List Char) (value : α) :
    (d.write key value).get? key' = if key = key' then some value else d.get? key' := by
  show ((writeEntry key value d.entries).find? _).map Prod.snd = _
  rw [find?_writeEntry]
  split <;> rfl

/-! ### Writing entries -/

theorem ofList_append (xs ys : List (List Char × α)) :
    ofList (xs ++ ys) = (ofList xs).writeAll ys := List.foldl_append

theorem ofList_concat (es : List (List Char × α)) (e : List Char × α) :
    ofList (es ++ [e]) = (ofList es).write e.1 e.2 := ofList_append es [e]

theorem mem_of_mem_writeEntry {key : List Char} {value : α} {es : List (List Char × α)}
    {e : List Char × α} (h : e ∈ writeEntry key value es) : e = (key, value) ∨ e ∈ es := by
  induction es with
  | nil => exact .inl (List.mem_singleton.mp h)
  | cons e' es ih =>
    obtain ⟨k, v⟩ := e'
    rw [writeEntry] at h
    split at h
    · rename_i hkey
      subst hkey
      rcases List.mem_cons.mp h with rfl | h
      · exact .inl rfl
      · exact .inr (List.mem_cons_of_mem _ h)
    · rcases List.mem_cons.mp h with rfl | h
      · exact .inr List.mem_cons_self
      · exact (ih h).imp_right (List.mem_cons_of_mem _)

/-- There are no entries but those that were written. -/
theorem mem_of_mem_ofList {es : List (List Char × α)} {e : List Char × α}
    (h : e ∈ (ofList es).entries) : e ∈ es := by
  induction es using List.reverseRecOn with
  | nil => exact h
  | append_singleton es last ih =>
    rw [ofList_concat] at h
    rcases mem_of_mem_writeEntry h with rfl | h
    · exact List.mem_append_right _ List.mem_cons_self
    · exact List.mem_append_left _ (ih h)

/-- **The keys stand in the order in which they were first written.** -/
theorem keys_ofList (es : List (List Char × α)) :
    (ofList es).keys = (es.map Prod.fst).eraseDups := by
  induction es using List.reverseRecOn with
  | nil => rfl
  | append_singleton es e ih =>
    rw [ofList_concat, keys_write, ih, List.map_append, List.map_singleton, eraseDups_concat]
    simp only [List.mem_eraseDups]

theorem nodup_keys_ofList (es : List (List Char × α)) : (ofList es).keys.Nodup := by
  rw [keys_ofList]
  exact nodup_eraseDups _

/-- **The values are those that were written last.** -/
theorem get?_ofList (es : List (List Char × α)) (key : List Char) :
    (ofList es).get? key = lastValue? key es := by
  induction es using List.reverseRecOn with
  | nil => rfl
  | append_singleton es e ih => rw [ofList_concat, get?_write, ih, lastValue?_concat]

/-- A dictionary that is written out and written again is the same. -/
theorem ofList_entries {d : Dictionary α} (hnodup : d.keys.Nodup) : ofList d.entries = d := by
  obtain ⟨es⟩ := d
  induction es using List.reverseRecOn with
  | nil => rfl
  | append_singleton es e ih =>
    have hkeys : (es.map Prod.fst ++ [e.1]).Nodup := by simpa [keys] using hnodup
    obtain ⟨hes, -, hdisjoint⟩ := List.nodup_append.mp hkeys
    have hnew : e.1 ∉ es.map Prod.fst := fun hmem => hdisjoint _ hmem _ (by simp) rfl
    rw [ofList_concat, ih hes, write, writeEntry_of_notMem e.2 hnew]

/-- A dictionary may be written out and written on. -/
theorem ofList_entries_append (xs ys : List (List Char × α)) :
    ofList ((ofList xs).entries ++ ys) = ofList (xs ++ ys) := by
  rw [ofList_append, ofList_entries (nodup_keys_ofList xs), ofList_append]

/-! ### Restricting and mapping -/

theorem filter_writeEntry (p : List Char → Bool) (key : List Char) (value : α)
    (es : List (List Char × α)) :
    (writeEntry key value es).filter (fun e => p e.1) =
      if p key then writeEntry key value (es.filter fun e => p e.1)
      else es.filter fun e => p e.1 := by
  induction es with
  | nil =>
    rw [writeEntry, List.filter_cons]
    rfl
  | cons e es ih =>
    obtain ⟨k, v⟩ := e
    rw [writeEntry]
    by_cases h : k = key
    · subst h
      rw [if_pos rfl, List.filter_cons, List.filter_cons]
      by_cases hp : p k = true <;> simp [hp, writeEntry]
    · rw [if_neg h, List.filter_cons, List.filter_cons, ih]
      by_cases hp : p key = true
      · by_cases hk : p k = true <;> simp [hp, hk, writeEntry, h]
      · simp [hp]

/-- Entries that are left out may be left out before they are written. -/
theorem filterKeys_ofList (p : List Char → Bool) (es : List (List Char × α)) :
    (ofList es).filterKeys p = ofList (es.filter fun e => p e.1) := by
  induction es using List.reverseRecOn with
  | nil => rfl
  | append_singleton es e ih =>
    have hstep : ((ofList es).write e.1 e.2).filterKeys p =
        if p e.1 then ((ofList es).filterKeys p).write e.1 e.2 else (ofList es).filterKeys p := by
      unfold filterKeys write
      rw [filter_writeEntry]
      split <;> rfl
    rw [ofList_concat, hstep, ih, List.filter_append, List.filter_cons, List.filter_nil]
    split
    · rw [ofList_concat]
    · rw [List.append_nil]

/-- An entry with its value mapped. -/
def mapValue (f : α → β) (e : List Char × α) : List Char × β := (e.1, f e.2)

theorem map_writeEntry (f : α → β) (key : List Char) (value : α) (es : List (List Char × α)) :
    (writeEntry key value es).map (mapValue f) =
      writeEntry key (f value) (es.map (mapValue f)) := by
  induction es with
  | nil => rfl
  | cons e es ih =>
    rw [writeEntry, List.map_cons]
    show _ = if e.1 = key then _ else _
    split
    · rfl
    · rw [List.map_cons, ih]
      rfl

/-- Values may be mapped before they are written. -/
theorem map_entries_ofList (f : α → β) (es : List (List Char × α)) :
    (ofList es).entries.map (mapValue f) = (ofList (es.map (mapValue f))).entries := by
  induction es using List.reverseRecOn with
  | nil => rfl
  | append_singleton es e ih =>
    rw [List.map_append, List.map_singleton, ofList_concat, ofList_concat]
    show (writeEntry _ _ _).map _ = writeEntry _ _ _
    rw [map_writeEntry, ih]
    rfl

/-! ### The last entry of a kind -/

/-- The key that was first written after all others of its kind. -/
def newestKey? (p : List Char → Bool) (es : List (List Char × α)) : Option (List Char) :=
  (es.map Prod.fst).eraseDups.reverse.find? p

theorem get?_of_mem {d : Dictionary α} (hnodup : d.keys.Nodup) {e : List Char × α}
    (he : e ∈ d.entries) : d.get? e.1 = some e.2 := by
  obtain ⟨es⟩ := d
  show (es.find? fun e' => e'.1 == e.1).map Prod.snd = _
  induction es with
  | nil => exact absurd he List.not_mem_nil
  | cons e' es ih =>
    obtain ⟨hnew, hnodup⟩ := List.nodup_cons.mp hnodup
    rw [find?_cons_key]
    rcases List.mem_cons.mp he with rfl | he
    · rw [if_pos rfl]
      rfl
    · have hne : e'.1 ≠ e.1 := fun h => hnew (h ▸ List.mem_map_of_mem he)
      rw [if_neg hne]
      exact ih hnodup he

/-- **The last entry of a kind** has the newest key of this kind, and the value
that was written last under that key, not the value that was written last of
all. -/
theorem find?_reverse_entries_ofList (p : List Char → Bool) (es : List (List Char × α)) :
    ((ofList es).entries.reverse.find? fun e => p e.1).map Prod.snd =
      (newestKey? p es).bind fun key => lastValue? key es := by
  -- The last place of the kind has the newest key, whatever value stands there.
  have hkeys : newestKey? p es =
      ((ofList es).entries.reverse.find? fun e => p e.1).map Prod.fst := by
    rw [newestKey?, ← keys_ofList, keys, ← List.map_reverse, List.find?_map]
    rfl
  rw [hkeys]
  cases h : (ofList es).entries.reverse.find? fun e => p e.1 with
  | none => rfl
  | some e =>
    have he : e ∈ (ofList es).entries := List.mem_reverse.mp (List.mem_of_find?_eq_some h)
    show some e.2 = lastValue? e.1 es
    rw [← get?_ofList, get?_of_mem (nodup_keys_ofList es) he]

end SmallWeb.Dictionary
