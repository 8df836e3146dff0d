/-
SmallWeb/Proofs/Text/Number.lean

Numbers that are written and read again.

The digits of a number are read from the first one on, so the number that has
been read so far is the one that the digits before denote.  Writing peels off the
last digit; the two meet in `readDigitsFrom?_append`.

The plain notation is told apart from its reader, too: a numeral is a nonempty sequence of
digits, and it denotes a number (`decimal`).

Main results: `readPlainInt?_trim_ofInt` and `readPlainInt?_eq_some_iff`.
-/
import SmallWeb.Proofs.Text.Words

namespace SmallWeb.Text

/-- Digits are read one after the other. -/
theorem readDigitsFrom?_append (n : Nat) (s t : List Char) :
    readDigitsFrom? n (s ++ t) = (readDigitsFrom? n s).bind fun m => readDigitsFrom? m t := by
  induction s generalizing n with
  | nil => rfl
  | cons c s ih =>
    rw [List.cons_append, readDigitsFrom?, readDigitsFrom?, Option.bind_assoc]
    exact congrArg _ (funext fun d => ih (10 * n + d))

theorem digitValue?_digitChar {d : Nat} (h : d < 10) : digitValue? d.digitChar = some d := by
  have hall : ∀ d < 10, digitValue? d.digitChar = some d := by decide
  exact hall d h

theorem readDigitsFrom?_ofNat (n : Nat) : readDigitsFrom? 0 (ofNat n) = some n := by
  induction n using Nat.strongRecOn with
  | ind n ih =>
    by_cases hn : n < 10
    · rw [ofNat, Nat.toDigits_of_lt_base hn, readDigitsFrom?, digitValue?_digitChar hn]
      simp [readDigitsFrom?]
    · -- The last digit is behind those of the tenth.
      have hdigit : n % 10 < 10 := Nat.mod_lt n (by omega)
      have hwhole : 10 * (n / 10) + n % 10 = n := by omega
      rw [ofNat, Nat.toDigits_of_base_le (by omega) (by omega), readDigitsFrom?_append]
      show (readDigitsFrom? 0 (ofNat (n / 10))).bind _ = _
      rw [ih (n / 10) (by omega), Option.bind_some, readDigitsFrom?,
        digitValue?_digitChar hdigit, Option.bind_some, hwhole]
      rfl

theorem ofNat_ne_nil (n : Nat) : ofNat n ≠ [] := Nat.toDigits_ne_nil

theorem ofInt_ne_nil (n : Int) : ofInt n ≠ [] := by
  cases n with
  | ofNat n => exact ofNat_ne_nil n
  | negSucc n => exact List.cons_ne_nil _ _

theorem readDigits?_ofNat (n : Nat) : readDigits? (ofNat n) = some n := by
  unfold readDigits?
  rw [List.isEmpty_eq_false_iff.mpr (ofNat_ne_nil n), if_neg (by simp), readDigitsFrom?_ofNat]

/-- A number is read as it was written. -/
theorem readPlainInt?_ofInt (n : Int) : readPlainInt? (ofInt n) = some n := by
  cases n with
  | ofNat n =>
    have hsign : ∀ s, ofNat n ≠ '-' :: s := by
      intro s hs
      have hdigit : '-'.isDigit = true :=
        Nat.isDigit_of_mem_toDigits (n := n) (b := 10) (by omega) (by omega)
          (by rw [← ofNat, hs]; exact List.mem_cons_self)
      exact absurd hdigit (by decide)
    show readPlainInt? (ofNat n) = _
    rw [readPlainInt?, readDigits?_ofNat]
    · rfl
    · exact hsign
  | negSucc n =>
    show readPlainInt? ('-' :: ofNat (n + 1)) = _
    rw [readPlainInt?, readDigits?_ofNat]
    rfl

/-! ### Numerals -/

/-- A nonempty sequence of digits. -/
def IsNumeral (s : List Char) : Prop := s ≠ [] ∧ ∀ c ∈ s, isDigit c = true

/-- The number that digits denote in the decimal notation. -/
def decimal (s : List Char) : Nat := s.foldl (fun n c => 10 * n + (digitValue? c).getD 0) 0

theorem digitValue?_isSome (c : Char) : (digitValue? c).isSome = isDigit c := by
  unfold digitValue? isDigit inRanges
  rw [Option.isSome_map, Bool.eq_iff_iff, List.find?_isSome, List.any_eq_true]

theorem readDigitsFrom?_eq_some_iff {n m : Nat} {s : List Char} :
    readDigitsFrom? n s = some m ↔ (∀ c ∈ s, isDigit c = true) ∧
      s.foldl (fun n c => 10 * n + (digitValue? c).getD 0) n = m := by
  induction s generalizing n with
  | nil => simp [readDigitsFrom?]
  | cons c s ih =>
    rw [readDigitsFrom?, List.forall_mem_cons, List.foldl_cons, ← digitValue?_isSome]
    cases digitValue? c with
    | none => simp
    | some d =>
      rw [Option.bind_some, ih]
      simp

theorem readDigits?_eq_some_iff {n : Nat} {s : List Char} :
    readDigits? s = some n ↔ IsNumeral s ∧ decimal s = n := by
  unfold readDigits? IsNumeral decimal
  by_cases hs : s = []
  · simp [hs]
  · rw [if_neg (by simpa using hs), readDigitsFrom?_eq_some_iff]
    simp [hs]

/-- **The plain notation of an integer.** -/
theorem readPlainInt?_eq_some_iff {n : Int} {s : List Char} :
    readPlainInt? s = some n ↔
      (IsNumeral s ∧ (decimal s : Int) = n) ∨
        ∃ digits, s = '-' :: digits ∧ IsNumeral digits ∧ -(decimal digits : Int) = n := by
  have hnone : ∀ digits, readDigits? digits = none → ¬ IsNumeral digits := by
    intro digits hread hnumeral
    rw [readDigits?_eq_some_iff.mpr ⟨hnumeral, rfl⟩] at hread
    cases hread
  unfold readPlainInt?
  split
  · rename_i digits
    have hsign : ¬ IsNumeral ('-' :: digits) :=
      fun h => absurd (h.2 '-' List.mem_cons_self) (by decide)
    rcases hread : readDigits? digits with - | m
    · simp [hsign, hnone digits hread]
    · obtain ⟨hnumeral, rfl⟩ := readDigits?_eq_some_iff.mp hread
      simp [hsign, hnumeral]
  · rename_i hsign
    have hnot : ∀ digits, s ≠ '-' :: digits := fun digits h => hsign digits h
    rcases hread : readDigits? s with - | m
    · simp [hnone s hread, hnot]
    · obtain ⟨hnumeral, rfl⟩ := readDigits?_eq_some_iff.mp hread
      simp [hnumeral, hnot]

/-! ### Trimmed numbers -/

/-- A text without blanks is trimmed. -/
theorem trim_eq_self {s : List Char} (h : ∀ c ∈ s, ¬ isBlank c = true) : trim s = s := by
  have hstart : trimStart s = s := by
    cases s with
    | nil => rfl
    | cons c s => exact List.dropWhile_cons_of_neg (h c List.mem_cons_self)
  rw [trim, hstart, trimEnd_eq_self h]

theorem readPlainInt?_trim_ofInt (n : Int) : readPlainInt? (trim (ofInt n)) = some n := by
  rw [trim_eq_self fun c => not_isBlank_of_mem_ofInt, readPlainInt?_ofInt]

end SmallWeb.Text
