/-
SmallWeb/Proofs/Options/Reading.lean

What keys and values of options are read as.

The readers are told as relations, without the order in which they try things.  A key
names at most one option (`OptionName.Names`), and a value is read as at most one other
value (`OptionName.Reads`): texts in the notation of their option, and values that are no
texts as they are.  Only a link style must be a text or a style.  Any other value goes to
the reader of styles in its printed form, but no such form is the name of a style: it is
one of a few other words or has a character that is in no name.

Main results: `OptionName.ofKey?_eq_some_iff` and `OptionName.read_eq_ok_iff`.
-/
import SmallWeb.Options.Override
import SmallWeb.Proofs.Result
import SmallWeb.Proofs.Text.Lines
import SmallWeb.Proofs.Text.Number

namespace SmallWeb

/-! ### Keys -/

/-- A key names an option by its full name, or by another name where underscores do not
count. -/
def OptionName.Names (name : OptionName) (key : List Char) : Prop :=
  normalize key = name.name.toList ∨
    ∃ other ∈ aliases, other.2 = name ∧ (normalize key).filter (· != '_') = other.1.toList

/-- **What a key names.** -/
theorem OptionName.ofKey?_eq_some_iff {key : List Char} {name : OptionName} :
    ofKey? key = some name ↔ name.Names key := by
  unfold ofKey? Names
  dsimp only
  constructor
  · intro h
    split at h
    · rename_i other hfound
      refine .inr ⟨other, List.mem_of_find?_eq_some hfound, Option.some.inj h, ?_⟩
      have hname := List.find?_some hfound
      exact (beq_iff_eq.mp hname).symm
    · have hname := List.find?_some h
      exact .inl (beq_iff_eq.mp hname).symm
  · rintro (hname | ⟨other, hmem, rfl, hname⟩)
    · -- Without its underscores a full name is another name, that of the width apart.
      rw [hname]
      cases name <;> decide
    · have hfound : ∀ a ∈ aliases, (aliases.find? fun b => b.1.toList == a.1.toList) = some a := by
        decide
      rw [hname, hfound other hmem]

/-! ### Texts in lower case -/

namespace Text

variable {c : Char} {s : List Char}

theorem mem_trim (hc : c ∈ s) (hblank : ¬ isBlank c = true) : c ∈ trim s := by
  have hstay : ∀ t : List Char, c ∈ t → c ∈ t.dropWhile isBlank := by
    intro t ht
    rw [← List.takeWhile_append_dropWhile (p := isBlank) (l := t)] at ht
    rcases List.mem_append.mp ht with ht | ht
    · exact absurd (List.mem_takeWhile_imp ht) hblank
    · exact ht
  rw [trim, trimEnd, dropEndWhile, List.mem_reverse]
  exact hstay _ (List.mem_reverse.mpr (hstay s hc))

/-- A character that is its own lower case, wherever it stands, is there afterwards. -/
theorem mem_lowerAfter (before : List Char) (hc : c ∈ s) (hsigma : c.toNat ≠ 0x3a3)
    (hlower : lowerChar c = [c]) : c ∈ lowerAfter before s := by
  induction s generalizing before with
  | nil => exact absurd hc List.not_mem_nil
  | cons d s ih =>
    rw [lowerAfter, List.mem_append]
    rcases List.mem_cons.mp hc with rfl | hc
    · left
      rw [if_neg hsigma, hlower]
      exact List.mem_cons_self
    · exact .inr (ih (d :: before) hc)

end Text

/-! ### Link styles -/

/-- A word is the name of a style, or the second name of footnotes. -/
def LinkStyle.GoesBy (s : LinkStyle) (word : List Char) : Prop :=
  word = s.name ∨ s = .footnote ∧ word = "reference".toList

instance (s : LinkStyle) (word : List Char) : Decidable (s.GoesBy word) :=
  inferInstanceAs (Decidable (_ ∨ _))

/-- Characters of printed values that are in no name of a style. -/
def marks : List Char := "0123456789-+.([\x7b".toList

/-- Words that are printed for values without such a character. -/
def plainWords : List (List Char) := ["None", "True", "False", "nan", "inf"].map String.toList

theorem exists_mark_decimalText (n : Nat) (e : Int) :
    ∃ c ∈ Number.decimalText n e, c ∈ marks := by
  unfold Number.decimalText
  dsimp only
  split
  · refine ⟨'.', ?_, by decide⟩
    split
    · simp
    · split <;> simp
  · by_cases hneg : ((Text.ofNat n).length : Int) + e - 1 < 0
    · exact ⟨'-', by simp [hneg], by decide⟩
    · exact ⟨'+', by simp [hneg], by decide⟩

theorem exists_mark_number (x : Float) :
    Number.text x ∈ plainWords ∨ ∃ c ∈ Number.text x, c ∈ marks := by
  unfold Number.text
  split
  · -- Of the numbers that are not finite one has a sign.
    split
    · exact .inl (by decide)
    · split
      · exact .inr ⟨'-', by decide, by decide⟩
      · exact .inl (by decide)
  · rename_i b _
    have hdigits : ∃ c ∈ (if b.significand = 0 then ['0', '.', '0'] else
        Number.decimalText b.scaled.shortest.1 b.scaled.shortest.2), c ∈ marks := by
      split
      · exact ⟨'.', by decide, by decide⟩
      · exact exists_mark_decimalText _ _
    obtain ⟨c, hc, hmark⟩ := hdigits
    exact .inr ⟨c, List.mem_append_right _ hc, hmark⟩

theorem mem_marks_of_mem_ofInt {n : Int} {c : Char} (h : c ∈ Text.ofInt n) : c ∈ marks := by
  rcases Text.isDigit_of_mem_ofInt h with rfl | hdigit
  · decide
  · have hall : ∀ k < 58, 48 ≤ k → Char.ofNat k ∈ marks := by decide
    simp only [Char.isDigit, Bool.and_eq_true, decide_eq_true_eq] at hdigit
    have hmem := hall c.toNat (Nat.lt_succ_of_le hdigit.2) hdigit.1
    rwa [Char.ofNat_toNat] at hmem

/-- A fixed sequence in print, from its printed items. -/
def tupleText : List (List Char) → List Char
  | [one] => ['('] ++ one ++ [',', ')']
  | parts => ['('] ++ Text.joinWith [',', ' '] parts ++ [')']

theorem exists_cons_tupleText (parts : List (List Char)) :
    ∃ s, tupleText parts = '(' :: s := by
  unfold tupleText
  split <;> exact ⟨_, rfl⟩

/-- **The printed form of a value** that is neither text nor style. -/
theorem exists_mark_plain {v : Value} (htext : ∀ t, v ≠ .string t) (hstyle : ∀ s, v ≠ .style s) :
    v.plain ∈ plainWords ∨ ∃ c ∈ v.plain, c ∈ marks := by
  have hnode : ∀ kind fields, ∃ c ∈ Value.nodeText kind fields, c ∈ marks :=
    fun kind fields => ⟨'(', by simp [Value.nodeText], by decide⟩
  have hopen : ∀ (c : Char) (s : List Char), c ∈ marks → ∃ d ∈ c :: s, d ∈ marks :=
    fun c s hc => ⟨c, List.mem_cons_self, hc⟩
  cases v with
  | null => exact .inl (by decide)
  | bool b => cases b <;> exact .inl (by decide)
  | int n =>
    right
    obtain ⟨c, hmem⟩ := List.exists_mem_of_ne_nil _ (Text.ofInt_ne_nil n)
    exact ⟨c, hmem, mem_marks_of_mem_ofInt hmem⟩
  | float x => exact exists_mark_number x
  | string t => exact absurd rfl (htext t)
  | style s => exact absurd rfl (hstyle s)
  | tuple xs =>
    obtain ⟨s, hs⟩ := exists_cons_tupleText (Value.writtenAll xs)
    have hplain : (Value.tuple xs).plain = '(' :: s := hs
    exact .inr (hplain ▸ hopen '(' s (by decide))
  | array xs => exact .inr (hopen '[' _ (by decide))
  | record fs => exact .inr (hopen '\x7b' _ (by decide))
  | _ => exact .inr (hnode _ _)

/-- No printed value but a text is the name of a style. -/
theorem not_goesBy_plain {v : Value} (htext : ∀ t, v ≠ .string t) (hstyle : ∀ s, v ≠ .style s)
    (s : LinkStyle) : ¬ s.GoesBy (Text.lower (Text.trim v.plain)) := by
  have hwords : ∀ word ∈ plainWords, ¬ s.GoesBy (Text.lower (Text.trim word)) := by
    cases s <;> decide +kernel
  have hmarks : (marks.all fun c =>
      !Text.isBlank c && c.toNat != 0x3a3 && Text.lowerChar c == [c]) = true := by decide +kernel
  have hnames : ((s.name ++ "reference".toList).all fun c => !marks.contains c) = true := by
    cases s <;> decide
  rcases exists_mark_plain htext hstyle with hword | ⟨c, hc, hmark⟩
  · exact hwords _ hword
  · have hstays := List.all_eq_true.mp hmarks c hmark
    simp only [Bool.and_eq_true, Bool.not_eq_true', bne_iff_ne, beq_iff_eq] at hstays
    obtain ⟨⟨hblank, hsigma⟩, hlower⟩ := hstays
    have htrim : c ∈ Text.trim v.plain := Text.mem_trim hc (Bool.not_eq_true _ ▸ hblank)
    have hmem : c ∈ Text.lower (Text.trim v.plain) := Text.mem_lowerAfter [] htrim hsigma hlower
    have hnot : c ∉ s.name ++ "reference".toList := by
      intro hc
      have hno := List.all_eq_true.mp hnames c hc
      simp [hmark] at hno
    rintro (hname | ⟨-, hname⟩)
    · exact hnot (List.mem_append_left _ (hname ▸ hmem))
    · exact hnot (List.mem_append_right _ (hname ▸ hmem))

/-- A value that is no style is read by its printed form. -/
theorem LinkStyle.ofValue_eq_ok_iff_goesBy {v : Value} {s : LinkStyle}
    (hstyle : ∀ s', v ≠ .style s') :
    LinkStyle.ofValue v = .ok s ↔ s.GoesBy (Text.lower (Text.trim v.plain)) := by
  unfold LinkStyle.ofValue
  split
  · exact absurd rfl (hstyle _)
  dsimp only
  generalize Text.lower (Text.trim v.plain) = word
  unfold GoesBy
  by_cases hreference : word = "reference".toList
  · subst hreference
    rw [if_pos (beq_self_eq_true _), Except.ok.injEq]
    cases s <;> decide
  · rw [if_neg (by simpa using hreference)]
    constructor
    · intro h
      split at h
      · rename_i s' hfound
        obtain rfl : s' = s := Except.ok.inj h
        have hname := List.find?_some hfound
        exact .inl (beq_iff_eq.mp hname).symm
      · cases h
    · rintro (rfl | ⟨-, hword⟩)
      · cases s <;> rfl
      · exact absurd hword hreference

/-- **What is read as a link style**: a style, or a text that names one. -/
theorem LinkStyle.ofValue_eq_ok_iff {v : Value} {s : LinkStyle} :
    LinkStyle.ofValue v = .ok s ↔
      v = .style s ∨ ∃ text, v = .string text ∧ s.GoesBy (Text.lower (Text.trim text)) := by
  by_cases hstyle : ∃ s', v = .style s'
  · obtain ⟨s', rfl⟩ := hstyle
    simp [LinkStyle.ofValue]
  · have hnot : ∀ s', v ≠ .style s' := fun s' h => hstyle ⟨s', h⟩
    rw [ofValue_eq_ok_iff_goesBy hnot, or_iff_right (hnot s)]
    by_cases htext : ∃ text, v = .string text
    · obtain ⟨text, rfl⟩ := htext
      constructor
      · exact fun h => ⟨text, rfl, h⟩
      · rintro ⟨text', heq, h⟩
        exact Value.string.inj heq ▸ h
    · have hprinted := not_goesBy_plain (fun text h => htext ⟨text, h⟩) hnot s
      exact iff_of_false hprinted fun ⟨text, h, _⟩ => htext ⟨text, h⟩

/-! ### Flags -/

/-- The words for a flag. -/
def flagWords : Bool → List (List Char)
  | true => ["true", "yes", "1", "on"].map String.toList
  | false => ["false", "no", "0", "off"].map String.toList

/-- **What is read as a flag.** -/
theorem readFlag?_eq_some_iff {s : List Char} {b : Bool} :
    readFlag? s = some b ↔ Text.lower (Text.trim s) ∈ flagWords b := by
  unfold readFlag?
  dsimp only
  generalize Text.lower (Text.trim s) = word
  have hwords : ∀ ws : List String,
      (ws.any fun w => w.toList == word) = true ↔ word ∈ ws.map String.toList := by
    intro ws
    simp only [List.any_eq_true, beq_iff_eq, List.mem_map]
  have hapart : ∀ w ∈ flagWords true, w ∉ flagWords false := by decide
  by_cases htrue : word ∈ flagWords true
  · rw [if_pos ((hwords _).mpr htrue)]
    cases b with
    | true => simpa using htrue
    | false => simpa using hapart word htrue
  · rw [if_neg (mt (hwords _).mp htrue)]
    by_cases hfalse : word ∈ flagWords false
    · rw [if_pos ((hwords _).mpr hfalse)]
      cases b with
      | true => simpa using htrue
      | false => simpa using hfalse
    · rw [if_neg (mt (hwords _).mp hfalse)]
      cases b with
      | true => simpa using htrue
      | false => simpa using hfalse

/-! ### Values -/

/-- What the value of an entry means for its option. -/
inductive OptionName.Reads : OptionName → Value → Value → Prop
  /-- A width may be written in digits. -/
  | numeral {text digits : List Char} :
      Text.IsNumeral digits → Text.trim text = digits →
      Reads .width (.string text) (.int (Text.decimal digits))
  /-- There may be a minus sign before the digits. -/
  | negative {text digits : List Char} :
      Text.IsNumeral digits → Text.trim text = '-' :: digits →
      Reads .width (.string text) (.int (-Text.decimal digits))
  | style (s : LinkStyle) : Reads .linkStyle (.style s) (.style s)
  /-- A style may be named. -/
  | named {text : List Char} {s : LinkStyle} :
      s.GoesBy (Text.lower (Text.trim text)) → Reads .linkStyle (.string text) (.style s)
  /-- A flag may be told in a word. -/
  | word {name : OptionName} {text : List Char} {b : Bool} :
      name ≠ .width → name ≠ .linkStyle → Text.lower (Text.trim text) ∈ flagWords b →
      Reads name (.string text) (.bool b)
  /-- What is no text is taken as it is, for a width or a flag. -/
  | typed {name : OptionName} {v : Value} :
      name ≠ .linkStyle → (∀ text, v ≠ .string text) → Reads name v v

namespace OptionName

variable {name : OptionName} {v w : Value} {text : List Char}

theorem read_typed (hname : name ≠ .linkStyle) (hv : ∀ text, v ≠ .string text) :
    name.read v = .ok w ↔ name.Reads v w := by
  have hread : name.read v = .ok v := by
    unfold read
    split
    · exact absurd rfl (hv _)
    · rfl
    · exact absurd rfl hname
    · exact absurd rfl (hv _)
    · rfl
  rw [hread]
  constructor
  · intro h
    obtain rfl := Except.ok.inj h
    exact .typed hname hv
  · intro h
    cases h with
    | typed => rfl
    | style => exact absurd rfl hname
    | _ => exact absurd rfl (hv _)

theorem read_width_text : OptionName.width.read (.string text) = .ok w ↔
    OptionName.width.Reads (.string text) w := by
  have hread : OptionName.width.read (.string text) = .ok w ↔
      ∃ n, Text.readPlainInt? (Text.trim text) = some n ∧ .int n = w := by
    unfold read
    dsimp only
    cases Text.readPlainInt? (Text.trim text) <;> simp
  rw [hread]
  constructor
  · rintro ⟨n, hn, rfl⟩
    rcases Text.readPlainInt?_eq_some_iff.mp hn with ⟨hdigits, rfl⟩ | ⟨digits, htext, hdigits, rfl⟩
    · exact .numeral hdigits rfl
    · exact .negative hdigits htext
  · intro h
    cases h with
    | numeral hdigits htext =>
      exact ⟨_, Text.readPlainInt?_eq_some_iff.mpr (.inl ⟨htext ▸ hdigits, by rw [htext]⟩), rfl⟩
    | negative hdigits htext =>
      exact ⟨_, Text.readPlainInt?_eq_some_iff.mpr (.inr ⟨_, htext, hdigits, rfl⟩), rfl⟩
    | word hwidth => exact absurd rfl hwidth
    | typed _ hv => exact absurd rfl (hv text)

theorem read_flag_text (hwidth : name ≠ .width) (hstyle : name ≠ .linkStyle) :
    name.read (.string text) = .ok w ↔ name.Reads (.string text) w := by
  have hread : name.read (.string text) = .ok w ↔
      ∃ b, readFlag? text = some b ∧ .bool b = w := by
    unfold read
    cases name with
    | width => exact absurd rfl hwidth
    | linkStyle => exact absurd rfl hstyle
    | _ =>
      dsimp only
      cases readFlag? text <;> simp
  rw [hread]
  constructor
  · rintro ⟨b, hb, rfl⟩
    exact .word hwidth hstyle (readFlag?_eq_some_iff.mp hb)
  · intro h
    cases h with
    | word _ _ hword => exact ⟨_, readFlag?_eq_some_iff.mpr hword, rfl⟩
    | typed _ hv => exact absurd rfl (hv text)
    | named => exact absurd rfl hstyle
    | _ => exact absurd rfl hwidth

theorem read_linkStyle : OptionName.linkStyle.read v = .ok w ↔ OptionName.linkStyle.Reads v w := by
  have hread : OptionName.linkStyle.read v = .ok w ↔
      ∃ s, LinkStyle.ofValue v = .ok s ∧ .style s = w := by
    show (LinkStyle.ofValue v).map .style = .ok w ↔ _
    cases LinkStyle.ofValue v <;> simp [Except.map]
  rw [hread]
  constructor
  · rintro ⟨s, hs, rfl⟩
    rcases LinkStyle.ofValue_eq_ok_iff.mp hs with rfl | ⟨text, rfl, hname⟩
    · exact .style s
    · exact .named hname
  · intro h
    cases h with
    | style s => exact ⟨s, LinkStyle.ofValue_eq_ok_iff.mpr (.inl rfl), rfl⟩
    | named hname => exact ⟨_, LinkStyle.ofValue_eq_ok_iff.mpr (.inr ⟨_, rfl, hname⟩), rfl⟩
    | word _ hstyle => exact absurd rfl hstyle
    | typed hstyle => exact absurd rfl hstyle

/-- **What a value is read as.** -/
theorem read_eq_ok_iff : name.read v = .ok w ↔ name.Reads v w := by
  by_cases hstyle : name = .linkStyle
  · subst hstyle
    exact read_linkStyle
  · by_cases htext : ∃ text, v = .string text
    · obtain ⟨text, rfl⟩ := htext
      by_cases hwidth : name = .width
      · subst hwidth
        exact read_width_text
      · exact read_flag_text hwidth hstyle
    · exact read_typed hstyle fun text h => htext ⟨text, h⟩

end OptionName

end SmallWeb
