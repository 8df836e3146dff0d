/-
SmallWeb/Proofs/Document/Numbering.lean

Typed documents as values.

Nodes are numbered in reading order, so the structure check meets every number
for the first time: all that it has entered before is smaller (`checkBlock_number`
and its companions carry that bound along).  With levels in their range and no
node too deep the check accepts the value, and reading the value gives the
document back.

Main results: `Document.check_value` and `Document.ofValue?_value`.
-/
import SmallWeb.Proofs.Document.Reading

namespace SmallWeb

open Structure

/-! ### Proper blocks -/

mutual

/-- Whether levels are in their range and languages are not empty. -/
def Block.proper : Block → Bool
  | .heading level _ => 1 ≤ level && level ≤ 6
  | .paragraph _ => true
  | .list _ bss _ => Block.itemsProper bss
  | .codeBlock _ language => language != some []
  | .blockquote children => Block.runProper children
  | .thematicBreak => true

/-- Whether all blocks of a sequence are proper. -/
def Block.runProper : List Block → Bool
  | [] => true
  | b :: bs => b.proper && Block.runProper bs

/-- Whether all blocks in the items of a list are proper. -/
def Block.itemsProper : List (List Block) → Bool
  | [] => true
  | bs :: bss => Block.runProper bs && Block.itemsProper bss

end

/-! ### Reading numbered nodes -/

mutual

theorem Inline.ofValue?_number (i : Inline) (next : Nat) :
    Inline.ofValue? (i.number next).1 = some i := by
  cases i with
  | text t => rfl
  | code literal => rfl
  | lineBreak => rfl
  | emphasis children =>
    show (Inline.all? (Inline.numberAll (next + 1) children).1).map Inline.emphasis = _
    rw [Inline.all?_numberAll children, Option.map_some]
  | strong children =>
    show (Inline.all? (Inline.numberAll (next + 1) children).1).map Inline.strong = _
    rw [Inline.all?_numberAll children, Option.map_some]
  | link href children =>
    show (Inline.all? (Inline.numberAll (next + 1) children).1).map (Inline.link href) = _
    rw [Inline.all?_numberAll children, Option.map_some]

theorem Inline.all?_numberAll (is : List Inline) (next : Nat) :
    Inline.all? (Inline.numberAll next is).1 = some is := by
  cases is with
  | nil => rfl
  | cons i is =>
    show Inline.all? ((i.number next).1 :: (Inline.numberAll (i.number next).2 is).1) = _
    rw [Inline.all?, Inline.ofValue?_number i, Inline.all?_numberAll is]
    rfl

end

theorem Value.level?_int {n : Int} (h : (1 ≤ n && n ≤ 6) = true) : (Value.int n).level? = some n := by
  unfold Value.level? Value.asInt?
  rw [Option.filter_some, if_pos h]

theorem Value.language?_string {language : Option (List Char)} (h : (language != some []) = true) :
    ((language.map Value.string).getD .null).language? = language := by
  cases language with
  | none => rfl
  | some name =>
    have hname : (Value.string name).truthy = true := by simpa [Value.truthy] using h
    show (if (Value.string name).truthy then some name else none) = some name
    rw [hname, if_pos rfl]

theorem Value.start?_int (ordered : Value) (n : Int) : Value.start? ordered (.int n) = some n := by
  unfold Value.start? Value.asInt?
  split <;> rfl

mutual

/-- **Reading a numbered block** gives it back. -/
theorem Block.ofValue?_number (b : Block) (next : Nat) (hb : b.proper = true) :
    Block.ofValue? (b.number next).1 = some b := by
  cases b with
  | heading level inline =>
    show Block.ofValue? (.heading next (.int level) (.tuple (Inline.numberAll (next + 1) inline).1)) = _
    rw [Block.ofValue?, Value.level?_int hb, Inline.run?, Inline.all?_numberAll]
    rfl
  | paragraph inline =>
    show (Inline.all? (Inline.numberAll (next + 1) inline).1).map Block.paragraph = _
    rw [Inline.all?_numberAll, Option.map_some]
  | list ordered bss start =>
    show Block.ofValue? (.list next (.bool ordered) (.tuple (Block.numberItems (next + 1) bss).1)
      (.int start)) = _
    rw [Block.ofValue?, Block.items?, Block.eachItem?_numberItems bss _ hb, Value.start?_int]
    rfl
  | codeBlock literal language =>
    show some (Block.codeBlock literal ((language.map Value.string).getD .null).language?) = _
    rw [Value.language?_string hb]
  | blockquote children =>
    show (Block.all? (Block.numberAll (next + 1) children).1).map Block.blockquote = _
    rw [Block.all?_numberAll children _ hb, Option.map_some]
  | thematicBreak => rfl

theorem Block.all?_numberAll (bs : List Block) (next : Nat) (hbs : Block.runProper bs = true) :
    Block.all? (Block.numberAll next bs).1 = some bs := by
  cases bs with
  | nil => rfl
  | cons b bs =>
    obtain ⟨hb, hrest⟩ := Bool.and_eq_true_iff.mp hbs
    show Block.all? ((b.number next).1 :: (Block.numberAll (b.number next).2 bs).1) = _
    rw [Block.all?, Block.ofValue?_number b _ hb, Block.all?_numberAll bs _ hrest]
    rfl

theorem Block.eachItem?_numberItems (bss : List (List Block)) (next : Nat)
    (hbss : Block.itemsProper bss = true) :
    Block.eachItem? (Block.numberItems next bss).1 = some bss := by
  cases bss with
  | nil => rfl
  | cons bs bss =>
    obtain ⟨hbs, hrest⟩ := Bool.and_eq_true_iff.mp hbss
    show Block.eachItem? (.tuple (Block.numberAll next bs).1 ::
      (Block.numberItems (Block.numberAll next bs).2 bss).1) = _
    rw [Block.eachItem?, Block.run?, Block.all?_numberAll bs _ hbs,
      Block.eachItem?_numberItems bss _ hrest]
    rfl

end

/-- **Reading the value of a document** gives the document back. -/
theorem Document.ofValue?_value {d : Document} (hd : Block.runProper d.blocks = true) :
    Document.ofValue? d.value = some d := by
  show (Block.all? (Block.numberAll 1 d.blocks).1).map Document.mk = _
  rw [Block.all?_numberAll d.blocks 1 hd, Option.map_some]

/-! ### The structure check -/

/-- All numbers given so far are smaller than the next one. -/
def Below (next : Nat) (seen : List Nat) : Prop := ∀ id ∈ seen, id < next

/-- A node with the next number may be entered. -/
theorem Below.enter {limit : Int} {depth next : Nat} {seen : List Nat} (h : Below next seen)
    (hdepth : (depth : Int) ≤ limit) (kind : String) :
    enter limit depth seen next kind = .ok (next :: seen) ∧ Below (next + 1) (next :: seen) := by
  -- The number is new because every number entered before is smaller.
  refine ⟨enter_eq_ok_iff.mpr ⟨hdepth, fun hmem => ?_, rfl⟩, fun id hid => ?_⟩
  · exact absurd (h next hmem) (Nat.lt_irrefl next)
  · rcases List.mem_cons.mp hid with rfl | hid
    · exact Nat.lt_succ_self _
    · exact Nat.lt_succ_of_lt (h id hid)

mutual

theorem checkInline_number {limit : Int} (i : Inline) {depth next : Nat} {seen : List Nat}
    (hseen : Below next seen) (hdepth : (depth : Int) + i.height ≤ limit) :
    ∃ seen', checkInline limit depth seen (i.number next).1 = .ok seen' ∧
      Below (i.number next).2 seen' := by
  have hle : (depth : Int) ≤ limit := by omega
  cases i with
  | text t =>
    obtain ⟨henter, hbelow⟩ := hseen.enter hle "Text"
    refine ⟨_, ?_, hbelow⟩
    show checkInline limit depth seen (.text next (.string t)) = _
    rw [checkInline, henter]
    rfl
  | code literal =>
    obtain ⟨henter, hbelow⟩ := hseen.enter hle "Code"
    refine ⟨_, ?_, hbelow⟩
    show checkInline limit depth seen (.code next (.string literal)) = _
    rw [checkInline, henter]
    rfl
  | lineBreak =>
    obtain ⟨henter, hbelow⟩ := hseen.enter hle "LineBreak"
    exact ⟨_, henter, hbelow⟩
  | emphasis children =>
    obtain ⟨henter, hbelow⟩ := hseen.enter hle "Emphasis"
    obtain ⟨seen', hcheck, hbelow'⟩ := checkInlines_number children hbelow hdepth
    refine ⟨seen', ?_, hbelow'⟩
    show checkInline limit depth seen
      (.emphasis next (.tuple (Inline.numberAll (next + 1) children).1)) = _
    rw [checkInline, henter, ok_bind]
    exact hcheck
  | strong children =>
    obtain ⟨henter, hbelow⟩ := hseen.enter hle "Strong"
    obtain ⟨seen', hcheck, hbelow'⟩ := checkInlines_number children hbelow hdepth
    refine ⟨seen', ?_, hbelow'⟩
    show checkInline limit depth seen
      (.strong next (.tuple (Inline.numberAll (next + 1) children).1)) = _
    rw [checkInline, henter, ok_bind]
    exact hcheck
  | link href children =>
    obtain ⟨henter, hbelow⟩ := hseen.enter hle "Link"
    obtain ⟨seen', hcheck, hbelow'⟩ := checkInlines_number children hbelow hdepth
    refine ⟨seen', ?_, hbelow'⟩
    show checkInline limit depth seen
      (.link next (.string href) (.tuple (Inline.numberAll (next + 1) children).1)) = _
    rw [checkInline, henter, ok_bind]
    exact hcheck

theorem checkInlines_number {limit : Int} (is : List Inline) {depth next : Nat} {seen : List Nat}
    (hseen : Below next seen) (hdepth : (depth : Int) + Inline.runHeight is ≤ limit) :
    ∃ seen', checkInlines limit (depth + 1) seen (Inline.numberAll next is).1 = .ok seen' ∧
      Below (Inline.numberAll next is).2 seen' := by
  cases is with
  | nil => exact ⟨seen, rfl, hseen⟩
  | cons i is =>
    rw [Inline.runHeight] at hdepth
    have hfirst : ((depth + 1 : Nat) : Int) + i.height ≤ limit := by omega
    have hrest : (depth : Int) + Inline.runHeight is ≤ limit := by omega
    obtain ⟨mid, hmid, hbelow⟩ := checkInline_number i hseen hfirst
    obtain ⟨seen', hcheck, hbelow'⟩ := checkInlines_number is hbelow hrest
    refine ⟨seen', ?_, hbelow'⟩
    show checkInlines limit (depth + 1) seen
      ((i.number next).1 :: (Inline.numberAll (i.number next).2 is).1) = _
    rw [checkInlines, hmid, ok_bind]
    exact hcheck

end

mutual

/-- **The check accepts a numbered block** whose numbers are new. -/
theorem checkBlock_number {limit : Int} (b : Block) {depth next : Nat} {seen : List Nat}
    (hb : b.proper = true) (hseen : Below next seen) (hdepth : (depth : Int) + b.height ≤ limit) :
    ∃ seen', checkBlock limit depth seen (b.number next).1 = .ok seen' ∧
      Below (b.number next).2 seen' := by
  have hle : (depth : Int) ≤ limit := by omega
  cases b with
  | heading level inline =>
    obtain ⟨henter, hbelow⟩ := hseen.enter hle "Heading"
    obtain ⟨seen', hcheck, hbelow'⟩ := checkInlines_number inline hbelow hdepth
    have hlevel : isLevel (.int level) = true := hb
    refine ⟨seen', ?_, hbelow'⟩
    show checkBlock limit depth seen
      (.heading next (.int level) (.tuple (Inline.numberAll (next + 1) inline).1)) = _
    rw [checkBlock, henter, ok_bind, if_pos hlevel]
    exact hcheck
  | paragraph inline =>
    obtain ⟨henter, hbelow⟩ := hseen.enter hle "Paragraph"
    obtain ⟨seen', hcheck, hbelow'⟩ := checkInlines_number inline hbelow hdepth
    refine ⟨seen', ?_, hbelow'⟩
    show checkBlock limit depth seen
      (.paragraph next (.tuple (Inline.numberAll (next + 1) inline).1)) = _
    rw [checkBlock, henter, ok_bind]
    exact hcheck
  | list ordered bss start =>
    obtain ⟨henter, hbelow⟩ := hseen.enter hle "List"
    obtain ⟨seen', hcheck, hbelow'⟩ := checkEachItem_number bss hb hbelow hdepth
    refine ⟨seen', ?_, hbelow'⟩
    show checkBlock limit depth seen (.list next (.bool ordered)
      (.tuple (Block.numberItems (next + 1) bss).1) (.int start)) = _
    rw [checkBlock, henter, ok_bind]
    exact hcheck
  | codeBlock literal language =>
    obtain ⟨henter, hbelow⟩ := hseen.enter hle "CodeBlock"
    refine ⟨_, ?_, hbelow⟩
    show checkBlock limit depth seen
      (.codeBlock next (.string literal) ((language.map Value.string).getD .null)) = _
    rw [checkBlock, henter]
    rfl
  | blockquote children =>
    obtain ⟨henter, hbelow⟩ := hseen.enter hle "Blockquote"
    obtain ⟨seen', hcheck, hbelow'⟩ := checkBlocks_number children hb hbelow hdepth
    refine ⟨seen', ?_, hbelow'⟩
    show checkBlock limit depth seen
      (.blockquote next (.tuple (Block.numberAll (next + 1) children).1)) = _
    rw [checkBlock, henter, ok_bind]
    exact hcheck
  | thematicBreak =>
    obtain ⟨henter, hbelow⟩ := hseen.enter hle "ThematicBreak"
    exact ⟨_, henter, hbelow⟩

theorem checkBlocks_number {limit : Int} (bs : List Block) {depth next : Nat} {seen : List Nat}
    (hbs : Block.runProper bs = true) (hseen : Below next seen)
    (hdepth : (depth : Int) + Block.runHeight bs ≤ limit) :
    ∃ seen', checkBlocks limit (depth + 1) seen (Block.numberAll next bs).1 = .ok seen' ∧
      Below (Block.numberAll next bs).2 seen' := by
  cases bs with
  | nil => exact ⟨seen, rfl, hseen⟩
  | cons b bs =>
    obtain ⟨hb, hproper⟩ := Bool.and_eq_true_iff.mp hbs
    rw [Block.runHeight] at hdepth
    have hfirst : ((depth + 1 : Nat) : Int) + b.height ≤ limit := by omega
    have hrest : (depth : Int) + Block.runHeight bs ≤ limit := by omega
    obtain ⟨mid, hmid, hbelow⟩ := checkBlock_number b hb hseen hfirst
    obtain ⟨seen', hcheck, hbelow'⟩ := checkBlocks_number bs hproper hbelow hrest
    refine ⟨seen', ?_, hbelow'⟩
    show checkBlocks limit (depth + 1) seen
      ((b.number next).1 :: (Block.numberAll (b.number next).2 bs).1) = _
    rw [checkBlocks, hmid, ok_bind]
    exact hcheck

theorem checkEachItem_number {limit : Int} (bss : List (List Block)) {depth next : Nat}
    {seen : List Nat} (hbss : Block.itemsProper bss = true) (hseen : Below next seen)
    (hdepth : (depth : Int) + Block.itemsHeight bss ≤ limit) :
    ∃ seen', checkEachItem limit (depth + 1) seen (Block.numberItems next bss).1 = .ok seen' ∧
      Below (Block.numberItems next bss).2 seen' := by
  cases bss with
  | nil => exact ⟨seen, rfl, hseen⟩
  | cons bs bss =>
    obtain ⟨hbs, hproper⟩ := Bool.and_eq_true_iff.mp hbss
    rw [Block.itemsHeight] at hdepth
    have hfirst : (depth : Int) + Block.runHeight bs ≤ limit := by omega
    have hrest : (depth : Int) + Block.itemsHeight bss ≤ limit := by omega
    obtain ⟨mid, hmid, hbelow⟩ := checkBlocks_number bs hbs hseen hfirst
    obtain ⟨seen', hcheck, hbelow'⟩ := checkEachItem_number bss hproper hbelow hrest
    refine ⟨seen', ?_, hbelow'⟩
    show checkEachItem limit (depth + 1) seen (.tuple (Block.numberAll next bs).1 ::
      (Block.numberItems (Block.numberAll next bs).2 bss).1) = _
    rw [checkEachItem, checkBlockRun, hmid, ok_bind]
    exact hcheck

end

/-- **The check accepts a proper document** that is not too high. -/
theorem Document.check_value {d : Document} {limit : Int} (hd : Block.runProper d.blocks = true)
    (hheight : (Block.runHeight d.blocks : Int) ≤ limit) : check limit d.value = .ok () := by
  have hseen : Below 1 [] := fun id hid => absurd hid List.not_mem_nil
  have hdepth : ((0 : Nat) : Int) + Block.runHeight d.blocks ≤ limit := by omega
  obtain ⟨seen, hcheck, -⟩ := checkBlocks_number d.blocks hd hseen hdepth
  show check limit (.document 0 (.tuple (Block.numberAll 1 d.blocks).1)) = _
  rw [check, checkBlockRun]
  exact bind_eq_ok_iff.mpr ⟨seen, hcheck, rfl⟩

end SmallWeb
