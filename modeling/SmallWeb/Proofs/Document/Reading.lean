/-
SmallWeb/Proofs/Document/Reading.lean

The document that a value is.

A value that the structure check accepts is a document tree, and this file says
which: `Document.ofValue?` reads every field of every node at its type and
forgets the identities of the nodes.  The order of a list goes by truth and the
language of a code block by its plain form, which is how formats use them.  The
one thing that the check leaves open is the start of an ordered list, which must
be a whole number (`Value.integerStarts`).

The height of a node is the number of levels below it.  The check bounds depth
and height together, which is what the walks need: a walk that is at some depth
never comes deeper than the height of the node in front of it.

Main result: `Document.ofValue?_of_check`.
-/
import SmallWeb.Document
import SmallWeb.Proofs.Result
import SmallWeb.Structure

namespace SmallWeb

/-! ### Reading values -/

mutual

/-- The inline node that a value is. -/
def Inline.ofValue? : Value → Option Inline
  | .text _ (.string t) => some (.text t)
  | .code _ (.string literal) => some (.code literal)
  | .lineBreak _ => some .lineBreak
  | .emphasis _ children => (Inline.run? children).map .emphasis
  | .strong _ children => (Inline.run? children).map .strong
  | .link _ (.string href) children => (Inline.run? children).map (.link href)
  | _ => none

/-- The run of inline nodes that a value is. -/
def Inline.run? : Value → Option (List Inline)
  | .tuple vs => Inline.all? vs
  | .array vs => Inline.all? vs
  | _ => none

/-- The inline nodes that values are. -/
def Inline.all? : List Value → Option (List Inline)
  | [] => some []
  | v :: vs => do return (← Inline.ofValue? v) :: (← Inline.all? vs)

end

/-- The level of a heading that a value is. -/
def Value.level? (v : Value) : Option Int := v.asInt?.filter fun n => 1 ≤ n && n ≤ 6

/-- The language of a code block, in its plain form. -/
def Value.language? (v : Value) : Option (List Char) := if v.truthy then some v.plain else none

/-- The number of the first item of a list.  It matters in ordered lists only, and
others may have any value there. -/
def Value.start? (ordered start : Value) : Option Int :=
  if ordered.truthy then start.asInt? else some (start.asInt?.getD 1)

mutual

/-- The block that a value is. -/
def Block.ofValue? : Value → Option Block
  | .heading _ level inline => do return .heading (← level.level?) (← Inline.run? inline)
  | .paragraph _ inline => (Inline.run? inline).map .paragraph
  | .list _ ordered items start => do
    return .list ordered.truthy (← Block.items? items) (← Value.start? ordered start)
  | .codeBlock _ (.string literal) language => some (.codeBlock literal language.language?)
  | .blockquote _ children => (Block.run? children).map .blockquote
  | .thematicBreak _ => some .thematicBreak
  | _ => none

/-- The sequence of blocks that a value is. -/
def Block.run? : Value → Option (List Block)
  | .tuple vs => Block.all? vs
  | .array vs => Block.all? vs
  | _ => none

/-- The blocks that values are. -/
def Block.all? : List Value → Option (List Block)
  | [] => some []
  | v :: vs => do return (← Block.ofValue? v) :: (← Block.all? vs)

/-- The items of a list that a value is. -/
def Block.items? : Value → Option (List (List Block))
  | .tuple vs => Block.eachItem? vs
  | .array vs => Block.eachItem? vs
  | _ => none

/-- The items that values are. -/
def Block.eachItem? : List Value → Option (List (List Block))
  | [] => some []
  | v :: vs => do return (← Block.run? v) :: (← Block.eachItem? vs)

end

/-- The document that a value is. -/
def Document.ofValue? : Value → Option Document
  | .document _ blocks => (Block.run? blocks).map Document.mk
  | _ => none

mutual

/-- Whether the ordered lists in a value start with whole numbers. -/
def Value.integerStarts : Value → Bool
  | .document _ blocks => blocks.integerStarts
  | .list _ ordered items start => (Value.start? ordered start).isSome && items.integerStarts
  | .blockquote _ children => children.integerStarts
  | .tuple vs => Value.allIntegerStarts vs
  | .array vs => Value.allIntegerStarts vs
  | _ => true

/-- Whether the ordered lists in values start with whole numbers. -/
def Value.allIntegerStarts : List Value → Bool
  | [] => true
  | v :: vs => v.integerStarts && Value.allIntegerStarts vs

end

/-! #### What can be read #### -/

theorem Inline.all?_cons_eq_some {v : Value} {vs : List Value} {is : List Inline}
    (h : Inline.all? (v :: vs) = some is) :
    ∃ i js, Inline.ofValue? v = some i ∧ Inline.all? vs = some js ∧ is = i :: js := by
  rw [Inline.all?] at h
  obtain ⟨i, hi, h⟩ := Option.bind_eq_some_iff.mp h
  obtain ⟨js, hjs, h⟩ := Option.bind_eq_some_iff.mp h
  exact ⟨i, js, hi, hjs, (Option.some.inj h).symm⟩

theorem Block.all?_cons_eq_some {v : Value} {vs : List Value} {bs : List Block}
    (h : Block.all? (v :: vs) = some bs) :
    ∃ b cs, Block.ofValue? v = some b ∧ Block.all? vs = some cs ∧ bs = b :: cs := by
  rw [Block.all?] at h
  obtain ⟨b, hb, h⟩ := Option.bind_eq_some_iff.mp h
  obtain ⟨cs, hcs, h⟩ := Option.bind_eq_some_iff.mp h
  exact ⟨b, cs, hb, hcs, (Option.some.inj h).symm⟩

theorem Block.eachItem?_cons_eq_some {v : Value} {vs : List Value} {bss : List (List Block)}
    (h : Block.eachItem? (v :: vs) = some bss) :
    ∃ bs css, Block.run? v = some bs ∧ Block.eachItem? vs = some css ∧ bss = bs :: css := by
  rw [Block.eachItem?] at h
  obtain ⟨bs, hbs, h⟩ := Option.bind_eq_some_iff.mp h
  obtain ⟨css, hcss, h⟩ := Option.bind_eq_some_iff.mp h
  exact ⟨bs, css, hbs, hcss, (Option.some.inj h).symm⟩

theorem Block.ofValue?_heading_eq_some {id : Nat} {level inline : Value} {b : Block}
    (h : Block.ofValue? (.heading id level inline) = some b) :
    ∃ n is, level.level? = some n ∧ Inline.run? inline = some is ∧ b = .heading n is := by
  rw [Block.ofValue?] at h
  obtain ⟨n, hn, h⟩ := Option.bind_eq_some_iff.mp h
  obtain ⟨is, his, h⟩ := Option.bind_eq_some_iff.mp h
  exact ⟨n, is, hn, his, (Option.some.inj h).symm⟩

theorem Block.ofValue?_list_eq_some {id : Nat} {ordered items start : Value} {b : Block}
    (h : Block.ofValue? (.list id ordered items start) = some b) :
    ∃ bss n, Block.items? items = some bss ∧ Value.start? ordered start = some n ∧
      b = .list ordered.truthy bss n := by
  rw [Block.ofValue?] at h
  obtain ⟨bss, hbss, h⟩ := Option.bind_eq_some_iff.mp h
  obtain ⟨n, hn, h⟩ := Option.bind_eq_some_iff.mp h
  exact ⟨bss, n, hbss, hn, (Option.some.inj h).symm⟩

/-! ### Heights -/

mutual

/-- The number of levels below an inline node. -/
def Inline.height : Inline → Nat
  | .text _ => 0
  | .code _ => 0
  | .lineBreak => 0
  | .emphasis children => Inline.runHeight children
  | .strong children => Inline.runHeight children
  | .link _ children => Inline.runHeight children

/-- The number of levels in a run of inline nodes. -/
def Inline.runHeight : List Inline → Nat
  | [] => 0
  | i :: is => max (i.height + 1) (Inline.runHeight is)

end

mutual

/-- The number of levels below a block. -/
def Block.height : Block → Nat
  | .heading _ inline => Inline.runHeight inline
  | .paragraph inline => Inline.runHeight inline
  | .list _ items _ => Block.itemsHeight items
  | .codeBlock _ _ => 0
  | .blockquote children => Block.runHeight children
  | .thematicBreak => 0

/-- The number of levels in a sequence of blocks. -/
def Block.runHeight : List Block → Nat
  | [] => 0
  | b :: bs => max (b.height + 1) (Block.runHeight bs)

/-- The number of levels in the items of a list. -/
def Block.itemsHeight : List (List Block) → Nat
  | [] => 0
  | bs :: items => max (Block.runHeight bs) (Block.itemsHeight items)

end

/-! ### What the check accepts -/

theorem Value.level?_eq_some_iff {v : Value} {n : Int} :
    v.level? = some n ↔ v.asInt? = some n ∧ 1 ≤ n ∧ n ≤ 6 := by
  simp [Value.level?, Option.filter_eq_some_iff]

namespace Structure

theorem enter_eq_ok_iff {limit : Int} {depth id : Nat} {seen seen' : List Nat} {kind : String} :
    enter limit depth seen id kind = .ok seen' ↔
      (depth : Int) ≤ limit ∧ id ∉ seen ∧ seen' = id :: seen := by
  unfold enter
  split
  · simp only [reduceCtorEq, false_iff]
    omega
  · rename_i hdepth
    split
    · rename_i hid
      have hmem : id ∈ seen := by simpa using hid
      simp [hmem]
    · rename_i hid
      have hmem : id ∉ seen := by simpa using hid
      have hle : (depth : Int) ≤ limit := by omega
      simp only [Except.ok.injEq, hle, hmem, not_false_eq_true, true_and]
      exact eq_comm

theorem isText_eq_true_iff {v : Value} : isText v = true ↔ ∃ s, v = .string s := by
  cases v <;> simp [isText]

theorem isLevel_eq_true_iff {v : Value} : isLevel v = true ↔ ∃ n, v.level? = some n := by
  unfold isLevel Value.level?
  cases v.asInt? <;> simp [Option.filter_some]

end Structure

open Structure

/-! #### Running text -/

mutual

/-- An accepted value in the place of an inline node is one, and all that it
holds lies within the limit. -/
theorem Inline.ofValue?_of_check {limit : Int} {depth : Nat} {seen seen' : List Nat}
    (v : Value) (h : checkInline limit depth seen v = .ok seen') :
    ∃ i, Inline.ofValue? v = some i ∧ (depth : Int) + i.height ≤ limit := by
  cases v with
  | text id t =>
    rw [checkInline, bind_eq_ok_iff] at h
    obtain ⟨mid, hmid, h⟩ := h
    split at h
    · rename_i ht
      obtain ⟨s, rfl⟩ := isText_eq_true_iff.mp ht
      exact ⟨.text s, rfl, by simpa [Inline.height] using (enter_eq_ok_iff.mp hmid).1⟩
    · cases h
  | code id t =>
    rw [checkInline, bind_eq_ok_iff] at h
    obtain ⟨mid, hmid, h⟩ := h
    split at h
    · rename_i ht
      obtain ⟨s, rfl⟩ := isText_eq_true_iff.mp ht
      exact ⟨.code s, rfl, by simpa [Inline.height] using (enter_eq_ok_iff.mp hmid).1⟩
    · cases h
  | lineBreak id =>
    rw [checkInline] at h
    exact ⟨.lineBreak, rfl, by simpa [Inline.height] using (enter_eq_ok_iff.mp h).1⟩
  | emphasis id children =>
    rw [checkInline, bind_eq_ok_iff] at h
    obtain ⟨mid, hmid, h⟩ := h
    obtain ⟨is, his, hle⟩ := Inline.run?_of_check children h
    refine ⟨.emphasis is, by rw [Inline.ofValue?, his, Option.map_some], ?_⟩
    exact hle (enter_eq_ok_iff.mp hmid).1
  | strong id children =>
    rw [checkInline, bind_eq_ok_iff] at h
    obtain ⟨mid, hmid, h⟩ := h
    obtain ⟨is, his, hle⟩ := Inline.run?_of_check children h
    refine ⟨.strong is, by rw [Inline.ofValue?, his, Option.map_some], ?_⟩
    exact hle (enter_eq_ok_iff.mp hmid).1
  | link id href children =>
    rw [checkInline, bind_eq_ok_iff] at h
    obtain ⟨mid, hmid, h⟩ := h
    split at h
    · rename_i ht
      obtain ⟨s, rfl⟩ := isText_eq_true_iff.mp ht
      obtain ⟨is, his, hle⟩ := Inline.run?_of_check children h
      refine ⟨.link s is, by rw [Inline.ofValue?, his, Option.map_some], ?_⟩
      exact hle (enter_eq_ok_iff.mp hmid).1
    · cases h
  | _ => simp [checkInline] at h

/-- An accepted value in the place of a run is one. -/
theorem Inline.run?_of_check {limit : Int} {slot : SequenceSlot} {depth : Nat}
    {seen seen' : List Nat} (v : Value)
    (h : checkRun limit slot (depth + 1) seen v = .ok seen') :
    ∃ is, Inline.run? v = some is ∧
      ((depth : Int) ≤ limit → (depth : Int) + Inline.runHeight is ≤ limit) := by
  cases v with
  | tuple vs => exact Inline.all?_of_check vs h
  | array vs => exact Inline.all?_of_check vs h
  | _ => simp [checkRun] at h

/-- Accepted values in the places of inline nodes are such. -/
theorem Inline.all?_of_check {limit : Int} {depth : Nat} {seen seen' : List Nat}
    (vs : List Value) (h : checkInlines limit (depth + 1) seen vs = .ok seen') :
    ∃ is, Inline.all? vs = some is ∧
      ((depth : Int) ≤ limit → (depth : Int) + Inline.runHeight is ≤ limit) := by
  cases vs with
  | nil => exact ⟨[], rfl, by simp [Inline.runHeight]⟩
  | cons v vs =>
    rw [checkInlines, bind_eq_ok_iff] at h
    obtain ⟨mid, hv, hvs⟩ := h
    obtain ⟨i, hi, hile⟩ := Inline.ofValue?_of_check v hv
    obtain ⟨is, his, hisle⟩ := Inline.all?_of_check vs hvs
    refine ⟨i :: is, by rw [Inline.all?, hi, his]; rfl, fun hdepth => ?_⟩
    have hrest := hisle hdepth
    rw [Inline.runHeight]
    push_cast at hile ⊢
    omega

end

/-! #### Blocks -/

mutual

/-- An accepted value in the place of a block is one, and all that it holds lies
within the limit. -/
theorem Block.ofValue?_of_check {limit : Int} {depth : Nat} {seen seen' : List Nat}
    (v : Value) (hstarts : v.integerStarts = true)
    (h : checkBlock limit depth seen v = .ok seen') :
    ∃ b, Block.ofValue? v = some b ∧ (depth : Int) + b.height ≤ limit := by
  cases v with
  | heading id level inline =>
    rw [checkBlock, bind_eq_ok_iff] at h
    obtain ⟨mid, hmid, h⟩ := h
    split at h
    · rename_i hlevel
      obtain ⟨n, hn⟩ := isLevel_eq_true_iff.mp hlevel
      obtain ⟨is, his, hle⟩ := Inline.run?_of_check inline h
      refine ⟨.heading n is, by rw [Block.ofValue?, hn, his]; rfl, ?_⟩
      exact hle (enter_eq_ok_iff.mp hmid).1
    · cases h
  | paragraph id inline =>
    rw [checkBlock, bind_eq_ok_iff] at h
    obtain ⟨mid, hmid, h⟩ := h
    obtain ⟨is, his, hle⟩ := Inline.run?_of_check inline h
    refine ⟨.paragraph is, by rw [Block.ofValue?, his, Option.map_some], ?_⟩
    exact hle (enter_eq_ok_iff.mp hmid).1
  | list id ordered items start =>
    rw [checkBlock, bind_eq_ok_iff] at h
    obtain ⟨mid, hmid, h⟩ := h
    rw [Value.integerStarts, Bool.and_eq_true] at hstarts
    obtain ⟨n, hn⟩ := Option.isSome_iff_exists.mp hstarts.1
    obtain ⟨bss, hbss, hle⟩ := Block.items?_of_check items hstarts.2 h
    refine ⟨.list ordered.truthy bss n, by rw [Block.ofValue?, hbss, hn]; rfl, ?_⟩
    exact hle (enter_eq_ok_iff.mp hmid).1
  | codeBlock id literal language =>
    rw [checkBlock, bind_eq_ok_iff] at h
    obtain ⟨mid, hmid, h⟩ := h
    split at h
    · rename_i ht
      obtain ⟨s, rfl⟩ := isText_eq_true_iff.mp ht
      exact ⟨_, rfl, by simpa [Block.height] using (enter_eq_ok_iff.mp hmid).1⟩
    · cases h
  | blockquote id children =>
    rw [checkBlock, bind_eq_ok_iff] at h
    obtain ⟨mid, hmid, h⟩ := h
    obtain ⟨bs, hbs, hle⟩ := Block.run?_of_check children hstarts h
    refine ⟨.blockquote bs, by rw [Block.ofValue?, hbs, Option.map_some], ?_⟩
    exact hle (enter_eq_ok_iff.mp hmid).1
  | thematicBreak id =>
    rw [checkBlock] at h
    exact ⟨.thematicBreak, rfl, by simpa [Block.height] using (enter_eq_ok_iff.mp h).1⟩
  | _ => simp [checkBlock] at h

/-- An accepted value in the place of a sequence of blocks is one. -/
theorem Block.run?_of_check {limit : Int} {slot : SequenceSlot} {depth : Nat}
    {seen seen' : List Nat} (v : Value) (hstarts : v.integerStarts = true)
    (h : checkBlockRun limit slot (depth + 1) seen v = .ok seen') :
    ∃ bs, Block.run? v = some bs ∧
      ((depth : Int) ≤ limit → (depth : Int) + Block.runHeight bs ≤ limit) := by
  cases v with
  | tuple vs => exact Block.all?_of_check vs hstarts h
  | array vs => exact Block.all?_of_check vs hstarts h
  | _ => simp [checkBlockRun] at h

/-- Accepted values in the places of blocks are such. -/
theorem Block.all?_of_check {limit : Int} {depth : Nat} {seen seen' : List Nat}
    (vs : List Value) (hstarts : Value.allIntegerStarts vs = true)
    (h : checkBlocks limit (depth + 1) seen vs = .ok seen') :
    ∃ bs, Block.all? vs = some bs ∧
      ((depth : Int) ≤ limit → (depth : Int) + Block.runHeight bs ≤ limit) := by
  cases vs with
  | nil => exact ⟨[], rfl, by simp [Block.runHeight]⟩
  | cons v vs =>
    rw [checkBlocks, bind_eq_ok_iff] at h
    obtain ⟨mid, hv, hvs⟩ := h
    rw [Value.allIntegerStarts, Bool.and_eq_true] at hstarts
    obtain ⟨b, hb, hble⟩ := Block.ofValue?_of_check v hstarts.1 hv
    obtain ⟨bs, hbs, hbsle⟩ := Block.all?_of_check vs hstarts.2 hvs
    refine ⟨b :: bs, by rw [Block.all?, hb, hbs]; rfl, fun hdepth => ?_⟩
    have hrest := hbsle hdepth
    rw [Block.runHeight]
    push_cast at hble ⊢
    omega

/-- An accepted value in the place of the items of a list is such. -/
theorem Block.items?_of_check {limit : Int} {depth : Nat} {seen seen' : List Nat}
    (v : Value) (hstarts : v.integerStarts = true)
    (h : checkItems limit (depth + 1) seen v = .ok seen') :
    ∃ bss, Block.items? v = some bss ∧
      ((depth : Int) ≤ limit → (depth : Int) + Block.itemsHeight bss ≤ limit) := by
  cases v with
  | tuple vs => exact Block.eachItem?_of_check vs hstarts h
  | array vs => exact Block.eachItem?_of_check vs hstarts h
  | _ => simp [checkItems] at h

/-- Accepted values in the places of items are such. -/
theorem Block.eachItem?_of_check {limit : Int} {depth : Nat} {seen seen' : List Nat}
    (vs : List Value) (hstarts : Value.allIntegerStarts vs = true)
    (h : checkEachItem limit (depth + 1) seen vs = .ok seen') :
    ∃ bss, Block.eachItem? vs = some bss ∧
      ((depth : Int) ≤ limit → (depth : Int) + Block.itemsHeight bss ≤ limit) := by
  cases vs with
  | nil => exact ⟨[], rfl, by simp [Block.itemsHeight]⟩
  | cons v vs =>
    rw [checkEachItem, bind_eq_ok_iff] at h
    obtain ⟨mid, hv, hvs⟩ := h
    rw [Value.allIntegerStarts, Bool.and_eq_true] at hstarts
    obtain ⟨bs, hbs, hbsle⟩ := Block.run?_of_check v hstarts.1 hv
    obtain ⟨bss, hbss, hbssle⟩ := Block.eachItem?_of_check vs hstarts.2 hvs
    refine ⟨bs :: bss, by rw [Block.eachItem?, hbs, hbss]; rfl, fun hdepth => ?_⟩
    have hfirst := hbsle hdepth
    have hrest := hbssle hdepth
    rw [Block.itemsHeight]
    push_cast
    omega

end

/-- **An accepted value is a document**, and nothing in it lies deeper than the
limit. -/
theorem Document.ofValue?_of_check {limit : Int} (hlimit : 0 ≤ limit) {v : Value}
    (hstarts : v.integerStarts = true) (h : check limit v = .ok ()) :
    ∃ d, Document.ofValue? v = some d ∧ (Block.runHeight d.blocks : Int) ≤ limit := by
  cases v with
  | document id blocks =>
    rw [check, bind_eq_ok_iff] at h
    obtain ⟨seen, hseen, -⟩ := h
    obtain ⟨bs, hbs, hle⟩ := @Block.run?_of_check limit _ 0 _ _ blocks hstarts hseen
    refine ⟨⟨bs⟩, by rw [Document.ofValue?, hbs, Option.map_some], ?_⟩
    simpa using hle (by simpa using hlimit)
  | _ => simp [check] at h

end SmallWeb
