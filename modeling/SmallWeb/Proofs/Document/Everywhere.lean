/-
SmallWeb/Proofs/Document/Everywhere.lean

Tests that hold at every block.

A test of single blocks holds everywhere in a document when every block passes it, at
any depth (`Block.everywhere`).  The blocks of a document that is read from a value
stand at places of that value.  So what is known at each place only has to tell the test
of the one block there (`Tells`); the walk through the tree is done here, once.

Main result: `Tells.document_everywhere`.
-/
import SmallWeb.Proofs.Structure

namespace SmallWeb

mutual

/-- Whether a block and all blocks in it pass a test. -/
def Block.everywhere (test : Block → Bool) : Block → Bool
  | .heading level inline => test (.heading level inline)
  | .paragraph inline => test (.paragraph inline)
  | .list ordered bss start =>
    test (.list ordered bss start) && Block.itemsEverywhere test bss
  | .codeBlock literal language => test (.codeBlock literal language)
  | .blockquote children => test (.blockquote children) && Block.runEverywhere test children
  | .thematicBreak => test .thematicBreak

/-- Whether all blocks of a sequence pass it, and those in them. -/
def Block.runEverywhere (test : Block → Bool) : List Block → Bool
  | [] => true
  | b :: bs => b.everywhere test && Block.runEverywhere test bs

/-- Whether the blocks in the items of a list pass it. -/
def Block.itemsEverywhere (test : Block → Bool) : List (List Block) → Bool
  | [] => true
  | bs :: bss => Block.runEverywhere test bs && Block.itemsEverywhere test bss

end

theorem Block.itemsEverywhere_of_list {test : Block → Bool} {ordered : Bool} {start : Int}
    {bss : List (List Block)} (h : (Block.list ordered bss start).everywhere test = true) :
    Block.itemsEverywhere test bss = true := by
  rw [Block.everywhere, Bool.and_eq_true] at h
  exact h.2

theorem Block.runEverywhere_of_blockquote {test : Block → Bool} {children : List Block}
    (h : (Block.blockquote children).everywhere test = true) :
    Block.runEverywhere test children = true := by
  rw [Block.everywhere, Bool.and_eq_true] at h
  exact h.2

/-- What is known of a value tells that the block which the value is passes a test. -/
def Tells (good : Value → Prop) (test : Block → Bool) : Prop :=
  ∀ ⦃v : Value⦄ ⦃b : Block⦄, Block.ofValue? v = some b → good v → test b = true

namespace Tells

variable {good : Value → Prop} {test : Block → Bool}

mutual

/-- A block passes a test everywhere if its places tell so. -/
theorem block_everywhere (htest : Tells good test) {v : Value} {b : Block} {depth : Nat}
    (hv : Block.ofValue? v = some b) (hplaces : ∀ p ∈ v.places .block depth, good p.value) :
    b.everywhere test = true := by
  obtain ⟨hself, hwithin⟩ := List.forall_mem_cons.mp hplaces
  have hpass : test b = true := htest hv hself
  cases v with
  | heading id level inline =>
    obtain ⟨n, is, -, -, rfl⟩ := Block.ofValue?_heading_eq_some hv
    exact hpass
  | paragraph id inline =>
    obtain ⟨is, -, rfl⟩ := Option.map_eq_some_iff.mp hv
    exact hpass
  | list id ordered items start =>
    obtain ⟨bss, n, hbss, -, rfl⟩ := Block.ofValue?_list_eq_some hv
    exact Bool.and_eq_true_iff.mpr ⟨hpass, items_everywhere htest hbss hwithin⟩
  | codeBlock id literal language =>
    cases literal with
    | string literal =>
      obtain rfl : Block.codeBlock literal language.language? = b := Option.some.inj hv
      exact hpass
    | _ => simp [Block.ofValue?] at hv
  | blockquote id children =>
    obtain ⟨bs, hbs, rfl⟩ := Option.map_eq_some_iff.mp hv
    exact Bool.and_eq_true_iff.mpr ⟨hpass, run_everywhere htest hbs hwithin⟩
  | thematicBreak id =>
    obtain rfl : Block.thematicBreak = b := Option.some.inj hv
    exact hpass
  | _ => simp [Block.ofValue?] at hv

theorem run_everywhere (htest : Tells good test) {v : Value} {bs : List Block} {depth : Nat}
    (hv : Block.run? v = some bs) (hplaces : ∀ p ∈ v.places .blocks depth, good p.value) :
    Block.runEverywhere test bs = true := by
  obtain ⟨-, hwithin⟩ := List.forall_mem_cons.mp hplaces
  cases v with
  | tuple vs => exact all_everywhere htest hv hwithin
  | array vs => exact all_everywhere htest hv hwithin
  | _ => simp [Block.run?] at hv

theorem all_everywhere (htest : Tells good test) {vs : List Value} {bs : List Block}
    {depth : Nat} (hvs : Block.all? vs = some bs)
    (hplaces : ∀ p ∈ Value.placesAll .block depth vs, good p.value) :
    Block.runEverywhere test bs = true := by
  cases vs with
  | nil =>
    obtain rfl : [] = bs := Option.some.inj hvs
    rfl
  | cons v vs =>
    obtain ⟨b, bs', hb, hbs, rfl⟩ := Block.all?_cons_eq_some hvs
    rw [Value.placesAll_cons, List.forall_mem_append] at hplaces
    have hfirst := block_everywhere htest hb hplaces.1
    have hrest := all_everywhere htest hbs hplaces.2
    exact Bool.and_eq_true_iff.mpr ⟨hfirst, hrest⟩

theorem items_everywhere (htest : Tells good test) {v : Value} {bss : List (List Block)}
    {depth : Nat} (hv : Block.items? v = some bss)
    (hplaces : ∀ p ∈ v.places .items depth, good p.value) :
    Block.itemsEverywhere test bss = true := by
  obtain ⟨-, hwithin⟩ := List.forall_mem_cons.mp hplaces
  cases v with
  | tuple vs => exact eachItem_everywhere htest hv hwithin
  | array vs => exact eachItem_everywhere htest hv hwithin
  | _ => simp [Block.items?] at hv

theorem eachItem_everywhere (htest : Tells good test) {vs : List Value}
    {bss : List (List Block)} {depth : Nat} (hvs : Block.eachItem? vs = some bss)
    (hplaces : ∀ p ∈ Value.placesAll .blocks depth vs, good p.value) :
    Block.itemsEverywhere test bss = true := by
  cases vs with
  | nil =>
    obtain rfl : [] = bss := Option.some.inj hvs
    rfl
  | cons v vs =>
    obtain ⟨bs, bss', hbs, hbss, rfl⟩ := Block.eachItem?_cons_eq_some hvs
    rw [Value.placesAll_cons, List.forall_mem_append] at hplaces
    have hfirst := run_everywhere htest hbs hplaces.1
    have hrest := eachItem_everywhere htest hbss hplaces.2
    exact Bool.and_eq_true_iff.mpr ⟨hfirst, hrest⟩

end

/-- **A document passes a test everywhere** if what is known at the places of the value
tells it of each block alone. -/
theorem document_everywhere (htest : Tells good test) {v : Value} {d : Document}
    (hv : Document.ofValue? v = some d) (hplaces : ∀ p ∈ v.allPlaces, good p.value) :
    Block.runEverywhere test d.blocks = true := by
  obtain ⟨-, hwithin⟩ := List.forall_mem_cons.mp hplaces
  cases v with
  | document id blocks =>
    obtain ⟨bs, hbs, rfl⟩ := Option.map_eq_some_iff.mp hv
    exact htest.run_everywhere hbs hwithin
  | _ => simp [Document.ofValue?] at hv

end Tells

end SmallWeb
