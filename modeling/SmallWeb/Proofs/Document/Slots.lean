/-
SmallWeb/Proofs/Document/Slots.lean

Where the places of a document lie.

A value that can be read as a document has a place for each node and for each sequence
of the document, and what stands there is what belongs there.  So all that is left of
its places is what they are for and how deep they lie, and this much the typed tree
tells by itself (`Document.slots`).

The structure check accepts such a value if no slot of a node lies too deep and no node
is met twice (`properTree_of_slots`), and the extractor reads it if no slot of a run
lies too deep (`runsShallow_iff_slots`).  With this, documents are compared by their
slots and not by the values that they were read from.

Main result: `Document.lieAt_slots`.
-/
import SmallWeb.Proofs.Extract.Depth

namespace SmallWeb

/-! ### Slots -/

/-- What a place is for, and its depth. -/
abbrev Slot := Role × Nat

def Place.slot (p : Place) : Slot := (p.role, p.depth)

mutual

/-- The slots of an inline node. -/
def Inline.slots (depth : Nat) : Inline → List Slot
  | .text _ => [(.inline, depth)]
  | .code _ => [(.inline, depth)]
  | .lineBreak => [(.inline, depth)]
  | .emphasis children =>
    (.inline, depth) :: (.inlines, depth + 1) :: Inline.runSlots (depth + 1) children
  | .strong children =>
    (.inline, depth) :: (.inlines, depth + 1) :: Inline.runSlots (depth + 1) children
  | .link _ children =>
    (.inline, depth) :: (.inlines, depth + 1) :: Inline.runSlots (depth + 1) children

/-- The slots of the nodes of a run. -/
def Inline.runSlots (depth : Nat) : List Inline → List Slot
  | [] => []
  | i :: is => i.slots depth ++ Inline.runSlots depth is

end

mutual

/-- The slots of a block. -/
def Block.slots (depth : Nat) : Block → List Slot
  | .heading _ inline =>
    (.block, depth) :: (.inlines, depth + 1) :: Inline.runSlots (depth + 1) inline
  | .paragraph inline =>
    (.block, depth) :: (.inlines, depth + 1) :: Inline.runSlots (depth + 1) inline
  | .list _ bss _ => (.block, depth) :: (.items, depth + 1) :: Block.itemsSlots (depth + 1) bss
  | .codeBlock _ _ => [(.block, depth)]
  | .blockquote children =>
    (.block, depth) :: (.blocks, depth + 1) :: Block.runSlots (depth + 1) children
  | .thematicBreak => [(.block, depth)]

/-- The slots of a sequence of blocks. -/
def Block.runSlots (depth : Nat) : List Block → List Slot
  | [] => []
  | b :: bs => b.slots depth ++ Block.runSlots depth bs

/-- The slots of the items of a list. -/
def Block.itemsSlots (depth : Nat) : List (List Block) → List Slot
  | [] => []
  | bs :: bss => (.blocks, depth) :: Block.runSlots depth bs ++ Block.itemsSlots depth bss

end

/-- The slots of a document. -/
def Document.slots (d : Document) : List Slot :=
  (.document, 0) :: (.blocks, 1) :: Block.runSlots 1 d.blocks

/-! ### Places at slots -/

/-- Places that hold what belongs there, with the given slots. -/
structure LieAt (ps : List Place) (slots : List Slot) : Prop where
  slots : ps.map Place.slot = slots
  fits : ∀ p ∈ ps, p.Fits p.depth

theorem LieAt.nil : LieAt [] [] := ⟨rfl, by simp⟩

theorem LieAt.cons {role : Role} {depth : Nat} {v : Value} {ps : List Place} {slots : List Slot}
    (hv : Place.Fits depth ⟨role, depth, v⟩) (h : LieAt ps slots) :
    LieAt (⟨role, depth, v⟩ :: ps) ((role, depth) :: slots) :=
  ⟨congrArg _ h.slots, List.forall_mem_cons.mpr ⟨hv, h.fits⟩⟩

theorem LieAt.append {ps qs : List Place} {slots slots' : List Slot} (hps : LieAt ps slots)
    (hqs : LieAt qs slots') : LieAt (ps ++ qs) (slots ++ slots') :=
  ⟨by rw [List.map_append, hps.slots, hqs.slots], List.forall_mem_append.mpr ⟨hps.fits, hqs.fits⟩⟩

/-- A deeper limit does no harm. -/
theorem Place.Fits.mono {limit : Int} {p : Place} (h : p.Fits p.depth)
    (hshallow : p.role = .block ∨ p.role = .inline → (p.depth : Int) ≤ limit) : p.Fits limit where
  admitted := h.admitted
  shallow := hshallow
  level := h.level
  text := h.text

section Nodes

variable {depth : Nat} {v : Value}

theorem fits_inline (hv : v.isInline = true)
    (htext : ∀ t, v.textField? = some t → ∃ s, t = .string s) :
    Place.Fits depth ⟨.inline, depth, v⟩ :=
  (Structure.fits_inline_iff hv).mpr ⟨Int.le_refl _, htext⟩

theorem fits_block (hv : v.isBlock = true) (hlevel : v.headingLevel? = none)
    (htext : ∀ t, v.textField? = some t → ∃ s, t = .string s) :
    Place.Fits depth ⟨.block, depth, v⟩ :=
  (Structure.fits_block_iff hv).mpr ⟨Int.le_refl _, by simp [hlevel], htext⟩

end Nodes

/-! ### Running text -/

mutual

theorem Inline.lieAt_slots {v : Value} {i : Inline} (hv : Inline.ofValue? v = some i)
    (depth : Nat) : LieAt (v.places .inline depth) (i.slots depth) := by
  cases v with
  | text id t =>
    cases t with
    | string t =>
      obtain rfl : Inline.text t = i := Option.some.inj hv
      exact .cons (fits_inline rfl (by simp [Value.textField?])) .nil
    | _ => simp [Inline.ofValue?] at hv
  | code id literal =>
    cases literal with
    | string literal =>
      obtain rfl : Inline.code literal = i := Option.some.inj hv
      exact .cons (fits_inline rfl (by simp [Value.textField?])) .nil
    | _ => simp [Inline.ofValue?] at hv
  | lineBreak id =>
    obtain rfl : Inline.lineBreak = i := Option.some.inj hv
    exact .cons (fits_inline rfl (by simp [Value.textField?])) .nil
  | emphasis id children =>
    obtain ⟨is, his, rfl⟩ := Option.map_eq_some_iff.mp hv
    exact .cons (fits_inline rfl (by simp [Value.textField?])) (Inline.lieAt_runSlots his _)
  | strong id children =>
    obtain ⟨is, his, rfl⟩ := Option.map_eq_some_iff.mp hv
    exact .cons (fits_inline rfl (by simp [Value.textField?])) (Inline.lieAt_runSlots his _)
  | link id href children =>
    cases href with
    | string href =>
      obtain ⟨is, his, rfl⟩ := Option.map_eq_some_iff.mp hv
      exact .cons (fits_inline rfl (by simp [Value.textField?])) (Inline.lieAt_runSlots his _)
    | _ => simp [Inline.ofValue?] at hv
  | _ => simp [Inline.ofValue?] at hv

/-- The places of a run: its own, and those of its nodes. -/
theorem Inline.lieAt_runSlots {v : Value} {is : List Inline} (hv : Inline.run? v = some is)
    (depth : Nat) :
    LieAt (v.places .inlines depth) ((.inlines, depth) :: Inline.runSlots depth is) := by
  cases v with
  | tuple vs =>
    exact .cons (Structure.fits_sequence (.inr (.inl rfl)) rfl) (Inline.lieAt_allSlots hv depth)
  | array vs =>
    exact .cons (Structure.fits_sequence (.inr (.inl rfl)) rfl) (Inline.lieAt_allSlots hv depth)
  | _ => simp [Inline.run?] at hv

theorem Inline.lieAt_allSlots {vs : List Value} {is : List Inline}
    (hvs : Inline.all? vs = some is) (depth : Nat) :
    LieAt (Value.placesAll .inline depth vs) (Inline.runSlots depth is) := by
  cases vs with
  | nil =>
    obtain rfl : [] = is := Option.some.inj hvs
    exact .nil
  | cons v vs =>
    obtain ⟨i, is', hi, his, rfl⟩ := Inline.all?_cons_eq_some hvs
    exact (Inline.lieAt_slots hi depth).append (Inline.lieAt_allSlots his depth)

end

/-! ### Blocks -/

mutual

/-- **The places of a block that can be read** lie at its slots. -/
theorem Block.lieAt_slots {v : Value} {b : Block} (hv : Block.ofValue? v = some b)
    (depth : Nat) : LieAt (v.places .block depth) (b.slots depth) := by
  cases v with
  | heading id level inline =>
    obtain ⟨n, is, hn, his, rfl⟩ := Block.ofValue?_heading_eq_some hv
    have hlevel : Place.Fits depth ⟨.block, depth, .heading id level inline⟩ := by
      refine (Structure.fits_block_iff rfl).mpr ⟨Int.le_refl _, ?_, by simp [Value.textField?]⟩
      intro level' hlevel'
      obtain rfl : level = level' := Option.some.inj hlevel'
      exact ⟨n, Value.level?_eq_some_iff.mp hn⟩
    exact .cons hlevel (Inline.lieAt_runSlots his _)
  | paragraph id inline =>
    obtain ⟨is, his, rfl⟩ := Option.map_eq_some_iff.mp hv
    exact .cons (fits_block rfl rfl (by simp [Value.textField?])) (Inline.lieAt_runSlots his _)
  | list id ordered items start =>
    obtain ⟨bss, n, hbss, -, rfl⟩ := Block.ofValue?_list_eq_some hv
    exact .cons (fits_block rfl rfl (by simp [Value.textField?])) (Block.lieAt_itemsSlots hbss _)
  | codeBlock id literal language =>
    cases literal with
    | string literal =>
      obtain rfl : Block.codeBlock literal language.language? = b := Option.some.inj hv
      exact .cons (fits_block rfl rfl (by simp [Value.textField?])) .nil
    | _ => simp [Block.ofValue?] at hv
  | blockquote id children =>
    obtain ⟨bs, hbs, rfl⟩ := Option.map_eq_some_iff.mp hv
    exact .cons (fits_block rfl rfl (by simp [Value.textField?])) (Block.lieAt_runSlots hbs _)
  | thematicBreak id =>
    obtain rfl : Block.thematicBreak = b := Option.some.inj hv
    exact .cons (fits_block rfl rfl (by simp [Value.textField?])) .nil
  | _ => simp [Block.ofValue?] at hv

theorem Block.lieAt_runSlots {v : Value} {bs : List Block} (hv : Block.run? v = some bs)
    (depth : Nat) :
    LieAt (v.places .blocks depth) ((.blocks, depth) :: Block.runSlots depth bs) := by
  cases v with
  | tuple vs => exact .cons (Structure.fits_sequence (.inl rfl) rfl) (Block.lieAt_allSlots hv depth)
  | array vs => exact .cons (Structure.fits_sequence (.inl rfl) rfl) (Block.lieAt_allSlots hv depth)
  | _ => simp [Block.run?] at hv

theorem Block.lieAt_allSlots {vs : List Value} {bs : List Block} (hvs : Block.all? vs = some bs)
    (depth : Nat) : LieAt (Value.placesAll .block depth vs) (Block.runSlots depth bs) := by
  cases vs with
  | nil =>
    obtain rfl : [] = bs := Option.some.inj hvs
    exact .nil
  | cons v vs =>
    obtain ⟨b, bs', hb, hbs, rfl⟩ := Block.all?_cons_eq_some hvs
    exact (Block.lieAt_slots hb depth).append (Block.lieAt_allSlots hbs depth)

theorem Block.lieAt_itemsSlots {v : Value} {bss : List (List Block)}
    (hv : Block.items? v = some bss) (depth : Nat) :
    LieAt (v.places .items depth) ((.items, depth) :: Block.itemsSlots depth bss) := by
  cases v with
  | tuple vs =>
    exact .cons (Structure.fits_sequence (.inr (.inr rfl)) rfl) (Block.lieAt_eachItemSlots hv depth)
  | array vs =>
    exact .cons (Structure.fits_sequence (.inr (.inr rfl)) rfl) (Block.lieAt_eachItemSlots hv depth)
  | _ => simp [Block.items?] at hv

theorem Block.lieAt_eachItemSlots {vs : List Value} {bss : List (List Block)}
    (hvs : Block.eachItem? vs = some bss) (depth : Nat) :
    LieAt (Value.placesAll .blocks depth vs) (Block.itemsSlots depth bss) := by
  cases vs with
  | nil =>
    obtain rfl : [] = bss := Option.some.inj hvs
    exact .nil
  | cons v vs =>
    obtain ⟨bs, bss', hbs, hbss, rfl⟩ := Block.eachItem?_cons_eq_some hvs
    exact (Block.lieAt_runSlots hbs depth).append (Block.lieAt_eachItemSlots hbss depth)

end

/-! ### Documents -/

/-- **The places of a document that can be read** lie at its slots. -/
theorem Document.lieAt_slots {v : Value} {d : Document} (hv : Document.ofValue? v = some d) :
    LieAt v.allPlaces d.slots := by
  cases v with
  | document id blocks =>
    obtain ⟨bs, hbs, rfl⟩ := Option.map_eq_some_iff.mp hv
    have hroot : Place.Fits (0 : Nat) ⟨.document, 0, .document id blocks⟩ :=
      ⟨rfl, by simp, by simp [Value.headingLevel?], by simp [Value.textField?]⟩
    exact .cons hroot (Block.lieAt_runSlots hbs 1)
  | _ => simp [Document.ofValue?] at hv

/-- A condition on the slots of a document is one on its places. -/
theorem Document.forall_mem_slots_iff {v : Value} {d : Document}
    (hv : Document.ofValue? v = some d) {P : Slot → Prop} :
    (∀ s ∈ d.slots, P s) ↔ ∀ p ∈ v.allPlaces, P p.slot := by
  rw [← (Document.lieAt_slots hv).slots, List.forall_mem_map]

/-- **What can be read is a proper tree** if no node lies too deep or stands at two
places. -/
theorem properTree_of_slots {limit : Int} {v : Value} {d : Document}
    (hv : Document.ofValue? v = some d)
    (hslots : ∀ s ∈ d.slots, s.1 = .block ∨ s.1 = .inline → (s.2 : Int) ≤ limit)
    (honce : (nodesAt v.allPlaces).Nodup) : ProperTree limit v where
  fits p hp := ((Document.lieAt_slots hv).fits p hp).mono
    ((Document.forall_mem_slots_iff hv).mp hslots p hp)
  once := honce

/-- Whether all runs are shallow can be told from the slots. -/
theorem runsShallow_iff_slots {v : Value} {d : Document} (hv : Document.ofValue? v = some d) :
    RunsShallow v.allPlaces ↔ ∀ s ∈ d.slots, s.1 = .inlines → s.2 ≤ maxDepth := by
  rw [Document.forall_mem_slots_iff hv]
  rfl

/-! ### Starts of lists -/

mutual

theorem Block.integerStarts_of_ofValue? {v : Value} {b : Block} (hv : Block.ofValue? v = some b) :
    v.integerStarts = true := by
  cases v with
  | list id ordered items start =>
    obtain ⟨bss, n, hbss, hn, -⟩ := Block.ofValue?_list_eq_some hv
    rw [Value.integerStarts, hn, Block.integerStarts_of_items? hbss]
    rfl
  | blockquote id children =>
    obtain ⟨bs, hbs, -⟩ := Option.map_eq_some_iff.mp hv
    show children.integerStarts = true
    exact Block.integerStarts_of_run? hbs
  | heading id level inline => rfl
  | paragraph id inline => rfl
  | codeBlock id literal language => rfl
  | thematicBreak id => rfl
  | _ => simp [Block.ofValue?] at hv

theorem Block.integerStarts_of_run? {v : Value} {bs : List Block} (hv : Block.run? v = some bs) :
    v.integerStarts = true := by
  cases v with
  | tuple vs => exact Block.integerStarts_of_all? hv
  | array vs => exact Block.integerStarts_of_all? hv
  | _ => simp [Block.run?] at hv

theorem Block.integerStarts_of_all? {vs : List Value} {bs : List Block}
    (hvs : Block.all? vs = some bs) : Value.allIntegerStarts vs = true := by
  cases vs with
  | nil => rfl
  | cons v vs =>
    obtain ⟨b, bs', hb, hbs, -⟩ := Block.all?_cons_eq_some hvs
    rw [Value.allIntegerStarts, Block.integerStarts_of_ofValue? hb, Block.integerStarts_of_all? hbs]
    rfl

theorem Block.integerStarts_of_items? {v : Value} {bss : List (List Block)}
    (hv : Block.items? v = some bss) : v.integerStarts = true := by
  cases v with
  | tuple vs => exact Block.integerStarts_of_eachItem? hv
  | array vs => exact Block.integerStarts_of_eachItem? hv
  | _ => simp [Block.items?] at hv

theorem Block.integerStarts_of_eachItem? {vs : List Value} {bss : List (List Block)}
    (hvs : Block.eachItem? vs = some bss) : Value.allIntegerStarts vs = true := by
  cases vs with
  | nil => rfl
  | cons v vs =>
    obtain ⟨bs, bss', hbs, hbss, -⟩ := Block.eachItem?_cons_eq_some hvs
    rw [Value.allIntegerStarts, Block.integerStarts_of_run? hbs, Block.integerStarts_of_eachItem? hbss]
    rfl

end

/-- **Lists start with whole numbers** in what can be read. -/
theorem Document.integerStarts_of_ofValue? {v : Value} {d : Document}
    (hv : Document.ofValue? v = some d) : v.integerStarts = true := by
  cases v with
  | document id blocks =>
    obtain ⟨bs, hbs, -⟩ := Option.map_eq_some_iff.mp hv
    show blocks.integerStarts = true
    exact Block.integerStarts_of_run? hbs
  | _ => simp [Document.ofValue?] at hv

end SmallWeb
