/-
SmallWeb/Proofs/Structure.lean

The structure check accepts exactly the proper trees.

The check walks a tree, carries the identities of the nodes that it has entered
and stops at the first fault.  A proper tree is told here without a walk.
`Value.places` lists every place in a value, whatever stands there, and

* each place holds what belongs there and lies within the limit (`Place.Fits`),
* no node stands at two places.

Neither condition knows of the other, nor of an order in which places are looked
at.  The check mixes them: it looks at one node after the other and goes on from
the identities that are known so far.  `Accepts` is what it decides on the way.  It
is about any list of places, it starts from identities that are known already, and
it composes, so the walk over several values follows from the walks over each.

Main results: `check_eq_ok_iff` and `check_decides_proper_trees`.
-/
import SmallWeb.Proofs.Document.Reading

namespace SmallWeb

/-! ### Places -/

/-- What a place of a document tree is for. -/
inductive Role
  | document
  | block
  | inline
  /-- The blocks of a document, a quote or a list item. -/
  | blocks
  /-- A run of inline nodes. -/
  | inlines
  /-- The items of a list. -/
  | items
  deriving DecidableEq, Repr

/-- What the members of a sequence are for. -/
def Role.member : Role → Role
  | items => blocks
  | blocks => block
  | inlines => inline
  | role => role

/-- A place: what it is for, the depth of the nodes there, and the value that
stands there. -/
structure Place where
  role : Role
  depth : Nat
  value : Value

namespace Value

/-- A value that is a document. -/
def isDocument : Value → Bool
  | document .. => true
  | _ => false

/-- A value that is a block node, whatever its fields hold. -/
def isBlock : Value → Bool
  | heading .. | paragraph .. | list .. | codeBlock .. | blockquote .. | thematicBreak .. => true
  | _ => false

/-- A value that is an inline node, whatever its fields hold. -/
def isInline : Value → Bool
  | text .. | code .. | lineBreak .. | emphasis .. | strong .. | link .. => true
  | _ => false

/-- A value that is a quote. -/
def isQuote : Value → Bool
  | blockquote .. => true
  | _ => false

/-- A value that is a thematic break. -/
def isRule : Value → Bool
  | thematicBreak _ => true
  | _ => false

/-- A value that is a sequence. -/
def isSequence : Value → Bool
  | tuple _ | array _ => true
  | _ => false

/-- The identity of a block or an inline node. -/
def node? : Value → Option Nat
  | heading id .. | paragraph id .. | list id .. | codeBlock id .. | blockquote id ..
  | thematicBreak id | text id .. | code id .. | lineBreak id | emphasis id .. | strong id ..
  | link id .. => some id
  | _ => none

/-- The level of a heading. -/
def headingLevel? : Value → Option Value
  | heading _ level _ => some level
  | _ => none

/-- The field of a node that must be a text. -/
def textField? : Value → Option Value
  | text _ t => some t
  | code _ literal => some literal
  | link _ href _ => some href
  | codeBlock _ literal _ => some literal
  | _ => none

mutual

/-- The places inside a value.  Children lie one deeper than their node; a sequence
adds nothing to the depth. -/
def within (role : Role) (depth : Nat) : Value → List Place
  | document _ blocks => ⟨.blocks, depth + 1, blocks⟩ :: within .blocks (depth + 1) blocks
  | heading _ _ inline => ⟨.inlines, depth + 1, inline⟩ :: within .inlines (depth + 1) inline
  | paragraph _ inline => ⟨.inlines, depth + 1, inline⟩ :: within .inlines (depth + 1) inline
  | list _ _ items _ => ⟨.items, depth + 1, items⟩ :: within .items (depth + 1) items
  | blockquote _ children => ⟨.blocks, depth + 1, children⟩ :: within .blocks (depth + 1) children
  | emphasis _ children => ⟨.inlines, depth + 1, children⟩ :: within .inlines (depth + 1) children
  | strong _ children => ⟨.inlines, depth + 1, children⟩ :: within .inlines (depth + 1) children
  | link _ _ children => ⟨.inlines, depth + 1, children⟩ :: within .inlines (depth + 1) children
  | tuple vs => placesAll role.member depth vs
  | array vs => placesAll role.member depth vs
  | _ => []

/-- The places of several values and of everything inside them. -/
def placesAll (role : Role) (depth : Nat) : List Value → List Place
  | [] => []
  | v :: vs => ⟨role, depth, v⟩ :: (within role depth v ++ placesAll role depth vs)

end

/-- The place of a value, and those inside it. -/
def places (role : Role) (depth : Nat) (v : Value) : List Place :=
  ⟨role, depth, v⟩ :: v.within role depth

theorem placesAll_cons (role : Role) (depth : Nat) (v : Value) (vs : List Value) :
    placesAll role depth (v :: vs) = v.places role depth ++ placesAll role depth vs := rfl

/-- The places of a value in the place of a document.  Blocks at the top level have
depth 1. -/
def allPlaces (v : Value) : List Place := v.places .document 0

end Value

/-- The identities of the nodes that stand at places, one for each place. -/
def nodesAt (ps : List Place) : List Nat := ps.filterMap fun p => p.value.node?

/-! ### Proper trees -/

/-- Whether a value belongs where a role says. -/
def Role.admits : Role → Value → Bool
  | document, v => v.isDocument
  | block, v => v.isBlock
  | inline, v => v.isInline
  | blocks, v => v.isSequence
  | inlines, v => v.isSequence
  | items, v => v.isSequence

/-- A place holds what belongs there. -/
structure Place.Fits (limit : Int) (p : Place) : Prop where
  /-- Blocks stand in the places of blocks, inline nodes in the places of inline
  nodes, and children are sequences. -/
  admitted : p.role.admits p.value = true
  /-- No block and no inline node lies deeper than the limit. -/
  shallow : p.role = .block ∨ p.role = .inline → (p.depth : Int) ≤ limit
  /-- Levels of headings are whole numbers from 1 to 6. -/
  level : ∀ level, p.value.headingLevel? = some level → ∃ n, level.asInt? = some n ∧ 1 ≤ n ∧ n ≤ 6
  /-- Texts are texts. -/
  text : ∀ t, p.value.textField? = some t → ∃ s, t = .string s

/-- A proper document tree: every place holds what belongs there, and no node stands
at two places. -/
structure ProperTree (limit : Int) (v : Value) : Prop where
  fits : ∀ p ∈ v.allPlaces, p.Fits limit
  once : (nodesAt v.allPlaces).Nodup

namespace Structure

/-! ### What the check decides -/

/-- The places fit, their nodes differ from each other and from those seen before,
and with them they are the nodes seen afterwards. -/
structure Accepts (limit : Int) (ps : List Place) (seen seen' : List Nat) : Prop where
  fits : ∀ p ∈ ps, p.Fits limit
  once : (nodesAt ps).Nodup
  unseen : ∀ id ∈ nodesAt ps, id ∉ seen
  entered : seen' = (nodesAt ps).reverse ++ seen

theorem accepts_nil_iff {limit : Int} {seen seen' : List Nat} :
    Accepts limit [] seen seen' ↔ seen = seen' := by
  constructor
  · intro h
    exact h.entered.symm
  · rintro rfl
    exact ⟨by simp, List.nodup_nil, by simp [nodesAt], rfl⟩

/-- **What is decided composes**: later places start from the nodes that earlier ones
have added. -/
theorem accepts_append_iff {limit : Int} {ps qs : List Place} {seen seen' : List Nat} :
    Accepts limit (ps ++ qs) seen seen' ↔
      ∃ mid, Accepts limit ps seen mid ∧ Accepts limit qs mid seen' := by
  have hnodes : nodesAt (ps ++ qs) = nodesAt ps ++ nodesAt qs := List.filterMap_append
  constructor
  · rintro ⟨hfits, honce, hunseen, rfl⟩
    rw [hnodes] at honce hunseen
    obtain ⟨hps, hqs, hdisjoint⟩ := List.nodup_append.mp honce
    -- In between stand the nodes of the earlier places, on top of those before.
    refine ⟨_, ⟨fun p hp => hfits p (List.mem_append_left qs hp), hps,
      fun id hid => hunseen id (List.mem_append_left _ hid), rfl⟩,
      ⟨fun p hp => hfits p (List.mem_append_right ps hp), hqs, fun id hid hmem => ?_, ?_⟩⟩
    · rcases List.mem_append.mp hmem with hmem | hmem
      · exact hdisjoint id (List.mem_reverse.mp hmem) id hid rfl
      · exact hunseen id (List.mem_append_right _ hid) hmem
    · rw [hnodes, List.reverse_append, List.append_assoc]
  · rintro ⟨mid, ⟨hfitsp, hps, hunseenp, rfl⟩, ⟨hfitsq, hqs, hunseenq, rfl⟩⟩
    refine ⟨fun p hp => (List.mem_append.mp hp).elim (hfitsp p) (hfitsq p), ?_, ?_, ?_⟩
    · rw [hnodes]
      refine List.nodup_append.mpr ⟨hps, hqs, ?_⟩
      -- A node at both would have been seen when the later place is looked at.
      rintro id hidp _ hidq rfl
      exact hunseenq id hidq (List.mem_append_left seen (List.mem_reverse.mpr hidp))
    · rw [hnodes]
      intro id hid hmem
      rcases List.mem_append.mp hid with hid | hid
      · exact hunseenp id hid hmem
      · exact hunseenq id hid (List.mem_append_right _ hmem)
    · rw [hnodes, List.reverse_append, List.append_assoc]

/-- The place of a node: the node fits, it has not been seen, and the places behind
it start with it as seen. -/
theorem accepts_node_iff {limit : Int} {p : Place} {ps : List Place} {seen seen' : List Nat}
    {id : Nat} (hid : p.value.node? = some id) :
    Accepts limit (p :: ps) seen seen' ↔
      p.Fits limit ∧ id ∉ seen ∧ Accepts limit ps (id :: seen) seen' := by
  have hnodes : nodesAt [p] = [id] := by simp [nodesAt, hid]
  have hfirst : ∀ mid, Accepts limit [p] seen mid ↔
      p.Fits limit ∧ id ∉ seen ∧ mid = id :: seen := by
    intro mid
    constructor
    · rintro ⟨hfits, -, hunseen, rfl⟩
      rw [hnodes] at hunseen ⊢
      exact ⟨hfits p List.mem_cons_self, hunseen id List.mem_cons_self, rfl⟩
    · rintro ⟨hfits, hunseen, rfl⟩
      refine ⟨by simpa using hfits, ?_, ?_, ?_⟩
      · simp [hnodes]
      · simpa [hnodes] using hunseen
      · simp [hnodes]
  rw [← List.singleton_append, accepts_append_iff]
  simp only [hfirst]
  constructor
  · rintro ⟨mid, ⟨hfits, hunseen, rfl⟩, hrest⟩
    exact ⟨hfits, hunseen, hrest⟩
  · rintro ⟨hfits, hunseen, hrest⟩
    exact ⟨_, ⟨hfits, hunseen, rfl⟩, hrest⟩

/-- The place of a value that is no node adds nothing to the nodes. -/
theorem accepts_cons_iff {limit : Int} {p : Place} {ps : List Place} {seen seen' : List Nat}
    (hnone : p.value.node? = none) :
    Accepts limit (p :: ps) seen seen' ↔ p.Fits limit ∧ Accepts limit ps seen seen' := by
  have hnodes : nodesAt (p :: ps) = nodesAt ps := by simp [nodesAt, hnone]
  constructor
  · rintro ⟨hfits, honce, hunseen, hentered⟩
    rw [hnodes] at honce hunseen hentered
    exact ⟨hfits p List.mem_cons_self, fun q hq => hfits q (List.mem_cons_of_mem p hq), honce,
      hunseen, hentered⟩
  · rintro ⟨hfirst, hfits, honce, hunseen, hentered⟩
    rw [← hnodes] at honce hunseen hentered
    exact ⟨List.forall_mem_cons.mpr ⟨hfirst, hfits⟩, honce, hunseen, hentered⟩

theorem not_accepts_of_not_fits {limit : Int} {p : Place} {ps : List Place}
    {seen seen' : List Nat} (h : p.role.admits p.value = false) :
    ¬ Accepts limit (p :: ps) seen seen' := by
  intro haccepts
  have hfits := haccepts.fits p List.mem_cons_self
  rw [hfits.admitted] at h
  exact Bool.noConfusion h

/-! #### Places one by one #### -/

theorem isText_iff {t : Value} : isText t = true ↔ ∀ t', some t = some t' → ∃ s, t' = .string s := by
  rw [isText_eq_true_iff]
  constructor
  · rintro h t' ht
    exact Option.some.inj ht ▸ h
  · intro h
    exact h t rfl

theorem isLevel_iff {level : Value} :
    isLevel level = true ↔ ∃ n, level.asInt? = some n ∧ 1 ≤ n ∧ n ≤ 6 := by
  unfold isLevel
  cases level.asInt? <;> simp

/-- An inline node fits if it is not too deep and its text is one. -/
theorem fits_inline_iff {limit : Int} {depth : Nat} {v : Value} (hv : v.isInline = true) :
    Place.Fits limit ⟨.inline, depth, v⟩ ↔
      (depth : Int) ≤ limit ∧ ∀ t, v.textField? = some t → ∃ s, t = .string s := by
  constructor
  · intro h
    exact ⟨h.shallow (.inr rfl), h.text⟩
  · rintro ⟨hshallow, htext⟩
    refine ⟨hv, fun _ => hshallow, ?_, htext⟩
    intro level hlevel
    cases v <;> simp [Value.headingLevel?, Value.isInline] at hlevel hv

/-- A block fits if it is not too deep, its level is one and its text is one. -/
theorem fits_block_iff {limit : Int} {depth : Nat} {v : Value} (hv : v.isBlock = true) :
    Place.Fits limit ⟨.block, depth, v⟩ ↔ (depth : Int) ≤ limit ∧
      (∀ level, v.headingLevel? = some level → ∃ n, level.asInt? = some n ∧ 1 ≤ n ∧ n ≤ 6) ∧
      ∀ t, v.textField? = some t → ∃ s, t = .string s := by
  constructor
  · intro h
    exact ⟨h.shallow (.inl rfl), h.level, h.text⟩
  · rintro ⟨hshallow, hlevel, htext⟩
    exact ⟨hv, fun _ => hshallow, hlevel, htext⟩

/-- A sequence fits where a sequence belongs. -/
theorem fits_sequence {limit : Int} {role : Role} {depth : Nat} {v : Value}
    (hrole : role = .blocks ∨ role = .inlines ∨ role = .items) (hv : v.isSequence = true) :
    Place.Fits limit ⟨role, depth, v⟩ := by
  refine ⟨?_, ?_, ?_, ?_⟩
  · rcases hrole with rfl | rfl | rfl <;> exact hv
  · rcases hrole with rfl | rfl | rfl <;> simp
  · cases v <;> simp [Value.headingLevel?, Value.isSequence] at hv ⊢
  · cases v <;> simp [Value.textField?, Value.isSequence] at hv ⊢

/-- A node is entered where it is neither too deep nor known, and then it is known. -/
theorem enter_bind_eq_ok_iff {limit : Int} {depth id : Nat} {seen seen' : List Nat} {kind : String}
    {f : List Nat → Except TreeFault (List Nat)} :
    (enter limit depth seen id kind >>= f) = .ok seen' ↔
      (depth : Int) ≤ limit ∧ id ∉ seen ∧ f (id :: seen) = .ok seen' := by
  rw [bind_eq_ok_iff]
  constructor
  · rintro ⟨mid, hmid, h⟩
    obtain ⟨hdepth, hid, rfl⟩ := enter_eq_ok_iff.mp hmid
    exact ⟨hdepth, hid, h⟩
  · rintro ⟨hdepth, hid, h⟩
    exact ⟨_, enter_eq_ok_iff.mpr ⟨hdepth, hid, rfl⟩, h⟩

theorem ite_throw_eq_ok_iff {c : Bool} {x : Except TreeFault (List Nat)} {fault : TreeFault}
    {seen' : List Nat} :
    (if c = true then x else throw fault) = .ok seen' ↔ c = true ∧ x = .ok seen' := by
  cases c with
  | true => simp
  | false => simp [throw, throwThe, MonadExceptOf.throw]

/-- A node without children. -/
theorem accepts_leaf_iff {limit : Int} {role : Role} {depth id : Nat} {v : Value}
    {seen seen' : List Nat} (hid : v.node? = some id) (hleaf : v.within role depth = []) :
    Accepts limit (v.places role depth) seen seen' ↔
      Place.Fits limit ⟨role, depth, v⟩ ∧ id ∉ seen ∧ id :: seen = seen' := by
  rw [Value.places, accepts_node_iff hid, hleaf, accepts_nil_iff]

/-- A sequence in its place has the places of its members. -/
theorem accepts_sequence_iff {limit : Int} {role : Role} {depth : Nat} {v : Value}
    {seen seen' : List Nat} (hrole : role = .blocks ∨ role = .inlines ∨ role = .items)
    (hv : v.isSequence = true) :
    Accepts limit (v.places role depth) seen seen' ↔
      Accepts limit (v.within role depth) seen seen' := by
  have hnone : v.node? = none := by
    cases v <;> simp [Value.node?, Value.isSequence] at hv ⊢
  rw [Value.places, accepts_cons_iff hnone]
  exact and_iff_right (fits_sequence hrole hv)

/-! ### The walk over running text -/

mutual

/-- **The check of an inline node** accepts its places. -/
theorem checkInline_eq_ok_iff {limit : Int} (v : Value) {depth : Nat} {seen seen' : List Nat} :
    checkInline limit depth seen v = .ok seen' ↔
      Accepts limit (v.places .inline depth) seen seen' := by
  cases v with
  | text id t =>
    rw [checkInline, enter_bind_eq_ok_iff, ite_throw_eq_ok_iff, isText_iff, pure_eq_ok_iff,
      accepts_leaf_iff rfl rfl, fits_inline_iff rfl]
    simp only [Value.textField?, and_assoc, and_left_comm]
  | code id literal =>
    rw [checkInline, enter_bind_eq_ok_iff, ite_throw_eq_ok_iff, isText_iff, pure_eq_ok_iff,
      accepts_leaf_iff rfl rfl, fits_inline_iff rfl]
    simp only [Value.textField?, and_assoc, and_left_comm]
  | lineBreak id =>
    rw [checkInline, enter_eq_ok_iff, accepts_leaf_iff rfl rfl, fits_inline_iff rfl]
    simp [Value.textField?, eq_comm]
  | emphasis id children =>
    rw [checkInline, enter_bind_eq_ok_iff, Value.places, accepts_node_iff rfl,
      fits_inline_iff rfl, checkRun_eq_ok_iff children]
    simp [Value.textField?, Value.within, Value.places]
  | strong id children =>
    rw [checkInline, enter_bind_eq_ok_iff, Value.places, accepts_node_iff rfl,
      fits_inline_iff rfl, checkRun_eq_ok_iff children]
    simp [Value.textField?, Value.within, Value.places]
  | link id href children =>
    rw [checkInline, enter_bind_eq_ok_iff, ite_throw_eq_ok_iff, isText_iff, Value.places,
      accepts_node_iff rfl, fits_inline_iff rfl, checkRun_eq_ok_iff children]
    simp only [Value.textField?, Value.within, Value.places, and_assoc, and_left_comm]
  | _ => exact iff_of_false (by simp [checkInline]) (not_accepts_of_not_fits rfl)

/-- The check of a run accepts its places. -/
theorem checkRun_eq_ok_iff {limit : Int} {slot : SequenceSlot} (v : Value) {depth : Nat}
    {seen seen' : List Nat} :
    checkRun limit slot depth seen v = .ok seen' ↔
      Accepts limit (v.places .inlines depth) seen seen' := by
  cases v with
  | tuple vs =>
    rw [checkRun, checkInlines_eq_ok_iff vs, accepts_sequence_iff (.inr (.inl rfl)) rfl]
    rfl
  | array vs =>
    rw [checkRun, checkInlines_eq_ok_iff vs, accepts_sequence_iff (.inr (.inl rfl)) rfl]
    rfl
  | _ => exact iff_of_false (by simp [checkRun]) (not_accepts_of_not_fits rfl)

/-- The check of several inline nodes accepts their places. -/
theorem checkInlines_eq_ok_iff {limit : Int} (vs : List Value) {depth : Nat}
    {seen seen' : List Nat} :
    checkInlines limit depth seen vs = .ok seen' ↔
      Accepts limit (Value.placesAll .inline depth vs) seen seen' := by
  cases vs with
  | nil => rw [checkInlines, Value.placesAll, accepts_nil_iff, Except.ok.injEq]
  | cons v vs =>
    rw [checkInlines, Value.placesAll_cons, bind_eq_ok_iff, accepts_append_iff]
    simp only [checkInline_eq_ok_iff v, checkInlines_eq_ok_iff vs]

end

/-! ### The walk over blocks -/

mutual

/-- **The check of a block** accepts its places. -/
theorem checkBlock_eq_ok_iff {limit : Int} (v : Value) {depth : Nat} {seen seen' : List Nat} :
    checkBlock limit depth seen v = .ok seen' ↔
      Accepts limit (v.places .block depth) seen seen' := by
  cases v with
  | heading id level inline =>
    -- The level is looked at between the node and its run, which makes no difference.
    have hlevel : (∀ l, some level = some l → ∃ n, l.asInt? = some n ∧ 1 ≤ n ∧ n ≤ 6) ↔
        isLevel level = true := by simp [isLevel_iff]
    rw [checkBlock, enter_bind_eq_ok_iff, ite_throw_eq_ok_iff, Value.places,
      accepts_node_iff rfl, fits_block_iff rfl, checkRun_eq_ok_iff inline]
    simp only [Value.headingLevel?, hlevel, Value.textField?, Value.within, Value.places]
    simp [and_assoc, and_left_comm]
  | paragraph id inline =>
    rw [checkBlock, enter_bind_eq_ok_iff, Value.places, accepts_node_iff rfl,
      fits_block_iff rfl, checkRun_eq_ok_iff inline]
    simp [Value.headingLevel?, Value.textField?, Value.within, Value.places]
  | list id ordered items start =>
    rw [checkBlock, enter_bind_eq_ok_iff, Value.places, accepts_node_iff rfl,
      fits_block_iff rfl, checkItems_eq_ok_iff items]
    simp [Value.headingLevel?, Value.textField?, Value.within, Value.places]
  | codeBlock id literal language =>
    rw [checkBlock, enter_bind_eq_ok_iff, ite_throw_eq_ok_iff, isText_iff, pure_eq_ok_iff,
      accepts_leaf_iff rfl rfl, fits_block_iff rfl]
    simp [Value.headingLevel?, Value.textField?, and_assoc, and_left_comm]
  | blockquote id children =>
    rw [checkBlock, enter_bind_eq_ok_iff, Value.places, accepts_node_iff rfl,
      fits_block_iff rfl, checkBlockRun_eq_ok_iff children]
    simp [Value.headingLevel?, Value.textField?, Value.within, Value.places]
  | thematicBreak id =>
    rw [checkBlock, enter_eq_ok_iff, accepts_leaf_iff rfl rfl, fits_block_iff rfl]
    simp [Value.headingLevel?, Value.textField?, eq_comm]
  | _ => exact iff_of_false (by simp [checkBlock]) (not_accepts_of_not_fits rfl)

/-- The check of a sequence of blocks accepts its places. -/
theorem checkBlockRun_eq_ok_iff {limit : Int} {slot : SequenceSlot} (v : Value) {depth : Nat}
    {seen seen' : List Nat} :
    checkBlockRun limit slot depth seen v = .ok seen' ↔
      Accepts limit (v.places .blocks depth) seen seen' := by
  cases v with
  | tuple vs =>
    rw [checkBlockRun, checkBlocks_eq_ok_iff vs, accepts_sequence_iff (.inl rfl) rfl]
    rfl
  | array vs =>
    rw [checkBlockRun, checkBlocks_eq_ok_iff vs, accepts_sequence_iff (.inl rfl) rfl]
    rfl
  | _ => exact iff_of_false (by simp [checkBlockRun]) (not_accepts_of_not_fits rfl)

/-- The check of several blocks accepts their places. -/
theorem checkBlocks_eq_ok_iff {limit : Int} (vs : List Value) {depth : Nat}
    {seen seen' : List Nat} :
    checkBlocks limit depth seen vs = .ok seen' ↔
      Accepts limit (Value.placesAll .block depth vs) seen seen' := by
  cases vs with
  | nil => rw [checkBlocks, Value.placesAll, accepts_nil_iff, Except.ok.injEq]
  | cons v vs =>
    rw [checkBlocks, Value.placesAll_cons, bind_eq_ok_iff, accepts_append_iff]
    simp only [checkBlock_eq_ok_iff v, checkBlocks_eq_ok_iff vs]

/-- The check of the items of a list accepts their places. -/
theorem checkItems_eq_ok_iff {limit : Int} (v : Value) {depth : Nat} {seen seen' : List Nat} :
    checkItems limit depth seen v = .ok seen' ↔
      Accepts limit (v.places .items depth) seen seen' := by
  cases v with
  | tuple vs =>
    rw [checkItems, checkEachItem_eq_ok_iff vs, accepts_sequence_iff (.inr (.inr rfl)) rfl]
    rfl
  | array vs =>
    rw [checkItems, checkEachItem_eq_ok_iff vs, accepts_sequence_iff (.inr (.inr rfl)) rfl]
    rfl
  | _ => exact iff_of_false (by simp [checkItems]) (not_accepts_of_not_fits rfl)

/-- The check of several items accepts their places. -/
theorem checkEachItem_eq_ok_iff {limit : Int} (vs : List Value) {depth : Nat}
    {seen seen' : List Nat} :
    checkEachItem limit depth seen vs = .ok seen' ↔
      Accepts limit (Value.placesAll .blocks depth vs) seen seen' := by
  cases vs with
  | nil => rw [checkEachItem, Value.placesAll, accepts_nil_iff, Except.ok.injEq]
  | cons v vs =>
    rw [checkEachItem, Value.placesAll_cons, bind_eq_ok_iff, accepts_append_iff]
    simp only [checkBlockRun_eq_ok_iff v, checkEachItem_eq_ok_iff vs]

end

end Structure

open Structure

/-! ### Documents -/

/-- The places of a document other than its own. -/
theorem properTree_document_iff {limit : Int} {id : Nat} {blocks : Value} :
    ProperTree limit (.document id blocks) ↔
      (∀ p ∈ blocks.places .blocks 1, p.Fits limit) ∧ (nodesAt (blocks.places .blocks 1)).Nodup := by
  have hroot : Place.Fits limit ⟨.document, 0, .document id blocks⟩ :=
    ⟨rfl, by simp, by simp [Value.headingLevel?], by simp [Value.textField?]⟩
  have hplaces : (Value.document id blocks).allPlaces =
      ⟨.document, 0, .document id blocks⟩ :: blocks.places .blocks 1 := rfl
  have hnodes : nodesAt (Value.document id blocks).allPlaces =
      nodesAt (blocks.places .blocks 1) := rfl
  constructor
  · rintro ⟨hfits, honce⟩
    rw [hnodes] at honce
    rw [hplaces] at hfits
    exact ⟨fun p hp => hfits p (List.mem_cons_of_mem _ hp), honce⟩
  · rintro ⟨hfits, honce⟩
    refine ⟨?_, hnodes ▸ honce⟩
    rw [hplaces]
    exact List.forall_mem_cons.mpr ⟨hroot, hfits⟩

/-- **The check accepts exactly the proper trees.** -/
theorem Structure.check_eq_ok_iff {limit : Int} {v : Value} :
    check limit v = .ok () ↔ ProperTree limit v := by
  cases v with
  | document id blocks =>
    -- The walk starts with no node seen, so all that is left is that they differ.
    have hstart : (∃ seen, Accepts limit (blocks.places .blocks 1) [] seen) ↔
        (∀ p ∈ blocks.places .blocks 1, p.Fits limit) ∧
          (nodesAt (blocks.places .blocks 1)).Nodup := by
      constructor
      · rintro ⟨seen, h⟩
        exact ⟨h.fits, h.once⟩
      · rintro ⟨hfits, honce⟩
        exact ⟨_, hfits, honce, fun _ _ => List.not_mem_nil, rfl⟩
    rw [properTree_document_iff, ← hstart, check, bind_eq_ok_iff]
    simp only [checkBlockRun_eq_ok_iff, pure_eq_ok, and_true]
  | _ =>
    refine iff_of_false (by simp [check]) fun h => ?_
    exact absurd (h.fits _ List.mem_cons_self).admitted (by simp [Role.admits, Value.isDocument])

instance (limit : Int) (v : Value) : Decidable (ProperTree limit v) :=
  match h : Structure.check limit v with
  | .ok () => isTrue (Structure.check_eq_ok_iff.mp h)
  | .error _ => isFalse fun hv => by simp [Structure.check_eq_ok_iff.mpr hv] at h

/-- One text at two places of a tree, at different depths. -/
example : ¬ ProperTree maxDepth (.document 0 (.tuple [.paragraph 1 (.tuple [.text 2 (.string []),
    .emphasis 3 (.tuple [.text 2 (.string [])])])])) := by decide

/-- **The structure check decides which values are proper trees.**  It accepts them,
and it ends with a fault of the tree on every other value. -/
theorem check_decides_proper_trees (limit : Int) (v : Value) :
    (Structure.check limit v = .ok () ↔ ProperTree limit v) ∧
      ((∃ fault : TreeFault, Structure.check limit v = .error fault) ↔ ¬ ProperTree limit v) := by
  refine ⟨Structure.check_eq_ok_iff, ?_⟩
  rw [← Structure.check_eq_ok_iff]
  cases Structure.check limit v with
  | ok u => simp
  | error fault => simp

end SmallWeb
