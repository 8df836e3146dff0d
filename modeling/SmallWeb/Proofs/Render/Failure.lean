/-
SmallWeb/Proofs/Render/Failure.lean

How the renders of proper trees fail.

A proper tree has no node at a place where it cannot be, and no node that lies too
deep, so what a walk refuses elsewhere it does not meet there.  Two things are
left.  The structure check does not look at the start of a list, and the number of
an item cannot be made from a start that is no number.  And the check knows no
widths: Gopher text draws a rule over the whole width, which may be more than a
text can hold.

`x.Ends Q P` says how a walk can end, with a value in `Q` or with a fault in `P`.
As all walks are composed of a few, it is enough that each operation of a format
ends well on the values that the check lets through (`Format.Robust`).

Main results: `Format.Robust.ends_documentLines`, that a walk has no other faults,
`checked_document_renders`, that a document with whole numbers as starts is rendered
where its rules can be drawn, and `exists_checked_not_rendered`, that they cannot
always.
-/
import SmallWeb.Proofs.Render.Gemini
import SmallWeb.Proofs.Render.Gopher
import SmallWeb.Proofs.Structure

namespace SmallWeb

/-! ### Starts of lists -/

namespace Value

/-- A value that the index of an item can be added to. -/
def isNumber : Value → Bool
  | int _ | bool _ | float _ => true
  | _ => false

/-- An ordered list that has items but no number for them. -/
def startsBadly : Value → Bool
  | list _ ordered items start => ordered.truthy && items.truthy && !start.isNumber
  | _ => false

end Value

/-- No list at these places starts badly. -/
def StartsWell (ps : List Place) : Prop := ∀ p ∈ ps, p.value.startsBadly = false

theorem startsWell_nil : StartsWell [] := by simp [StartsWell]

theorem startsWell_cons_iff {p : Place} {ps : List Place} :
    StartsWell (p :: ps) ↔ p.value.startsBadly = false ∧ StartsWell ps :=
  List.forall_mem_cons

theorem startsWell_append_iff {ps qs : List Place} :
    StartsWell (ps ++ qs) ↔ StartsWell ps ∧ StartsWell qs :=
  List.forall_mem_append

/-- A place without a list can be passed over. -/
theorem startsWell_cons_of_eq_false {p : Place} {ps : List Place}
    (h : p.value.startsBadly = false) : StartsWell (p :: ps) ↔ StartsWell ps := by
  rw [startsWell_cons_iff]
  exact and_iff_right h

/-- **The faults of a proper tree**: a list at one of its places starts badly, or,
where the width is too large for a text, there is a rule. -/
inductive Failure (wide : Prop) (ps : List Place) : Fault → Prop
  | start {p : Place} : p ∈ ps → p.value.startsBadly = true → Failure wide ps .wrongType
  | rule {p : Place} : p ∈ ps → p.value.isRule = true → wide → Failure wide ps .tooLong

/-! ### How walks end -/

namespace Walk

variable {α β : Type} {Q : α → Prop} {R : β → Prop} {P : Fault → Prop}

/-- From every log the walk yields a value in `Q` or ends with a fault in `P`. -/
def Ends (x : Walk α) (Q : α → Prop) (P : Fault → Prop) : Prop :=
  ∀ log, (∃ a log', x.outcome log = (.ok a, log') ∧ Q a) ∨
    ∃ e, (x.outcome log).1 = .error e ∧ P e

theorem Ends.pure {a : α} (ha : Q a) : Ends (Pure.pure a) Q P :=
  fun log => .inl ⟨a, log, outcome_pure a log, ha⟩

theorem Ends.ofExcept_ok {x : Except Fault α} {a : α} (h : x = .ok a) (ha : Q a) :
    Ends (Walk.ofExcept x) Q P := by
  intro log
  rw [h]
  exact .inl ⟨a, log, outcome_ofExcept _ log, ha⟩

theorem Ends.ofExcept_error {x : Except Fault α} {e : Fault} (h : x = .error e) (he : P e) :
    Ends (Walk.ofExcept x) Q P := by
  intro log
  rw [h]
  exact .inr ⟨e, rfl, he⟩

/-- **Walks compose**: the second one starts where the first has not failed. -/
theorem Ends.bind {x : Walk α} {f : α → Walk β} (hx : Ends x Q P)
    (hf : ∀ a, Q a → Ends (f a) R P) : Ends (x >>= f) R P := by
  intro log
  rcases hx log with ⟨a, log', ha, hQ⟩ | ⟨e, he, hP⟩
  · rw [outcome_bind_of_ok ha]
    exact hf a hQ log'
  · exact .inr ⟨e, outcome_bind_of_error he, hP⟩

theorem Ends.bind_pure {x : Walk α} {f : α → β} (hx : Ends x Q P) (hf : ∀ a, Q a → R (f a)) :
    Ends (x >>= fun a => Pure.pure (f a)) R P :=
  hx.bind fun a ha => Ends.pure (hf a ha)

/-- What is known to be given, if need be with the fault that a text is too long. -/
theorem Ends.of_gives {x : Walk α} {ok : Bool}
    (hx : ∀ log, ∃ a log', Gives x log ok a log' ∧ Q a) (hP : ok = false → P .tooLong) :
    Ends x Q P := by
  intro log
  obtain ⟨a, log', hgives, ha⟩ := hx log
  cases ok with
  | true => exact .inl ⟨a, log', gives_true_iff.mp hgives, ha⟩
  | false => exact .inr ⟨.tooLong, hgives, hP rfl⟩

theorem Ends.mono {x : Walk α} {Q' : α → Prop} (hx : Ends x Q P) (h : ∀ a, Q a → Q' a) :
    Ends x Q' P := by
  intro log
  rcases hx log with ⟨a, log', ha, hQ⟩ | hfault
  · exact .inl ⟨a, log', ha, h a hQ⟩
  · exact .inr hfault

theorem ends_get : Ends (get : Walk LinkLog) (fun _ => True) P :=
  fun log => .inl ⟨log, log, outcome_get log, trivial⟩

theorem ends_set (log : LinkLog) : Ends (set log : Walk PUnit) (fun _ => True) P :=
  fun log' => .inl ⟨⟨⟩, log, outcome_set log' log, trivial⟩

theorem ends_registerLink (href : List Char) :
    Ends (Walk.registerLink href) (fun _ => True) P :=
  Ends.of_gives (fun log => ⟨_, _, gives_registerLink href log, trivial⟩) (by simp)

theorem ends_noteLink (href text : List Char) : Ends (Walk.noteLink href text) (fun _ => True) P :=
  Ends.of_gives (fun log => ⟨_, _, gives_noteLink href text log, trivial⟩) (by simp)

/-- A node that does not lie too deep may be entered. -/
theorem ends_checkDepth {depth : Nat} (h : depth ≤ maxDepth) :
    Ends (Walk.ofExcept (checkDepth depth)) (fun _ => True) P :=
  Ends.ofExcept_ok (checkDepth_of_le h) trivial

/-- Text is broken into lines at any width. -/
theorem ends_proseLines (text : List Char) (width : Nat) (lead : List Char) :
    Ends (Walk.ofExcept ((proseLines text width lead).mapError .config)) (fun _ => True) P :=
  Ends.ofExcept_ok (by rw [proseLines_eq]; rfl) trivial

end Walk

open Walk

/-! ### Formats -/

/-- A format whose operations end well on the values that the structure check lets
through.  Only a marker can fail, where its list starts badly, and a rule at a
width that is `wide`. -/
structure Format.Robust (fmt : Format) (wide : Nat → Prop) : Prop where
  heading {level : Value} {n : Int} {text : Walk (List Char)} {Q : Prop} {P : Fault → Prop}
    (width : Nat) : level.level? = some n → text.Ends (fun _ => Q) P →
    (fmt.heading level text width).Ends (fun _ => Q) P
  codeBlock (literal : List Char) (language : Value) {P : Fault → Prop} :
    (fmt.codeBlock (.string literal) language).Ends (fun _ => True) P
  thematicBreak (width : Nat) {P : Fault → Prop} : (wide width → P .tooLong) →
    (fmt.thematicBreak width).Ends (fun _ => True) P
  marker (ordered start : Value) (index : Nat) {P : Fault → Prop} :
    (ordered.truthy = true → start.isNumber = false → P .wrongType) →
    (fmt.marker ordered start index).Ends
      (fun _ => ordered.truthy = true → start.isNumber = true) P
  codeSpan (literal : List Char) : ∃ t, fmt.codeSpan (.string literal) = .string t
  link (href text : List Char) {P : Fault → Prop} :
    (fmt.link (.string href) text).Ends (fun v => ∃ t, v = .string t) P
  wide_of_inner {width taken : Nat} : wide (innerRoom width taken) → wide width

namespace Format.Robust

variable {fmt : Format} {wide : Nat → Prop} {widest : Prop} {ps : List Place}

/-! ### Running text -/

mutual

/-- The walk over a run. -/
theorem ends_run (F : fmt.Robust wide) (v : Value) {depth : Nat}
    (hfits : ∀ p ∈ v.places .inlines depth, p.Fits maxDepth) {P : Fault → Prop} :
    (fmt.run v).Ends (fun _ => StartsWell (v.places .inlines depth)) P := by
  obtain ⟨hself, hwithin⟩ := List.forall_mem_cons.mp hfits
  cases v with
  | tuple vs =>
    rw [Format.run, Value.places, startsWell_cons_of_eq_false rfl]
    apply (ends_pieces F vs hwithin).bind
    rintro texts ⟨htexts, hstarts⟩
    obtain ⟨t, ht⟩ := exists_joinPieces htexts
    exact Ends.ofExcept_ok ht hstarts
  | array vs =>
    rw [Format.run, Value.places, startsWell_cons_of_eq_false rfl]
    apply (ends_pieces F vs hwithin).bind
    rintro texts ⟨htexts, hstarts⟩
    obtain ⟨t, ht⟩ := exists_joinPieces htexts
    exact Ends.ofExcept_ok ht hstarts
  | _ => exact absurd hself.admitted (by simp [Role.admits, Value.isSequence])

/-- The walk over the nodes of a run. -/
theorem ends_pieces (F : fmt.Robust wide) (vs : List Value) {depth : Nat}
    (hfits : ∀ p ∈ Value.placesAll .inline depth vs, p.Fits maxDepth) {P : Fault → Prop} :
    (fmt.pieces vs).Ends
      (fun ts => AreTexts ts ∧ StartsWell (Value.placesAll .inline depth vs)) P := by
  cases vs with
  | nil => exact Ends.pure ⟨by simp [AreTexts], startsWell_nil⟩
  | cons v vs =>
    rw [Value.placesAll_cons, List.forall_mem_append] at hfits
    rw [Format.pieces, Value.placesAll_cons, startsWell_append_iff]
    apply (ends_piece F v hfits.1).bind
    rintro t ⟨ht, hstart⟩
    apply (ends_pieces F vs hfits.2).bind_pure
    rintro ts ⟨hts, hstarts⟩
    exact ⟨List.forall_mem_cons.mpr ⟨ht, hts⟩, hstart, hstarts⟩

/-- The walk over an inline node. -/
theorem ends_piece (F : fmt.Robust wide) (v : Value) {depth : Nat}
    (hfits : ∀ p ∈ v.places .inline depth, p.Fits maxDepth) {P : Fault → Prop} :
    (fmt.piece v).Ends
      (fun t => (∃ s, t = .string s) ∧ StartsWell (v.places .inline depth)) P := by
  obtain ⟨hself, hwithin⟩ := List.forall_mem_cons.mp hfits
  cases v with
  | text id t =>
    obtain ⟨s, rfl⟩ := hself.text t rfl
    exact Ends.pure ⟨⟨s, rfl⟩, (startsWell_cons_of_eq_false rfl).mpr startsWell_nil⟩
  | code id literal =>
    obtain ⟨s, rfl⟩ := hself.text literal rfl
    exact Ends.pure ⟨F.codeSpan s, (startsWell_cons_of_eq_false rfl).mpr startsWell_nil⟩
  | lineBreak id =>
    exact Ends.pure ⟨⟨['\n'], rfl⟩, (startsWell_cons_of_eq_false rfl).mpr startsWell_nil⟩
  | emphasis id children =>
    rw [Format.piece, Value.places, startsWell_cons_of_eq_false rfl]
    exact (ends_run F children hwithin).bind_pure fun t hstarts => ⟨⟨t, rfl⟩, hstarts⟩
  | strong id children =>
    rw [Format.piece, Value.places, startsWell_cons_of_eq_false rfl]
    exact (ends_run F children hwithin).bind_pure fun t hstarts => ⟨⟨t, rfl⟩, hstarts⟩
  | link id href children =>
    obtain ⟨s, rfl⟩ := hself.text href rfl
    rw [Format.piece, Value.places, startsWell_cons_of_eq_false rfl]
    apply (ends_run F children hwithin).bind
    intro t hstarts
    exact (F.link s t).mono fun v hv => ⟨hv, hstarts⟩
  | _ => exact absurd hself.admitted (by simp [Role.admits, Value.isInline])

end

/-! ### Blocks -/

/-- The walk over an item, from the walk over its blocks. -/
theorem ends_item {ordered start : Value} {index width : Nat} {marked starts : Prop}
    {P : Fault → Prop} {content : Int → Walk (List (List Line))}
    (hmarker : (fmt.marker ordered start index).Ends (fun _ => marked) P)
    (hcontent : ∀ taken, (content (innerRoom width taken : Nat)).Ends (fun _ => starts) P) :
    (fmt.item ordered start index width content).Ends (fun _ => marked ∧ starts) P := by
  rw [Format.item]
  apply hmarker.bind
  intro marker hmarked
  rw [innerWidth_eq]
  exact (hcontent marker.length).bind_pure fun _ hstarts => ⟨hmarked, hstarts⟩

mutual

/-- **The walk over a block** ends with a failure of a proper tree, if with any. -/
theorem ends_block (F : fmt.Robust wide) (v : Value) {depth width : Nat}
    (hwidth : wide width → widest)
    (hps : ∀ p ∈ v.places .block depth, p.Fits maxDepth ∧ p ∈ ps) :
    (fmt.block depth width v).Ends (fun _ => StartsWell (v.places .block depth))
      (Failure widest ps) := by
  obtain ⟨⟨hself, hmem⟩, hwithin⟩ := List.forall_mem_cons.mp hps
  have henter : (Walk.ofExcept (checkDepth depth)).Ends (fun _ => True) (Failure widest ps) :=
    ends_checkDepth (Int.ofNat_le.mp (hself.shallow (.inl rfl)))
  cases v with
  | heading id level inline =>
    obtain ⟨n, hn⟩ := hself.level level rfl
    rw [Format.block, Value.places, startsWell_cons_of_eq_false rfl]
    apply henter.bind
    intro _ _
    exact F.heading width (Value.level?_eq_some_iff.mpr hn)
      (ends_run F inline fun p hp => (hwithin p hp).1)
  | paragraph id inline =>
    rw [Format.block, Value.places, startsWell_cons_of_eq_false rfl]
    apply henter.bind
    intro _ _
    apply (ends_run F inline fun p hp => (hwithin p hp).1).bind
    intro text hstarts
    exact (ends_proseLines text width []).mono fun _ _ => hstarts
  | list id ordered items start =>
    rw [Format.block, Value.places, startsWell_cons_iff]
    apply henter.bind
    intro _ _
    -- The walk asks for a marker only where there is an item.
    have hmarker : items.truthy = true → ∀ index, (fmt.marker ordered start index).Ends
        (fun _ => ordered.truthy = true → start.isNumber = true) (Failure widest ps) := by
      intro hitems index
      apply F.marker
      intro hordered hstart
      exact .start hmem (by simp [Value.startsBadly, hordered, hitems, hstart])
    apply (ends_itemsOf F items hwidth hmarker hwithin).bind_pure
    rintro _ ⟨hmarked, hstarts⟩
    refine ⟨?_, hstarts⟩
    simpa [Value.startsBadly, and_imp] using fun hordered hitems => hmarked hitems hordered
  | codeBlock id literal language =>
    obtain ⟨s, rfl⟩ := hself.text literal rfl
    rw [Format.block, Value.places, startsWell_cons_of_eq_false rfl]
    apply henter.bind
    intro _ _
    exact (F.codeBlock s language).mono fun _ _ => startsWell_nil
  | blockquote id children =>
    rw [Format.block, Value.places, startsWell_cons_of_eq_false rfl]
    apply henter.bind
    intro _ _
    have hinner : wide (innerRoom width 2) → widest := fun h => hwidth (F.wide_of_inner h)
    rw [innerWidth_eq]
    exact (ends_blocksOf F children hinner hwithin).bind_pure fun _ hstarts => hstarts
  | thematicBreak id =>
    rw [Format.block, Value.places, startsWell_cons_of_eq_false rfl]
    apply henter.bind
    intro _ _
    have hrule : wide width → Failure widest ps .tooLong := fun h => .rule hmem rfl (hwidth h)
    exact (F.thematicBreak width hrule).mono fun _ _ => startsWell_nil
  | _ => exact absurd hself.admitted (by simp [Role.admits, Value.isBlock])

/-- The walk over a sequence of blocks. -/
theorem ends_blocksOf (F : fmt.Robust wide) (v : Value) {depth width : Nat}
    (hwidth : wide width → widest)
    (hps : ∀ p ∈ v.places .blocks depth, p.Fits maxDepth ∧ p ∈ ps) :
    (fmt.blocksOf depth width v).Ends (fun _ => StartsWell (v.places .blocks depth))
      (Failure widest ps) := by
  obtain ⟨⟨hself, -⟩, hwithin⟩ := List.forall_mem_cons.mp hps
  cases v with
  | tuple vs =>
    rw [Format.blocksOf, Value.places, startsWell_cons_of_eq_false rfl]
    exact ends_blocks F vs hwidth hwithin
  | array vs =>
    rw [Format.blocksOf, Value.places, startsWell_cons_of_eq_false rfl]
    exact ends_blocks F vs hwidth hwithin
  | _ => exact absurd hself.admitted (by simp [Role.admits, Value.isSequence])

/-- The walk over several blocks. -/
theorem ends_blocks (F : fmt.Robust wide) (vs : List Value) {depth width : Nat}
    (hwidth : wide width → widest)
    (hps : ∀ p ∈ Value.placesAll .block depth vs, p.Fits maxDepth ∧ p ∈ ps) :
    (fmt.blocks depth width vs).Ends (fun _ => StartsWell (Value.placesAll .block depth vs))
      (Failure widest ps) := by
  cases vs with
  | nil => exact Ends.pure startsWell_nil
  | cons v vs =>
    rw [Value.placesAll_cons, List.forall_mem_append] at hps
    rw [Format.blocks, Value.placesAll_cons, startsWell_append_iff]
    apply (ends_block F v hwidth hps.1).bind
    intro _ hstart
    exact (ends_blocks F vs hwidth hps.2).bind_pure fun _ hstarts => ⟨hstart, hstarts⟩

/-- The walk over the items of a list, from what becomes of their markers. -/
theorem ends_itemsOf (F : fmt.Robust wide) (v : Value) {ordered start : Value}
    {depth width : Nat} {marked : Prop} (hwidth : wide width → widest)
    (hmarker : v.truthy = true → ∀ index,
      (fmt.marker ordered start index).Ends (fun _ => marked) (Failure widest ps))
    (hps : ∀ p ∈ v.places .items depth, p.Fits maxDepth ∧ p ∈ ps) :
    (fmt.itemsOf depth width ordered start v).Ends
      (fun _ => (v.truthy = true → marked) ∧ StartsWell (v.places .items depth))
      (Failure widest ps) := by
  obtain ⟨⟨hself, -⟩, hwithin⟩ := List.forall_mem_cons.mp hps
  cases v with
  | tuple vs =>
    rw [Format.itemsOf, Value.places, startsWell_cons_of_eq_false rfl]
    exact ends_eachItem F vs hwidth hmarker hwithin
  | array vs =>
    rw [Format.itemsOf, Value.places, startsWell_cons_of_eq_false rfl]
    exact ends_eachItem F vs hwidth hmarker hwithin
  | _ => exact absurd hself.admitted (by simp [Role.admits, Value.isSequence])

/-- The walk over several items. -/
theorem ends_eachItem (F : fmt.Robust wide) (vs : List Value) {ordered start : Value}
    {depth width index : Nat} {marked : Prop} (hwidth : wide width → widest)
    (hmarker : (!vs.isEmpty) = true → ∀ index,
      (fmt.marker ordered start index).Ends (fun _ => marked) (Failure widest ps))
    (hps : ∀ p ∈ Value.placesAll .blocks depth vs, p.Fits maxDepth ∧ p ∈ ps) :
    (fmt.eachItem depth width ordered start index vs).Ends
      (fun _ => ((!vs.isEmpty) = true → marked) ∧ StartsWell (Value.placesAll .blocks depth vs))
      (Failure widest ps) := by
  cases vs with
  | nil => exact Ends.pure ⟨by simp, startsWell_nil⟩
  | cons v vs =>
    rw [Value.placesAll_cons, List.forall_mem_append] at hps
    rw [Format.eachItem, Value.placesAll_cons, startsWell_append_iff]
    -- There is an item, so that the markers end as they are said to.
    have hitem := hmarker rfl
    have hcontent : ∀ taken, (fmt.blocksOf depth (innerRoom width taken : Nat) v).Ends
        (fun _ => StartsWell (v.places .blocks depth)) (Failure widest ps) := fun taken =>
      ends_blocksOf F v (fun h => hwidth (F.wide_of_inner h)) hps.1
    apply (ends_item (hitem index) hcontent).bind
    rintro _ ⟨hmarked, hstart⟩
    apply (ends_eachItem F vs hwidth (fun _ => hitem) hps.2).bind_pure
    rintro _ ⟨-, hstarts⟩
    exact ⟨fun _ => hmarked, hstart, hstarts⟩

end

/-! ### Documents -/

/-- The walk over a block at the top level and what follows it. -/
theorem ends_topBlock (F : fmt.Robust wide) (v : Value) {width : Nat}
    (hwidth : wide width → widest)
    (hps : ∀ p ∈ v.places .block 1, p.Fits maxDepth ∧ p ∈ ps) :
    (fmt.topBlock width v).Ends (fun _ => StartsWell (v.places .block 1))
      (Failure widest ps) := by
  rw [Format.topBlock]
  apply (ends_block F v hwidth hps).bind
  intro lines hstarts
  apply ends_get.bind
  intro log _
  exact (ends_set (fmt.afterBlock log).2).bind_pure fun _ _ => hstarts

/-- The walk over the blocks at the top level. -/
theorem ends_topBlocks (F : fmt.Robust wide) (vs : List Value) {width : Nat}
    (hwidth : wide width → widest)
    (hps : ∀ p ∈ Value.placesAll .block 1 vs, p.Fits maxDepth ∧ p ∈ ps) :
    (fmt.topBlocks width vs).Ends (fun _ => StartsWell (Value.placesAll .block 1 vs))
      (Failure widest ps) := by
  induction vs with
  | nil => exact Ends.pure startsWell_nil
  | cons v vs ih =>
    rw [Value.placesAll_cons, List.forall_mem_append] at hps
    rw [Format.topBlocks, Value.placesAll_cons, startsWell_append_iff]
    apply (ends_topBlock F v hwidth hps.1).bind
    intro _ hstart
    exact (ih hps.2).bind_pure fun _ hstarts => ⟨hstart, hstarts⟩

/-- **The walk over a proper tree** yields its lines only if no list starts badly, and
it has no faults but those of proper trees. -/
theorem ends_documentLines (F : fmt.Robust wide) {doc : Value}
    (hproper : ProperTree maxDepth doc) (width : Nat) :
    (fmt.documentLines width doc).Ends (fun _ => StartsWell doc.allPlaces)
      (Failure (wide width) doc.allPlaces) := by
  have hps : ∀ p ∈ doc.allPlaces, p.Fits maxDepth ∧ p ∈ doc.allPlaces :=
    fun p hp => ⟨hproper.fits p hp, hp⟩
  have hwidth : wide width → wide width := fun h => h
  obtain ⟨⟨hself, -⟩, hblocks⟩ := List.forall_mem_cons.mp hps
  cases doc with
  | document id blocks =>
    obtain ⟨⟨hsequence, -⟩, hwithin⟩ := List.forall_mem_cons.mp hblocks
    rw [Value.allPlaces, Value.places, startsWell_cons_of_eq_false rfl, Value.within]
    cases blocks with
    | tuple vs =>
      rw [Format.documentLines, startsWell_cons_of_eq_false rfl]
      apply (ends_topBlocks F vs hwidth hwithin).bind
      intro groups hstarts
      exact ends_get.bind_pure fun _ _ => hstarts
    | array vs =>
      rw [Format.documentLines, startsWell_cons_of_eq_false rfl]
      apply (ends_topBlocks F vs hwidth hwithin).bind
      intro groups hstarts
      exact ends_get.bind_pure fun _ _ => hstarts
    | _ => exact absurd hsequence.admitted (by simp [Role.admits, Value.isSequence])
  | _ => exact absurd hself.admitted (by simp [Role.admits, Value.isDocument])

/-- **A renderer on a proper tree.** -/
theorem render_ends (F : fmt.Robust wide) {doc : Value} (hproper : ProperTree maxDepth doc)
    {width : Int} (hwidth : 0 ≤ width) (log : LinkLog) :
    (∃ out, (Renderer.render ⟨fmt, width, log⟩ doc).1 = .ok out ∧ StartsWell doc.allPlaces) ∨
      ∃ e, (Renderer.render ⟨fmt, width, log⟩ doc).1 = .error e ∧
        Failure (wide width.toNat) doc.allPlaces e := by
  obtain ⟨n, rfl⟩ := Int.eq_ofNat_of_zero_le hwidth
  have hrender : (fmt.render n doc).Ends (fun _ => StartsWell doc.allPlaces)
      (Failure (wide n) doc.allPlaces) := by
    rw [Format.render]
    exact (ends_documentLines F hproper n).bind_pure fun _ hstarts => hstarts
  rcases hrender (fmt.restart log) with ⟨out, log', hout, hstarts⟩ | ⟨e, he, hfailure⟩
  · exact .inl ⟨out, congrArg Prod.fst hout, hstarts⟩
  · exact .inr ⟨e, he, hfailure⟩

end Format.Robust

/-! ### Gopher text and gemtext -/

/-- The marker of an item, from any start. -/
theorem ends_itemMarker (bullet : List Char) (ordered start : Value) (index : Nat)
    {P : Fault → Prop}
    (hP : ordered.truthy = true → start.isNumber = false → P .wrongType) :
    (itemMarker bullet ordered start index).Ends
      (fun _ => ordered.truthy = true → start.isNumber = true) P := by
  unfold itemMarker
  by_cases hordered : ordered.truthy = true
  · rw [if_pos hordered]
    have hnumber : (Walk.ofExcept (itemNumber start index)).Ends
        (fun _ => start.isNumber = true) P := by
      cases start with
      | int n => exact Ends.ofExcept_ok rfl rfl
      | bool b => exact Ends.ofExcept_ok rfl rfl
      | float x => exact Ends.ofExcept_ok rfl rfl
      | _ => exact Ends.ofExcept_error rfl (hP hordered rfl)
    exact hnumber.bind_pure fun _ h _ => h
  · rw [if_neg hordered]
    exact Ends.pure fun h => absurd h hordered

/-- **Gemtext ends well**, at any width. -/
theorem Gemini.robust : Gemini.format.Robust fun _ => False where
  heading {level n text Q P} width hlevel htext := by
    have hmark : (Walk.ofExcept (headingMarker level)).Ends (fun _ => True) P :=
      Ends.ofExcept_ok (headingMarker_eq hlevel) trivial
    apply hmark.bind
    intro marker _
    apply htext.bind
    intro t hQ
    exact (ends_proseLines _ width marker).mono fun _ _ => hQ
  codeBlock literal language _ := Ends.ofExcept_ok (codeLines_eq literal language) trivial
  thematicBreak _ _ _ := Ends.pure trivial
  marker ordered start index _ := ends_itemMarker bullet ordered start index
  codeSpan literal := ⟨literal, rfl⟩
  link href text _ := by
    show (Gemini.link (.string href) text).Ends _ _
    unfold Gemini.link
    split
    · exact (ends_noteLink _ _).bind_pure fun _ _ => ⟨text, rfl⟩
    · exact Ends.pure ⟨text, rfl⟩
  wide_of_inner h := h

/-- **Gopher text ends well** at widths that are the length of a text. -/
theorem Gopher.robust (o : RenderOptions) :
    (Gopher.format o).Robust fun width => Text.maxLength < width where
  heading {level n text Q P} width _ htext := by
    apply htext.bind
    intro t hQ
    exact (ends_proseLines t width []).mono fun _ _ => hQ
  codeBlock literal language _ := Ends.ofExcept_ok rfl trivial
  thematicBreak width P hP := by
    refine Ends.of_gives (fun log => ⟨_, _, (follows o []).thematicBreak width log, trivial⟩) ?_
    intro hlong
    apply hP
    have hlength : ¬ ruleLength width ≤ Text.maxLength := of_decide_eq_false hlong
    unfold ruleLength at hlength
    split at hlength
    · exact absurd (by decide) hlength
    · exact Nat.lt_of_not_le hlength
  marker ordered start index _ := ends_itemMarker bullet ordered start index
  codeSpan literal := by
    show ∃ t, Gopher.codeSpan o (.string literal) = .string t
    unfold Gopher.codeSpan
    split <;> exact ⟨_, rfl⟩
  link href text P := by
    show (Gopher.link o (.string href) text).Ends _ _
    unfold Gopher.link
    split
    · exact Ends.pure ⟨text, rfl⟩
    · split
      · cases text <;> exact Ends.pure ⟨_, rfl⟩
      · exact (ends_registerLink _).bind_pure fun n _ => ⟨_, rfl⟩
  wide_of_inner {width taken} h := by
    by_contra hwidth
    have hpos : 0 < Text.maxLength := by decide
    exact absurd h (Nat.not_lt.mpr (innerRoom_le hpos (Nat.not_lt.mp hwidth)))

/-! ### Checked documents -/

/-- What the structure check accepts is rendered as Gopher text, or it ends with a
failure of a proper tree. -/
theorem renderChecked_gopher {doc : Value} (hcheck : Structure.check maxDepth doc = .ok ())
    {o : RenderOptions} (ho : o.Valid) :
    (∃ out, renderChecked .gopher o doc = .ok out ∧ StartsWell doc.allPlaces) ∨
      ∃ e, renderChecked .gopher o doc = .error e ∧
        Failure (Text.maxLength < o.width) doc.allPlaces e := by
  rw [renderChecked_eq_renderWith hcheck, ← Int.lt_toNat]
  exact (Gopher.robust o).render_ends (Structure.check_eq_ok_iff.mp hcheck) ho {}

/-- What the structure check accepts is rendered as gemtext, unless a list starts
badly. -/
theorem renderChecked_gemini {doc : Value} (hcheck : Structure.check maxDepth doc = .ok ())
    {o : RenderOptions} (ho : o.Valid) :
    (∃ out, renderChecked .gemini o doc = .ok out ∧ StartsWell doc.allPlaces) ∨
      ∃ e, renderChecked .gemini o doc = .error e ∧ Failure False doc.allPlaces e := by
  rw [renderChecked_eq_renderWith hcheck]
  exact Gemini.robust.render_ends (Structure.check_eq_ok_iff.mp hcheck) ho {}

/-- **The structure check is enough for the line-oriented renders**, but for one thing.
A document that it accepts and whose ordered lists start with whole numbers is
rendered as gemtext under all valid options: no node is of a kind that the walk does
not know, none lies too deep for it, and no width is refused, since each of these
would be a fault.  It is rendered as Gopher text as well where all rules can be drawn.
Where they cannot, the width is more than the length of any text and the document has
a rule. -/
theorem checked_document_renders {doc : Value} (hcheck : Structure.check maxDepth doc = .ok ())
    (hstarts : doc.integerStarts = true) :
    ∃ d, Document.ofValue? doc = some d ∧ ∀ o : RenderOptions, o.Valid →
      (∃ out, render doc (.string Target.gemini.name) (.record o.record) = .ok out) ∧
      (∃ out, render doc (.string Target.gopher.name) (.record o.record) =
        if Gopher.fits o d then .ok out else .error .tooLong) ∧
      (Gopher.fits o d = false →
        Text.maxLength < o.width ∧ ∃ p ∈ doc.allPlaces, p.value.isRule = true) := by
  obtain ⟨d, hd, hheight⟩ := exists_document hcheck hstarts
  refine ⟨d, hd, fun o ho => ?_⟩
  have hgopher := (Gopher.render_eq ho hcheck hd hheight).1
  refine ⟨⟨_, (render_record _ ho).trans (Gemini.render_eq ho hcheck hd hheight)⟩,
    ⟨_, (render_record _ ho).trans hgopher⟩, fun hfits => ?_⟩
  rw [hfits, if_neg (by simp)] at hgopher
  rcases renderChecked_gopher hcheck ho with ⟨out, hout, -⟩ | ⟨e, he, hfailure⟩
  · rw [hgopher] at hout
    cases hout
  · rw [hgopher] at he
    cases he
    -- A list that starts badly would have been another fault.
    cases hfailure with
    | rule hmem hrule hwide => exact ⟨hwide, _, hmem, hrule⟩

/-- A quoted list with a rule in its second item. -/
def Value.ruleInQuotedItem : Value :=
  .document 0 (.tuple [.blockquote 1 (.tuple [.list 2 (.bool true)
    (.array [.tuple [], .tuple [.thematicBreak 3]]) (.int 9)])])

/-- The rule is drawn at the width of one character. -/
theorem checked_document_renders_quoted_rule :
    ∃ out, render Value.ruleInQuotedItem (.string Target.gopher.name)
      (.record (RenderOptions.record { width := 1 })) = .ok out := by
  obtain ⟨d, hd, hall⟩ := @checked_document_renders Value.ruleInQuotedItem rfl rfl
  obtain ⟨-, ⟨out, hout⟩, hfits⟩ := hall { width := 1 } (by decide)
  cases hd
  exact ⟨out, hout⟩

/-- **A checked document that cannot be rendered**: a rule at a width beyond the length
of any text. -/
theorem exists_checked_not_rendered :
    ¬ ∀ (doc : Value) (o : RenderOptions), Structure.check maxDepth doc = .ok () →
      doc.integerStarts = true → o.Valid →
      (∃ out, render doc (.string Target.gopher.name) (.record o.record) = .ok out) ∧
        ∃ out, render doc (.string Target.gemini.name) (.record o.record) = .ok out := by
  intro hall
  have hvalid : RenderOptions.Valid { width := 1000000000000000000000000000000 } := by decide
  obtain ⟨⟨out, hout⟩, -⟩ := hall (.document 0 (.tuple [.thematicBreak 1])) _ rfl rfl hvalid
  have hfails : render (.document 0 (.tuple [.thematicBreak 1])) (.string Target.gopher.name)
      (.record (RenderOptions.record { width := 1000000000000000000000000000000 })) =
        .error .tooLong := rfl
  rw [hfails] at hout
  cases hout

end SmallWeb
