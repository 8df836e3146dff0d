/-
SmallWeb/Proofs/Extract/Code.lean

Segments of code.

A segment is marked as code where it comes from a code block and nowhere else.  So the
code among the segments of a proper tree can be read off the places of the tree, in
reading order and without the walk (`codeTexts_segments`).  Places of inline nodes hold
no code blocks, whatever is said of code inside running text.

The lemmas follow the extractor, one for each of its functions over blocks.
-/
import SmallWeb.Proofs.Extract
import SmallWeb.Proofs.Structure

namespace SmallWeb

/-- The literal of a code block. -/
def Value.codeLiteral? : Value → Option (List Char)
  | .codeBlock _ (.string literal) _ => some literal
  | _ => none

/-- The literals of the code blocks at places. -/
def literalsAt (ps : List Place) : List (List Char) := ps.filterMap fun p => p.value.codeLiteral?

theorem literalsAt_append (ps qs : List Place) :
    literalsAt (ps ++ qs) = literalsAt ps ++ literalsAt qs := List.filterMap_append

/-- The texts of the segments that are code. -/
def codeTexts (ss : List Segment) : List (List Char) :=
  (ss.filter Segment.isCode).map Segment.text

theorem codeTexts_append (ss ts : List Segment) :
    codeTexts (ss ++ ts) = codeTexts ss ++ codeTexts ts := by
  unfold codeTexts
  rw [List.filter_append, List.map_append]

/-- What the extractor gives of a literal: the line feeds at its end are left out. -/
def literalBody (literal : List Char) : List Char := Text.dropEndWhile (· == '\n') literal

/-! ### Running text -/

section Running

variable {limit : Int}

mutual

/-- Running text has places of inline nodes only. -/
theorem literalsAt_run (v : Value) {depth : Nat}
    (hfits : ∀ p ∈ v.places .inlines depth, p.Fits limit) :
    literalsAt (v.places .inlines depth) = [] := by
  obtain ⟨hself, hwithin⟩ := List.forall_mem_cons.mp hfits
  cases v with
  | tuple vs => exact literalsAt_inlines vs hwithin
  | array vs => exact literalsAt_inlines vs hwithin
  | _ => exact absurd hself.admitted (by simp [Role.admits, Value.isSequence])

theorem literalsAt_inlines (vs : List Value) {depth : Nat}
    (hfits : ∀ p ∈ Value.placesAll .inline depth vs, p.Fits limit) :
    literalsAt (Value.placesAll .inline depth vs) = [] := by
  cases vs with
  | nil => rfl
  | cons v vs =>
    rw [Value.placesAll_cons, List.forall_mem_append] at hfits
    rw [Value.placesAll_cons, literalsAt_append, literalsAt_inline v hfits.1,
      literalsAt_inlines vs hfits.2]
    rfl

theorem literalsAt_inline (v : Value) {depth : Nat}
    (hfits : ∀ p ∈ v.places .inline depth, p.Fits limit) :
    literalsAt (v.places .inline depth) = [] := by
  obtain ⟨hself, hwithin⟩ := List.forall_mem_cons.mp hfits
  cases v with
  | text id t => rfl
  | code id literal => rfl
  | lineBreak id => rfl
  | emphasis id children => exact literalsAt_run children hwithin
  | strong id children => exact literalsAt_run children hwithin
  | link id href children => exact literalsAt_run children hwithin
  | _ => exact absurd hself.admitted (by simp [Role.admits, Value.isInline])

end

/-- The segment of running text holds no code, and neither do its places. -/
theorem codeTexts_running {inline : Value} {depth : Nat}
    (hfits : ∀ p ∈ inline.places .inlines depth, p.Fits limit) (t : List Char) :
    codeTexts [⟨t, false⟩] = (literalsAt (inline.places .inlines depth)).map literalBody := by
  rw [literalsAt_run inline hfits]
  rfl

end Running

/-! ### Blocks -/

namespace Extract

variable {hrefs : Bool}

mutual

/-- **The code of a block** is that of the code blocks in it, in their order. -/
theorem codeTexts_segmentsOf (v : Value) {depth : Nat}
    (hfits : ∀ p ∈ v.places .block depth, p.Fits maxDepth) {ss : List Segment}
    (h : segmentsOf hrefs depth v = .ok ss) :
    codeTexts ss = (literalsAt (v.places .block depth)).map literalBody := by
  obtain ⟨hself, hwithin⟩ := List.forall_mem_cons.mp hfits
  cases v with
  | heading id level inline =>
    rw [segmentsOf] at h
    obtain ⟨-, -, h⟩ := bind_eq_ok_iff.mp h
    obtain ⟨t, -, h⟩ := bind_eq_ok_iff.mp h
    obtain rfl : [⟨t, false⟩] = ss := Except.ok.inj h
    exact codeTexts_running hwithin _
  | paragraph id inline =>
    rw [segmentsOf] at h
    obtain ⟨-, -, h⟩ := bind_eq_ok_iff.mp h
    obtain ⟨t, -, h⟩ := bind_eq_ok_iff.mp h
    obtain rfl : [⟨t, false⟩] = ss := Except.ok.inj h
    exact codeTexts_running hwithin _
  | list id ordered items start =>
    rw [segmentsOf] at h
    obtain ⟨-, -, h⟩ := bind_eq_ok_iff.mp h
    exact codeTexts_itemSegments items hwithin h
  | codeBlock id literal language =>
    rw [segmentsOf] at h
    obtain ⟨-, -, h⟩ := bind_eq_ok_iff.mp h
    obtain ⟨t, ht, h⟩ := bind_eq_ok_iff.mp h
    obtain rfl : [⟨t, true⟩] = ss := Except.ok.inj h
    obtain ⟨s, rfl⟩ := hself.text literal rfl
    obtain rfl : literalBody s = t := Except.ok.inj ht
    rfl
  | blockquote id children =>
    rw [segmentsOf] at h
    obtain ⟨-, -, h⟩ := bind_eq_ok_iff.mp h
    exact codeTexts_segmentsIn children hwithin h
  | thematicBreak id =>
    rw [segmentsOf] at h
    obtain ⟨-, -, h⟩ := bind_eq_ok_iff.mp h
    obtain rfl : [] = ss := Except.ok.inj h
    rfl
  | _ => exact absurd hself.admitted (by simp [Role.admits, Value.isBlock])

theorem codeTexts_segmentsIn (v : Value) {depth : Nat}
    (hfits : ∀ p ∈ v.places .blocks depth, p.Fits maxDepth) {ss : List Segment}
    (h : segmentsIn hrefs depth v = .ok ss) :
    codeTexts ss = (literalsAt (v.places .blocks depth)).map literalBody := by
  obtain ⟨hself, hwithin⟩ := List.forall_mem_cons.mp hfits
  cases v with
  | tuple vs =>
    rw [segmentsIn] at h
    exact codeTexts_segmentsAll vs hwithin h
  | array vs =>
    rw [segmentsIn] at h
    exact codeTexts_segmentsAll vs hwithin h
  | _ => exact absurd hself.admitted (by simp [Role.admits, Value.isSequence])

theorem codeTexts_segmentsAll (vs : List Value) {depth : Nat}
    (hfits : ∀ p ∈ Value.placesAll .block depth vs, p.Fits maxDepth) {ss : List Segment}
    (h : segmentsAll hrefs depth vs = .ok ss) :
    codeTexts ss = (literalsAt (Value.placesAll .block depth vs)).map literalBody := by
  cases vs with
  | nil =>
    obtain rfl : [] = ss := Except.ok.inj h
    rfl
  | cons v vs =>
    rw [Value.placesAll_cons, List.forall_mem_append] at hfits
    rw [segmentsAll] at h
    obtain ⟨first, hfirst, h⟩ := bind_eq_ok_iff.mp h
    obtain ⟨rest, hrest, h⟩ := bind_eq_ok_iff.mp h
    obtain rfl : first ++ rest = ss := Except.ok.inj h
    rw [Value.placesAll_cons, literalsAt_append, List.map_append, codeTexts_append,
      codeTexts_segmentsOf v hfits.1 hfirst, codeTexts_segmentsAll vs hfits.2 hrest]

theorem codeTexts_itemSegments (v : Value) {depth : Nat}
    (hfits : ∀ p ∈ v.places .items depth, p.Fits maxDepth) {ss : List Segment}
    (h : itemSegments hrefs depth v = .ok ss) :
    codeTexts ss = (literalsAt (v.places .items depth)).map literalBody := by
  obtain ⟨hself, hwithin⟩ := List.forall_mem_cons.mp hfits
  cases v with
  | tuple vs =>
    rw [itemSegments] at h
    exact codeTexts_itemSegmentsAll vs hwithin h
  | array vs =>
    rw [itemSegments] at h
    exact codeTexts_itemSegmentsAll vs hwithin h
  | _ => exact absurd hself.admitted (by simp [Role.admits, Value.isSequence])

theorem codeTexts_itemSegmentsAll (vs : List Value) {depth : Nat}
    (hfits : ∀ p ∈ Value.placesAll .blocks depth vs, p.Fits maxDepth) {ss : List Segment}
    (h : itemSegmentsAll hrefs depth vs = .ok ss) :
    codeTexts ss = (literalsAt (Value.placesAll .blocks depth vs)).map literalBody := by
  cases vs with
  | nil =>
    obtain rfl : [] = ss := Except.ok.inj h
    rfl
  | cons v vs =>
    rw [Value.placesAll_cons, List.forall_mem_append] at hfits
    rw [itemSegmentsAll] at h
    obtain ⟨first, hfirst, h⟩ := bind_eq_ok_iff.mp h
    obtain ⟨rest, hrest, h⟩ := bind_eq_ok_iff.mp h
    obtain rfl : first ++ rest = ss := Except.ok.inj h
    rw [Value.placesAll_cons, literalsAt_append, List.map_append, codeTexts_append,
      codeTexts_segmentsIn v hfits.1 hfirst, codeTexts_itemSegmentsAll vs hfits.2 hrest]

end

end Extract

/-- **The code of a proper tree** is that of the code blocks at its places. -/
theorem codeTexts_segments {hrefs : Bool} {doc : Value} (hproper : ProperTree maxDepth doc)
    {ss : List Segment} (h : segments hrefs doc = .ok ss) :
    codeTexts ss = (literalsAt doc.allPlaces).map literalBody := by
  obtain ⟨hself, hwithin⟩ := List.forall_mem_cons.mp hproper.fits
  cases doc with
  | document id blocks =>
    rw [segments, Extract.segmentsOf] at h
    obtain ⟨-, -, h⟩ := bind_eq_ok_iff.mp h
    exact Extract.codeTexts_segmentsIn blocks hwithin h
  | _ => exact absurd hself.admitted (by simp [Role.admits, Value.isDocument])

end SmallWeb
