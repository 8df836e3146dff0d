/-
SmallWeb/Proofs/Extract/Targets.lean

Plain text without the targets of links.

Where targets are not asked for, the extractor goes into the children of a link and
does not look at its target.  So two trees that differ in targets only are read to
the same end: the same segments, or the same fault found at the same place.

There is one lemma for each function of the extractor, in the order in which these
call each other.  Main result: `segments_of_retargeted`.
-/
import SmallWeb.Extract
import SmallWeb.Proofs.Document.Retargeting

namespace SmallWeb

namespace Extract

variable {S : Value → Value → Value → Prop}

/-! ### Running text -/

mutual

theorem runText_of_retargeted (v : Value) {v' : Value} (h : v.Retargeted S v') (depth : Nat) :
    runText false depth v = runText false depth v' := by
  cases v with
  | tuple vs =>
    cases h with
    | tuple hvs => rw [runText, runText, pieces_of_retargeted vs hvs depth]
  | array vs =>
    cases h with
    | array hvs => rw [runText, runText, pieces_of_retargeted vs hvs depth]
  | _ => cases h; rfl

theorem pieces_of_retargeted (vs : List Value) {vs' : List Value}
    (h : List.Forall₂ (Value.Retargeted S) vs vs') (depth : Nat) :
    pieces false depth vs = pieces false depth vs' := by
  cases vs with
  | nil =>
    cases h
    rfl
  | cons v vs =>
    obtain ⟨v', ws, hv, hvs, rfl⟩ := List.forall₂_cons_left_iff.mp h
    rw [pieces, pieces, piece_of_retargeted v hv depth, pieces_of_retargeted vs hvs depth]

theorem piece_of_retargeted (v : Value) {v' : Value} (h : v.Retargeted S v') (depth : Nat) :
    piece false depth v = piece false depth v' := by
  cases v with
  | emphasis id children =>
    cases h with
    | emphasis hchildren =>
      rw [piece, piece, runText_of_retargeted children hchildren (depth + 1)]
  | strong id children =>
    cases h with
    | strong hchildren =>
      rw [piece, piece, runText_of_retargeted children hchildren (depth + 1)]
  | link id href children =>
    cases h with
    | link _ hchildren =>
      rw [piece, piece, runText_of_retargeted children hchildren (depth + 1)]
      -- Neither target is used, whether it is there or not.
      rfl
  | _ => cases h; rfl

end

/-! ### Blocks -/

mutual

theorem segmentsOf_of_retargeted (v : Value) {v' : Value} (h : v.Retargeted S v') (depth : Nat) :
    segmentsOf false depth v = segmentsOf false depth v' := by
  cases v with
  | document id blocks =>
    cases h with
    | document hblocks =>
      rw [segmentsOf, segmentsOf, segmentsIn_of_retargeted blocks hblocks (depth + 1)]
  | heading id level inline =>
    cases h with
    | heading hinline =>
      rw [segmentsOf, segmentsOf, runText_of_retargeted inline hinline (depth + 1)]
  | paragraph id inline =>
    cases h with
    | paragraph hinline =>
      rw [segmentsOf, segmentsOf, runText_of_retargeted inline hinline (depth + 1)]
  | list id ordered items start =>
    cases h with
    | list hitems =>
      rw [segmentsOf, segmentsOf, itemSegments_of_retargeted items hitems (depth + 1)]
  | blockquote id children =>
    cases h with
    | blockquote hchildren =>
      rw [segmentsOf, segmentsOf, segmentsIn_of_retargeted children hchildren (depth + 1)]
  | tuple vs =>
    cases h with
    | tuple hvs => rfl
  | array vs =>
    cases h with
    | array hvs => rfl
  -- A node of running text in the place of a block is read as a run of its own.
  | emphasis id children =>
    have hpieces := pieces_of_retargeted [Value.emphasis id children] (.cons h .nil) depth
    cases h with
    | emphasis hchildren => rw [segmentsOf, segmentsOf, hpieces] <;> simp
  | strong id children =>
    have hpieces := pieces_of_retargeted [Value.strong id children] (.cons h .nil) depth
    cases h with
    | strong hchildren => rw [segmentsOf, segmentsOf, hpieces] <;> simp
  | link id href children =>
    have hpieces := pieces_of_retargeted [Value.link id href children] (.cons h .nil) depth
    cases h with
    | link hhref hchildren => rw [segmentsOf, segmentsOf, hpieces] <;> simp
  | _ => cases h; rfl

theorem segmentsIn_of_retargeted (v : Value) {v' : Value} (h : v.Retargeted S v') (depth : Nat) :
    segmentsIn false depth v = segmentsIn false depth v' := by
  cases v with
  | tuple vs =>
    cases h with
    | tuple hvs =>
      rw [segmentsIn, segmentsIn]
      exact segmentsAll_of_retargeted vs hvs depth
  | array vs =>
    cases h with
    | array hvs =>
      rw [segmentsIn, segmentsIn]
      exact segmentsAll_of_retargeted vs hvs depth
  | _ => cases h; rfl

theorem segmentsAll_of_retargeted (vs : List Value) {vs' : List Value}
    (h : List.Forall₂ (Value.Retargeted S) vs vs') (depth : Nat) :
    segmentsAll false depth vs = segmentsAll false depth vs' := by
  cases vs with
  | nil =>
    cases h
    rfl
  | cons v vs =>
    obtain ⟨v', ws, hv, hvs, rfl⟩ := List.forall₂_cons_left_iff.mp h
    rw [segmentsAll, segmentsAll, segmentsOf_of_retargeted v hv depth,
      segmentsAll_of_retargeted vs hvs depth]

theorem itemSegments_of_retargeted (v : Value) {v' : Value} (h : v.Retargeted S v')
    (depth : Nat) : itemSegments false depth v = itemSegments false depth v' := by
  cases v with
  | tuple vs =>
    cases h with
    | tuple hvs =>
      rw [itemSegments, itemSegments]
      exact itemSegmentsAll_of_retargeted vs hvs depth
  | array vs =>
    cases h with
    | array hvs =>
      rw [itemSegments, itemSegments]
      exact itemSegmentsAll_of_retargeted vs hvs depth
  | _ => cases h; rfl

theorem itemSegmentsAll_of_retargeted (vs : List Value) {vs' : List Value}
    (h : List.Forall₂ (Value.Retargeted S) vs vs') (depth : Nat) :
    itemSegmentsAll false depth vs = itemSegmentsAll false depth vs' := by
  cases vs with
  | nil =>
    cases h
    rfl
  | cons v vs =>
    obtain ⟨v', ws, hv, hvs, rfl⟩ := List.forall₂_cons_left_iff.mp h
    rw [itemSegmentsAll, itemSegmentsAll, segmentsIn_of_retargeted v hv depth,
      itemSegmentsAll_of_retargeted vs hvs depth]

end

end Extract

/-- **Targets do not show in plain text**: the segments of two trees that differ in
them only are the same. -/
theorem segments_of_retargeted {S : Value → Value → Value → Prop} {v v' : Value}
    (h : v.Retargeted S v') : segments false v = segments false v' := by
  have hsame := fun depth => Extract.segmentsOf_of_retargeted v h depth
  cases h <;> exact hsame _

end SmallWeb
