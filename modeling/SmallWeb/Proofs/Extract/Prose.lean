/-
SmallWeb/Proofs/Extract/Prose.lean

Segments of prose.

A segment is marked as code where it comes from a code block and nowhere else.  So a
proper tree in which no code block stands at any place gives prose only, and whoever
treats the two kinds of segments differently has one kind to deal with.
-/
import SmallWeb.Proofs.Extract.Code

namespace SmallWeb

/-- A value that is a code block. -/
def Value.isCodeBlock : Value → Bool
  | .codeBlock .. => true
  | _ => false

/-- No code block stands at a place. -/
def CodeFree (ps : List Place) : Prop := ∀ p ∈ ps, p.value.isCodeBlock = false

instance (ps : List Place) : Decidable (CodeFree ps) :=
  inferInstanceAs (Decidable (∀ p ∈ ps, p.value.isCodeBlock = false))

/-- Without code blocks there are no literals. -/
theorem literalsAt_of_codeFree {ps : List Place} (h : CodeFree ps) : literalsAt ps = [] := by
  refine List.filterMap_eq_nil_iff.mpr fun p hp => ?_
  have hcode := h p hp
  cases hvalue : p.value with
  | codeBlock id literal language => simp [hvalue, Value.isCodeBlock] at hcode
  | _ => rfl

/-- Segments of which none is code. -/
def AreProse (ss : List Segment) : Prop := ∀ s ∈ ss, s.isCode = false

theorem areProse_iff {ss : List Segment} : AreProse ss ↔ codeTexts ss = [] := by
  unfold AreProse codeTexts
  rw [List.map_eq_nil_iff, List.filter_eq_nil_iff]
  simp only [Bool.not_eq_true]

/-- **A proper tree without code blocks gives prose.** -/
theorem areProse_segments {hrefs : Bool} {doc : Value} (hproper : ProperTree maxDepth doc)
    (hfree : CodeFree doc.allPlaces) {ss : List Segment} (h : segments hrefs doc = .ok ss) :
    AreProse ss := by
  rw [areProse_iff, codeTexts_segments hproper h, literalsAt_of_codeFree hfree]
  rfl

end SmallWeb
