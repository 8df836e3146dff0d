/-
SmallWeb/Proofs/Result.lean

Computations that may fail, and when they succeed.

A composed computation succeeds exactly when its parts do, one after the other.
With this equation a successful run is taken apart without a look at the
definitions that it is composed of.
-/
import SmallWeb.Value.Pieces

namespace SmallWeb

variable {ε α β : Type}

/-- **A composed computation succeeds** where both parts do. -/
theorem bind_eq_ok_iff {x : Except ε α} {f : α → Except ε β} {b : β} :
    (x >>= f) = .ok b ↔ ∃ a, x = .ok a ∧ f a = .ok b := by
  cases x with
  | error e =>
    constructor
    · intro h
      cases h
    · rintro ⟨a, ha, -⟩
      cases ha
  | ok a =>
    constructor
    · intro h
      exact ⟨a, rfl, h⟩
    · rintro ⟨a', ha, h⟩
      cases ha
      exact h

theorem ok_bind (a : α) (f : α → Except ε β) : (Except.ok a >>= f) = f a := rfl

theorem pure_eq_ok (a : α) : (pure a : Except ε α) = .ok a := rfl

theorem pure_eq_ok_iff {a b : α} : (pure a : Except ε α) = .ok b ↔ a = b := by
  rw [pure_eq_ok, Except.ok.injEq]

theorem checkDepth_eq_ok_iff {depth : Nat} {u : Unit} :
    checkDepth depth = .ok u ↔ depth ≤ maxDepth := by
  unfold checkDepth
  split
  · simp only [reduceCtorEq, false_iff]
    omega
  · simp only [true_iff]
    omega

theorem checkDepth_of_le {depth : Nat} (h : depth ≤ maxDepth) : checkDepth depth = .ok () :=
  checkDepth_eq_ok_iff.mpr h

/-- What is not too deep is not too deep further up. -/
theorem checkDepth_mono {depth depth' : Nat} {u : Unit} (h : checkDepth depth = .ok u)
    (hle : depth' ≤ depth) : checkDepth depth' = .ok () :=
  checkDepth_of_le (Nat.le_trans hle (checkDepth_eq_ok_iff.mp h))

/-! ### Pieces -/

/-- Pieces that are texts. -/
def AreTexts (ps : List Value) : Prop := ∀ p ∈ ps, ∃ s, p = .string s

theorem exists_joinPieces {ps : List Value} (h : AreTexts ps) : ∃ t, joinPieces ps = .ok t := by
  induction ps with
  | nil => exact ⟨[], rfl⟩
  | cons p ps ih =>
    obtain ⟨⟨s, rfl⟩, hps⟩ := List.forall_mem_cons.mp h
    obtain ⟨t, ht⟩ := ih hps
    refine ⟨s ++ t, ?_⟩
    rw [joinPieces, ht]
    rfl

theorem areTexts_singleton (s : List Char) : AreTexts [.string s] := by
  intro p hp
  exact ⟨s, List.mem_singleton.mp hp⟩

theorem AreTexts.append {ps qs : List Value} (hps : AreTexts ps) (hqs : AreTexts qs) :
    AreTexts (ps ++ qs) := List.forall_mem_append.mpr ⟨hps, hqs⟩

end SmallWeb
