/-
SmallWeb/Proofs/Groups.lean

Groups of neighbours in a list.

`InOrder gs ls` says that each group of `gs` stands in `ls` as a run of
neighbours, that the groups come in this order, and that no two overlap.  It is
how the parts of a document that are copied into the output are found there:
whatever else a format writes stands between the groups.
-/
import SmallWeb.Proofs.Render.Line
import SmallWeb.Proofs.Text.Lines

namespace SmallWeb

variable {α β : Type}

/-- Each group is a run of neighbours in the list, behind the group before it. -/
def InOrder : List (List α) → List α → Prop
  | [], _ => True
  | g :: gs, ls => ∃ before after, ls = before ++ g ++ after ∧ InOrder gs after

namespace InOrder

variable {gs hs : List (List α)} {ls ms : List α}

/-- Something before the list does not matter. -/
theorem prepend (before : List α) (h : InOrder gs ls) : InOrder gs (before ++ ls) := by
  cases gs with
  | nil => trivial
  | cons g gs =>
    obtain ⟨before', after, rfl, hrest⟩ := h
    exact ⟨before ++ before', after, by simp only [List.append_assoc], hrest⟩

/-- **Lists one after the other** hold their groups one after the other. -/
theorem append (h : InOrder gs ls) (h' : InOrder hs ms) : InOrder (gs ++ hs) (ls ++ ms) := by
  induction gs generalizing ls with
  | nil => exact h'.prepend ls
  | cons g gs ih =>
    obtain ⟨before, after, rfl, hrest⟩ := h
    exact ⟨before, after ++ ms, by simp only [List.append_assoc], ih hrest⟩

/-- Something behind the list does not matter. -/
theorem append_right (after : List α) (h : InOrder gs ls) : InOrder gs (ls ++ after) := by
  have hnone : InOrder [] after := trivial
  have happend := h.append hnone
  rwa [List.append_nil] at happend

theorem singleton (g : List α) : InOrder [g] g :=
  ⟨[], [], by rw [List.nil_append, List.append_nil], trivial⟩

theorem map (f : α → β) (h : InOrder gs ls) : InOrder (gs.map (List.map f)) (ls.map f) := by
  induction gs generalizing ls with
  | nil => trivial
  | cons g gs ih =>
    obtain ⟨before, after, rfl, hrest⟩ := h
    exact ⟨before.map f, after.map f, by simp only [List.map_append], ih hrest⟩

/-- Elements outside the groups may be replaced by several others. -/
theorem flatMap (f : α → List α) (hf : ∀ g ∈ gs, ∀ l ∈ g, f l = [l]) (h : InOrder gs ls) :
    InOrder gs (ls.flatMap f) := by
  induction gs generalizing ls with
  | nil => trivial
  | cons g gs ih =>
    obtain ⟨before, after, rfl, hrest⟩ := h
    have hg : g.flatMap f = g := by
      rw [List.flatMap_congr (hf g List.mem_cons_self)]
      exact List.flatMap_singleton' g
    have hafter := ih (fun g' hg' => hf g' (List.mem_cons_of_mem g hg')) hrest
    exact ⟨before.flatMap f, after.flatMap f, by rw [List.flatMap_append, List.flatMap_append, hg],
      hafter⟩

/-- A first element that is in no group does not matter. -/
theorem tail {l : α} (hg : ∀ g ∈ gs, g ≠ [] ∧ l ∉ g) (h : InOrder gs (l :: ls)) :
    InOrder gs ls := by
  cases gs with
  | nil => trivial
  | cons g gs =>
    obtain ⟨before, after, hls, hrest⟩ := h
    obtain ⟨hne, hnot⟩ := hg g List.mem_cons_self
    -- A group at the very beginning would hold the first element.
    cases before with
    | nil =>
      obtain ⟨m, g, rfl⟩ := List.exists_cons_of_ne_nil hne
      obtain ⟨rfl, -⟩ := List.cons.inj hls
      exact absurd List.mem_cons_self hnot
    | cons m before =>
      obtain ⟨-, rfl⟩ := List.cons.inj hls
      exact ⟨before, after, rfl, hrest⟩

/-- A group stands in the list as it is. -/
theorem isInfix_of_mem {g : List α} (h : InOrder gs ls) (hg : g ∈ gs) : g <:+: ls := by
  induction gs generalizing ls with
  | nil => exact absurd hg List.not_mem_nil
  | cons g' gs ih =>
    obtain ⟨before, after, rfl, hrest⟩ := h
    rcases List.mem_cons.mp hg with rfl | hg
    · exact ⟨before, after, rfl⟩
    · exact (ih hrest hg).trans (List.suffix_append _ after).isInfix

/-- Lists one after the other hold the groups of all of them. -/
theorem flatten {gss : List (List (List α))} {lss : List (List α)}
    (h : List.Forall₂ InOrder gss lss) : InOrder gss.flatten lss.flatten := by
  induction h with
  | nil => trivial
  | cons hfirst hrest ih => exact hfirst.append ih

/-! ### Lines -/

/-- A stack of blocks holds the groups of all blocks. -/
theorem stackBlocks {gss : List (List (List Line))} {blocks : List (List Line)}
    (h : List.Forall₂ InOrder gss blocks) : InOrder gss.flatten (stackBlocks blocks) := by
  have hfold : ∀ (hs : List (List Line)) (output : List Line), InOrder hs output →
      InOrder (hs ++ gss.flatten) (blocks.foldl appendBlock output) := by
    induction h with
    | nil =>
      intro hs output houtput
      rwa [List.flatten_nil, List.append_nil]
    | @cons gs block gss blocks hfirst hrest ih =>
      intro hs output houtput
      rw [List.flatten_cons, ← List.append_assoc]
      refine ih _ _ ?_
      -- A block without lines leaves the output as it is, and it holds no groups but
      -- empty ones.
      rw [appendBlock_eq]
      split
      · rename_i hempty
        rw [List.isEmpty_iff.mp hempty] at hfirst
        have happend := houtput.append hfirst
        rwa [List.append_nil] at happend
      · rw [List.append_assoc]
        exact houtput.append (hfirst.prepend (separator output))
  have hnone : InOrder ([] : List (List Line)) [] := trivial
  have hall := hfold [] [] hnone
  rwa [List.nil_append] at hall

/-- Groups of lines are found again in the lines of the joined text. -/
theorem lines_unlines {gs : List (List (List Char))} {ls : List (List Char)}
    (hline : ∀ g ∈ gs, ∀ l ∈ g, '\n' ∉ l) (h : InOrder gs ls) :
    InOrder gs (Text.lines (Text.unlines ls)) := by
  by_cases hls : ls = []
  · subst hls
    exact h.append_right _
  · rw [Text.lines_unlines hls]
    exact h.flatMap Text.lines fun g hg l hl => Text.lines_of_notMem (hline g hg l hl)

end InOrder

end SmallWeb
