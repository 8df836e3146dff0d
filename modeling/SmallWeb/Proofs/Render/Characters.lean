/-
SmallWeb/Proofs/Render/Characters.lean

The characters of running text.

Running text is made of the strings of a document and of what a layout adds to them.  So
a property of characters holds of the text of a run if it holds in the strings and the
layout adds only characters that have it (`Layout.CharsKept.forall_mem_run`).

Gemtext adds nothing.  Gopher text adds backquotes, brackets, spaces and numbers.
-/
import SmallWeb.Proofs.Render.Gemini
import SmallWeb.Proofs.Render.Gopher
import SmallWeb.Proofs.Text.Words

namespace SmallWeb

/-! ### The strings of a document -/

mutual

/-- The texts, the code and the targets of links in an inline node. -/
def Inline.strings : Inline → List (List Char)
  | .text t => [t]
  | .code literal => [literal]
  | .lineBreak => []
  | .emphasis children => Inline.runStrings children
  | .strong children => Inline.runStrings children
  | .link href children => href :: Inline.runStrings children

/-- The strings of a run. -/
def Inline.runStrings : List Inline → List (List Char)
  | [] => []
  | i :: is => i.strings ++ Inline.runStrings is

end

mutual

/-- The strings of the running text in a block.  The literals of code blocks are not
among them. -/
def Block.strings : Block → List (List Char)
  | .heading _ inline => Inline.runStrings inline
  | .paragraph inline => Inline.runStrings inline
  | .list _ bss _ => Block.itemsStrings bss
  | .codeBlock _ _ => []
  | .blockquote children => Block.runStrings children
  | .thematicBreak => []

/-- The strings of several blocks. -/
def Block.runStrings : List Block → List (List Char)
  | [] => []
  | b :: bs => b.strings ++ Block.runStrings bs

/-- The strings of the items of a list. -/
def Block.itemsStrings : List (List Block) → List (List Char)
  | [] => []
  | bs :: bss => Block.runStrings bs ++ Block.itemsStrings bss

end

/-- The texts, the code and the targets of links in the running text of a document. -/
def Document.strings (d : Document) : List (List Char) := Block.runStrings d.blocks

/-! ### What a layout adds -/

namespace Layout

variable {s : Layout} {P : Char → Prop}

/-- A layout adds only characters with a property. -/
structure CharsKept (s : Layout) (P : Char → Prop) : Prop where
  newline : P '\n'
  codeSpan {literal : List Char} : (∀ c ∈ literal, P c) → ∀ c ∈ s.codeSpan literal, P c
  link {href text : List Char} :
    (∀ c ∈ href, P c) → (∀ c ∈ text, P c) → ∀ c ∈ s.link href text, P c
  headingText {text : List Char} : (∀ c ∈ text, P c) → ∀ c ∈ s.headingText text, P c

mutual

theorem CharsKept.forall_mem_text (K : s.CharsKept P) (i : Inline)
    (h : ∀ t ∈ i.strings, ∀ c ∈ t, P c) : ∀ c ∈ s.text i, P c := by
  cases i with
  | text t => exact h t List.mem_cons_self
  | code literal => exact K.codeSpan (h literal List.mem_cons_self)
  | lineBreak => exact List.forall_mem_singleton.mpr K.newline
  | emphasis children => exact K.forall_mem_run children h
  | strong children => exact K.forall_mem_run children h
  | link href children =>
    obtain ⟨hhref, hchildren⟩ := List.forall_mem_cons.mp h
    have hrun := K.forall_mem_run children hchildren
    rw [Layout.text]
    split
    · exact hrun
    · exact K.link hhref hrun

/-- **The characters of a run** are those of its strings and what the layout adds. -/
theorem CharsKept.forall_mem_run (K : s.CharsKept P) (is : List Inline)
    (h : ∀ t ∈ Inline.runStrings is, ∀ c ∈ t, P c) : ∀ c ∈ s.run is, P c := by
  cases is with
  | nil => exact fun c hc => absurd hc List.not_mem_nil
  | cons i is =>
    obtain ⟨hi, his⟩ := List.forall_mem_append.mp h
    exact List.forall_mem_append.mpr ⟨K.forall_mem_text i hi, K.forall_mem_run is his⟩

end

end Layout

variable {P : Char → Prop}

/-- Gemtext adds line feeds only, and makes them spaces in headings. -/
theorem Gemini.charsKept (hnewline : P '\n') (hspace : P ' ') : Gemini.layout.CharsKept P where
  newline := hnewline
  codeSpan h := h
  link _ htext := htext
  headingText htext c hc := by
    rcases Text.mem_of_mem_replaceChar hc with hc | rfl
    · exact htext c hc
    · exact hspace

/-- Gopher text adds more, but no blanks except spaces. -/
theorem Gopher.charsKept (o : RenderOptions) (refs : List (List Char)) (hnewline : P '\n')
    (hspace : P ' ') (hmarks : ∀ c : Char, ¬ Text.isBlank c = true → P c) :
    (Gopher.layout o refs).CharsKept P where
  newline := hnewline
  codeSpan {literal} h := by
    have hquote : ∀ c ∈ ['\x60'], P c := List.forall_mem_singleton.mpr (hmarks _ (by decide))
    show ∀ c ∈ if o.stripFormatting then literal else ['\x60'] ++ literal ++ ['\x60'], P c
    split
    · exact h
    · exact List.forall_mem_append.mpr ⟨List.forall_mem_append.mpr ⟨hquote, h⟩, hquote⟩
  link {href text} hhref htext := by
    have hnumber : ∀ c ∈ Text.ofNat (refs.idxOf href + 1), P c := fun c hc =>
      hmarks c (Text.not_isBlank_of_mem_ofInt (n := (refs.idxOf href + 1 : Nat)) hc)
    have hopen : ∀ m : Char, ¬ Text.isBlank m = true → ∀ c ∈ [' ', m], P c := by
      intro m hm c hc
      rcases List.mem_cons.mp hc with rfl | hc
      · exact hspace
      · exact hmarks c (List.mem_singleton.mp hc ▸ hm)
    have hclose : ∀ m : Char, ¬ Text.isBlank m = true → ∀ c ∈ [m], P c :=
      fun m hm => List.forall_mem_singleton.mpr (hmarks m hm)
    show ∀ c ∈ linkText o refs href text, P c
    unfold linkText shown
    split
    · refine List.forall_mem_append.mpr ⟨List.forall_mem_append.mpr ⟨List.forall_mem_append.mpr
        ⟨?_, hopen '[' (by decide)⟩, hnumber⟩, hclose ']' (by decide)⟩
      split
      · exact hhref
      · exact htext
    · split
      · split
        · exact hhref
        · exact List.forall_mem_append.mpr ⟨List.forall_mem_append.mpr ⟨List.forall_mem_append.mpr
            ⟨htext, hopen '(' (by decide)⟩, hhref⟩, hclose ')' (by decide)⟩
      · exact htext
  headingText h := h

end SmallWeb
