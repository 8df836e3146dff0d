/-
SmallWeb/Proofs/Token/Containers.lean

Running text in containers that are no blocks.

A container of unknown kind becomes its children, in the position that it has itself.
Among blocks they are looked at as blocks, and there nothing that belongs in running
text has a meaning: text, code and breaks become nothing, and emphasis and links are
containers of unknown kind in their turn.  So running text in such a container is lost,
however deep it lies in it and in how many of them (`blocks_of_allRunning`), while a
paragraph with the same children shows it.

The words of the two documents are compared exactly.  That of the container has none.
That of the paragraph has none where all its texts are blank
(`Inline.isBlankText_runPlain`), and there is such a document where the run is not too
deep for the adapter (`Token.runReach`).

Main results: `text_in_container` and `exists_container_text_lost`.
-/
import SmallWeb.Proofs.Render.Words
import SmallWeb.Proofs.Token.Encoding
import SmallWeb.Proofs.Token.Normal
import SmallWeb.Proofs.Token.Render
import SmallWeb.Proofs.Token.Texts

namespace SmallWeb

open Text (isBlankText words)

namespace TokenKind

/-- The kinds that are blocks. -/
def isBlock : TokenKind → Bool
  | heading | paragraph | blockText | list | blockCode | blockQuote | thematicBreak => true
  | _ => false

/-- The kinds that have no meaning among blocks, so that what has children becomes
these. -/
def isTransparent (kind : TokenKind) : Bool := !kind.isBlock && !kind.isDropped

end TokenKind

namespace Token

mutual

/-- Whether a token is running text: neither it nor any token in it is a block. -/
def isRunning : Token → Bool
  | mk kind _ _ none => !kind.isBlock
  | mk kind _ _ (some ts) => !kind.isBlock && allRunning ts

/-- Whether all tokens are running text. -/
def allRunning : List Token → Bool
  | [] => true
  | t :: ts => isRunning t && allRunning ts

end

/-- The token is a container of a kind that has no meaning among blocks.  The tokens
`cs` are its children, or they are the children of such a container that it holds
alone. -/
inductive Holds (cs : List Token) : Token → Prop
  | children {kind : TokenKind} (raw : Option (List Char)) (a : TokenAttributes) :
      kind.isTransparent = true → Holds cs (mk kind raw a (some cs))
  | inside {kind : TokenKind} (raw : Option (List Char)) (a : TokenAttributes) {t : Token} :
      kind.isTransparent = true → Holds cs t → Holds cs (mk kind raw a (some [t]))

/-! ### Among blocks -/

/-- A container with running text is running text, whatever its kind. -/
theorem Holds.isRunning {cs : List Token} (hcs : allRunning cs = true) {t : Token}
    (ht : Holds cs t) : t.isRunning = true := by
  induction ht with
  | children raw a hkind =>
    exact Bool.and_eq_true_iff.mpr ⟨(Bool.and_eq_true_iff.mp hkind).1, hcs⟩
  | inside raw a hkind _ ih =>
    refine Bool.and_eq_true_iff.mpr ⟨(Bool.and_eq_true_iff.mp hkind).1, ?_⟩
    rw [allRunning, ih]
    rfl

mutual

theorem block_of_isRunning {depth : Nat} (t : Token) {bs : List Block}
    (ht : isRunning t = true) (h : block depth t = .ok bs) : bs = [] := by
  obtain ⟨kind, raw, a, children⟩ := t
  cases kind with
  | heading | paragraph | blockText | list | blockCode | blockQuote | thematicBreak =>
    cases children <;> cases ht
  | blankLine | blockHtml | inlineHtml => exact (Except.ok.inj h).symm
  | text | softBreak | lineBreak | codeSpan | emphasis | strong | link | image | other _ =>
    cases children with
    | none => exact (Except.ok.inj h).symm
    | some ts =>
      cases ts with
      | nil => exact (Except.ok.inj h).symm
      | cons t ts =>
        obtain ⟨-, -, h⟩ := bind_eq_ok_iff.mp h
        exact blocks_of_allRunning (t :: ts) ht h

/-- **Running text among blocks is lost.** -/
theorem blocks_of_allRunning {depth : Nat} (ts : List Token) {bs : List Block}
    (hts : allRunning ts = true) (h : blocks depth ts = .ok bs) : bs = [] := by
  cases ts with
  | nil => exact (Except.ok.inj h).symm
  | cons t ts =>
    obtain ⟨hfirst, hrest⟩ := Bool.and_eq_true_iff.mp hts
    obtain ⟨cs, hcs, h⟩ := bind_eq_ok_iff.mp h
    obtain ⟨ds, hds, h⟩ := bind_eq_ok_iff.mp h
    obtain rfl := pure_eq_ok_iff.mp h
    rw [block_of_isRunning t hfirst hcs, blocks_of_allRunning ts hrest hds]
    rfl

end

/-! ### In a paragraph -/

mutual

/-- How far below itself a token in running text takes the adapter. -/
def inlineReach : Token → Nat
  | mk .text _ _ _ => 0
  | mk .softBreak _ _ _ => 0
  | mk .lineBreak _ _ _ => 0
  | mk .codeSpan _ _ _ => 0
  | mk .emphasis _ _ children => childReach children
  | mk .strong _ _ children => childReach children
  | mk .link _ _ children => childReach children
  | mk .image _ _ children => childReach children
  | mk .blankLine _ _ _ => 0
  | mk .blockHtml _ _ _ => 0
  | mk .inlineHtml _ _ _ => 0
  | mk _ _ _ (some ts) => 1 + runReach ts
  | mk _ _ _ none => 0

/-- The same for a token whose children are entered even where it has none. -/
def childReach : Option (List Token) → Nat
  | none => 1
  | some ts => 1 + runReach ts

/-- How far tokens in running text take the adapter below their own depth. -/
def runReach : List Token → Nat
  | [] => 0
  | t :: ts => max (inlineReach t) (runReach ts)

end

mutual

theorem reads_childRun {depth : Nat} (children : Option (List Token)) :
    Reads (inlineChildren (depth + 1) children) (depth + childReach children ≤ maxDepth)
      fun _ => True := by
  cases children with
  | none => exact (reads_checkDepth (depth + 1)).bind_ok fun _ _ => ⟨[], rfl, trivial⟩
  | some ts =>
    have hrun := reads_inlineChildren fun hinner : depth + 1 ≤ maxDepth => reads_run ts hinner
    apply hrun.congr
    rw [childReach]
    omega

/-- **Tokens in running text are read** unless they lie too deep. -/
theorem reads_run (ts : List Token) {depth : Nat} (hdepth : depth ≤ maxDepth) :
    Reads (inlines depth ts) (depth + runReach ts ≤ maxDepth) fun _ => True := by
  cases ts with
  | nil => exact Reads.ok hdepth trivial
  | cons t ts =>
    rw [inlines, runReach]
    have hboth := (reads_runToken t hdepth).bind (R := fun _ => True) fun ns _ =>
      (reads_run ts hdepth).bind_ok fun ms _ => ⟨ns ++ ms, rfl, trivial⟩
    apply hboth.congr
    omega

theorem reads_runToken (t : Token) {depth : Nat} (hdepth : depth ≤ maxDepth) :
    Reads (inline depth t) (depth + inlineReach t ≤ maxDepth) fun _ => True := by
  obtain ⟨kind, raw, a, children⟩ := t
  have hnode : ∀ f : List Inline → Inline,
      Reads (do return [f (← inlineChildren (depth + 1) children)])
        (depth + childReach children ≤ maxDepth) fun _ => True := fun f =>
    (reads_childRun children).bind_ok fun is _ => ⟨[f is], rfl, trivial⟩
  cases kind with
  | text | softBreak | lineBreak | codeSpan | blankLine | blockHtml | inlineHtml =>
    exact Reads.ok hdepth trivial
  | emphasis => exact hnode Inline.emphasis
  | strong => exact hnode Inline.strong
  | link | image => exact hnode (Inline.link a.href)
  | heading | paragraph | blockText | list | blockCode | blockQuote | thematicBreak | other _ =>
    cases children with
    | some ts => exact reads_childRun (some ts)
    | none => cases raw <;> exact Reads.ok hdepth trivial

end

end Token

/-! ### Blank text -/

mutual

theorem Inline.isBlankText_plain (i : Inline) :
    isBlankText (i.plain false) = i.leaves.all isBlankText := by
  cases i with
  | text t => exact (Bool.and_true _).symm
  | code literal => exact (Bool.and_true _).symm
  | lineBreak => rfl
  | emphasis children => exact Inline.isBlankText_runPlain children
  | strong children => exact Inline.isBlankText_runPlain children
  | link href children => exact Inline.isBlankText_runPlain children

/-- **A run is blank** where all its leaves are. -/
theorem Inline.isBlankText_runPlain (is : List Inline) :
    isBlankText (Inline.runPlain false is) = (Inline.runLeaves is).all isBlankText := by
  cases is with
  | nil => rfl
  | cons i is =>
    rw [Inline.runPlain, Inline.runLeaves, Text.isBlankText_append, List.all_append,
      Inline.isBlankText_plain i, Inline.isBlankText_runPlain is]

end

/-! ### Documents -/

/-- A paragraph becomes a document unless its content lies too deep, and the document
has words unless all texts of the paragraph are blank. -/
theorem reads_ofTokens_paragraph (raw : Option (List Char)) (a : TokenAttributes)
    (cs : List Token) :
    Reads (Document.ofTokens [.mk .paragraph raw a (some cs)])
      (1 + (1 + Token.runReach cs) ≤ maxDepth) fun p => ∃ text, plainText p.value = .ok text ∧
        (words text = [] ↔ ∀ s ∈ Token.runTexts cs, isBlankText s = true) := by
  have hdoc : Document.ofTokens [.mk .paragraph raw a (some cs)] =
      (do return ⟨[.paragraph (← Token.inlineChildren 2 (some cs))]⟩) := by
    rw [Document.ofTokens, Token.blockChildren, checkDepth_of_le (by decide), ok_bind]
    rw [Token.blocks, Token.block]
    cases Token.inlineChildren 2 (some cs) <;> rfl
  have hrun : Reads (Token.inlineChildren 2 (some cs)) (1 + (1 + Token.runReach cs) ≤ maxDepth)
      fun _ => True := Token.reads_childRun (some cs)
  constructor
  · intro hroom
    obtain ⟨is, his, -⟩ := hrun.value hroom
    rw [his] at hdoc
    have htext : Text.unlines ((Block.runSegments false [.paragraph is]).map Segment.text) =
        Inline.runPlain false is := Text.unlines_singleton _
    have hleaves : Inline.runLeaves is = Token.runTexts cs :=
      Token.leaves_inlineChildren (some cs) his
    refine ⟨_, hdoc, _, plainText_of_ofTokens hdoc, ?_⟩
    rw [htext, Text.words_eq_nil_iff, Inline.isBlankText_runPlain, hleaves, List.all_eq_true]
  · intro hroom
    rw [hdoc, hrun.fault hroom]
    rfl

/-- **Running text in a container is lost.**  Whatever running text a container holds,
its document has no blocks and an empty text.  So its words are those of a paragraph
with the same children only where the paragraph has none: where it is not too deep for
the adapter and all its texts are blank. -/
theorem text_in_container {cs : List Token} (hcs : Token.allRunning cs = true) {t : Token}
    (ht : Token.Holds cs t) {d : Document} (h : Document.ofTokens [t] = .ok d)
    (raw : Option (List Char)) (a : TokenAttributes) :
    d.blocks = [] ∧ plainText d.value = .ok [] ∧
      ((∃ text p text', plainText d.value = .ok text ∧
          Document.ofTokens [.mk .paragraph raw a (some cs)] = .ok p ∧
          plainText p.value = .ok text' ∧ words text = words text') ↔
        1 + (1 + Token.runReach cs) ≤ maxDepth ∧
          ∀ s ∈ Token.runTexts cs, isBlankText s = true) := by
  obtain ⟨bs, hbs, hd⟩ := bind_eq_ok_iff.mp h
  obtain rfl := pure_eq_ok_iff.mp hd
  obtain ⟨-, -, hbs⟩ := bind_eq_ok_iff.mp hbs
  have hrunning : Token.allRunning [t] = true := by
    rw [Token.allRunning, ht.isRunning hcs]
    rfl
  obtain rfl := Token.blocks_of_allRunning [t] hrunning hbs
  have htext : plainText (Document.value ⟨[]⟩) = .ok [] := plainText_of_ofTokens h
  have hparagraph := reads_ofTokens_paragraph raw a cs
  refine ⟨rfl, htext, ⟨?_, ?_⟩⟩
  · rintro ⟨text, p, text', htext', hp, hptext, hwords⟩
    obtain rfl := Except.ok.inj (htext.symm.trans htext')
    by_cases hroom : 1 + (1 + Token.runReach cs) ≤ maxDepth
    · obtain ⟨p', hp', text'', hptext', hblank⟩ := hparagraph.value hroom
      obtain rfl := Except.ok.inj (hp.symm.trans hp')
      obtain rfl := Except.ok.inj (hptext.symm.trans hptext')
      exact ⟨hroom, hblank.mp hwords.symm⟩
    · rw [hparagraph.fault hroom] at hp
      cases hp
  · rintro ⟨hroom, hblank⟩
    obtain ⟨p, hp, text', hptext, hwords⟩ := hparagraph.value hroom
    exact ⟨[], p, text', htext, hp, hptext, (hwords.mpr hblank).symm⟩

/-- Running text with nothing but blanks and raw markup. -/
def Token.blankRun : List Token :=
  [.bare .softBreak, .node .emphasis [.leaf .inlineHtml ['<', 'i', '>'], .leaf .text [' ']]]

/-- A blank cell of a table. -/
theorem text_in_container_of_blank_cell :
    ∃ d text p text',
      Document.ofTokens [.node (.other "table".toList) [.node (.other "table_row".toList)
        [.node (.other "table_cell".toList) Token.blankRun]]] = .ok d ∧
      plainText d.value = .ok text ∧
      Document.ofTokens [.node .paragraph Token.blankRun] = .ok p ∧
      plainText p.value = .ok text' ∧ words text = words text' := by
  have hcell : Token.Holds Token.blankRun (.node (.other "table".toList)
      [.node (.other "table_row".toList) [.node (.other "table_cell".toList) Token.blankRun]]) :=
    .inside none {} rfl (.inside none {} rfl (.children none {} rfl))
  obtain ⟨-, -, hwords⟩ := @text_in_container Token.blankRun rfl _ hcell ⟨[]⟩ rfl none {}
  obtain ⟨text, p, text', htext, hp, hptext, hsame⟩ := hwords.mpr (by decide)
  exact ⟨_, text, p, text', rfl, htext, hp, hptext, hsame⟩

/-- **Text that is lost**: a word in a table cell. -/
theorem exists_container_text_lost :
    ¬ ∀ (cs : List Token) (t : Token) (d p : Document) (text text' : List Char),
      Token.allRunning cs = true → Token.Holds cs t → Document.ofTokens [t] = .ok d →
      Document.ofTokens [.node .paragraph cs] = .ok p → plainText d.value = .ok text →
      plainText p.value = .ok text' → words text = words text' := by
  intro hall
  have hsame := hall [.leaf .text ['a']] (.node (.other "table_cell".toList) [.leaf .text ['a']])
    ⟨[]⟩ ⟨[.paragraph [.text ['a']]]⟩ [] ['a'] rfl (.children none {} rfl) rfl rfl rfl rfl
  have hdifferent : words [] ≠ words ['a'] := by decide
  exact hdifferent hsame

end SmallWeb
