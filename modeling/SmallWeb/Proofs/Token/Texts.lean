/-
SmallWeb/Proofs/Token/Texts.lean

What becomes of the text in tokens.

The leaves of a document hold all its text.  They can be read off the tokens as well,
by position and without any node: in running text a token stands for its raw text,
for a space, or for what its children stand for (`Token.inlineTexts`), and among
blocks for the raw text of code or for what is below it (`Token.blockTexts`).  Raw
markup and blank lines stand for nothing.

Among blocks there is one way to lose text.  A token of unknown kind becomes its
children there, so a raw text that it has instead of children is left behind, and an
item of a list has no use for one either.  Where this does not occur
(`Token.stratified`) the two readings agree, for the tokens of a document from the
first one to the last.

Main result: `leaves_ofTokens`.
-/
import SmallWeb.Proofs.Result
import SmallWeb.Token.Document

namespace SmallWeb

/-! ### Leaves -/

mutual

/-- The texts of an inline node, from left to right. -/
def Inline.leaves : Inline → List (List Char)
  | .text t => [t]
  | .code literal => [literal]
  | .lineBreak => []
  | .emphasis children => Inline.runLeaves children
  | .strong children => Inline.runLeaves children
  | .link _ children => Inline.runLeaves children

/-- The texts of a run. -/
def Inline.runLeaves : List Inline → List (List Char)
  | [] => []
  | i :: is => i.leaves ++ Inline.runLeaves is

end

mutual

/-- The texts of a block, in reading order. -/
def Block.leaves : Block → List (List Char)
  | .heading _ inline => Inline.runLeaves inline
  | .paragraph inline => Inline.runLeaves inline
  | .list _ bss _ => Block.itemsLeaves bss
  | .codeBlock literal _ => [literal]
  | .blockquote children => Block.runLeaves children
  | .thematicBreak => []

/-- The texts of a sequence of blocks. -/
def Block.runLeaves : List Block → List (List Char)
  | [] => []
  | b :: bs => b.leaves ++ Block.runLeaves bs

/-- The texts of the items of a list. -/
def Block.itemsLeaves : List (List Block) → List (List Char)
  | [] => []
  | bs :: bss => Block.runLeaves bs ++ Block.itemsLeaves bss

end

/-- The texts of a document, in reading order. -/
def Document.leaves (d : Document) : List (List Char) := Block.runLeaves d.blocks

theorem Inline.runLeaves_append (is js : List Inline) :
    Inline.runLeaves (is ++ js) = Inline.runLeaves is ++ Inline.runLeaves js := by
  induction is with
  | nil => rfl
  | cons i is ih => rw [List.cons_append, Inline.runLeaves, ih, Inline.runLeaves, List.append_assoc]

theorem Inline.runLeaves_singleton (i : Inline) : Inline.runLeaves [i] = i.leaves :=
  List.append_nil i.leaves

theorem Block.runLeaves_append (bs cs : List Block) :
    Block.runLeaves (bs ++ cs) = Block.runLeaves bs ++ Block.runLeaves cs := by
  induction bs with
  | nil => rfl
  | cons b bs ih => rw [List.cons_append, Block.runLeaves, ih, Block.runLeaves, List.append_assoc]

theorem Block.runLeaves_singleton (b : Block) : Block.runLeaves [b] = b.leaves :=
  List.append_nil b.leaves

namespace Token

/-! ### Texts of tokens -/

mutual

/-- The texts that a token in running text stands for.  A kind that has no meaning
there stands for its children, or else for its raw text. -/
def inlineTexts : Token → List (List Char)
  | mk .text raw _ _ => [raw.getD []]
  | mk .softBreak _ _ _ => [[' ']]
  | mk .codeSpan raw _ _ => [raw.getD []]
  | mk .emphasis _ _ children => inlineChildTexts children
  | mk .strong _ _ children => inlineChildTexts children
  | mk .link _ _ children => inlineChildTexts children
  | mk .image _ _ children => inlineChildTexts children
  | mk .lineBreak _ _ _ => []
  | mk .blankLine _ _ _ => []
  | mk .blockHtml _ _ _ => []
  | mk .inlineHtml _ _ _ => []
  | mk _ _ _ (some ts) => runTexts ts
  | mk _ raw _ none => raw.toList

/-- The texts of children in running text, if there are any. -/
def inlineChildTexts : Option (List Token) → List (List Char)
  | none => []
  | some ts => runTexts ts

/-- The texts of tokens in running text. -/
def runTexts : List Token → List (List Char)
  | [] => []
  | t :: ts => inlineTexts t ++ runTexts ts

end

mutual

/-- The texts that a token among blocks stands for.  A kind that has no meaning there
stands for its children, or else for its raw text. -/
def blockTexts : Token → List (List Char)
  | mk .heading _ _ children => inlineChildTexts children
  | mk .paragraph _ _ children => inlineChildTexts children
  | mk .blockText _ _ children => inlineChildTexts children
  | mk .list _ _ children => itemTexts children
  | mk .blockCode raw _ _ => [raw.getD []]
  | mk .blockQuote _ _ children => blockChildTexts children
  | mk .thematicBreak _ _ _ => []
  | mk .blankLine _ _ _ => []
  | mk .blockHtml _ _ _ => []
  | mk .inlineHtml _ _ _ => []
  | mk _ _ _ (some ts) => allTexts ts
  | mk _ raw _ none => raw.toList

/-- The texts of children among blocks, if there are any. -/
def blockChildTexts : Option (List Token) → List (List Char)
  | none => []
  | some ts => allTexts ts

/-- The texts of the items of a list, if it has any. -/
def itemTexts : Option (List Token) → List (List Char)
  | none => []
  | some ts => allItemTexts ts

/-- The texts of tokens that are items. -/
def allItemTexts : List Token → List (List Char)
  | [] => []
  | t :: ts => oneItemTexts t ++ allItemTexts ts

/-- The texts of an item, of whatever kind. -/
def oneItemTexts : Token → List (List Char)
  | mk _ _ _ (some ts) => allTexts ts
  | mk _ raw _ none => raw.toList

/-- The texts of tokens among blocks. -/
def allTexts : List Token → List (List Char)
  | [] => []
  | t :: ts => blockTexts t ++ allTexts ts

end

mutual

/-- In the places of blocks, down to the running text, only code has a raw text that
counts: what is neither a block nor dropped has children or no text at all, and so
have items. -/
def stratified : Token → Bool
  | mk .heading _ _ _ => true
  | mk .paragraph _ _ _ => true
  | mk .blockText _ _ _ => true
  | mk .list _ _ children => itemsStratified children
  | mk .blockCode _ _ _ => true
  | mk .blockQuote _ _ children => childrenStratified children
  | mk .thematicBreak _ _ _ => true
  | mk .blankLine _ _ _ => true
  | mk .blockHtml _ _ _ => true
  | mk .inlineHtml _ _ _ => true
  | mk _ _ _ (some ts) => allStratified ts
  | mk _ raw _ none => raw.isNone

/-- The children of a quote, if there are any. -/
def childrenStratified : Option (List Token) → Bool
  | none => true
  | some ts => allStratified ts

/-- The items of a list, if it has any. -/
def itemsStratified : Option (List Token) → Bool
  | none => true
  | some ts => allItemsStratified ts

/-- Tokens that are items. -/
def allItemsStratified : List Token → Bool
  | [] => true
  | t :: ts => oneItemStratified t && allItemsStratified ts

/-- An item, of whatever kind. -/
def oneItemStratified : Token → Bool
  | mk _ _ _ (some ts) => allStratified ts
  | mk _ raw _ none => raw.isNone

/-- Tokens among blocks. -/
def allStratified : List Token → Bool
  | [] => true
  | t :: ts => stratified t && allStratified ts

end

/-! ### Running text -/

mutual

/-- The leaves of what children become. -/
theorem leaves_inlineChildren {depth : Nat} (children : Option (List Token)) {is : List Inline}
    (h : inlineChildren depth children = .ok is) :
    Inline.runLeaves is = inlineChildTexts children := by
  cases children with
  | none =>
    obtain ⟨-, -, h⟩ := bind_eq_ok_iff.mp h
    obtain rfl := pure_eq_ok_iff.mp h
    rfl
  | some ts =>
    obtain ⟨-, -, h⟩ := bind_eq_ok_iff.mp h
    exact leaves_inlines ts h

theorem leaves_inlines {depth : Nat} (ts : List Token) {is : List Inline}
    (h : inlines depth ts = .ok is) : Inline.runLeaves is = runTexts ts := by
  cases ts with
  | nil =>
    obtain rfl : [] = is := Except.ok.inj h
    rfl
  | cons t ts =>
    rw [inlines] at h
    obtain ⟨ns, hns, h⟩ := bind_eq_ok_iff.mp h
    obtain ⟨ms, hms, h⟩ := bind_eq_ok_iff.mp h
    obtain rfl := pure_eq_ok_iff.mp h
    rw [Inline.runLeaves_append, leaves_inline t hns, leaves_inlines ts hms, runTexts]

/-- **A token in running text keeps its texts.** -/
theorem leaves_inline {depth : Nat} (t : Token) {is : List Inline}
    (h : inline depth t = .ok is) : Inline.runLeaves is = inlineTexts t := by
  obtain ⟨kind, raw, a, children⟩ := t
  have hnode : ∀ f : List Inline → Inline, (∀ cs, (f cs).leaves = Inline.runLeaves cs) →
      (do return [f (← inlineChildren (depth + 1) children)]) = Except.ok is →
      Inline.runLeaves is = inlineChildTexts children := by
    intro f hf h
    obtain ⟨cs, hcs, h⟩ := bind_eq_ok_iff.mp h
    obtain rfl := pure_eq_ok_iff.mp h
    rw [Inline.runLeaves_singleton, hf, leaves_inlineChildren children hcs]
  cases kind with
  | text | softBreak | lineBreak | codeSpan | blankLine | blockHtml | inlineHtml =>
    obtain rfl := Except.ok.inj h
    rfl
  | emphasis => exact hnode Inline.emphasis (fun _ => rfl) h
  | strong => exact hnode Inline.strong (fun _ => rfl) h
  | link => exact hnode (Inline.link a.href) (fun _ => rfl) h
  | image => exact hnode (Inline.link a.href) (fun _ => rfl) h
  | heading | paragraph | blockText | list | blockCode | blockQuote | thematicBreak | other _ =>
    cases children with
    | some ts =>
      obtain ⟨-, -, h⟩ := bind_eq_ok_iff.mp h
      exact leaves_inlines ts h
    | none =>
      cases raw with
      | some raw =>
        obtain rfl := Except.ok.inj h
        rfl
      | none =>
        obtain rfl := Except.ok.inj h
        rfl

end

/-! ### Blocks -/

mutual

theorem leaves_blockChildren {depth : Nat} (children : Option (List Token)) {bs : List Block}
    (h : blockChildren depth children = .ok bs) (hs : childrenStratified children = true) :
    Block.runLeaves bs = blockChildTexts children := by
  cases children with
  | none =>
    obtain ⟨-, -, h⟩ := bind_eq_ok_iff.mp h
    obtain rfl := pure_eq_ok_iff.mp h
    rfl
  | some ts =>
    obtain ⟨-, -, h⟩ := bind_eq_ok_iff.mp h
    exact leaves_blocks ts h hs

theorem leaves_blocks {depth : Nat} (ts : List Token) {bs : List Block}
    (h : blocks depth ts = .ok bs) (hs : allStratified ts = true) :
    Block.runLeaves bs = allTexts ts := by
  cases ts with
  | nil =>
    obtain rfl : [] = bs := Except.ok.inj h
    rfl
  | cons t ts =>
    rw [blocks] at h
    obtain ⟨cs, hcs, h⟩ := bind_eq_ok_iff.mp h
    obtain ⟨ds, hds, h⟩ := bind_eq_ok_iff.mp h
    obtain rfl := pure_eq_ok_iff.mp h
    obtain ⟨hfirst, hrest⟩ := Bool.and_eq_true_iff.mp hs
    rw [Block.runLeaves_append, leaves_block t hcs hfirst, leaves_blocks ts hds hrest, allTexts]

theorem leaves_listItems {depth : Nat} (children : Option (List Token)) {bss : List (List Block)}
    (h : listItems depth children = .ok bss) (hs : itemsStratified children = true) :
    Block.itemsLeaves bss = itemTexts children := by
  cases children with
  | none =>
    obtain rfl : [] = bss := Except.ok.inj h
    rfl
  | some ts => exact leaves_items ts h hs

theorem leaves_items {depth : Nat} (ts : List Token) {bss : List (List Block)}
    (h : items depth ts = .ok bss) (hs : allItemsStratified ts = true) :
    Block.itemsLeaves bss = allItemTexts ts := by
  cases ts with
  | nil =>
    obtain rfl : [] = bss := Except.ok.inj h
    rfl
  | cons t ts =>
    rw [items] at h
    obtain ⟨bs, hbs, h⟩ := bind_eq_ok_iff.mp h
    obtain ⟨css, hcss, h⟩ := bind_eq_ok_iff.mp h
    obtain rfl := pure_eq_ok_iff.mp h
    obtain ⟨hfirst, hrest⟩ := Bool.and_eq_true_iff.mp hs
    rw [Block.itemsLeaves, leaves_itemBlocks t hbs hfirst, leaves_items ts hcss hrest, allItemTexts]

theorem leaves_itemBlocks {depth : Nat} (t : Token) {bs : List Block}
    (h : itemBlocks depth t = .ok bs) (hs : oneItemStratified t = true) :
    Block.runLeaves bs = oneItemTexts t := by
  obtain ⟨kind, raw, a, children⟩ := t
  cases children with
  | some ts => exact leaves_blockChildren (some ts) h hs
  | none =>
    obtain rfl : raw = none := Option.isNone_iff_eq_none.mp hs
    exact leaves_blockChildren none h rfl

/-- **A token among blocks keeps its texts**, where none of them is in a wrong
place. -/
theorem leaves_block {depth : Nat} (t : Token) {bs : List Block}
    (h : block depth t = .ok bs) (hs : stratified t = true) :
    Block.runLeaves bs = blockTexts t := by
  obtain ⟨kind, raw, a, children⟩ := t
  cases kind with
  | heading =>
    obtain ⟨n, -, h⟩ := bind_eq_ok_iff.mp h
    obtain ⟨is, his, h⟩ := bind_eq_ok_iff.mp h
    obtain rfl := pure_eq_ok_iff.mp h
    rw [Block.runLeaves_singleton]
    exact leaves_inlineChildren children his
  | paragraph | blockText =>
    obtain ⟨is, his, h⟩ := bind_eq_ok_iff.mp h
    obtain rfl := pure_eq_ok_iff.mp h
    rw [Block.runLeaves_singleton]
    exact leaves_inlineChildren children his
  | list =>
    obtain ⟨start, -, h⟩ := bind_eq_ok_iff.mp h
    obtain ⟨bss, hbss, h⟩ := bind_eq_ok_iff.mp h
    obtain rfl := pure_eq_ok_iff.mp h
    rw [Block.runLeaves_singleton]
    exact leaves_listItems children hbss hs
  | blockQuote =>
    obtain ⟨cs, hcs, h⟩ := bind_eq_ok_iff.mp h
    obtain rfl := pure_eq_ok_iff.mp h
    rw [Block.runLeaves_singleton]
    exact leaves_blockChildren children hcs hs
  | blockCode | thematicBreak | blankLine | blockHtml | inlineHtml =>
    obtain rfl := Except.ok.inj h
    rfl
  | text | softBreak | lineBreak | codeSpan | emphasis | strong | link | image | other _ =>
    cases children with
    | none =>
      obtain rfl : raw = none := Option.isNone_iff_eq_none.mp hs
      obtain rfl := Except.ok.inj h
      rfl
    | some ts =>
      cases ts with
      | nil =>
        obtain rfl := Except.ok.inj h
        rfl
      | cons t ts =>
        obtain ⟨-, -, h⟩ := bind_eq_ok_iff.mp h
        exact leaves_blocks (t :: ts) h hs

end

end Token

/-! ### Documents -/

/-- **The texts of a document are those of its tokens**, all of them and in their
order.  What stands for no text is raw markup, blank lines, line breaks and thematic
breaks. -/
theorem leaves_ofTokens {ts : List Token} (hs : Token.allStratified ts = true) {d : Document}
    (h : Document.ofTokens ts = .ok d) : d.leaves = Token.allTexts ts := by
  obtain ⟨bs, hbs, h⟩ := bind_eq_ok_iff.mp h
  obtain rfl := pure_eq_ok_iff.mp h
  exact Token.leaves_blockChildren (some ts) hbs hs

/-- A list in a container of unknown kind, with text that is struck through, a kind that
has a raw text only, raw markup in two places, and code. -/
def Token.mixedKinds : List Token :=
  [.node (.other ['n', 'o', 't', 'e'])
    [.node .list [.node (.other ['i', 't', 'e', 'm'])
      [.node .blockText [.leaf .text ['a'], .bare .softBreak,
        .node (.other ['s']) [.node .strong [.leaf .codeSpan ['b']]],
        .leaf .inlineHtml ['<', 'i', '>'], .leaf (.other ['m']) ['c']]]],
    .leaf .blockHtml ['<', 'p', '>'], .leaf .blockCode ['d']],
    .node .heading [.node .image [.bare .text, .bare .lineBreak]]]

theorem leaves_ofTokens_of_mixed_kinds :
    ∃ d, Document.ofTokens Token.mixedKinds = .ok d ∧
      d.leaves = [['a'], [' '], ['b'], ['c'], ['d'], []] := by
  obtain ⟨d, hd⟩ : ∃ d, Document.ofTokens Token.mixedKinds = .ok d := ⟨_, rfl⟩
  exact ⟨d, hd, leaves_ofTokens (by decide) hd⟩

end SmallWeb
