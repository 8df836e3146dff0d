/-
SmallWeb/Proofs/Token/Normal.lean

Tokens without what leaves no trace.

Raw markup and blank lines become nothing, and a container of a kind that has no meaning
in its position becomes its children.  So a token list can be cleared of both beforehand
(`Token.normalBlocks`).  What has no meaning depends on the position: a paragraph is a
container like any other in running text, and emphasis is one among blocks.  The items of
a list stay whatever their kinds are.

A container counts for the depth of what is in it, and without it the same tokens lie less
deep.  So the tokens that are left never fail where all of them did not, and one lemma for
each function of the adapter says this for all lesser depths at once.

Main result: `ofTokens_normalBlocks`.
-/
import SmallWeb.Proofs.Result
import SmallWeb.Token.Document

namespace SmallWeb

namespace TokenKind

/-- The kinds that stand for nothing. -/
def isDropped : TokenKind → Bool
  | blankLine | blockHtml | inlineHtml => true
  | _ => false

/-- The kinds that have a meaning of their own in running text. -/
def isInline : TokenKind → Bool
  | text | softBreak | lineBreak | codeSpan | emphasis | strong | link | image => true
  | _ => false

end TokenKind

namespace Token

/-! ### The normal form -/

mutual

/-- What is left of a token in running text. -/
def normalInline : Token → List Token
  | mk kind raw a none => if kind.isDropped then [] else [mk kind raw a none]
  | mk kind raw a (some ts) =>
    if kind.isDropped then []
    else if kind.isInline then [mk kind raw a (some (normalRun ts))]
    else normalRun ts

/-- What is left of tokens in running text. -/
def normalRun : List Token → List Token
  | [] => []
  | t :: ts => normalInline t ++ normalRun ts

end

mutual

/-- What is left of a token among blocks.  Code and thematic breaks have no use for
children; should they have any, these are looked at as blocks. -/
def normalBlock : Token → List Token
  | mk kind raw a none => if kind.isDropped then [] else [mk kind raw a none]
  | mk kind raw a (some ts) =>
    match kind with
    | .blankLine | .blockHtml | .inlineHtml => []
    | .heading | .paragraph | .blockText => [mk kind raw a (some (normalRun ts))]
    | .list => [mk kind raw a (some (normalItems ts))]
    | .blockQuote | .blockCode | .thematicBreak => [mk kind raw a (some (normalBlocks ts))]
    | _ => normalBlocks ts

/-- What is left of tokens among blocks. -/
def normalBlocks : List Token → List Token
  | [] => []
  | t :: ts => normalBlock t ++ normalBlocks ts

/-- The items of a list, each with what is left of its content. -/
def normalItems : List Token → List Token
  | [] => []
  | t :: ts => normalItem t :: normalItems ts

/-- An item, of whatever kind, with what is left of its content. -/
def normalItem : Token → Token
  | mk kind raw a none => mk kind raw a none
  | mk kind raw a (some ts) => mk kind raw a (some (normalBlocks ts))

end

/-! ### What is left is normal -/

mutual

/-- Whether a token in running text is normal: no token in it stands for nothing, and
none has children but no meaning. -/
def inlineNormal : Token → Bool
  | mk kind _ _ none => !kind.isDropped
  | mk kind _ _ (some ts) => kind.isInline && runNormal ts

/-- Whether tokens in running text are normal. -/
def runNormal : List Token → Bool
  | [] => true
  | t :: ts => inlineNormal t && runNormal ts

end

mutual

/-- Whether a token among blocks is normal. -/
def blockNormal : Token → Bool
  | mk kind _ _ none => !kind.isDropped
  | mk kind _ _ (some ts) =>
    match kind with
    | .heading | .paragraph | .blockText => runNormal ts
    | .list => itemsNormal ts
    | .blockQuote | .blockCode | .thematicBreak => blocksNormal ts
    | _ => false

/-- Whether tokens among blocks are normal. -/
def blocksNormal : List Token → Bool
  | [] => true
  | t :: ts => blockNormal t && blocksNormal ts

/-- Whether the contents of items are normal. -/
def itemsNormal : List Token → Bool
  | [] => true
  | t :: ts => itemNormal t && itemsNormal ts

/-- Whether the content of an item is normal. -/
def itemNormal : Token → Bool
  | mk _ _ _ none => true
  | mk _ _ _ (some ts) => blocksNormal ts

end

theorem runNormal_append (ts us : List Token) :
    runNormal (ts ++ us) = (runNormal ts && runNormal us) := by
  induction ts with
  | nil => rfl
  | cons t ts ih => rw [List.cons_append, runNormal, ih, runNormal, Bool.and_assoc]

theorem blocksNormal_append (ts us : List Token) :
    blocksNormal (ts ++ us) = (blocksNormal ts && blocksNormal us) := by
  induction ts with
  | nil => rfl
  | cons t ts ih => rw [List.cons_append, blocksNormal, ih, blocksNormal, Bool.and_assoc]

mutual

theorem runNormal_normalInline (t : Token) : runNormal (normalInline t) = true := by
  obtain ⟨kind, raw, a, children⟩ := t
  cases children with
  | none => cases kind <;> rfl
  | some ts =>
    have hts := runNormal_normalRun ts
    cases kind with
    | blankLine | blockHtml | inlineHtml => rfl
    | text | softBreak | lineBreak | codeSpan | emphasis | strong | link | image =>
      show (runNormal (normalRun ts) && true) = true
      rw [hts, Bool.and_true]
    | heading | paragraph | blockText | list | blockCode | blockQuote | thematicBreak | other _ =>
      exact hts

/-- What is left of running text is normal. -/
theorem runNormal_normalRun (ts : List Token) : runNormal (normalRun ts) = true := by
  cases ts with
  | nil => rfl
  | cons t ts =>
    rw [normalRun, runNormal_append, runNormal_normalInline t, runNormal_normalRun ts]
    rfl

end

mutual

theorem blocksNormal_normalBlock (t : Token) : blocksNormal (normalBlock t) = true := by
  obtain ⟨kind, raw, a, children⟩ := t
  cases children with
  | none => cases kind <;> rfl
  | some ts =>
    have hts := blocksNormal_normalBlocks ts
    cases kind with
    | blankLine | blockHtml | inlineHtml => rfl
    | heading | paragraph | blockText =>
      show (runNormal (normalRun ts) && true) = true
      rw [runNormal_normalRun ts, Bool.and_true]
    | list =>
      show (itemsNormal (normalItems ts) && true) = true
      rw [itemsNormal_normalItems ts, Bool.and_true]
    | blockQuote | blockCode | thematicBreak =>
      show (blocksNormal (normalBlocks ts) && true) = true
      rw [hts, Bool.and_true]
    | text | softBreak | lineBreak | codeSpan | emphasis | strong | link | image | other _ =>
      exact hts

/-- **What is left of blocks is normal.** -/
theorem blocksNormal_normalBlocks (ts : List Token) : blocksNormal (normalBlocks ts) = true := by
  cases ts with
  | nil => rfl
  | cons t ts =>
    rw [normalBlocks, blocksNormal_append, blocksNormal_normalBlock t, blocksNormal_normalBlocks ts]
    rfl

theorem itemsNormal_normalItems (ts : List Token) : itemsNormal (normalItems ts) = true := by
  cases ts with
  | nil => rfl
  | cons t ts =>
    rw [normalItems, itemsNormal, itemNormal_normalItem t, itemsNormal_normalItems ts]
    rfl

theorem itemNormal_normalItem (t : Token) : itemNormal (normalItem t) = true := by
  obtain ⟨kind, raw, a, children⟩ := t
  cases children with
  | none => rfl
  | some ts => exact blocksNormal_normalBlocks ts

end

/-! ### Running text -/

theorem inlines_append {depth : Nat} {ts us : List Token} {is js : List Inline}
    (hts : inlines depth ts = .ok is) (hus : inlines depth us = .ok js) :
    inlines depth (ts ++ us) = .ok (is ++ js) := by
  induction ts generalizing is with
  | nil =>
    obtain rfl : [] = is := Except.ok.inj hts
    exact hus
  | cons t ts ih =>
    obtain ⟨ns, hns, h⟩ := bind_eq_ok_iff.mp hts
    obtain ⟨ms, hms, h⟩ := bind_eq_ok_iff.mp h
    obtain rfl := pure_eq_ok_iff.mp h
    rw [List.cons_append, inlines, hns, ok_bind, ih hms, ok_bind, List.append_assoc]
    rfl

theorem inlines_singleton {depth : Nat} {t : Token} {is : List Inline}
    (h : inline depth t = .ok is) : inlines depth [t] = .ok is := by
  rw [inlines, h, ok_bind, inlines, ok_bind, List.append_nil]
  rfl

mutual

theorem inlineChildren_normalRun {depth depth' : Nat} (children : Option (List Token))
    {is : List Inline} (h : inlineChildren depth children = .ok is) (hle : depth' ≤ depth) :
    inlineChildren depth' (children.map normalRun) = .ok is := by
  cases children with
  | none =>
    obtain ⟨_, hdepth, h⟩ := bind_eq_ok_iff.mp h
    rw [Option.map_none, inlineChildren, checkDepth_mono hdepth hle]
    exact h
  | some ts =>
    obtain ⟨_, hdepth, h⟩ := bind_eq_ok_iff.mp h
    rw [Option.map_some, inlineChildren, checkDepth_mono hdepth hle]
    exact inlines_normalRun ts h hle

/-- **What is left of running text becomes the same nodes.** -/
theorem inlines_normalRun {depth depth' : Nat} (ts : List Token) {is : List Inline}
    (h : inlines depth ts = .ok is) (hle : depth' ≤ depth) :
    inlines depth' (normalRun ts) = .ok is := by
  cases ts with
  | nil => exact h
  | cons t ts =>
    obtain ⟨ns, hns, h⟩ := bind_eq_ok_iff.mp h
    obtain ⟨ms, hms, h⟩ := bind_eq_ok_iff.mp h
    obtain rfl := pure_eq_ok_iff.mp h
    exact inlines_append (inlines_normalInline t hns hle) (inlines_normalRun ts hms hle)

theorem inlines_normalInline {depth depth' : Nat} (t : Token) {is : List Inline}
    (h : inline depth t = .ok is) (hle : depth' ≤ depth) :
    inlines depth' (normalInline t) = .ok is := by
  obtain ⟨kind, raw, a, children⟩ := t
  have hkept : ∀ kind : TokenKind, kind.isDropped = false → kind.isInline = true →
      normalInline (mk kind raw a children) = [mk kind raw a (children.map normalRun)] := by
    intro kind hdropped hinline
    cases children <;> simp [normalInline, hdropped, hinline]
  have hnode : ∀ f : List Inline → Inline,
      (do return [f (← inlineChildren (depth + 1) children)]) = Except.ok is →
      (do return [f (← inlineChildren (depth' + 1) (children.map normalRun))]) =
        Except.ok is := by
    intro f h
    obtain ⟨cs, hcs, h⟩ := bind_eq_ok_iff.mp h
    rw [inlineChildren_normalRun children hcs (Nat.succ_le_succ hle)]
    exact h
  cases kind with
  | blankLine | blockHtml | inlineHtml => cases children <;> exact h
  | text | softBreak | lineBreak | codeSpan =>
    rw [hkept _ rfl rfl]
    exact inlines_singleton h
  | emphasis =>
    rw [hkept _ rfl rfl]
    exact inlines_singleton (hnode Inline.emphasis h)
  | strong =>
    rw [hkept _ rfl rfl]
    exact inlines_singleton (hnode Inline.strong h)
  | link | image =>
    rw [hkept _ rfl rfl]
    exact inlines_singleton (hnode (Inline.link a.href) h)
  | heading | paragraph | blockText | list | blockCode | blockQuote | thematicBreak | other _ =>
    cases children with
    | none =>
      -- Without children there is only the raw text to look at.
      cases raw <;> exact inlines_singleton h
    | some ts =>
      obtain ⟨_, -, h⟩ := bind_eq_ok_iff.mp h
      exact inlines_normalRun ts h (Nat.le_succ_of_le hle)

end

/-! ### Blocks -/

theorem blocks_append {depth : Nat} {ts us : List Token} {bs cs : List Block}
    (hts : blocks depth ts = .ok bs) (hus : blocks depth us = .ok cs) :
    blocks depth (ts ++ us) = .ok (bs ++ cs) := by
  induction ts generalizing bs with
  | nil =>
    obtain rfl : [] = bs := Except.ok.inj hts
    exact hus
  | cons t ts ih =>
    obtain ⟨ds, hds, h⟩ := bind_eq_ok_iff.mp hts
    obtain ⟨es, hes, h⟩ := bind_eq_ok_iff.mp h
    obtain rfl := pure_eq_ok_iff.mp h
    rw [List.cons_append, blocks, hds, ok_bind, ih hes, ok_bind, List.append_assoc]
    rfl

theorem blocks_singleton {depth : Nat} {t : Token} {bs : List Block} (h : block depth t = .ok bs) :
    blocks depth [t] = .ok bs := by
  rw [blocks, h, ok_bind, blocks, ok_bind, List.append_nil]
  rfl

mutual

theorem blockChildren_normalBlocks {depth depth' : Nat} (children : Option (List Token))
    {bs : List Block} (h : blockChildren depth children = .ok bs) (hle : depth' ≤ depth) :
    blockChildren depth' (children.map normalBlocks) = .ok bs := by
  cases children with
  | none =>
    obtain ⟨_, hdepth, h⟩ := bind_eq_ok_iff.mp h
    rw [Option.map_none, blockChildren, checkDepth_mono hdepth hle]
    exact h
  | some ts =>
    obtain ⟨_, hdepth, h⟩ := bind_eq_ok_iff.mp h
    rw [Option.map_some, blockChildren, checkDepth_mono hdepth hle]
    exact blocks_normalBlocks ts h hle

/-- **What is left of blocks becomes the same blocks.** -/
theorem blocks_normalBlocks {depth depth' : Nat} (ts : List Token) {bs : List Block}
    (h : blocks depth ts = .ok bs) (hle : depth' ≤ depth) :
    blocks depth' (normalBlocks ts) = .ok bs := by
  cases ts with
  | nil => exact h
  | cons t ts =>
    obtain ⟨cs, hcs, h⟩ := bind_eq_ok_iff.mp h
    obtain ⟨ds, hds, h⟩ := bind_eq_ok_iff.mp h
    obtain rfl := pure_eq_ok_iff.mp h
    exact blocks_append (blocks_normalBlock t hcs hle) (blocks_normalBlocks ts hds hle)

theorem listItems_normalItems {depth depth' : Nat} (children : Option (List Token))
    {bss : List (List Block)} (h : listItems depth children = .ok bss) (hle : depth' ≤ depth) :
    listItems depth' (children.map normalItems) = .ok bss := by
  cases children with
  | none => exact h
  | some ts => exact items_normalItems ts h hle

theorem items_normalItems {depth depth' : Nat} (ts : List Token) {bss : List (List Block)}
    (h : items depth ts = .ok bss) (hle : depth' ≤ depth) :
    items depth' (normalItems ts) = .ok bss := by
  cases ts with
  | nil => exact h
  | cons t ts =>
    obtain ⟨bs, hbs, h⟩ := bind_eq_ok_iff.mp h
    obtain ⟨css, hcss, h⟩ := bind_eq_ok_iff.mp h
    rw [normalItems, items, itemBlocks_normalItem t hbs hle, ok_bind,
      items_normalItems ts hcss hle]
    exact h

theorem itemBlocks_normalItem {depth depth' : Nat} (t : Token) {bs : List Block}
    (h : itemBlocks depth t = .ok bs) (hle : depth' ≤ depth) :
    itemBlocks depth' (normalItem t) = .ok bs := by
  obtain ⟨kind, raw, a, children⟩ := t
  have hchildren := blockChildren_normalBlocks children h hle
  cases children <;> exact hchildren

theorem blocks_normalBlock {depth depth' : Nat} (t : Token) {bs : List Block}
    (h : block depth t = .ok bs) (hle : depth' ≤ depth) :
    blocks depth' (normalBlock t) = .ok bs := by
  obtain ⟨kind, raw, a, children⟩ := t
  have hrun : ∀ f : List Inline → Block,
      (do return [f (← inlineChildren (depth + 1) children)]) = Except.ok bs →
      (do return [f (← inlineChildren (depth' + 1) (children.map normalRun))]) =
        Except.ok bs := by
    intro f h
    obtain ⟨cs, hcs, h⟩ := bind_eq_ok_iff.mp h
    rw [inlineChildren_normalRun children hcs (Nat.succ_le_succ hle)]
    exact h
  cases kind with
  | blankLine | blockHtml | inlineHtml => cases children <;> exact h
  | heading =>
    obtain ⟨n, hn, h⟩ := bind_eq_ok_iff.mp h
    have hheading : block depth' (mk .heading raw a (children.map normalRun)) = .ok bs := by
      rw [block, hn]
      exact hrun (Block.heading n) h
    cases children <;> exact blocks_singleton hheading
  | paragraph | blockText =>
    have hparagraph := hrun Block.paragraph h
    cases children <;> exact blocks_singleton hparagraph
  | list =>
    obtain ⟨start, hstart, h⟩ := bind_eq_ok_iff.mp h
    obtain ⟨bss, hbss, h⟩ := bind_eq_ok_iff.mp h
    have hitems := listItems_normalItems children hbss (Nat.add_le_add_right hle 2)
    have hlist : block depth' (mk .list raw a (children.map normalItems)) = .ok bs := by
      rw [block, hstart, ok_bind, hitems]
      exact h
    cases children <;> exact blocks_singleton hlist
  | blockQuote =>
    obtain ⟨cs, hcs, h⟩ := bind_eq_ok_iff.mp h
    have hinside := blockChildren_normalBlocks children hcs (Nat.succ_le_succ hle)
    have hquote : block depth' (mk .blockQuote raw a (children.map normalBlocks)) = .ok bs := by
      rw [block, hinside]
      exact h
    cases children <;> exact blocks_singleton hquote
  | blockCode | thematicBreak => cases children <;> exact blocks_singleton h
  | text | softBreak | lineBreak | codeSpan | emphasis | strong | link | image | other _ =>
    cases children with
    | none => exact blocks_singleton h
    | some ts =>
      cases ts with
      | nil => exact h
      | cons t ts =>
        obtain ⟨_, -, h⟩ := bind_eq_ok_iff.mp h
        exact blocks_normalBlocks (t :: ts) h (Nat.le_succ_of_le hle)

end

end Token

/-! ### Documents -/

/-- **Tokens may be normalised first.**  Whatever document tokens become, what is left of
them in normal form becomes the same document.  No raw markup, no blank line and no
container without a meaning is left, so two token lists that differ in these only become
equal documents, if they become documents at all. -/
theorem ofTokens_normalBlocks {ts : List Token} {d : Document}
    (h : Document.ofTokens ts = .ok d) :
    Document.ofTokens (Token.normalBlocks ts) = .ok d ∧
      Token.blocksNormal (Token.normalBlocks ts) = true ∧
      ∀ (ts' : List Token) (d' : Document), Token.normalBlocks ts' = Token.normalBlocks ts →
        Document.ofTokens ts' = .ok d' → d' = d := by
  have hnormal : ∀ {ts : List Token} {d : Document}, Document.ofTokens ts = .ok d →
      Document.ofTokens (Token.normalBlocks ts) = .ok d := by
    intro ts d h
    obtain ⟨bs, hbs, h⟩ := bind_eq_ok_iff.mp h
    have hchildren := Token.blockChildren_normalBlocks (some ts) hbs (Nat.le_refl 1)
    rw [Option.map_some] at hchildren
    rw [Document.ofTokens, hchildren]
    exact h
  refine ⟨hnormal h, Token.blocksNormal_normalBlocks ts, fun ts' d' hsame h' => ?_⟩
  have hd' := hnormal h'
  rw [hsame, hnormal h] at hd'
  exact (Except.ok.inj hd').symm

/-- Raw markup among blocks and in a heading, a heading in emphasis in a container of unknown
kind, a paragraph in running text, and an item that would be dropped anywhere else. -/
def Token.tangled : List Token :=
  [.leaf .blockHtml ['<', 'p', '>'],
    .node (.other ['n', 'o', 't', 'e']) [.bare .blankLine, .node .emphasis [.node .heading
      [.leaf .inlineHtml ['<', 'i', '>'], .leaf .text ['a'], .node .paragraph
        [.leaf .codeSpan ['b']]]]],
    .node .list [.node .blankLine [.node (.other ['b', 'o', 'x']) [.bare .thematicBreak]]]]

theorem ofTokens_normalBlocks_tangled :
    Token.normalBlocks Token.tangled =
        [.node .heading [.leaf .text ['a'], .leaf .codeSpan ['b']],
          .node .list [.node .blankLine [.bare .thematicBreak]]] ∧
      ∃ d, Document.ofTokens Token.tangled = .ok d ∧
        Document.ofTokens (Token.normalBlocks Token.tangled) = .ok d := by
  obtain ⟨d, hd⟩ : ∃ d, Document.ofTokens Token.tangled = .ok d := ⟨_, rfl⟩
  exact ⟨rfl, d, hd, (ofTokens_normalBlocks hd).1⟩

end SmallWeb
