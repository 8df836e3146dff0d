/-
SmallWeb/Proofs/Token/Document.lean

What comes of tokens can be walked.

Tokens are nested no deeper than documents may be, but the depth of a token and
that of the node it becomes are not the same: the content of an item is counted
two deeper than its list, and a transparent container is counted though nothing
remains of it.  The adapter counts at least as much as any walk over the document
does, so wherever it succeeds the walks have room (`blockChildren_room`).

Main results: `Document.proper_of_ofTokens` and `Document.reach_of_ofTokens`.
-/
import SmallWeb.Proofs.Document.Numbering
import SmallWeb.Proofs.Extract
import SmallWeb.Token.Document

namespace SmallWeb

/-! ### Concatenation -/

theorem Inline.runReach_append (is js : List Inline) :
    Inline.runReach (is ++ js) = max (Inline.runReach is) (Inline.runReach js) := by
  induction is with
  | nil => exact (Nat.zero_max _).symm
  | cons i is ih => rw [List.cons_append, Inline.runReach, ih, Inline.runReach, Nat.max_assoc]

theorem Block.runReach_append (bs cs : List Block) :
    Block.runReach (bs ++ cs) = max (Block.runReach bs) (Block.runReach cs) := by
  induction bs with
  | nil => exact (Nat.zero_max _).symm
  | cons b bs ih => rw [List.cons_append, Block.runReach, ih, Block.runReach, Nat.max_assoc]

theorem Block.runProper_append (bs cs : List Block) :
    Block.runProper (bs ++ cs) = (Block.runProper bs && Block.runProper cs) := by
  induction bs with
  | nil => rfl
  | cons b bs ih => rw [List.cons_append, Block.runProper, ih, Block.runProper, Bool.and_assoc]

namespace Token

/-! ### Running text -/

mutual

/-- A run that tokens become has room at its depth. -/
theorem inlineChildren_room {depth : Nat} (children : Option (List Token)) {is : List Inline}
    (h : inlineChildren depth children = .ok is) : depth + Inline.runReach is ≤ maxDepth := by
  cases children with
  | none =>
    rw [inlineChildren, bind_eq_ok_iff] at h
    obtain ⟨_, hdepth, h⟩ := h
    obtain rfl := pure_eq_ok_iff.mp h
    exact checkDepth_eq_ok_iff.mp hdepth
  | some ts =>
    rw [inlineChildren, bind_eq_ok_iff] at h
    obtain ⟨_, hdepth, h⟩ := h
    exact inlines_room ts (checkDepth_eq_ok_iff.mp hdepth) h

theorem inlines_room {depth : Nat} (ts : List Token) {is : List Inline}
    (hdepth : depth ≤ maxDepth) (h : inlines depth ts = .ok is) :
    depth + Inline.runReach is ≤ maxDepth := by
  cases ts with
  | nil =>
    obtain rfl : [] = is := Except.ok.inj h
    exact hdepth
  | cons t ts =>
    rw [inlines, bind_eq_ok_iff] at h
    obtain ⟨ns, hns, h⟩ := h
    rw [bind_eq_ok_iff] at h
    obtain ⟨ms, hms, h⟩ := h
    obtain rfl := pure_eq_ok_iff.mp h
    have hfirst := inline_room t hdepth hns
    have hrest := inlines_room ts hdepth hms
    rw [Inline.runReach_append]
    omega

theorem inline_room {depth : Nat} (t : Token) {is : List Inline}
    (hdepth : depth ≤ maxDepth) (h : inline depth t = .ok is) :
    depth + Inline.runReach is ≤ maxDepth := by
  obtain ⟨kind, raw, a, children⟩ := t
  have hleaf : ∀ i : Inline, i.reach = 0 → (Except.ok [i] : Except Fault _) = .ok is →
      depth + Inline.runReach is ≤ maxDepth := by
    intro i hi h
    obtain rfl := Except.ok.inj h
    simpa [Inline.runReach, hi] using hdepth
  have hnode : ∀ f : List Inline → Inline, (∀ cs, (f cs).reach = 1 + Inline.runReach cs) →
      (do return [f (← inlineChildren (depth + 1) children)]) = Except.ok is →
      depth + Inline.runReach is ≤ maxDepth := by
    intro f hf h
    obtain ⟨cs, hcs, h⟩ := bind_eq_ok_iff.mp h
    obtain rfl := pure_eq_ok_iff.mp h
    have hchildren := inlineChildren_room children hcs
    simp only [Inline.runReach, hf]
    omega
  -- The kinds without a node of their own in running text.
  have hother : (match children, raw with
      | some ts, _ => do
        checkDepth (depth + 1)
        inlines (depth + 1) ts
      | none, some raw => Except.ok [Inline.text raw]
      | none, none => Except.ok []) = Except.ok is → depth + Inline.runReach is ≤ maxDepth := by
    intro h
    cases children with
    | some ts =>
      obtain ⟨_, hinner, h⟩ := bind_eq_ok_iff.mp h
      have hchildren := inlines_room ts (checkDepth_eq_ok_iff.mp hinner) h
      omega
    | none =>
      cases raw with
      | some raw => exact hleaf _ rfl h
      | none =>
        obtain rfl : [] = is := Except.ok.inj h
        exact hdepth
  cases kind with
  | text => exact hleaf _ rfl h
  | softBreak => exact hleaf _ rfl h
  | lineBreak => exact hleaf _ rfl h
  | codeSpan => exact hleaf _ rfl h
  | emphasis => exact hnode Inline.emphasis (fun _ => rfl) h
  | strong => exact hnode Inline.strong (fun _ => rfl) h
  | link => exact hnode (Inline.link a.href) (fun _ => rfl) h
  | image => exact hnode (Inline.link a.href) (fun _ => rfl) h
  | blankLine | blockHtml | inlineHtml =>
    obtain rfl : [] = is := Except.ok.inj h
    exact hdepth
  | heading | paragraph | blockText | list | blockCode | blockQuote | thematicBreak | other _ =>
    cases children with
    | some ts => exact hother h
    | none => cases raw <;> exact hother h

end

/-! ### Attributes -/

theorem headingLevel_range {a : TokenAttributes} {n : Int} (h : a.headingLevel = .ok n) :
    (1 ≤ n && n ≤ 6) = true := by
  unfold TokenAttributes.headingLevel at h
  split at h
  · obtain rfl : 1 = n := Except.ok.inj h
    rfl
  · obtain ⟨m, -, h⟩ := bind_eq_ok_iff.mp h
    obtain rfl := pure_eq_ok_iff.mp h
    rw [Bool.and_eq_true, decide_eq_true_iff, decide_eq_true_iff]
    omega

/-- A language is a word. -/
theorem language_ne_some_nil (a : TokenAttributes) : (a.language != some []) = true := by
  have hwords : ∀ s : List Char, (Text.words s).head? ≠ some [] := by
    intro s h
    have hmem : [] ∈ Text.words s := List.mem_of_mem_head? h
    exact absurd (List.mem_filter.mp hmem).2 (by simp)
  have hlanguage : a.language ≠ some [] := by
    unfold TokenAttributes.language
    split
    · simp
    · split
      · exact hwords _
      · simp
  simpa using hlanguage

/-! ### Blocks -/

mutual

/-- **A sequence of blocks that tokens become** is proper and has room at its
depth. -/
theorem blockChildren_room {depth : Nat} (children : Option (List Token)) {bs : List Block}
    (h : blockChildren depth children = .ok bs) :
    Block.runProper bs = true ∧ depth + Block.runReach bs ≤ maxDepth := by
  cases children with
  | none =>
    rw [blockChildren, bind_eq_ok_iff] at h
    obtain ⟨_, hdepth, h⟩ := h
    obtain rfl := pure_eq_ok_iff.mp h
    exact ⟨rfl, checkDepth_eq_ok_iff.mp hdepth⟩
  | some ts =>
    rw [blockChildren, bind_eq_ok_iff] at h
    obtain ⟨_, hdepth, h⟩ := h
    exact blocks_room ts (checkDepth_eq_ok_iff.mp hdepth) h

theorem blocks_room {depth : Nat} (ts : List Token) {bs : List Block}
    (hdepth : depth ≤ maxDepth) (h : blocks depth ts = .ok bs) :
    Block.runProper bs = true ∧ depth + Block.runReach bs ≤ maxDepth := by
  cases ts with
  | nil =>
    obtain rfl : [] = bs := Except.ok.inj h
    exact ⟨rfl, hdepth⟩
  | cons t ts =>
    rw [blocks, bind_eq_ok_iff] at h
    obtain ⟨cs, hcs, h⟩ := h
    rw [bind_eq_ok_iff] at h
    obtain ⟨ds, hds, h⟩ := h
    obtain rfl := pure_eq_ok_iff.mp h
    obtain ⟨hproper, hroom⟩ := block_room t hdepth hcs
    obtain ⟨hproper', hroom'⟩ := blocks_room ts hdepth hds
    rw [Block.runProper_append, hproper, hproper', Block.runReach_append]
    exact ⟨rfl, by omega⟩

/-- The items of a list, the content of which lies two deeper than the list. -/
theorem listItems_room {depth : Nat} (children : Option (List Token)) {bss : List (List Block)}
    (hdepth : depth ≤ maxDepth) (h : listItems (depth + 2) children = .ok bss) :
    Block.itemsProper bss = true ∧ depth + Block.itemsReach bss ≤ maxDepth := by
  cases children with
  | none =>
    obtain rfl : [] = bss := Except.ok.inj h
    exact ⟨rfl, hdepth⟩
  | some ts => exact items_room ts hdepth h

theorem items_room {depth : Nat} (ts : List Token) {bss : List (List Block)}
    (hdepth : depth ≤ maxDepth) (h : items (depth + 2) ts = .ok bss) :
    Block.itemsProper bss = true ∧ depth + Block.itemsReach bss ≤ maxDepth := by
  cases ts with
  | nil =>
    obtain rfl : [] = bss := Except.ok.inj h
    exact ⟨rfl, hdepth⟩
  | cons t ts =>
    rw [items, bind_eq_ok_iff] at h
    obtain ⟨bs, hbs, h⟩ := h
    rw [bind_eq_ok_iff] at h
    obtain ⟨css, hcss, h⟩ := h
    obtain rfl := pure_eq_ok_iff.mp h
    -- The content is two deeper than the list here and one deeper in the document.
    obtain ⟨hproper, hroom⟩ := itemBlocks_room t hbs
    obtain ⟨hproper', hroom'⟩ := items_room ts hdepth hcss
    rw [Block.itemsProper, hproper, hproper', Block.itemsReach]
    exact ⟨rfl, by omega⟩

theorem itemBlocks_room {depth : Nat} (t : Token) {bs : List Block}
    (h : itemBlocks depth t = .ok bs) :
    Block.runProper bs = true ∧ depth + Block.runReach bs ≤ maxDepth := by
  obtain ⟨kind, raw, a, children⟩ := t
  exact blockChildren_room children h

theorem block_room {depth : Nat} (t : Token) {bs : List Block} (hdepth : depth ≤ maxDepth)
    (h : block depth t = .ok bs) :
    Block.runProper bs = true ∧ depth + Block.runReach bs ≤ maxDepth := by
  obtain ⟨kind, raw, a, children⟩ := t
  have hone : ∀ b : Block, b.proper = true → depth + b.reach ≤ maxDepth →
      (Except.ok [b] : Except Fault _) = .ok bs →
      Block.runProper bs = true ∧ depth + Block.runReach bs ≤ maxDepth := by
    intro b hb hreach h
    obtain rfl := Except.ok.inj h
    simp only [Block.runProper, hb, Block.runReach]
    exact ⟨rfl, by omega⟩
  have hrun : ∀ {is : List Inline}, inlineChildren (depth + 1) children = .ok is →
      depth + (1 + Inline.runReach is) ≤ maxDepth := by
    intro is his
    have hchildren := inlineChildren_room children his
    omega
  have hnone : (Except.ok [] : Except Fault _) = .ok bs →
      Block.runProper bs = true ∧ depth + Block.runReach bs ≤ maxDepth := by
    intro h
    obtain rfl := Except.ok.inj h
    exact ⟨rfl, hdepth⟩
  cases kind with
  | heading =>
    obtain ⟨n, hn, h⟩ := bind_eq_ok_iff.mp h
    obtain ⟨is, his, h⟩ := bind_eq_ok_iff.mp h
    exact hone (.heading n is) (headingLevel_range hn) (hrun his) h
  | paragraph | blockText =>
    obtain ⟨is, his, h⟩ := bind_eq_ok_iff.mp h
    exact hone (.paragraph is) rfl (hrun his) h
  | list =>
    obtain ⟨start, -, h⟩ := bind_eq_ok_iff.mp h
    obtain ⟨bss, hbss, h⟩ := bind_eq_ok_iff.mp h
    obtain ⟨hproper, hroom⟩ := listItems_room children hdepth hbss
    exact hone (.list a.isOrdered bss start) hproper hroom h
  | blockCode =>
    exact hone (.codeBlock (raw.getD []) a.language) (language_ne_some_nil a) hdepth h
  | blockQuote =>
    obtain ⟨cs, hcs, h⟩ := bind_eq_ok_iff.mp h
    obtain ⟨hproper, hroom⟩ := blockChildren_room children hcs
    have hreach : depth + (1 + Block.runReach cs) ≤ maxDepth := by omega
    exact hone (.blockquote cs) hproper hreach h
  | thematicBreak => exact hone .thematicBreak rfl hdepth h
  | blankLine | blockHtml | inlineHtml => exact hnone h
  | text | softBreak | lineBreak | codeSpan | emphasis | strong | link | image | other _ =>
    cases children with
    | none => exact hnone h
    | some ts =>
      cases ts with
      | nil => exact hnone h
      | cons t ts =>
        -- The children of a transparent container lie one deeper and take its place.
        obtain ⟨_, hinner, h⟩ := bind_eq_ok_iff.mp h
        obtain ⟨hproper, hroom⟩ := blocks_room (t :: ts) (checkDepth_eq_ok_iff.mp hinner) h
        exact ⟨hproper, by omega⟩

end

end Token

/-! ### Documents -/

/-- Documents from tokens are proper. -/
theorem Document.proper_of_ofTokens {ts : List Token} {d : Document}
    (h : Document.ofTokens ts = .ok d) : Block.runProper d.blocks = true := by
  obtain ⟨bs, hbs, h⟩ := bind_eq_ok_iff.mp h
  obtain rfl := pure_eq_ok_iff.mp h
  exact (Token.blockChildren_room (some ts) hbs).1

/-- **Walks over documents from tokens have room.** -/
theorem Document.reach_of_ofTokens {ts : List Token} {d : Document}
    (h : Document.ofTokens ts = .ok d) : 1 + Block.runReach d.blocks ≤ maxDepth := by
  obtain ⟨bs, hbs, h⟩ := bind_eq_ok_iff.mp h
  obtain rfl := pure_eq_ok_iff.mp h
  exact (Token.blockChildren_room (some ts) hbs).2

end SmallWeb
