/-
SmallWeb/Proofs/Token/Encoding.lean

Documents written as tokens and read again.

Every node has a token that means it.  A document is written node by node
(`Document.tokens`), with an item token around the content of each list item, and the
adapter reads the tokens back.  Nothing is lost, with one exception: a list that starts
at zero is read as one that starts at one, since a start that is false counts as none
given.  `Document.started` is what comes back.

The adapter refuses to go too deep.  It counts the content of a list item two deeper
than the list, and apart from that as the extractor does (`Block.nesting`), so one
lemma for each of its functions says both when it succeeds and what it yields then.
These are `Reads` statements, as for the extractor.

Main results: `ofTokens_tokens`, and `exists_document_not_restored`, that a start at
zero does not come back.
-/
import SmallWeb.Proofs.Document.Everywhere
import SmallWeb.Proofs.Extract.Depth
import SmallWeb.Proofs.Text.Words
import SmallWeb.Token.Document

namespace SmallWeb

/-! ### Documents as tokens -/

mutual

/-- The token of an inline node. -/
def Inline.token : Inline → Token
  | .text t => .leaf .text t
  | .code literal => .leaf .codeSpan literal
  | .lineBreak => .bare .lineBreak
  | .emphasis children => .node .emphasis (Inline.tokens children)
  | .strong children => .node .strong (Inline.tokens children)
  | .link href children =>
    .mk .link none { url := some (.string href) } (some (Inline.tokens children))

/-- The tokens of a run. -/
def Inline.tokens : List Inline → List Token
  | [] => []
  | i :: is => i.token :: Inline.tokens is

end

mutual

/-- The token of a block. -/
def Block.token : Block → Token
  | .heading level inline =>
    .mk .heading none { level := some (.int level) } (some (Inline.tokens inline))
  | .paragraph inline => .node .paragraph (Inline.tokens inline)
  | .list ordered bss start =>
    .mk .list none { ordered := some (.bool ordered), start := some (.int start) }
      (some (Block.itemTokens bss))
  | .codeBlock literal language =>
    .mk .blockCode (some literal) { info := some ((language.map Value.string).getD .null) } none
  | .blockquote children => .node .blockQuote (Block.tokens children)
  | .thematicBreak => .bare .thematicBreak

/-- The tokens of a sequence of blocks. -/
def Block.tokens : List Block → List Token
  | [] => []
  | b :: bs => b.token :: Block.tokens bs

/-- The tokens of the items of a list. -/
def Block.itemTokens : List (List Block) → List Token
  | [] => []
  | bs :: bss => .node (.other "list_item".toList) (Block.tokens bs) :: Block.itemTokens bss

end

/-- The tokens of a document. -/
def Document.tokens (d : Document) : List Token := Block.tokens d.blocks

/-! ### What comes back -/

mutual

/-- A block with its lists starting at one where they started at zero. -/
def Block.started : Block → Block
  | .heading level inline => .heading level inline
  | .paragraph inline => .paragraph inline
  | .list ordered bss start =>
    .list ordered (Block.itemsStarted bss) (if start = 0 then 1 else start)
  | .codeBlock literal language => .codeBlock literal language
  | .blockquote children => .blockquote (Block.runStarted children)
  | .thematicBreak => .thematicBreak

/-- A sequence of blocks, likewise. -/
def Block.runStarted : List Block → List Block
  | [] => []
  | b :: bs => b.started :: Block.runStarted bs

/-- The items of a list, likewise. -/
def Block.itemsStarted : List (List Block) → List (List Block)
  | [] => []
  | bs :: bss => Block.runStarted bs :: Block.itemsStarted bss

end

/-- A document with its lists starting at one where they started at zero. -/
def Document.started (d : Document) : Document := ⟨Block.runStarted d.blocks⟩

mutual

/-- Whether no list in a block starts at zero. -/
def Block.noZeroStart : Block → Bool
  | .heading _ _ => true
  | .paragraph _ => true
  | .list _ bss start => start != 0 && Block.itemsNoZeroStart bss
  | .codeBlock _ _ => true
  | .blockquote children => Block.runNoZeroStart children
  | .thematicBreak => true

/-- Whether no list in a sequence of blocks starts at zero. -/
def Block.runNoZeroStart : List Block → Bool
  | [] => true
  | b :: bs => b.noZeroStart && Block.runNoZeroStart bs

/-- Whether no list in the items of a list starts at zero. -/
def Block.itemsNoZeroStart : List (List Block) → Bool
  | [] => true
  | bs :: bss => Block.runNoZeroStart bs && Block.itemsNoZeroStart bss

end

mutual

/-- **What comes back is the same** where no list starts at zero, and only there. -/
theorem Block.started_eq_iff (b : Block) : b.started = b ↔ b.noZeroStart = true := by
  cases b with
  | heading level inline => exact iff_of_true rfl rfl
  | paragraph inline => exact iff_of_true rfl rfl
  | list ordered bss start =>
    have hitems := Block.itemsStarted_eq_iff bss
    have hstart : (if start = 0 then 1 else start) = start ↔ start ≠ 0 := by
      split <;> omega
    simp only [Block.started, Block.noZeroStart, Block.list.injEq, true_and, hitems, hstart,
      Bool.and_eq_true, bne_iff_ne, and_comm]
  | codeBlock literal language => exact iff_of_true rfl rfl
  | blockquote children =>
    have hchildren := Block.runStarted_eq_iff children
    simp only [Block.started, Block.noZeroStart, Block.blockquote.injEq, hchildren]
  | thematicBreak => exact iff_of_true rfl rfl

theorem Block.runStarted_eq_iff (bs : List Block) :
    Block.runStarted bs = bs ↔ Block.runNoZeroStart bs = true := by
  cases bs with
  | nil => exact iff_of_true rfl rfl
  | cons b bs =>
    rw [Block.runStarted, Block.runNoZeroStart, List.cons.injEq, Bool.and_eq_true,
      Block.started_eq_iff b, Block.runStarted_eq_iff bs]

theorem Block.itemsStarted_eq_iff (bss : List (List Block)) :
    Block.itemsStarted bss = bss ↔ Block.itemsNoZeroStart bss = true := by
  cases bss with
  | nil => exact iff_of_true rfl rfl
  | cons bs bss =>
    rw [Block.itemsStarted, Block.itemsNoZeroStart, List.cons.injEq, Bool.and_eq_true,
      Block.runStarted_eq_iff bs, Block.itemsStarted_eq_iff bss]

end

/-! ### Depth in tokens -/

mutual

/-- How far below itself a block takes the adapter.  The content of an item lies two
deeper than the list. -/
def Block.nesting : Block → Nat
  | .heading _ inline => 1 + Inline.runReach inline
  | .paragraph inline => 1 + Inline.runReach inline
  | .list _ bss _ => Block.itemsNesting bss
  | .codeBlock _ _ => 0
  | .blockquote children => 1 + Block.runNesting children
  | .thematicBreak => 0

/-- How far a sequence of blocks takes the adapter below its own depth. -/
def Block.runNesting : List Block → Nat
  | [] => 0
  | b :: bs => max b.nesting (Block.runNesting bs)

/-- How far the items of a list take the adapter below the list. -/
def Block.itemsNesting : List (List Block) → Nat
  | [] => 0
  | bs :: bss => max (2 + Block.runNesting bs) (Block.itemsNesting bss)

end

/-! ### Attributes -/

/-- A word: a text that is not empty and has no blanks. -/
def Text.isWord (s : List Char) : Bool := !s.isEmpty && s.all fun c => !Text.isBlank c

theorem Text.words_of_isWord {s : List Char} (h : Text.isWord s = true) : Text.words s = [s] := by
  rw [Text.isWord, Bool.and_eq_true, List.all_eq_true] at h
  refine Text.words_of_forall_not (by simpa using h.1) fun c hc => ?_
  simpa using h.2 c hc

/-- Whether the attributes of a token can tell what a block has: a level in its range,
and a word as language. -/
def Block.tellable : Block → Bool
  | .heading level _ => 1 ≤ level && level ≤ 6
  | .codeBlock _ language => language.all Text.isWord
  | _ => true

namespace TokenAttributes

theorem headingLevel_int {n : Int} (h : (1 ≤ n && n ≤ 6) = true) :
    headingLevel { level := some (.int n) } = .ok n := by
  rw [Bool.and_eq_true, decide_eq_true_iff, decide_eq_true_iff] at h
  have hclamp : max 1 (min 6 n) = n := by omega
  show Except.ok (max 1 (min 6 n)) = _
  rw [hclamp]

/-- A start at zero counts as none given. -/
theorem firstNumber_int (ordered : Option Value) (n : Int) :
    firstNumber { ordered, start := some (.int n) } = .ok (if n = 0 then 1 else n) := by
  show (if (n != 0) = true then _ else _) = _
  by_cases hn : n = 0
  · rw [hn]
    rfl
  · rw [if_pos (bne_iff_ne.mpr hn), if_neg hn]
    rfl

theorem language_string {language : Option (List Char)} (h : language.all Text.isWord = true) :
    TokenAttributes.language { info := some ((language.map Value.string).getD .null) } =
      language := by
  cases language with
  | none => rfl
  | some name =>
    have hname : Text.isWord name = true := h
    have htruthy : (Value.string name).truthy = true := (Bool.and_eq_true_iff.mp hname).1
    show (if (Value.string name).truthy then (Text.words name).head? else none) = _
    rw [if_pos htruthy, Text.words_of_isWord hname]
    rfl

end TokenAttributes

/-! ### Reading the tokens -/

variable {α : Type}

theorem Reads.congr {x : Except Fault α} {p q : Prop} {Q : α → Prop} (h : Reads x p Q)
    (hpq : p ↔ q) : Reads x q Q where
  value hq := h.value (hpq.mpr hq)
  fault hq := h.fault (mt hpq.mp hq)

/-- What is entered at a depth has to lie within the limit itself. -/
theorem Reads.enter {x : Except Fault α} {depth : Nat} {p : Prop} {Q : α → Prop}
    (hx : depth ≤ maxDepth → Reads x p Q) :
    Reads (checkDepth depth >>= fun _ => x) (depth ≤ maxDepth ∧ p) Q := by
  by_cases hdepth : depth ≤ maxDepth
  · rw [checkDepth_of_le hdepth, ok_bind]
    exact (hx hdepth).congr (and_iff_right hdepth).symm
  · refine ⟨fun h => absurd h.1 hdepth, fun _ => ?_⟩
    rw [(reads_checkDepth depth).fault hdepth]
    rfl

namespace Token

/-- The children of a token, once their depth has been looked at. -/
theorem reads_inlineChildren {ts : List Token} {depth reach : Nat} {Q : List Inline → Prop}
    (hts : depth ≤ maxDepth → Reads (inlines depth ts) (depth + reach ≤ maxDepth) Q) :
    Reads (inlineChildren depth (some ts)) (depth + reach ≤ maxDepth) Q := by
  rw [inlineChildren]
  apply (Reads.enter hts).congr
  omega

mutual

/-- **The tokens of a run** become this run again. -/
theorem reads_inlines (is : List Inline) {depth : Nat} (hdepth : depth ≤ maxDepth) :
    Reads (inlines depth (Inline.tokens is))
      (depth + Inline.runReach is ≤ maxDepth) (· = is) := by
  cases is with
  | nil => exact Reads.ok hdepth rfl
  | cons i is =>
    rw [Inline.tokens, inlines, Inline.runReach]
    have hboth := (reads_inline i hdepth).bind (R := (· = i :: is)) fun ns hns =>
      (reads_inlines is hdepth).bind_ok fun ms hms => ⟨ns ++ ms, rfl, by rw [hns, hms]; rfl⟩
    apply hboth.congr
    omega

theorem reads_inline (i : Inline) {depth : Nat} (hdepth : depth ≤ maxDepth) :
    Reads (inline depth i.token) (depth + i.reach ≤ maxDepth) (· = [i]) := by
  have hnode : ∀ (f : List Inline → Inline) (children : List Inline),
      (f children).reach = 1 + Inline.runReach children →
      (depth + 1 ≤ maxDepth → Reads (inlines (depth + 1) (Inline.tokens children))
        (depth + 1 + Inline.runReach children ≤ maxDepth) (· = children)) →
      Reads (do return [f (← inlineChildren (depth + 1) (some (Inline.tokens children)))])
        (depth + (f children).reach ≤ maxDepth) (· = [f children]) := by
    intro f children hreach hread
    have hchildren := (reads_inlineChildren hread).bind_ok (R := (· = [f children]))
      fun is his => ⟨[f is], rfl, by rw [his]⟩
    apply hchildren.congr
    omega
  cases i with
  | text t => exact Reads.ok hdepth rfl
  | code literal => exact Reads.ok hdepth rfl
  | lineBreak => exact Reads.ok hdepth rfl
  | emphasis children =>
    exact hnode Inline.emphasis children rfl fun hinner => reads_inlines children hinner
  | strong children =>
    exact hnode Inline.strong children rfl fun hinner => reads_inlines children hinner
  | link href children =>
    exact hnode (Inline.link href) children rfl fun hinner => reads_inlines children hinner

end

/-- A block whose content is a run. -/
theorem reads_runBlock (f : List Inline → Block) (is : List Inline) (depth : Nat) :
    Reads (do return [f (← inlineChildren (depth + 1) (some (Inline.tokens is)))])
      (depth + (1 + Inline.runReach is) ≤ maxDepth) (· = [f is]) := by
  have hrun := reads_inlineChildren fun hinner : depth + 1 ≤ maxDepth => reads_inlines is hinner
  have hblock := hrun.bind_ok (R := (· = [f is])) fun js hjs => ⟨[f js], rfl, by rw [hjs]⟩
  apply hblock.congr
  omega

/-- The children of a quote or an item, once their depth has been looked at. -/
theorem reads_blockChildren {ts : List Token} {depth nesting : Nat} {Q : List Block → Prop}
    (hts : depth ≤ maxDepth → Reads (blocks depth ts) (depth + nesting ≤ maxDepth) Q) :
    Reads (blockChildren depth (some ts)) (depth + nesting ≤ maxDepth) Q := by
  rw [blockChildren]
  apply (Reads.enter hts).congr
  omega

mutual

/-- **The tokens of blocks** become these blocks again, started. -/
theorem reads_blocks (bs : List Block) {depth : Nat} (hdepth : depth ≤ maxDepth)
    (hbs : Block.runEverywhere Block.tellable bs = true) :
    Reads (blocks depth (Block.tokens bs))
      (depth + Block.runNesting bs ≤ maxDepth) (· = Block.runStarted bs) := by
  cases bs with
  | nil => exact Reads.ok hdepth rfl
  | cons b bs =>
    obtain ⟨hb, hrest⟩ := Bool.and_eq_true_iff.mp hbs
    rw [Block.tokens, blocks, Block.runNesting]
    have hboth := (reads_block b hdepth hb).bind (R := (· = Block.runStarted (b :: bs)))
      fun cs hcs => (reads_blocks bs hdepth hrest).bind_ok fun ds hds =>
        ⟨cs ++ ds, rfl, by rw [hcs, hds]; rfl⟩
    apply hboth.congr
    omega

theorem reads_items (bss : List (List Block)) {depth : Nat} (hdepth : depth ≤ maxDepth)
    (hbss : Block.itemsEverywhere Block.tellable bss = true) :
    Reads (items (depth + 2) (Block.itemTokens bss))
      (depth + Block.itemsNesting bss ≤ maxDepth) (· = Block.itemsStarted bss) := by
  cases bss with
  | nil => exact Reads.ok hdepth rfl
  | cons bs bss =>
    obtain ⟨hbs, hrest⟩ := Bool.and_eq_true_iff.mp hbss
    rw [Block.itemTokens, items, Block.itemsNesting]
    have hitem := reads_blockChildren fun hinner : depth + 2 ≤ maxDepth =>
      reads_blocks bs hinner hbs
    have hboth := hitem.bind (R := (· = Block.itemsStarted (bs :: bss))) fun cs hcs =>
      (reads_items bss hdepth hrest).bind_ok fun css hcss =>
        ⟨cs :: css, rfl, by rw [hcs, hcss]; rfl⟩
    apply hboth.congr
    omega

theorem reads_block (b : Block) {depth : Nat} (hdepth : depth ≤ maxDepth)
    (hb : b.everywhere Block.tellable = true) :
    Reads (block depth b.token) (depth + b.nesting ≤ maxDepth) (· = [b.started]) := by
  cases b with
  | heading level inline =>
    rw [Block.token, block, TokenAttributes.headingLevel_int hb, ok_bind]
    exact reads_runBlock (Block.heading level) inline depth
  | paragraph inline => exact reads_runBlock Block.paragraph inline depth
  | list ordered bss start =>
    rw [Block.token, block, TokenAttributes.firstNumber_int, ok_bind]
    rw [Block.everywhere, Bool.and_eq_true] at hb
    exact (reads_items bss hdepth hb.2).bind_ok fun css hcss => ⟨_, rfl, by rw [hcss]; rfl⟩
  | codeBlock literal language =>
    rw [Block.token, block, TokenAttributes.language_string hb]
    exact Reads.ok hdepth rfl
  | blockquote children =>
    rw [Block.everywhere, Bool.and_eq_true] at hb
    have hinside := reads_blockChildren fun hinner : depth + 1 ≤ maxDepth =>
      reads_blocks children hinner hb.2
    have hquote := hinside.bind_ok (R := (· = [Block.blockquote (Block.runStarted children)]))
      fun cs hcs => ⟨[.blockquote cs], rfl, by rw [hcs]⟩
    rw [Block.nesting]
    apply hquote.congr
    omega
  | thematicBreak => exact Reads.ok hdepth rfl

end

end Token

/-- **The tokens of a document** become the document again, started, unless the limit
is too low for the adapter. -/
theorem reads_ofTokens {d : Document} (hd : Block.runEverywhere Block.tellable d.blocks = true) :
    Reads (Document.ofTokens d.tokens) (1 + Block.runNesting d.blocks ≤ maxDepth)
      (· = d.started) :=
  (Token.reads_blockChildren fun htop => Token.reads_blocks d.blocks htop hd).bind_ok
    fun bs hbs => ⟨⟨bs⟩, rfl, by rw [hbs]; rfl⟩

/-! ### Documents that have been checked -/

/-- Whether a value is no code block, or one with a word as language or without any. -/
def Value.hasWordLanguage : Value → Bool
  | .codeBlock _ _ .null => true
  | .codeBlock _ _ (.string name) => Text.isWord name
  | .codeBlock _ _ _ => false
  | _ => true

/-- The languages of code blocks are words. -/
def WordLanguages (ps : List Place) : Prop := ∀ p ∈ ps, p.value.hasWordLanguage = true

instance (ps : List Place) : Decidable (WordLanguages ps) :=
  inferInstanceAs (Decidable (∀ p ∈ ps, p.value.hasWordLanguage = true))

theorem Value.language?_isWord {id : Nat} {literal language : Value}
    (h : (Value.codeBlock id literal language).hasWordLanguage = true) :
    language.language?.all Text.isWord = true := by
  cases language with
  | null => rfl
  | string name =>
    have hname : Text.isWord name = true := h
    have htruthy : (Value.string name).truthy = true := (Bool.and_eq_true_iff.mp hname).1
    rw [Value.language?, if_pos htruthy]
    exact hname
  | _ => simp [Value.hasWordLanguage] at h

/-- What a block is read from tells that a token can tell it: levels are in their range
anyway. -/
theorem tells_tellable : Tells (fun v => v.hasWordLanguage = true) Block.tellable := by
  intro v b hv hword
  cases v with
  | heading id level inline =>
    obtain ⟨n, is, hn, -, rfl⟩ := Block.ofValue?_heading_eq_some hv
    obtain ⟨-, hlow, hhigh⟩ := Value.level?_eq_some_iff.mp hn
    rw [Block.tellable, decide_eq_true hlow, decide_eq_true hhigh]
    rfl
  | paragraph id inline =>
    obtain ⟨is, -, rfl⟩ := Option.map_eq_some_iff.mp hv
    rfl
  | list id ordered items start =>
    obtain ⟨bss, n, -, -, rfl⟩ := Block.ofValue?_list_eq_some hv
    rfl
  | codeBlock id literal language =>
    cases literal with
    | string literal =>
      obtain rfl : Block.codeBlock literal language.language? = b := Option.some.inj hv
      exact Value.language?_isWord hword
    | _ => simp [Block.ofValue?] at hv
  | blockquote id children =>
    obtain ⟨bs, -, rfl⟩ := Option.map_eq_some_iff.mp hv
    rfl
  | thematicBreak id =>
    obtain rfl : Block.thematicBreak = b := Option.some.inj hv
    rfl
  | _ => simp [Block.ofValue?] at hv

/-- **Documents come back from their tokens.**  For a document that the structure check
accepts, with whole numbers as starts and words as languages, the adapter reads the
tokens of the document unless they lie too deep for it.  What it yields is the document
with the lists that start at zero starting at one, so the document comes back as it was
exactly where no list starts at zero. -/
theorem ofTokens_tokens {doc : Value} (hcheck : Structure.check maxDepth doc = .ok ())
    (hstarts : doc.integerStarts = true) (hwords : WordLanguages doc.allPlaces) :
    ∃ d, Document.ofValue? doc = some d ∧
      (Document.ofTokens d.tokens = .error (.tree (.tooDeep maxDepth)) ↔
        maxDepth < 1 + Block.runNesting d.blocks) ∧
      (Document.ofTokens d.tokens ≠ .error (.tree (.tooDeep maxDepth)) →
        Document.ofTokens d.tokens = .ok d.started ∧
        (Document.ofTokens d.tokens = .ok d ↔ Block.runNoZeroStart d.blocks = true)) := by
  obtain ⟨d, hd, -⟩ := exists_document hcheck hstarts
  have hreads := reads_ofTokens (tells_tellable.document_everywhere hd hwords)
  have hshallow : Document.ofTokens d.tokens ≠ .error (.tree (.tooDeep maxDepth)) →
      Document.ofTokens d.tokens = .ok d.started := by
    intro hne
    obtain ⟨_, hok, rfl⟩ := hreads.value (not_not.mp fun hdeep => hne (hreads.fault hdeep))
    exact hok
  refine ⟨d, hd, ⟨fun hdeep => ?_, fun hdeep => hreads.fault (Nat.not_le.mpr hdeep)⟩,
    fun hne => ⟨hshallow hne, ?_⟩⟩
  · refine Nat.lt_of_not_le fun hroom => ?_
    obtain ⟨_, hok, -⟩ := hreads.value hroom
    rw [hok] at hdeep
    cases hdeep
  · have hsame : d.started = d ↔ Block.runNoZeroStart d.blocks = true := by
      rw [← Block.runStarted_eq_iff, Document.mk.injEq]
      rfl
    rw [hshallow hne, Except.ok.injEq, hsame]

/-- A numbered list with a linked word in a quote, and code with a language. -/
def Value.quotedLinkInItem : Value :=
  .document 0 (.tuple [.list 1 (.bool true) (.array [.tuple
    [.blockquote 2 (.tuple [.heading 3 (.int 2) (.tuple [.link 4 (.string ['u'])
      (.tuple [.strong 5 (.tuple [.text 6 (.string ['a'])])])])])]]) (.int (-3)),
    .codeBlock 7 (.string ['b', '\n']) (.string ['c'])])

theorem ofTokens_tokens_of_quoted_link :
    ∃ d, Document.ofValue? Value.quotedLinkInItem = some d ∧
      Document.ofTokens d.tokens = .ok d := by
  obtain ⟨d, hd, hdeep, hback⟩ := @ofTokens_tokens Value.quotedLinkInItem rfl rfl (by decide)
  refine ⟨d, hd, ?_⟩
  obtain rfl := Option.some.inj hd
  have hroom := mt hdeep.mp (by decide)
  exact (hback hroom).2.mpr rfl

/-- **A document that does not come back**: a list that starts at zero. -/
theorem exists_document_not_restored :
    ¬ ∀ (doc : Value) (d : Document), Structure.check maxDepth doc = .ok () →
      doc.integerStarts = true → WordLanguages doc.allPlaces → Document.ofValue? doc = some d →
      Document.ofTokens d.tokens ≠ .error (.tree (.tooDeep maxDepth)) →
      Document.ofTokens d.tokens = .ok d := by
  intro hall
  have hback := hall (.document 0 (.tuple [.list 1 (.bool true) (.tuple [.tuple [.paragraph 2
    (.tuple [.text 3 (.string ['a'])])]]) (.int 0)]))
    ⟨[.list true [[.paragraph [.text ['a']]]] 0]⟩ rfl rfl (by decide) rfl (by intro h; cases h)
  cases hback

end SmallWeb
