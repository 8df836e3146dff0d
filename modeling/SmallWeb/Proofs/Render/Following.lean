/-
SmallWeb/Proofs/Render/Following.lean

Walks and layouts agree.

`Format.Follows` says, constructor by constructor, what a format has to do so
that its walk comes out as a layout: each clause is about one function of the
format.  The clause about links has the form of a prophecy.  A layout is told the
final number of every link, and the walk has to guess none of it: whenever the
log after a link is one that can still grow into the final one (`settled`), the
walk writes what the layout writes.

Main result: `Follows.block`.  From any log, the walk over a value that is a
block yields the lines of the layout and leaves the log extended by the links of
the block, or it fails where a rule cannot be drawn.
-/
import SmallWeb.Proofs.Document.Reading
import SmallWeb.Proofs.Render.Layout
import SmallWeb.Proofs.Render.Run
import SmallWeb.Render.Tree

namespace SmallWeb

open Walk

/-! ### Formats that follow a layout -/

/-- A format writes what a layout says.  A link is noted in the log by `note`,
and `settled` says of a log that the numbers in it are final. -/
structure Format.Follows (fmt : Format) (s : Layout)
    (note : LinkLog → List Char × List Char → LinkLog) (settled : LinkLog → Prop) : Prop where
  heading {level : Value} {n : Int} {text : Walk (List Char)} {t : List Char}
    {log log' : LinkLog} (width : Nat) : level.level? = some n → Gives text log true t log' →
    Gives (fmt.heading level text width) log true
      (proseBlock width (s.headingMark n) (s.headingText t)) log'
  codeBlock (literal : List Char) (language : Value) (log : LinkLog) :
    Gives (fmt.codeBlock (.string literal) language) log true
      ((s.code literal language.language?).map .verbatim) log
  thematicBreak (width : Nat) (log : LinkLog) :
    Gives (fmt.thematicBreak width) log (s.ruleFits width) [.prose (s.rule width)] log
  marker {ordered start : Value} {n : Int} (index : Nat) (log : LinkLog) :
    Value.start? ordered start = some n →
    Gives (fmt.marker ordered start index) log true (s.marker ordered.truthy n index) log
  continuation (marker : List Char) : fmt.continuation marker = s.continuation marker
  itemLines (first rest : List Char) {lines : List Line} : lines ≠ [] →
    fmt.itemLines first rest lines = prependLines first rest (s.openItem lines)
  quoteLine (l : Line) : fmt.quoteLine l = s.quoteLine l
  codeSpan (literal : List Char) : fmt.codeSpan (.string literal) = .string (s.codeSpan literal)
  link_nil (text : List Char) (log : LinkLog) :
    Gives (fmt.link (.string []) text) log true (.string text) log
  link {href : List Char} (text : List Char) {log : LinkLog} : href ≠ [] →
    settled (note log (href, text)) →
    Gives (fmt.link (.string href) text) log true (.string (s.link href text))
      (note log (href, text))
  settled_of_note {log : LinkLog} {n : List Char × List Char} :
    settled (note log n) → settled log

/-- The text of a run is put together from the texts of its nodes. -/
theorem Layout.joinPieces_text (s : Layout) (is : List Inline) :
    joinPieces (is.map fun i => .string (s.text i)) = .ok (s.run is) := by
  induction is with
  | nil => rfl
  | cons i is ih =>
    rw [List.map_cons, joinPieces, ih, Layout.run]
    rfl

theorem innerWidth_eq (width taken : Nat) :
    innerWidth width taken = (innerRoom width taken : Nat) := by
  unfold innerWidth innerRoom
  by_cases h : width = 0
  · subst h
    rfl
  · rw [if_pos (by omega), if_neg h]
    omega

theorem proseLines_eq (text : List Char) (width : Nat) (lead : List Char) :
    proseLines text width lead = .ok (proseBlock width lead text) := by
  unfold proseLines proseBlock
  rw [if_neg (by omega), Int.toNat_natCast]

/-- The marker of an item, where the start of the list is a whole number. -/
theorem gives_itemMarker (bullet : List Char) {ordered start : Value} {n : Int} (index : Nat)
    (log : LinkLog) (hn : Value.start? ordered start = some n) :
    Gives (itemMarker bullet ordered start index) log true
      (if ordered.truthy then Text.ofInt (n + index) ++ ['.', ' '] else bullet) log := by
  unfold itemMarker
  unfold Value.start? at hn
  by_cases ho : ordered.truthy = true
  · rw [if_pos ho] at hn
    have hnumber : itemNumber start index = .ok (Text.ofInt (n + index)) := by
      unfold itemNumber
      rw [hn]
    rw [if_pos ho, if_pos ho]
    exact Gives.bind_pure (· ++ ['.', ' ']) (Gives.ofExcept hnumber log)
  · rw [if_neg ho, if_neg ho]
    exact Gives.pure _ log

namespace Format.Follows

variable {fmt : Format} {s : Layout} {note : LinkLog → List Char × List Char → LinkLog}
variable {settled : LinkLog → Prop}

/-- A log that becomes final by further links is final as far as it goes. -/
theorem settled_of_foldl (F : fmt.Follows s note settled) {log : LinkLog}
    {ns : List (List Char × List Char)} (h : settled (ns.foldl note log)) : settled log := by
  induction ns generalizing log with
  | nil => exact h
  | cons n ns ih => exact F.settled_of_note (ih h)

/-! ### Running text -/

mutual

/-- **The walk over an inline node** yields its text and notes its links. -/
theorem piece (F : fmt.Follows s note settled) (v : Value) {i : Inline} {log : LinkLog}
    (hv : Inline.ofValue? v = some i) (hs : settled ((s.notes i).foldl note log)) :
    Gives (fmt.piece v) log true (.string (s.text i)) ((s.notes i).foldl note log) := by
  cases v with
  | text id t =>
    cases t with
    | string t =>
      obtain rfl : Inline.text t = i := Option.some.inj hv
      rw [Format.piece]
      exact Gives.pure _ log
    | _ => simp [Inline.ofValue?] at hv
  | code id t =>
    cases t with
    | string t =>
      obtain rfl : Inline.code t = i := Option.some.inj hv
      rw [Format.piece, F.codeSpan]
      exact Gives.pure _ log
    | _ => simp [Inline.ofValue?] at hv
  | lineBreak id =>
    obtain rfl : Inline.lineBreak = i := Option.some.inj hv
    rw [Format.piece]
    exact Gives.pure _ log
  | emphasis id children =>
    obtain ⟨is, his, rfl⟩ := Option.map_eq_some_iff.mp hv
    rw [Format.piece]
    exact Gives.bind_pure Value.string (run F children his hs)
  | strong id children =>
    obtain ⟨is, his, rfl⟩ := Option.map_eq_some_iff.mp hv
    rw [Format.piece]
    exact Gives.bind_pure Value.string (run F children his hs)
  | link id href children =>
    cases href with
    | string href =>
      obtain ⟨is, his, rfl⟩ := Option.map_eq_some_iff.mp hv
      -- The children are walked first, so what they note is settled when all is.
      rw [Layout.notes, List.foldl_append] at hs
      rw [Format.piece, Layout.notes, List.foldl_append, Layout.text]
      have hchildren := run F children his (F.settled_of_foldl hs)
      -- A link without a target is noted nowhere and shows its children only.
      by_cases hempty : href = []
      · subst hempty
        exact hchildren.bind_of_ok (F.link_nil _ _)
      · have hnot : href.isEmpty = false := by simpa using hempty
        simp only [hnot, Bool.false_eq_true, if_false, List.foldl_cons, List.foldl_nil] at hs ⊢
        exact hchildren.bind_of_ok (F.link _ hempty hs)
    | _ => simp [Inline.ofValue?] at hv
  | _ => simp [Inline.ofValue?] at hv

/-- **The walk over a run** yields its text and notes its links. -/
theorem run (F : fmt.Follows s note settled) (v : Value) {is : List Inline} {log : LinkLog}
    (hv : Inline.run? v = some is) (hs : settled ((s.runNotes is).foldl note log)) :
    Gives (fmt.run v) log true (s.run is) ((s.runNotes is).foldl note log) := by
  cases v with
  | tuple vs =>
    rw [Format.run]
    exact (pieces F vs hv hs).bind_of_ok (Gives.ofExcept (s.joinPieces_text is) _)
  | array vs =>
    rw [Format.run]
    exact (pieces F vs hv hs).bind_of_ok (Gives.ofExcept (s.joinPieces_text is) _)
  | _ => simp [Inline.run?] at hv

/-- The walk over the nodes of a run yields their texts. -/
theorem pieces (F : fmt.Follows s note settled) (vs : List Value) {is : List Inline}
    {log : LinkLog} (hvs : Inline.all? vs = some is)
    (hs : settled ((s.runNotes is).foldl note log)) :
    Gives (fmt.pieces vs) log true (is.map fun i => .string (s.text i))
      ((s.runNotes is).foldl note log) := by
  cases vs with
  | nil =>
    obtain rfl : [] = is := Option.some.inj hvs
    rw [Format.pieces]
    exact Gives.pure _ log
  | cons v vs =>
    obtain ⟨i, is', hi, his, rfl⟩ := Inline.all?_cons_eq_some hvs
    rw [Layout.runNotes, List.foldl_append] at hs
    rw [Format.pieces, Layout.runNotes, List.foldl_append]
    have hfirst := piece F v hi (F.settled_of_foldl hs)
    have hrest := pieces F vs his hs
    exact hfirst.bind_of_ok (Gives.bind_pure (_ :: ·) hrest)

end

/-! ### Blocks -/

/-- The lines of an item are those of the layout: an empty item has one empty
line in both. -/
theorem item_lines (F : fmt.Follows s note settled) (marker : List Char) (lines : List Line) :
    fmt.itemLines marker (fmt.continuation marker)
      (if lines.isEmpty then [.prose []] else lines) = s.itemLines marker lines := by
  rw [F.continuation]
  cases lines with
  | nil =>
    rw [F.itemLines _ _ (by simp)]
    simp [Layout.itemLines, Layout.openItem, Line.isVerbatim]
  | cons l ls => exact F.itemLines _ _ (List.cons_ne_nil l ls)

/-- **The walk over an item**, from the walk over its blocks. -/
theorem item (F : fmt.Follows s note settled) {ordered start : Value} {n : Int} {index width : Nat}
    {content : Int → Walk (List (List Line))} {log log' : LinkLog} {ok : Bool}
    {ls : List (List Line)} (hn : Value.start? ordered start = some n)
    (hcontent : Gives (content (innerRoom width (s.marker ordered.truthy n index).length : Nat))
      log ok ls log') :
    Gives (fmt.item ordered start index width content) log ok
      (s.itemLines (s.marker ordered.truthy n index) ls.flatten) log' := by
  rw [Format.item]
  refine (F.marker index log hn).bind_of_ok ?_
  rw [innerWidth_eq, ← F.item_lines]
  exact Gives.bind_pure _ hcontent

mutual

/-- **The walk over a block** yields the lines of the layout and notes the links,
or fails where a rule cannot be drawn. -/
theorem block (F : fmt.Follows s note settled) (v : Value) {b : Block} {depth width : Nat}
    {log : LinkLog} (hv : Block.ofValue? v = some b) (hdepth : depth + b.height ≤ maxDepth)
    (hs : settled ((s.blockNotes b).foldl note log)) :
    Gives (fmt.block depth width v) log (s.fits width b) (s.block width b)
      ((s.blockNotes b).foldl note log) := by
  have henter : Gives (Walk.ofExcept (checkDepth depth)) log true () log :=
    gives_checkDepth (by omega) log
  -- By recursion on the value: in each case the block can be read off its fields.
  cases v with
  | heading id level inline =>
    obtain ⟨n, is, hn, his, rfl⟩ := Block.ofValue?_heading_eq_some hv
    rw [Format.block]
    exact henter.bind_of_ok (F.heading width hn (F.run inline his hs))
  | paragraph id inline =>
    obtain ⟨is, his, rfl⟩ := Option.map_eq_some_iff.mp hv
    rw [Format.block]
    refine henter.bind_of_ok ((F.run inline his hs).bind_of_ok ?_)
    exact Gives.ofExcept (by rw [proseLines_eq]; rfl) _
  | list id ordered items start =>
    obtain ⟨bss, n, hbss, hn, rfl⟩ := Block.ofValue?_list_eq_some hv
    rw [Block.height] at hdepth
    have hinner : depth + 1 + Block.itemsHeight bss ≤ maxDepth + 1 := by omega
    rw [Format.block]
    refine henter.bind_of_ok (Gives.bind_pure List.flatten ?_)
    exact itemsOf F items hn hbss hinner hs
  | codeBlock id literal language =>
    cases literal with
    | string literal =>
      obtain rfl : Block.codeBlock literal language.language? = b := Option.some.inj hv
      rw [Format.block]
      exact henter.bind_of_ok (F.codeBlock literal language log)
    | _ => simp [Block.ofValue?] at hv
  | blockquote id children =>
    obtain ⟨bs, hbs, rfl⟩ := Option.map_eq_some_iff.mp hv
    rw [Block.height] at hdepth
    have hinner : depth + 1 + Block.runHeight bs ≤ maxDepth + 1 := by omega
    rw [Format.block, innerWidth_eq, Layout.block, ← (funext F.quoteLine : fmt.quoteLine = _)]
    refine henter.bind_of_ok (Gives.bind_pure (fun ls => (stackBlocks ls).map _) ?_)
    exact blocksOf F children hbs hinner hs
  | thematicBreak id =>
    obtain rfl : Block.thematicBreak = b := Option.some.inj hv
    rw [Format.block]
    exact henter.bind_of_ok (F.thematicBreak width log)
  | _ => simp [Block.ofValue?] at hv

/-- The walk over a sequence of blocks. -/
theorem blocksOf (F : fmt.Follows s note settled) (v : Value) {bs : List Block}
    {depth width : Nat} {log : LinkLog} (hv : Block.run? v = some bs)
    (hdepth : depth + Block.runHeight bs ≤ maxDepth + 1)
    (hs : settled ((s.blocksNotes bs).foldl note log)) :
    Gives (fmt.blocksOf depth width v) log (s.blocksFit width bs) (s.blocks width bs)
      ((s.blocksNotes bs).foldl note log) := by
  cases v with
  | tuple vs =>
    rw [Format.blocksOf]
    exact blocks F vs hv hdepth hs
  | array vs =>
    rw [Format.blocksOf]
    exact blocks F vs hv hdepth hs
  | _ => simp [Block.run?] at hv

/-- The walk over several blocks. -/
theorem blocks (F : fmt.Follows s note settled) (vs : List Value) {bs : List Block}
    {depth width : Nat} {log : LinkLog} (hvs : Block.all? vs = some bs)
    (hdepth : depth + Block.runHeight bs ≤ maxDepth + 1)
    (hs : settled ((s.blocksNotes bs).foldl note log)) :
    Gives (fmt.blocks depth width vs) log (s.blocksFit width bs) (s.blocks width bs)
      ((s.blocksNotes bs).foldl note log) := by
  cases vs with
  | nil =>
    obtain rfl : [] = bs := Option.some.inj hvs
    rw [Format.blocks]
    exact Gives.pure _ log
  | cons v vs =>
    obtain ⟨b, bs', hb, hbs, rfl⟩ := Block.all?_cons_eq_some hvs
    rw [Block.runHeight] at hdepth
    have hfirstDepth : depth + b.height ≤ maxDepth := by omega
    have hrestDepth : depth + Block.runHeight bs' ≤ maxDepth + 1 := by omega
    -- The log after the first block is a beginning of the log after all of them.
    rw [Layout.blocksNotes, List.foldl_append] at hs
    rw [Format.blocks, Layout.blocksNotes, List.foldl_append]
    refine Gives.bind (block F v hb hfirstDepth (F.settled_of_foldl hs)) ?_
    exact Gives.bind_pure (_ :: ·) (blocks F vs hbs hrestDepth hs)

/-- The walk over the items of a list. -/
theorem itemsOf (F : fmt.Follows s note settled) (v : Value) {bss : List (List Block)}
    {ordered start : Value} {n : Int} {depth width : Nat} {log : LinkLog}
    (hn : Value.start? ordered start = some n) (hv : Block.items? v = some bss)
    (hdepth : depth + Block.itemsHeight bss ≤ maxDepth + 1)
    (hs : settled ((s.itemsNotes bss).foldl note log)) :
    Gives (fmt.itemsOf depth width ordered start v) log
      (s.itemsFit width ordered.truthy n 0 bss) (s.items width ordered.truthy n 0 bss)
      ((s.itemsNotes bss).foldl note log) := by
  cases v with
  | tuple vs =>
    rw [Format.itemsOf]
    exact eachItem F vs hn hv hdepth hs
  | array vs =>
    rw [Format.itemsOf]
    exact eachItem F vs hn hv hdepth hs
  | _ => simp [Block.items?] at hv

/-- The walk over items from some index on. -/
theorem eachItem (F : fmt.Follows s note settled) (vs : List Value) {bss : List (List Block)}
    {ordered start : Value} {n : Int} {index depth width : Nat} {log : LinkLog}
    (hn : Value.start? ordered start = some n) (hvs : Block.eachItem? vs = some bss)
    (hdepth : depth + Block.itemsHeight bss ≤ maxDepth + 1)
    (hs : settled ((s.itemsNotes bss).foldl note log)) :
    Gives (fmt.eachItem depth width ordered start index vs) log
      (s.itemsFit width ordered.truthy n index bss) (s.items width ordered.truthy n index bss)
      ((s.itemsNotes bss).foldl note log) := by
  cases vs with
  | nil =>
    obtain rfl : [] = bss := Option.some.inj hvs
    rw [Format.eachItem]
    exact Gives.pure _ log
  | cons v vs =>
    obtain ⟨bs, bss', hbs, hbss, rfl⟩ := Block.eachItem?_cons_eq_some hvs
    rw [Block.itemsHeight] at hdepth
    have hfirstDepth : depth + Block.runHeight bs ≤ maxDepth + 1 := by omega
    have hrestDepth : depth + Block.itemsHeight bss' ≤ maxDepth + 1 := by omega
    rw [Layout.itemsNotes, List.foldl_append] at hs
    rw [Format.eachItem, Layout.itemsNotes, List.foldl_append]
    refine Gives.bind (F.item hn (blocksOf F v hbs hfirstDepth (F.settled_of_foldl hs))) ?_
    exact Gives.bind_pure (_ :: ·) (eachItem F vs hn hbss hrestDepth hs)

end

end Format.Follows

end SmallWeb
