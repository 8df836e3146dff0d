/-
SmallWeb/Proofs/Extract.lean

The plain text of a proper tree.

The extractor counts depth in its own way: running text lies one deeper than its
block, and it is counted even where there is none.  `Block.reach` is what it
needs below a block.  It covers what the other walks need (`Block.height_le_reach`),
so a bound on it is a bound for all of them.

Main results: `segments_eq`, that within this bound the extractor yields the
segments of the typed tree and does not fail; and `segments_of_ok`, that without
any bound it yields nothing else.
-/
import SmallWeb.Extract
import SmallWeb.Proofs.Document.Reading

namespace SmallWeb

/-! ### Reach -/

mutual

/-- How far below its run an inline node takes the extractor. -/
def Inline.reach : Inline → Nat
  | .text _ => 0
  | .code _ => 0
  | .lineBreak => 0
  | .emphasis children => 1 + Inline.runReach children
  | .strong children => 1 + Inline.runReach children
  | .link _ children => 1 + Inline.runReach children

/-- How far below itself a run takes the extractor. -/
def Inline.runReach : List Inline → Nat
  | [] => 0
  | i :: is => max i.reach (Inline.runReach is)

end

mutual

/-- How far below itself a block takes the extractor. -/
def Block.reach : Block → Nat
  | .heading _ inline => 1 + Inline.runReach inline
  | .paragraph inline => 1 + Inline.runReach inline
  | .list _ bss _ => Block.itemsReach bss
  | .codeBlock _ _ => 0
  | .blockquote children => 1 + Block.runReach children
  | .thematicBreak => 0

/-- How far a sequence of blocks takes the extractor below its own depth. -/
def Block.runReach : List Block → Nat
  | [] => 0
  | b :: bs => max b.reach (Block.runReach bs)

/-- How far the items of a list take the extractor below the list. -/
def Block.itemsReach : List (List Block) → Nat
  | [] => 0
  | bs :: bss => max (1 + Block.runReach bs) (Block.itemsReach bss)

end

mutual

theorem Inline.height_le_reach (i : Inline) : i.height ≤ i.reach := by
  cases i with
  | text t => exact Nat.le_refl 0
  | code literal => exact Nat.le_refl 0
  | lineBreak => exact Nat.le_refl 0
  | emphasis children => exact Inline.runHeight_le_reach children
  | strong children => exact Inline.runHeight_le_reach children
  | link href children => exact Inline.runHeight_le_reach children

theorem Inline.runHeight_le_reach (is : List Inline) :
    Inline.runHeight is ≤ 1 + Inline.runReach is := by
  cases is with
  | nil => exact Nat.zero_le _
  | cons i is =>
    have hfirst := Inline.height_le_reach i
    have hrest := Inline.runHeight_le_reach is
    rw [Inline.runHeight, Inline.runReach]
    omega

end

mutual

/-- **What the extractor reaches covers the tree.** -/
theorem Block.height_le_reach (b : Block) : b.height ≤ b.reach := by
  cases b with
  | heading level inline => exact Inline.runHeight_le_reach inline
  | paragraph inline => exact Inline.runHeight_le_reach inline
  | list ordered bss start => exact Block.itemsHeight_le_reach bss
  | codeBlock literal language => exact Nat.le_refl 0
  | blockquote children => exact Block.runHeight_le_reach children
  | thematicBreak => exact Nat.le_refl 0

theorem Block.runHeight_le_reach (bs : List Block) :
    Block.runHeight bs ≤ 1 + Block.runReach bs := by
  cases bs with
  | nil => exact Nat.zero_le _
  | cons b bs =>
    have hfirst := Block.height_le_reach b
    have hrest := Block.runHeight_le_reach bs
    rw [Block.runHeight, Block.runReach]
    omega

theorem Block.itemsHeight_le_reach (bss : List (List Block)) :
    Block.itemsHeight bss ≤ Block.itemsReach bss := by
  cases bss with
  | nil => exact Nat.le_refl 0
  | cons bs bss =>
    have hfirst := Block.runHeight_le_reach bs
    have hrest := Block.itemsHeight_le_reach bss
    rw [Block.itemsHeight, Block.itemsReach]
    omega

end

/-! #### Reach and height #### -/

mutual

theorem Inline.reach_le_height (i : Inline) : i.reach ≤ i.height + 1 := by
  cases i with
  | text t => exact Nat.zero_le _
  | code literal => exact Nat.zero_le _
  | lineBreak => exact Nat.zero_le _
  | emphasis children => exact Inline.one_add_runReach_le children
  | strong children => exact Inline.one_add_runReach_le children
  | link href children => exact Inline.one_add_runReach_le children

/-- A run takes the extractor one level below its nodes. -/
theorem Inline.one_add_runReach_le (is : List Inline) :
    1 + Inline.runReach is ≤ Inline.runHeight is + 1 := by
  cases is with
  | nil => exact Nat.le_refl 1
  | cons i is =>
    have hfirst := Inline.reach_le_height i
    have hrest := Inline.one_add_runReach_le is
    rw [Inline.runReach, Inline.runHeight]
    omega

end

/-! ### The text of a typed tree -/

mutual

/-- The text of an inline node. -/
def Inline.plain (hrefs : Bool) : Inline → List Char
  | .text t => t
  | .code literal => literal
  | .lineBreak => ['\n']
  | .emphasis children => Inline.runPlain hrefs children
  | .strong children => Inline.runPlain hrefs children
  | .link href children =>
    let text := Inline.runPlain hrefs children
    if hrefs && !href.isEmpty then
      if text.isEmpty then href else text ++ [' ', '('] ++ href ++ [')']
    else text

/-- The text of a run. -/
def Inline.runPlain (hrefs : Bool) : List Inline → List Char
  | [] => []
  | i :: is => i.plain hrefs ++ Inline.runPlain hrefs is

end

mutual

/-- The segments of a block. -/
def Block.segments (hrefs : Bool) : Block → List Segment
  | .heading _ inline => [⟨Inline.runPlain hrefs inline, false⟩]
  | .paragraph inline => [⟨Inline.runPlain hrefs inline, false⟩]
  | .list _ bss _ => Block.itemsSegments hrefs bss
  | .codeBlock literal _ => [⟨Text.dropEndWhile (· == '\n') literal, true⟩]
  | .blockquote children => Block.runSegments hrefs children
  | .thematicBreak => []

/-- The segments of a sequence of blocks. -/
def Block.runSegments (hrefs : Bool) : List Block → List Segment
  | [] => []
  | b :: bs => b.segments hrefs ++ Block.runSegments hrefs bs

/-- The segments of the items of a list. -/
def Block.itemsSegments (hrefs : Bool) : List (List Block) → List Segment
  | [] => []
  | bs :: bss => Block.runSegments hrefs bs ++ Block.itemsSegments hrefs bss

end

/-! ### The extractor -/

theorem joinPieces_strings (ss : List (List Char)) :
    joinPieces (ss.map Value.string) = .ok ss.flatten := by
  induction ss with
  | nil => rfl
  | cons s ss ih =>
    rw [List.map_cons, joinPieces, ih]
    rfl

theorem Inline.runPlain_eq_flatten (hrefs : Bool) (is : List Inline) :
    Inline.runPlain hrefs is = (is.map (Inline.plain hrefs)).flatten := by
  induction is with
  | nil => rfl
  | cons i is ih => rw [Inline.runPlain, ih, List.map_cons, List.flatten_cons]

/-- The pieces of a run are put together into its text. -/
theorem Inline.joinPieces_plain (hrefs : Bool) (is : List Inline) :
    joinPieces (is.map fun i => .string (i.plain hrefs)) = .ok (Inline.runPlain hrefs is) := by
  have h := joinPieces_strings (is.map (Inline.plain hrefs))
  rwa [List.map_map, ← Inline.runPlain_eq_flatten] at h

/-- The piece of a link: a target is shown where targets are asked for and there is
one. -/
theorem linkPiece_eq (hrefs : Bool) (href text : List Char) :
    (if (hrefs && (Value.string href).truthy) = true then withTarget text (.string href)
      else .string text) =
    .string (if (hrefs && !href.isEmpty) = true then
      if text.isEmpty = true then href else text ++ [' ', '('] ++ href ++ [')'] else text) := by
  show (if (hrefs && !href.isEmpty) = true then withTarget text (.string href) else _) = _
  split
  · unfold withTarget
    split <;> rfl
  · rfl

namespace Extract

mutual

/-- The extractor over a run yields its text. -/
theorem runText_eq (hrefs : Bool) (v : Value) {is : List Inline} {depth : Nat}
    (hv : Inline.run? v = some is) (hdepth : depth + Inline.runReach is ≤ maxDepth) :
    runText hrefs depth v = .ok (Inline.runPlain hrefs is) := by
  have henter : checkDepth depth = .ok () := checkDepth_of_le (by omega)
  cases v with
  | tuple vs =>
    rw [runText, henter, ok_bind, pieces_eq hrefs vs hv hdepth, ok_bind,
      Inline.joinPieces_plain]
  | array vs =>
    rw [runText, henter, ok_bind, pieces_eq hrefs vs hv hdepth, ok_bind,
      Inline.joinPieces_plain]
  | _ => simp [Inline.run?] at hv

/-- The extractor over the nodes of a run. -/
theorem pieces_eq (hrefs : Bool) (vs : List Value) {is : List Inline} {depth : Nat}
    (hvs : Inline.all? vs = some is) (hdepth : depth + Inline.runReach is ≤ maxDepth) :
    pieces hrefs depth vs = .ok (is.map fun i => .string (i.plain hrefs)) := by
  cases vs with
  | nil =>
    obtain rfl : [] = is := Option.some.inj hvs
    rfl
  | cons v vs =>
    obtain ⟨i, is', hi, his, rfl⟩ := Inline.all?_cons_eq_some hvs
    rw [Inline.runReach] at hdepth
    have hfirst : depth + i.reach ≤ maxDepth := by omega
    have hrest : depth + Inline.runReach is' ≤ maxDepth := by omega
    rw [pieces, piece_eq hrefs v hi hfirst, ok_bind, pieces_eq hrefs vs his hrest, ok_bind]
    rfl

/-- The extractor over an inline node. -/
theorem piece_eq (hrefs : Bool) (v : Value) {i : Inline} {depth : Nat}
    (hv : Inline.ofValue? v = some i) (hdepth : depth + i.reach ≤ maxDepth) :
    piece hrefs depth v = .ok [.string (i.plain hrefs)] := by
  cases v with
  | text id t =>
    cases t with
    | string t =>
      obtain rfl : Inline.text t = i := Option.some.inj hv
      rfl
    | _ => simp [Inline.ofValue?] at hv
  | code id t =>
    cases t with
    | string t =>
      obtain rfl : Inline.code t = i := Option.some.inj hv
      rfl
    | _ => simp [Inline.ofValue?] at hv
  | lineBreak id =>
    obtain rfl : Inline.lineBreak = i := Option.some.inj hv
    rfl
  | emphasis id children =>
    obtain ⟨is, his, rfl⟩ := Option.map_eq_some_iff.mp hv
    rw [Inline.reach, ← Nat.add_assoc] at hdepth
    rw [piece, runText_eq hrefs children his hdepth]
    rfl
  | strong id children =>
    obtain ⟨is, his, rfl⟩ := Option.map_eq_some_iff.mp hv
    rw [Inline.reach, ← Nat.add_assoc] at hdepth
    rw [piece, runText_eq hrefs children his hdepth]
    rfl
  | link id href children =>
    cases href with
    | string href =>
      obtain ⟨is, his, rfl⟩ := Option.map_eq_some_iff.mp hv
      rw [Inline.reach, ← Nat.add_assoc] at hdepth
      rw [piece, runText_eq hrefs children his hdepth, ok_bind, linkPiece_eq, Inline.plain]
      rfl
    | _ => simp [Inline.ofValue?] at hv
  | _ => simp [Inline.ofValue?] at hv

end

mutual

/-- **The extractor over a block** yields its segments. -/
theorem segmentsOf_eq (hrefs : Bool) (v : Value) {b : Block} {depth : Nat}
    (hv : Block.ofValue? v = some b) (hdepth : depth + b.reach ≤ maxDepth) :
    segmentsOf hrefs depth v = .ok (b.segments hrefs) := by
  have henter : checkDepth depth = .ok () := checkDepth_of_le (by omega)
  cases v with
  | heading id level inline =>
    obtain ⟨n, is, hn, his, rfl⟩ := Block.ofValue?_heading_eq_some hv
    rw [Block.reach, ← Nat.add_assoc] at hdepth
    rw [segmentsOf, henter, ok_bind, runText_eq hrefs inline his hdepth]
    rfl
  | paragraph id inline =>
    obtain ⟨is, his, rfl⟩ := Option.map_eq_some_iff.mp hv
    rw [Block.reach, ← Nat.add_assoc] at hdepth
    rw [segmentsOf, henter, ok_bind, runText_eq hrefs inline his hdepth]
    rfl
  | list id ordered items start =>
    obtain ⟨bss, n, hbss, hn, rfl⟩ := Block.ofValue?_list_eq_some hv
    rw [segmentsOf, henter, ok_bind]
    exact itemSegments_eq hrefs items hbss hdepth
  | codeBlock id literal language =>
    cases literal with
    | string literal =>
      obtain rfl : Block.codeBlock literal language.language? = b := Option.some.inj hv
      rw [segmentsOf, henter, ok_bind]
      rfl
    | _ => simp [Block.ofValue?] at hv
  | blockquote id children =>
    obtain ⟨bs, hbs, rfl⟩ := Option.map_eq_some_iff.mp hv
    rw [Block.reach, ← Nat.add_assoc] at hdepth
    rw [segmentsOf, henter, ok_bind]
    exact segmentsIn_eq hrefs children hbs hdepth
  | thematicBreak id =>
    obtain rfl : Block.thematicBreak = b := Option.some.inj hv
    rw [segmentsOf, henter, ok_bind]
    rfl
  | _ => simp [Block.ofValue?] at hv

/-- The extractor over a sequence of blocks. -/
theorem segmentsIn_eq (hrefs : Bool) (v : Value) {bs : List Block} {depth : Nat}
    (hv : Block.run? v = some bs) (hdepth : depth + Block.runReach bs ≤ maxDepth) :
    segmentsIn hrefs depth v = .ok (Block.runSegments hrefs bs) := by
  cases v with
  | tuple vs =>
    rw [segmentsIn]
    exact segmentsAll_eq hrefs vs hv hdepth
  | array vs =>
    rw [segmentsIn]
    exact segmentsAll_eq hrefs vs hv hdepth
  | _ => simp [Block.run?] at hv

/-- The extractor over several blocks. -/
theorem segmentsAll_eq (hrefs : Bool) (vs : List Value) {bs : List Block} {depth : Nat}
    (hvs : Block.all? vs = some bs) (hdepth : depth + Block.runReach bs ≤ maxDepth) :
    segmentsAll hrefs depth vs = .ok (Block.runSegments hrefs bs) := by
  cases vs with
  | nil =>
    obtain rfl : [] = bs := Option.some.inj hvs
    rfl
  | cons v vs =>
    obtain ⟨b, bs', hb, hbs, rfl⟩ := Block.all?_cons_eq_some hvs
    rw [Block.runReach] at hdepth
    have hfirst : depth + b.reach ≤ maxDepth := by omega
    have hrest : depth + Block.runReach bs' ≤ maxDepth := by omega
    rw [segmentsAll, segmentsOf_eq hrefs v hb hfirst, ok_bind, segmentsAll_eq hrefs vs hbs hrest]
    rfl

/-- The extractor over the items of a list, which lie one deeper than the list. -/
theorem itemSegments_eq (hrefs : Bool) (v : Value) {bss : List (List Block)} {depth : Nat}
    (hv : Block.items? v = some bss) (hdepth : depth + Block.itemsReach bss ≤ maxDepth) :
    itemSegments hrefs (depth + 1) v = .ok (Block.itemsSegments hrefs bss) := by
  cases v with
  | tuple vs =>
    rw [itemSegments]
    exact itemSegmentsAll_eq hrefs vs hv hdepth
  | array vs =>
    rw [itemSegments]
    exact itemSegmentsAll_eq hrefs vs hv hdepth
  | _ => simp [Block.items?] at hv

/-- The extractor over several items. -/
theorem itemSegmentsAll_eq (hrefs : Bool) (vs : List Value) {bss : List (List Block)}
    {depth : Nat} (hvs : Block.eachItem? vs = some bss)
    (hdepth : depth + Block.itemsReach bss ≤ maxDepth) :
    itemSegmentsAll hrefs (depth + 1) vs = .ok (Block.itemsSegments hrefs bss) := by
  cases vs with
  | nil =>
    obtain rfl : [] = bss := Option.some.inj hvs
    rfl
  | cons v vs =>
    obtain ⟨bs, bss', hbs, hbss, rfl⟩ := Block.eachItem?_cons_eq_some hvs
    -- Items are no nodes: their blocks lie one deeper than the list.
    rw [Block.itemsReach] at hdepth
    have hfirst : depth + 1 + Block.runReach bs ≤ maxDepth := by omega
    have hrest : depth + Block.itemsReach bss' ≤ maxDepth := by omega
    rw [itemSegmentsAll, segmentsIn_eq hrefs v hbs hfirst, ok_bind,
      itemSegmentsAll_eq hrefs vs hbss hrest]
    rfl

end

end Extract

/-- **The segments of a document** are those of its typed tree. -/
theorem segments_eq (hrefs : Bool) {v : Value} {d : Document} (hv : Document.ofValue? v = some d)
    (hreach : 1 + Block.runReach d.blocks ≤ maxDepth) :
    segments hrefs v = .ok (Block.runSegments hrefs d.blocks) := by
  cases v with
  | document id blocks =>
    obtain ⟨bs, hbs, rfl⟩ := Option.map_eq_some_iff.mp hv
    show Extract.segmentsOf hrefs 0 (.document id blocks) = _
    rw [Extract.segmentsOf, checkDepth_of_le (Nat.zero_le maxDepth), ok_bind]
    exact Extract.segmentsIn_eq hrefs blocks hbs hreach
  | _ => simp [Document.ofValue?] at hv

/-- The extractor over the children of a node yields their text, unless they lie
too deep. -/
theorem extractInline_eq (hrefs : Bool) {v : Value} {is : List Inline}
    (hv : Inline.run? v = some is) (hheight : Inline.runHeight is < maxDepth) :
    extractInline hrefs v = .ok (Inline.runPlain hrefs is) := by
  have hreach := Inline.one_add_runReach_le is
  exact Extract.runText_eq hrefs v hv (by omega)

/-! ### What the extractor yields if it yields anything -/

namespace Extract

variable {hrefs : Bool}

mutual

theorem runText_of_ok {depth : Nat} {v : Value} {is : List Inline}
    (hv : Inline.run? v = some is) {t : List Char} (h : runText hrefs depth v = .ok t) : t = Inline.runPlain hrefs is := by
  cases v with
  | tuple vs =>
    rw [runText] at h
    obtain ⟨-, -, h⟩ := bind_eq_ok_iff.mp h
    obtain ⟨ps, hps, h⟩ := bind_eq_ok_iff.mp h
    rw [pieces_of_ok hv hps, Inline.joinPieces_plain] at h
    exact (Except.ok.inj h).symm
  | array vs =>
    rw [runText] at h
    obtain ⟨-, -, h⟩ := bind_eq_ok_iff.mp h
    obtain ⟨ps, hps, h⟩ := bind_eq_ok_iff.mp h
    rw [pieces_of_ok hv hps, Inline.joinPieces_plain] at h
    exact (Except.ok.inj h).symm
  | _ => simp [Inline.run?] at hv

theorem pieces_of_ok {depth : Nat} {vs : List Value} {is : List Inline}
    (hvs : Inline.all? vs = some is) {ps : List Value} (h : pieces hrefs depth vs = .ok ps) :
    ps = is.map fun i => .string (i.plain hrefs) := by
  cases vs with
  | nil =>
    obtain rfl : [] = is := Option.some.inj hvs
    exact (Except.ok.inj h).symm
  | cons v vs =>
    obtain ⟨i, is', hi, his, rfl⟩ := Inline.all?_cons_eq_some hvs
    rw [pieces] at h
    obtain ⟨first, hfirst, h⟩ := bind_eq_ok_iff.mp h
    obtain ⟨rest, hrest, h⟩ := bind_eq_ok_iff.mp h
    rw [piece_of_ok hi hfirst, pieces_of_ok his hrest] at h
    exact (Except.ok.inj h).symm

theorem piece_of_ok {depth : Nat} {v : Value} {i : Inline}
    (hv : Inline.ofValue? v = some i) {ps : List Value} (h : piece hrefs depth v = .ok ps) : ps = [.string (i.plain hrefs)] := by
  cases v with
  | text id t =>
    cases t with
    | string t =>
      obtain rfl : Inline.text t = i := Option.some.inj hv
      exact (Except.ok.inj h).symm
    | _ => simp [Inline.ofValue?] at hv
  | code id t =>
    cases t with
    | string t =>
      obtain rfl : Inline.code t = i := Option.some.inj hv
      exact (Except.ok.inj h).symm
    | _ => simp [Inline.ofValue?] at hv
  | lineBreak id =>
    obtain rfl : Inline.lineBreak = i := Option.some.inj hv
    exact (Except.ok.inj h).symm
  | emphasis id children =>
    obtain ⟨is, his, rfl⟩ := Option.map_eq_some_iff.mp hv
    rw [piece] at h
    obtain ⟨t, ht, h⟩ := bind_eq_ok_iff.mp h
    rw [runText_of_ok his ht] at h
    exact (Except.ok.inj h).symm
  | strong id children =>
    obtain ⟨is, his, rfl⟩ := Option.map_eq_some_iff.mp hv
    rw [piece] at h
    obtain ⟨t, ht, h⟩ := bind_eq_ok_iff.mp h
    rw [runText_of_ok his ht] at h
    exact (Except.ok.inj h).symm
  | link id href children =>
    cases href with
    | string href =>
      obtain ⟨is, his, rfl⟩ := Option.map_eq_some_iff.mp hv
      rw [piece] at h
      obtain ⟨t, ht, h⟩ := bind_eq_ok_iff.mp h
      rw [runText_of_ok his ht] at h
      rw [← Except.ok.inj h, linkPiece_eq, Inline.plain]
    | _ => simp [Inline.ofValue?] at hv
  | _ => simp [Inline.ofValue?] at hv

end

mutual

theorem segmentsOf_of_ok {depth : Nat} {v : Value} {b : Block} (hv : Block.ofValue? v = some b)
    {ss : List Segment} (h : segmentsOf hrefs depth v = .ok ss) : ss = b.segments hrefs := by
  cases v with
  | heading id level inline =>
    obtain ⟨n, is, -, his, rfl⟩ := Block.ofValue?_heading_eq_some hv
    rw [segmentsOf] at h
    obtain ⟨-, -, h⟩ := bind_eq_ok_iff.mp h
    obtain ⟨t, ht, h⟩ := bind_eq_ok_iff.mp h
    rw [runText_of_ok his ht] at h
    exact (Except.ok.inj h).symm
  | paragraph id inline =>
    obtain ⟨is, his, rfl⟩ := Option.map_eq_some_iff.mp hv
    rw [segmentsOf] at h
    obtain ⟨-, -, h⟩ := bind_eq_ok_iff.mp h
    obtain ⟨t, ht, h⟩ := bind_eq_ok_iff.mp h
    rw [runText_of_ok his ht] at h
    exact (Except.ok.inj h).symm
  | list id ordered items start =>
    obtain ⟨bss, n, hbss, -, rfl⟩ := Block.ofValue?_list_eq_some hv
    rw [segmentsOf] at h
    obtain ⟨-, -, h⟩ := bind_eq_ok_iff.mp h
    exact itemSegments_of_ok hbss h
  | codeBlock id literal language =>
    cases literal with
    | string literal =>
      obtain rfl : Block.codeBlock literal language.language? = b := Option.some.inj hv
      rw [segmentsOf] at h
      obtain ⟨-, -, h⟩ := bind_eq_ok_iff.mp h
      exact (Except.ok.inj h).symm
    | _ => simp [Block.ofValue?] at hv
  | blockquote id children =>
    obtain ⟨bs, hbs, rfl⟩ := Option.map_eq_some_iff.mp hv
    rw [segmentsOf] at h
    obtain ⟨-, -, h⟩ := bind_eq_ok_iff.mp h
    exact segmentsIn_of_ok hbs h
  | thematicBreak id =>
    obtain rfl : Block.thematicBreak = b := Option.some.inj hv
    rw [segmentsOf] at h
    obtain ⟨-, -, h⟩ := bind_eq_ok_iff.mp h
    exact (Except.ok.inj h).symm
  | _ => simp [Block.ofValue?] at hv

theorem segmentsIn_of_ok {depth : Nat} {v : Value} {bs : List Block}
    (hv : Block.run? v = some bs) {ss : List Segment} (h : segmentsIn hrefs depth v = .ok ss) :
    ss = Block.runSegments hrefs bs := by
  cases v with
  | tuple vs => exact segmentsAll_of_ok hv h
  | array vs => exact segmentsAll_of_ok hv h
  | _ => simp [Block.run?] at hv

theorem segmentsAll_of_ok {depth : Nat} {vs : List Value} {bs : List Block}
    (hvs : Block.all? vs = some bs) {ss : List Segment}
    (h : segmentsAll hrefs depth vs = .ok ss) : ss = Block.runSegments hrefs bs := by
  cases vs with
  | nil =>
    obtain rfl : [] = bs := Option.some.inj hvs
    exact (Except.ok.inj h).symm
  | cons v vs =>
    obtain ⟨b, bs', hb, hbs, rfl⟩ := Block.all?_cons_eq_some hvs
    rw [segmentsAll] at h
    obtain ⟨first, hfirst, h⟩ := bind_eq_ok_iff.mp h
    obtain ⟨rest, hrest, h⟩ := bind_eq_ok_iff.mp h
    rw [segmentsOf_of_ok hb hfirst, segmentsAll_of_ok hbs hrest] at h
    exact (Except.ok.inj h).symm

theorem itemSegments_of_ok {depth : Nat} {v : Value} {bss : List (List Block)}
    (hv : Block.items? v = some bss) {ss : List Segment}
    (h : itemSegments hrefs depth v = .ok ss) : ss = Block.itemsSegments hrefs bss := by
  cases v with
  | tuple vs => exact itemSegmentsAll_of_ok hv h
  | array vs => exact itemSegmentsAll_of_ok hv h
  | _ => simp [Block.items?] at hv

theorem itemSegmentsAll_of_ok {depth : Nat} {vs : List Value} {bss : List (List Block)}
    (hvs : Block.eachItem? vs = some bss) {ss : List Segment}
    (h : itemSegmentsAll hrefs depth vs = .ok ss) : ss = Block.itemsSegments hrefs bss := by
  cases vs with
  | nil =>
    obtain rfl : [] = bss := Option.some.inj hvs
    exact (Except.ok.inj h).symm
  | cons v vs =>
    obtain ⟨bs, bss', hbs, hbss, rfl⟩ := Block.eachItem?_cons_eq_some hvs
    rw [itemSegmentsAll] at h
    obtain ⟨first, hfirst, h⟩ := bind_eq_ok_iff.mp h
    obtain ⟨rest, hrest, h⟩ := bind_eq_ok_iff.mp h
    rw [segmentsIn_of_ok hbs hfirst, itemSegmentsAll_of_ok hbss hrest] at h
    exact (Except.ok.inj h).symm

end

end Extract

/-- **The extractor yields the segments of the typed tree or nothing.** -/
theorem segments_of_ok {hrefs : Bool} {v : Value} {d : Document}
    (hv : Document.ofValue? v = some d) {ss : List Segment} (h : segments hrefs v = .ok ss) :
    ss = Block.runSegments hrefs d.blocks := by
  cases v with
  | document id blocks =>
    obtain ⟨bs, hbs, rfl⟩ := Option.map_eq_some_iff.mp hv
    rw [segments, Extract.segmentsOf] at h
    obtain ⟨-, -, h⟩ := bind_eq_ok_iff.mp h
    exact Extract.segmentsIn_of_ok hbs h
  | _ => simp [Document.ofValue?] at hv

end SmallWeb
