/-
SmallWeb/Proofs/Document/Erasure.lean

Documents without emphasis.

`Document.erased` puts the children of emphasis in its place, at any depth.  Texts that
come to stand next to each other by this may be put together or left apart.  Both are
steps of one relation: a run is `Inline.Plainer` if it comes about by putting children
in the place of their emphasis and by putting neighbouring texts together, anywhere in
the run and any number of times.  Where no emphasis is left, the second is all that can
still happen.

A step is a single rewriting at the head of a run, so what does not change under the
steps does not change at all, and nothing has to be said about normal forms.  Here this
is done for the depth of things, which can only decrease (`Inline.Plainer.slots`).

Main results: `Document.plainer_erased` and `Document.Plainer.slots`.
-/
import Mathlib.Data.List.Forall2
import SmallWeb.Proofs.Document.Slots

namespace SmallWeb

/-! ### Erasure -/

mutual

/-- What stands in the place of an inline node when emphasis is erased. -/
def Inline.erased : Inline → List Inline
  | .text t => [.text t]
  | .code literal => [.code literal]
  | .lineBreak => [.lineBreak]
  | .emphasis children => Inline.runErased children
  | .strong children => Inline.runErased children
  | .link href children => [.link href (Inline.runErased children)]

/-- A run without emphasis. -/
def Inline.runErased : List Inline → List Inline
  | [] => []
  | i :: is => i.erased ++ Inline.runErased is

end

mutual

/-- A block without emphasis. -/
def Block.erased : Block → Block
  | .heading level inline => .heading level (Inline.runErased inline)
  | .paragraph inline => .paragraph (Inline.runErased inline)
  | .list ordered bss start => .list ordered (Block.itemsErased bss) start
  | .codeBlock literal language => .codeBlock literal language
  | .blockquote children => .blockquote (Block.runErased children)
  | .thematicBreak => .thematicBreak

/-- Blocks without emphasis. -/
def Block.runErased : List Block → List Block
  | [] => []
  | b :: bs => b.erased :: Block.runErased bs

/-- Items without emphasis. -/
def Block.itemsErased : List (List Block) → List (List Block)
  | [] => []
  | bs :: bss => Block.runErased bs :: Block.itemsErased bss

end

/-- A document without emphasis. -/
def Document.erased (d : Document) : Document := ⟨Block.runErased d.blocks⟩

/-! ### Plainer documents -/

/-- The second run comes from the first one by putting the children of emphasis in its
place and by putting neighbouring texts together. -/
inductive Inline.Plainer : List Inline → List Inline → Prop
  | refl (is : List Inline) : Inline.Plainer is is
  | trans {is js ks : List Inline} : Inline.Plainer is js → Inline.Plainer js ks →
    Inline.Plainer is ks
  | cons (i : Inline) {is js : List Inline} : Inline.Plainer is js →
    Inline.Plainer (i :: is) (i :: js)
  | link (href : List Char) {children children' : List Inline} (is : List Inline) :
    Inline.Plainer children children' →
    Inline.Plainer (.link href children :: is) (.link href children' :: is)
  | emphasis (children is : List Inline) :
    Inline.Plainer (.emphasis children :: is) (children ++ is)
  | strong (children is : List Inline) : Inline.Plainer (.strong children :: is) (children ++ is)
  | texts (s t : List Char) (is : List Inline) :
    Inline.Plainer (.text s :: .text t :: is) (.text (s ++ t) :: is)

/-- The same block, with plainer runs. -/
inductive Block.Plainer : Block → Block → Prop
  | heading {level : Int} {is js : List Inline} : Inline.Plainer is js →
    Block.Plainer (.heading level is) (.heading level js)
  | paragraph {is js : List Inline} : Inline.Plainer is js →
    Block.Plainer (.paragraph is) (.paragraph js)
  | list {ordered : Bool} {bss bss' : List (List Block)} {start : Int} :
    List.Forall₂ (List.Forall₂ Block.Plainer) bss bss' →
    Block.Plainer (.list ordered bss start) (.list ordered bss' start)
  | codeBlock {literal : List Char} {language : Option (List Char)} :
    Block.Plainer (.codeBlock literal language) (.codeBlock literal language)
  | blockquote {bs bs' : List Block} : List.Forall₂ Block.Plainer bs bs' →
    Block.Plainer (.blockquote bs) (.blockquote bs')
  | thematicBreak : Block.Plainer .thematicBreak .thematicBreak

/-- The same document, with plainer runs. -/
def Document.Plainer (d d' : Document) : Prop := List.Forall₂ Block.Plainer d.blocks d'.blocks

namespace Inline.Plainer

theorem append_left (is : List Inline) {js ks : List Inline} (h : Plainer js ks) :
    Plainer (is ++ js) (is ++ ks) := by
  induction is with
  | nil => exact h
  | cons i is ih => exact .cons i ih

theorem append_right {is js : List Inline} (h : Plainer is js) (ks : List Inline) :
    Plainer (is ++ ks) (js ++ ks) := by
  induction h with
  | refl is => exact .refl (is ++ ks)
  | trans _ _ ihij ihjk => exact ihij.trans ihjk
  | cons i _ ih => exact .cons i ih
  | link href is hchildren _ => exact .link href (is ++ ks) hchildren
  | emphasis children is =>
    rw [List.append_assoc]
    exact .emphasis children (is ++ ks)
  | strong children is =>
    rw [List.append_assoc]
    exact .strong children (is ++ ks)
  | texts s t is => exact .texts s t (is ++ ks)

theorem append {is is' js js' : List Inline} (his : Plainer is is') (hjs : Plainer js js') :
    Plainer (is ++ js) (is' ++ js') :=
  (his.append_right js).trans (hjs.append_left is')

end Inline.Plainer

mutual

theorem Block.Plainer.trans {b c e : Block} (h : b.Plainer c) (h' : c.Plainer e) :
    b.Plainer e := by
  cases b with
  | heading level inline =>
    cases h with
    | heading hrun =>
      cases h' with
      | heading hrun' => exact .heading (Inline.Plainer.trans hrun hrun')
  | paragraph inline =>
    cases h with
    | paragraph hrun =>
      cases h' with
      | paragraph hrun' => exact .paragraph (Inline.Plainer.trans hrun hrun')
  | list ordered bss start =>
    cases h with
    | list hbss =>
      cases h' with
      | list hbss' => exact .list (Block.plainerItems_trans hbss hbss')
  | codeBlock literal language =>
    cases h
    exact h'
  | blockquote children =>
    cases h with
    | blockquote hbs =>
      cases h' with
      | blockquote hbs' => exact .blockquote (Block.plainerRun_trans hbs hbs')
  | thematicBreak =>
    cases h
    exact h'

theorem Block.plainerRun_trans {bs cs es : List Block} (h : List.Forall₂ Block.Plainer bs cs)
    (h' : List.Forall₂ Block.Plainer cs es) : List.Forall₂ Block.Plainer bs es := by
  cases bs with
  | nil =>
    cases h
    exact h'
  | cons b bs =>
    obtain ⟨c, cs, hb, hbs, rfl⟩ := List.forall₂_cons_left_iff.mp h
    obtain ⟨e, es, hc, hcs, rfl⟩ := List.forall₂_cons_left_iff.mp h'
    exact .cons (hb.trans hc) (Block.plainerRun_trans hbs hcs)

theorem Block.plainerItems_trans {bss css ess : List (List Block)}
    (h : List.Forall₂ (List.Forall₂ Block.Plainer) bss css)
    (h' : List.Forall₂ (List.Forall₂ Block.Plainer) css ess) :
    List.Forall₂ (List.Forall₂ Block.Plainer) bss ess := by
  cases bss with
  | nil =>
    cases h
    exact h'
  | cons bs bss =>
    obtain ⟨cs, css, hbs, hbss, rfl⟩ := List.forall₂_cons_left_iff.mp h
    obtain ⟨es, ess, hcs, hcss, rfl⟩ := List.forall₂_cons_left_iff.mp h'
    exact .cons (Block.plainerRun_trans hbs hcs) (Block.plainerItems_trans hbss hcss)

end

theorem Document.Plainer.trans {d d' d'' : Document} (h : d.Plainer d') (h' : d'.Plainer d'') :
    d.Plainer d'' := Block.plainerRun_trans h h'

/-! #### Erasure makes plainer #### -/

mutual

theorem Inline.plainer_erased (i : Inline) : Inline.Plainer [i] i.erased := by
  cases i with
  | text t => exact .refl _
  | code literal => exact .refl _
  | lineBreak => exact .refl _
  | emphasis children =>
    have hspliced := Inline.Plainer.emphasis children []
    rw [List.append_nil] at hspliced
    exact hspliced.trans (Inline.plainer_runErased children)
  | strong children =>
    have hspliced := Inline.Plainer.strong children []
    rw [List.append_nil] at hspliced
    exact hspliced.trans (Inline.plainer_runErased children)
  | link href children => exact .link href [] (Inline.plainer_runErased children)

theorem Inline.plainer_runErased (is : List Inline) : Inline.Plainer is (Inline.runErased is) := by
  cases is with
  | nil => exact .refl []
  | cons i is => exact (Inline.plainer_erased i).append (Inline.plainer_runErased is)

end

mutual

theorem Block.plainer_erased (b : Block) : b.Plainer b.erased := by
  cases b with
  | heading level inline => exact .heading (Inline.plainer_runErased inline)
  | paragraph inline => exact .paragraph (Inline.plainer_runErased inline)
  | list ordered bss start => exact .list (Block.plainer_itemsErased bss)
  | codeBlock literal language => exact .codeBlock
  | blockquote children => exact .blockquote (Block.plainer_runErased children)
  | thematicBreak => exact .thematicBreak

theorem Block.plainer_runErased (bs : List Block) :
    List.Forall₂ Block.Plainer bs (Block.runErased bs) := by
  cases bs with
  | nil => exact .nil
  | cons b bs => exact .cons (Block.plainer_erased b) (Block.plainer_runErased bs)

theorem Block.plainer_itemsErased (bss : List (List Block)) :
    List.Forall₂ (List.Forall₂ Block.Plainer) bss (Block.itemsErased bss) := by
  cases bss with
  | nil => exact .nil
  | cons bs bss => exact .cons (Block.plainer_runErased bs) (Block.plainer_itemsErased bss)

end

/-- **A document without emphasis is plainer.** -/
theorem Document.plainer_erased (d : Document) : d.Plainer d.erased :=
  Block.plainer_runErased d.blocks

/-! ### Depth -/

/-- Each slot is one of the others, or lies less deep than one of them. -/
def Shallower (slots slots' : List Slot) : Prop :=
  ∀ s ∈ slots, ∃ s' ∈ slots', s.1 = s'.1 ∧ s.2 ≤ s'.2

namespace Shallower

variable {ss ss' ts ts' : List Slot}

theorem of_subset (h : ss ⊆ ts) : Shallower ss ts := fun s hs => ⟨s, h hs, rfl, Nat.le_refl s.2⟩

theorem refl (ss : List Slot) : Shallower ss ss := of_subset (List.Subset.refl ss)

theorem trans (h : Shallower ss ts) (h' : Shallower ts ts') : Shallower ss ts' := by
  intro s hs
  obtain ⟨t, ht, hrole, hdepth⟩ := h s hs
  obtain ⟨t', ht', hrole', hdepth'⟩ := h' t ht
  exact ⟨t', ht', hrole.trans hrole', hdepth.trans hdepth'⟩

theorem append (h : Shallower ss ts) (h' : Shallower ss' ts') :
    Shallower (ss ++ ss') (ts ++ ts') := by
  intro s hs
  rcases List.mem_append.mp hs with hs | hs
  · obtain ⟨t, ht, hst⟩ := h s hs
    exact ⟨t, List.mem_append_left ts' ht, hst⟩
  · obtain ⟨t, ht, hst⟩ := h' s hs
    exact ⟨t, List.mem_append_right ts ht, hst⟩

theorem cons (s : Slot) (h : Shallower ss ts) : Shallower (s :: ss) (s :: ts) :=
  append (refl [s]) h

/-- What holds of all depths up to those of the deeper slots holds of the others. -/
theorem forall_le (h : Shallower ss ts) {P : Role → Prop} {limit : Nat}
    (hts : ∀ t ∈ ts, P t.1 → t.2 ≤ limit) : ∀ s ∈ ss, P s.1 → s.2 ≤ limit := by
  intro s hs hrole
  obtain ⟨t, ht, heq, hdepth⟩ := h s hs
  exact hdepth.trans (hts t ht (heq ▸ hrole))

end Shallower

mutual

theorem Inline.slots_shallower (i : Inline) (depth : Nat) :
    Shallower (i.slots depth) (i.slots (depth + 1)) := by
  have hnode : Shallower [(Role.inline, depth)] [(Role.inline, depth + 1)] := by
    simp [Shallower]
  have hrun : Shallower [(Role.inlines, depth + 1)] [(Role.inlines, depth + 1 + 1)] := by
    simp [Shallower]
  cases i with
  | text t => exact hnode
  | code literal => exact hnode
  | lineBreak => exact hnode
  | emphasis children => exact hnode.append (hrun.append (Inline.runSlots_shallower children _))
  | strong children => exact hnode.append (hrun.append (Inline.runSlots_shallower children _))
  | link href children => exact hnode.append (hrun.append (Inline.runSlots_shallower children _))

/-- A run at one depth less. -/
theorem Inline.runSlots_shallower (is : List Inline) (depth : Nat) :
    Shallower (Inline.runSlots depth is) (Inline.runSlots (depth + 1) is) := by
  cases is with
  | nil => exact .refl []
  | cons i is => exact (Inline.slots_shallower i depth).append (Inline.runSlots_shallower is depth)

end

theorem Inline.runSlots_append (depth : Nat) (is js : List Inline) :
    Inline.runSlots depth (is ++ js) = Inline.runSlots depth is ++ Inline.runSlots depth js := by
  induction is with
  | nil => rfl
  | cons i is ih =>
    rw [List.cons_append, Inline.runSlots, ih, Inline.runSlots, List.append_assoc]

/-- The slots of a run below a node. -/
def runBelow (depth : Nat) (children : List Inline) : List Slot :=
  (.inline, depth) :: (.inlines, depth + 1) :: Inline.runSlots (depth + 1) children

/-- Children that take the place of their node lie one less deep than before. -/
theorem Inline.runSlots_spliced (depth : Nat) (children rest : List Inline) :
    Shallower (Inline.runSlots depth (children ++ rest))
      (runBelow depth children ++ Inline.runSlots depth rest) := by
  have hchildren : Shallower (Inline.runSlots depth children) (runBelow depth children) :=
    (Inline.runSlots_shallower children depth).trans
      (.of_subset fun s hs => List.mem_cons_of_mem _ (List.mem_cons_of_mem _ hs))
  rw [Inline.runSlots_append]
  exact hchildren.append (.refl _)

/-- **Nothing comes to lie deeper** in a plainer run. -/
theorem Inline.Plainer.slots {is js : List Inline} (h : Inline.Plainer is js) (depth : Nat) :
    Shallower (Inline.runSlots depth js) (Inline.runSlots depth is) := by
  induction h generalizing depth with
  | refl is => exact .refl _
  | trans _ _ ihij ihjk => exact (ihjk depth).trans (ihij depth)
  | cons i _ ih => exact (Shallower.refl (i.slots depth)).append (ih depth)
  | link href is _ ih => exact (((ih (depth + 1)).cons _).cons _).append (.refl _)
  | emphasis children is => exact Inline.runSlots_spliced depth children is
  | strong children is => exact Inline.runSlots_spliced depth children is
  | texts s t is => exact .of_subset (List.subset_cons_self _ _)

mutual

theorem Block.Plainer.slots {b b' : Block} (h : b.Plainer b') (depth : Nat) :
    Shallower (b'.slots depth) (b.slots depth) := by
  cases b with
  | heading level inline =>
    cases h with
    | heading hrun => exact ((hrun.slots (depth + 1)).cons _).cons _
  | paragraph inline =>
    cases h with
    | paragraph hrun => exact ((hrun.slots (depth + 1)).cons _).cons _
  | list ordered bss start =>
    cases h with
    | list hbss => exact ((Block.itemsSlots_of_plainer hbss (depth + 1)).cons _).cons _
  | codeBlock literal language =>
    cases h
    exact .refl _
  | blockquote children =>
    cases h with
    | blockquote hbs => exact ((Block.runSlots_of_plainer hbs (depth + 1)).cons _).cons _
  | thematicBreak =>
    cases h
    exact .refl _

theorem Block.runSlots_of_plainer {bs bs' : List Block} (h : List.Forall₂ Block.Plainer bs bs')
    (depth : Nat) : Shallower (Block.runSlots depth bs') (Block.runSlots depth bs) := by
  cases bs with
  | nil =>
    cases h
    exact .refl []
  | cons b bs =>
    obtain ⟨b', cs, hb, hbs, rfl⟩ := List.forall₂_cons_left_iff.mp h
    exact (hb.slots depth).append (Block.runSlots_of_plainer hbs depth)

theorem Block.itemsSlots_of_plainer {bss bss' : List (List Block)}
    (h : List.Forall₂ (List.Forall₂ Block.Plainer) bss bss') (depth : Nat) :
    Shallower (Block.itemsSlots depth bss') (Block.itemsSlots depth bss) := by
  cases bss with
  | nil =>
    cases h
    exact .refl []
  | cons bs bss =>
    obtain ⟨bs', css, hbs, hbss, rfl⟩ := List.forall₂_cons_left_iff.mp h
    exact ((Block.runSlots_of_plainer hbs depth).cons _).append
      (Block.itemsSlots_of_plainer hbss depth)

end

/-- **Nothing comes to lie deeper** in a plainer document. -/
theorem Document.Plainer.slots {d d' : Document} (h : d.Plainer d') :
    Shallower d'.slots d.slots := ((Block.runSlots_of_plainer h 1).cons _).cons _

/-- **The check accepts a plainer document** if its nodes are all different. -/
theorem check_of_plainer {limit : Nat} {doc doc' : Value} {d d' : Document}
    (hcheck : Structure.check limit doc = .ok ()) (hd : Document.ofValue? doc = some d)
    (hd' : Document.ofValue? doc' = some d') (h : d.Plainer d')
    (honce : (nodesAt doc'.allPlaces).Nodup) : Structure.check limit doc' = .ok () := by
  have hproper : ProperTree limit doc := Structure.check_eq_ok_iff.mp hcheck
  have hslots : ∀ s ∈ d.slots, s.1 = .block ∨ s.1 = .inline → s.2 ≤ limit :=
    (Document.forall_mem_slots_iff hd).mpr fun p hp hrole =>
      Int.ofNat_le.mp ((hproper.fits p hp).shallow hrole)
  have hslots' := h.slots.forall_le (P := fun role => role = .block ∨ role = .inline) hslots
  exact Structure.check_eq_ok_iff.mpr (properTree_of_slots hd'
    (fun s hs hrole => Int.ofNat_le.mpr (hslots' s hs hrole)) honce)

end SmallWeb
