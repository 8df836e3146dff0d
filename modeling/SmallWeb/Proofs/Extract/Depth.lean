/-
SmallWeb/Proofs/Extract/Depth.lean

Which proper trees the extractor reads.

The structure check counts nodes: top-level blocks have depth 1, and children lie
one deeper than their node.  The extractor counts the same way until it comes to
the inline nodes of a block, of emphasis or of a link.  There it counts the run
itself, at the depth that its nodes would have, and a run is entered whether it
has nodes or not.  So a run below a node at the limit is refused, although it can
only be an empty one, with nothing in it that would lie too deep.

Which runs these are can be read off the places of the tree (`RunsShallow`).  A
walk over several values fails at the first run that lies too deep, always with
the same fault, so all that is to be carried through the walk is whether there is
such a run (`Reads`).

Main results: `extractor_reads_shallow_runs`, and `exists_checked_not_read`, that
the check lets a tree through which the extractor refuses.
-/
import SmallWeb.Proofs.Extract
import SmallWeb.Proofs.Render.Outcome
import SmallWeb.Proofs.Structure

namespace SmallWeb

/-! ### Runs and their depth -/

/-- No run of inline nodes lies deeper than nodes may. -/
def RunsShallow (ps : List Place) : Prop := ∀ p ∈ ps, p.role = .inlines → p.depth ≤ maxDepth

instance (ps : List Place) : Decidable (RunsShallow ps) :=
  inferInstanceAs (Decidable (∀ p ∈ ps, p.role = .inlines → p.depth ≤ maxDepth))

theorem runsShallow_nil : RunsShallow [] := by simp [RunsShallow]

theorem runsShallow_cons_iff {p : Place} {ps : List Place} :
    RunsShallow (p :: ps) ↔ (p.role = .inlines → p.depth ≤ maxDepth) ∧ RunsShallow ps :=
  List.forall_mem_cons

theorem runsShallow_append_iff {ps qs : List Place} :
    RunsShallow (ps ++ qs) ↔ RunsShallow ps ∧ RunsShallow qs :=
  List.forall_mem_append

theorem runsShallow_run_iff {v : Value} {depth : Nat} {ps : List Place} :
    RunsShallow (⟨.inlines, depth, v⟩ :: ps) ↔ depth ≤ maxDepth ∧ RunsShallow ps := by
  simp [runsShallow_cons_iff]

/-- A place that is for no run can be passed over. -/
theorem runsShallow_cons_of_ne {p : Place} {ps : List Place} (h : p.role ≠ .inlines) :
    RunsShallow (p :: ps) ↔ RunsShallow ps := by
  rw [runsShallow_cons_iff]
  exact and_iff_right fun hrole => absurd hrole h

/-! ### What becomes of an extraction -/

variable {α β : Type}

/-- An extraction yields a value in `Q` where all runs are shallow, and otherwise it
ends with the fault of the depth limit. -/
structure Reads (x : Except Fault α) (shallow : Prop) (Q : α → Prop) : Prop where
  value : shallow → ∃ a, x = .ok a ∧ Q a
  fault : ¬ shallow → x = .error (.tree (.tooDeep maxDepth))

theorem Reads.ok {a : α} {Q : α → Prop} {shallow : Prop} (hshallow : shallow) (ha : Q a) :
    Reads (.ok a) shallow Q where
  value _ := ⟨a, rfl, ha⟩
  fault h := absurd hshallow h

/-- **Extractions compose**: the runs of both parts have to be shallow. -/
theorem Reads.bind {x : Except Fault α} {f : α → Except Fault β} {p q : Prop} {Q : α → Prop}
    {R : β → Prop} (hx : Reads x p Q) (hf : ∀ a, Q a → Reads (f a) q R) :
    Reads (x >>= f) (p ∧ q) R := by
  constructor
  · rintro ⟨hp, hq⟩
    obtain ⟨a, rfl, ha⟩ := hx.value hp
    exact (hf a ha).value hq
  · intro hpq
    by_cases hp : p
    · obtain ⟨a, rfl, ha⟩ := hx.value hp
      have hq : ¬ q := fun hq => hpq ⟨hp, hq⟩
      exact (hf a ha).fault hq
    · rw [hx.fault hp]
      rfl

/-- A rest that enters no run leaves the verdict to the first part. -/
theorem Reads.bind_ok {x : Except Fault α} {f : α → Except Fault β} {p : Prop} {Q : α → Prop}
    {R : β → Prop} (hx : Reads x p Q) (hf : ∀ a, Q a → ∃ b, f a = .ok b ∧ R b) :
    Reads (x >>= f) p R := by
  have hrest : ∀ a, Q a → Reads (f a) True R := by
    intro a ha
    obtain ⟨b, hb, hR⟩ := hf a ha
    rw [hb]
    exact Reads.ok trivial hR
  have h := hx.bind hrest
  rwa [and_true] at h

theorem reads_checkDepth (depth : Nat) :
    Reads (checkDepth depth) (depth ≤ maxDepth) fun _ => True := by
  constructor
  · intro h
    exact ⟨(), checkDepth_of_le h, trivial⟩
  · intro h
    exact if_pos (Nat.lt_of_not_le h)

/-! ### Running text -/

namespace Extract

variable {hrefs : Bool}

mutual

/-- The extractor over a run. -/
theorem reads_runText (v : Value) {depth : Nat}
    (hfits : ∀ p ∈ v.places .inlines depth, p.Fits maxDepth) :
    Reads (runText hrefs depth v) (RunsShallow (v.places .inlines depth)) fun _ => True := by
  obtain ⟨hself, hwithin⟩ := List.forall_mem_cons.mp hfits
  cases v with
  | tuple vs =>
    rw [runText, Value.places, runsShallow_run_iff]
    apply (reads_checkDepth depth).bind
    intro _ _
    exact (reads_pieces vs hwithin).bind_ok fun ps hps => by
      obtain ⟨t, ht⟩ := exists_joinPieces hps
      exact ⟨t, ht, trivial⟩
  | array vs =>
    rw [runText, Value.places, runsShallow_run_iff]
    apply (reads_checkDepth depth).bind
    intro _ _
    exact (reads_pieces vs hwithin).bind_ok fun ps hps => by
      obtain ⟨t, ht⟩ := exists_joinPieces hps
      exact ⟨t, ht, trivial⟩
  | _ => exact absurd hself.admitted (by simp [Role.admits, Value.isSequence])

/-- The extractor over the nodes of a run. -/
theorem reads_pieces (vs : List Value) {depth : Nat}
    (hfits : ∀ p ∈ Value.placesAll .inline depth vs, p.Fits maxDepth) :
    Reads (pieces hrefs depth vs) (RunsShallow (Value.placesAll .inline depth vs)) AreTexts := by
  cases vs with
  | nil => exact Reads.ok runsShallow_nil (by simp [AreTexts])
  | cons v vs =>
    rw [Value.placesAll_cons, List.forall_mem_append] at hfits
    rw [pieces, Value.placesAll_cons, runsShallow_append_iff]
    apply (reads_piece v hfits.1).bind
    intro ps hps
    apply (reads_pieces vs hfits.2).bind_ok
    intro qs hqs
    exact ⟨ps ++ qs, rfl, hps.append hqs⟩

/-- The extractor over an inline node. -/
theorem reads_piece (v : Value) {depth : Nat}
    (hfits : ∀ p ∈ v.places .inline depth, p.Fits maxDepth) :
    Reads (piece hrefs depth v) (RunsShallow (v.places .inline depth)) AreTexts := by
  obtain ⟨hself, hwithin⟩ := List.forall_mem_cons.mp hfits
  rw [Value.places, runsShallow_cons_of_ne (by simp)]
  cases v with
  | text id t =>
    obtain ⟨s, rfl⟩ := hself.text t rfl
    exact Reads.ok runsShallow_nil (areTexts_singleton s)
  | code id literal =>
    obtain ⟨s, rfl⟩ := hself.text literal rfl
    exact Reads.ok runsShallow_nil (areTexts_singleton s)
  | lineBreak id => exact Reads.ok runsShallow_nil (areTexts_singleton ['\n'])
  | emphasis id children =>
    rw [piece]
    apply (reads_runText children hwithin).bind_ok
    intro t _
    exact ⟨_, rfl, areTexts_singleton t⟩
  | strong id children =>
    rw [piece]
    apply (reads_runText children hwithin).bind_ok
    intro t _
    exact ⟨_, rfl, areTexts_singleton t⟩
  | link id href children =>
    obtain ⟨s, rfl⟩ := hself.text href rfl
    rw [piece]
    apply (reads_runText children hwithin).bind_ok
    intro t _
    rw [linkPiece_eq]
    exact ⟨_, rfl, areTexts_singleton _⟩
  | _ => exact absurd hself.admitted (by simp [Role.admits, Value.isInline])

end

/-! ### Blocks -/

mutual

/-- **The extractor over a block** fails exactly where one of its runs lies too
deep. -/
theorem reads_segmentsOf (v : Value) {depth : Nat}
    (hfits : ∀ p ∈ v.places .block depth, p.Fits maxDepth) :
    Reads (segmentsOf hrefs depth v) (RunsShallow (v.places .block depth)) fun _ => True := by
  obtain ⟨hself, hwithin⟩ := List.forall_mem_cons.mp hfits
  have henter : checkDepth depth = .ok () :=
    checkDepth_of_le (Int.ofNat_le.mp (hself.shallow (.inl rfl)))
  rw [Value.places, runsShallow_cons_of_ne (by simp)]
  cases v with
  | heading id level inline =>
    rw [segmentsOf, henter, ok_bind]
    exact (reads_runText inline hwithin).bind_ok fun t _ => ⟨_, rfl, trivial⟩
  | paragraph id inline =>
    rw [segmentsOf, henter, ok_bind]
    exact (reads_runText inline hwithin).bind_ok fun t _ => ⟨_, rfl, trivial⟩
  | list id ordered items start =>
    rw [segmentsOf, henter, ok_bind]
    exact reads_itemSegments items hwithin
  | codeBlock id literal language =>
    obtain ⟨s, rfl⟩ := hself.text literal rfl
    rw [segmentsOf, henter, ok_bind]
    exact Reads.ok runsShallow_nil trivial
  | blockquote id children =>
    rw [segmentsOf, henter, ok_bind]
    exact reads_segmentsIn children hwithin
  | thematicBreak id =>
    rw [segmentsOf, henter, ok_bind]
    exact Reads.ok runsShallow_nil trivial
  | _ => exact absurd hself.admitted (by simp [Role.admits, Value.isBlock])

/-- The extractor over a sequence of blocks. -/
theorem reads_segmentsIn (v : Value) {depth : Nat}
    (hfits : ∀ p ∈ v.places .blocks depth, p.Fits maxDepth) :
    Reads (segmentsIn hrefs depth v) (RunsShallow (v.places .blocks depth)) fun _ => True := by
  obtain ⟨hself, hwithin⟩ := List.forall_mem_cons.mp hfits
  rw [Value.places, runsShallow_cons_of_ne (by simp)]
  cases v with
  | tuple vs =>
    rw [segmentsIn]
    exact reads_segmentsAll vs hwithin
  | array vs =>
    rw [segmentsIn]
    exact reads_segmentsAll vs hwithin
  | _ => exact absurd hself.admitted (by simp [Role.admits, Value.isSequence])

/-- The extractor over several blocks. -/
theorem reads_segmentsAll (vs : List Value) {depth : Nat}
    (hfits : ∀ p ∈ Value.placesAll .block depth vs, p.Fits maxDepth) :
    Reads (segmentsAll hrefs depth vs) (RunsShallow (Value.placesAll .block depth vs))
      fun _ => True := by
  cases vs with
  | nil => exact Reads.ok runsShallow_nil trivial
  | cons v vs =>
    rw [Value.placesAll_cons, List.forall_mem_append] at hfits
    rw [segmentsAll, Value.placesAll_cons, runsShallow_append_iff]
    apply (reads_segmentsOf v hfits.1).bind
    intro ss _
    exact (reads_segmentsAll vs hfits.2).bind_ok fun ts _ => ⟨ss ++ ts, rfl, trivial⟩

/-- The extractor over the items of a list. -/
theorem reads_itemSegments (v : Value) {depth : Nat}
    (hfits : ∀ p ∈ v.places .items depth, p.Fits maxDepth) :
    Reads (itemSegments hrefs depth v) (RunsShallow (v.places .items depth)) fun _ => True := by
  obtain ⟨hself, hwithin⟩ := List.forall_mem_cons.mp hfits
  rw [Value.places, runsShallow_cons_of_ne (by simp)]
  cases v with
  | tuple vs =>
    rw [itemSegments]
    exact reads_itemSegmentsAll vs hwithin
  | array vs =>
    rw [itemSegments]
    exact reads_itemSegmentsAll vs hwithin
  | _ => exact absurd hself.admitted (by simp [Role.admits, Value.isSequence])

/-- The extractor over several items. -/
theorem reads_itemSegmentsAll (vs : List Value) {depth : Nat}
    (hfits : ∀ p ∈ Value.placesAll .blocks depth vs, p.Fits maxDepth) :
    Reads (itemSegmentsAll hrefs depth vs) (RunsShallow (Value.placesAll .blocks depth vs))
      fun _ => True := by
  cases vs with
  | nil => exact Reads.ok runsShallow_nil trivial
  | cons v vs =>
    rw [Value.placesAll_cons, List.forall_mem_append] at hfits
    rw [itemSegmentsAll, Value.placesAll_cons, runsShallow_append_iff]
    apply (reads_segmentsIn v hfits.1).bind
    intro ss _
    exact (reads_itemSegmentsAll vs hfits.2).bind_ok fun ts _ => ⟨ss ++ ts, rfl, trivial⟩

end

end Extract

/-! ### Documents -/

/-- **The extractor over a proper tree** fails exactly where a run lies too deep. -/
theorem reads_segments {hrefs : Bool} {doc : Value} (hproper : ProperTree maxDepth doc) :
    Reads (segments hrefs doc) (RunsShallow doc.allPlaces) fun _ => True := by
  obtain ⟨hself, hwithin⟩ := List.forall_mem_cons.mp hproper.fits
  rw [Value.allPlaces, Value.places, runsShallow_cons_of_ne (by simp)]
  cases doc with
  | document id blocks =>
    rw [segments, Extract.segmentsOf, checkDepth_of_le (Nat.zero_le maxDepth), ok_bind]
    exact Extract.reads_segmentsIn blocks hwithin
  | _ => exact absurd hself.admitted (by simp [Role.admits, Value.isDocument])

/-! ### Runs beyond the limit -/

/-- Beyond the limit there is nothing but empty runs, one deeper than nodes may lie. -/
def Place.EmptyBeyond (p : Place) : Prop :=
  p.role = .inlines → maxDepth < p.depth →
    p.depth = maxDepth + 1 ∧ (p.value = .tuple [] ∨ p.value = .array [])

theorem Place.emptyBeyond_of_ne {p : Place} (h : p.role ≠ .inlines) : p.EmptyBeyond :=
  fun hrole => absurd hrole h

/-- The run of a node that does not lie too deep: had it a node, this one would. -/
theorem Place.emptyBeyond_run {v : Value} {depth : Nat} (hdepth : depth ≤ maxDepth)
    (hfits : ∀ p ∈ v.places .inlines (depth + 1), p.Fits maxDepth) :
    Place.EmptyBeyond ⟨.inlines, depth + 1, v⟩ := by
  obtain ⟨hself, hwithin⟩ := List.forall_mem_cons.mp hfits
  intro _ hbeyond
  have hnode : ∀ (w : Value) (ws : List Value),
      ¬ ∀ p ∈ Value.placesAll .inline (depth + 1) (w :: ws), p.Fits maxDepth := by
    intro w ws h
    have hw : ((depth + 1 : Nat) : Int) ≤ maxDepth :=
      (h ⟨.inline, depth + 1, w⟩ List.mem_cons_self).shallow (.inr rfl)
    exact absurd (Int.ofNat_le.mp hw) (Nat.not_le.mpr hbeyond)
  have hdeep : depth + 1 = maxDepth + 1 := Nat.le_antisymm (Nat.succ_le_succ hdepth) hbeyond
  refine ⟨hdeep, ?_⟩
  cases v with
  | tuple vs =>
    cases vs with
    | nil => exact .inl rfl
    | cons w ws => exact absurd hwithin (hnode w ws)
  | array vs =>
    cases vs with
    | nil => exact .inr rfl
    | cons w ws => exact absurd hwithin (hnode w ws)
  | _ => exact absurd hself.admitted (by simp [Role.admits, Value.isSequence])

/-- A place for a node, and not for the document itself, is not beyond the limit. -/
theorem Place.Fits.depth_le {p : Place} (h : p.Fits maxDepth) (hrole : p.role ≠ .document)
    (hnode : p.value.isSequence = false) : p.depth ≤ maxDepth := by
  have hadmitted := h.admitted
  have hshallow := h.shallow
  cases hp : p.role with
  | block => exact Int.ofNat_le.mp (hshallow (.inl hp))
  | inline => exact Int.ofNat_le.mp (hshallow (.inr hp))
  | document => exact absurd hp hrole
  | _ =>
    rw [hp] at hadmitted
    exact absurd (hnode.symm.trans hadmitted) (by simp)

theorem Role.member_ne_inlines (role : Role) : role.member ≠ .inlines := by
  cases role <;> simp [Role.member]

theorem Role.member_ne_document {role : Role} (h : role ≠ .document) :
    role.member ≠ .document := by
  cases role <;> simp_all [Role.member]

mutual

/-- What lies within a value in its place. -/
theorem emptyBeyond_within (v : Value) {role : Role} {depth : Nat} (hrole : role ≠ .document)
    (hfits : ∀ p ∈ v.places role depth, p.Fits maxDepth) :
    ∀ p ∈ v.within role depth, p.EmptyBeyond := by
  obtain ⟨hself, hwithin⟩ := List.forall_mem_cons.mp hfits
  have hdepth : v.isSequence = false → depth ≤ maxDepth := hself.depth_le hrole
  cases v with
  | heading id level inline =>
    exact List.forall_mem_cons.mpr ⟨Place.emptyBeyond_run (hdepth rfl) hwithin,
      emptyBeyond_within inline (by simp) hwithin⟩
  | paragraph id inline =>
    exact List.forall_mem_cons.mpr ⟨Place.emptyBeyond_run (hdepth rfl) hwithin,
      emptyBeyond_within inline (by simp) hwithin⟩
  | emphasis id children =>
    exact List.forall_mem_cons.mpr ⟨Place.emptyBeyond_run (hdepth rfl) hwithin,
      emptyBeyond_within children (by simp) hwithin⟩
  | strong id children =>
    exact List.forall_mem_cons.mpr ⟨Place.emptyBeyond_run (hdepth rfl) hwithin,
      emptyBeyond_within children (by simp) hwithin⟩
  | link id href children =>
    exact List.forall_mem_cons.mpr ⟨Place.emptyBeyond_run (hdepth rfl) hwithin,
      emptyBeyond_within children (by simp) hwithin⟩
  | list id ordered items start =>
    exact List.forall_mem_cons.mpr ⟨Place.emptyBeyond_of_ne (by simp),
      emptyBeyond_within items (by simp) hwithin⟩
  | blockquote id children =>
    exact List.forall_mem_cons.mpr ⟨Place.emptyBeyond_of_ne (by simp),
      emptyBeyond_within children (by simp) hwithin⟩
  | document id blocks =>
    exact List.forall_mem_cons.mpr ⟨Place.emptyBeyond_of_ne (by simp),
      emptyBeyond_within blocks (by simp) hwithin⟩
  | tuple vs =>
    exact emptyBeyond_members vs role.member_ne_inlines (Role.member_ne_document hrole) hwithin
  | array vs =>
    exact emptyBeyond_members vs role.member_ne_inlines (Role.member_ne_document hrole) hwithin
  | _ => exact fun p hp => absurd hp List.not_mem_nil

/-- The members of a sequence and what lies within them. -/
theorem emptyBeyond_members (vs : List Value) {role : Role} {depth : Nat}
    (hrun : role ≠ .inlines) (hrole : role ≠ .document)
    (hfits : ∀ p ∈ Value.placesAll role depth vs, p.Fits maxDepth) :
    ∀ p ∈ Value.placesAll role depth vs, p.EmptyBeyond := by
  cases vs with
  | nil => exact fun p hp => absurd hp List.not_mem_nil
  | cons v vs =>
    rw [Value.placesAll_cons, List.forall_mem_append] at hfits
    have hfirst : ∀ p ∈ v.places role depth, p.EmptyBeyond :=
      List.forall_mem_cons.mpr ⟨Place.emptyBeyond_of_ne hrun,
        emptyBeyond_within v hrole hfits.1⟩
    rw [Value.placesAll_cons, List.forall_mem_append]
    exact ⟨hfirst, emptyBeyond_members vs hrun hrole hfits.2⟩

end

/-- **Beyond the limit a proper tree has only empty runs.** -/
theorem ProperTree.emptyBeyond {doc : Value} (h : ProperTree maxDepth doc) :
    ∀ p ∈ doc.allPlaces, p.EmptyBeyond := by
  obtain ⟨hself, hwithin⟩ := List.forall_mem_cons.mp h.fits
  cases doc with
  | document id blocks =>
    exact List.forall_mem_cons.mpr ⟨Place.emptyBeyond_of_ne (by simp),
      List.forall_mem_cons.mpr ⟨Place.emptyBeyond_of_ne (by simp),
        emptyBeyond_within blocks (by simp) hwithin⟩⟩
  | _ => exact absurd hself.admitted (by simp [Role.admits, Value.isDocument])

/-! ### What the check lets through -/

/-- A document that the check accepts, for Finger. -/
theorem render_finger {doc : Value} (hcheck : Structure.check maxDepth doc = .ok ())
    {o : RenderOptions} (ho : o.Valid) :
    render doc (.string Target.finger.name) (.record o.record) = Finger.render o doc := by
  rw [render_record _ ho, renderChecked_eq_renderWith hcheck]
  rfl

/-- The text of a document that the check accepts. -/
theorem plainText_of_check {doc : Value} (hcheck : Structure.check maxDepth doc = .ok ()) :
    plainText doc = extractText false ['\n'] doc := by
  unfold plainText
  rw [hcheck]
  rfl

/-- **What the extractor reads of the checked documents.**  The text of a document
that the structure check accepts can be extracted, and the document is rendered for
Finger, unless a run lies beyond the limit.  Such a run is empty, and both end with
the fault of the depth limit then. -/
theorem extractor_reads_shallow_runs {doc : Value}
    (hcheck : Structure.check maxDepth doc = .ok ()) :
    (RunsShallow doc.allPlaces →
      (∃ text, plainText doc = .ok text) ∧
      ∀ o : RenderOptions, o.Valid →
        ∃ out, render doc (.string Target.finger.name) (.record o.record) = .ok out) ∧
    (¬ RunsShallow doc.allPlaces →
      (∃ p ∈ doc.allPlaces, p.role = .inlines ∧ p.depth = maxDepth + 1 ∧
        (p.value = .tuple [] ∨ p.value = .array [])) ∧
      plainText doc = .error (.tree (.tooDeep maxDepth)) ∧
      ∀ o : RenderOptions, o.Valid →
        render doc (.string Target.finger.name) (.record o.record) =
          .error (.tree (.tooDeep maxDepth))) := by
  have hproper : ProperTree maxDepth doc := Structure.check_eq_ok_iff.mp hcheck
  have hreads : Reads (segments false doc) (RunsShallow doc.allPlaces) fun _ => True :=
    reads_segments hproper
  rw [plainText_of_check hcheck, extractText, extractBlocks]
  constructor
  · intro hshallow
    obtain ⟨ss, hss, -⟩ := hreads.value hshallow
    rw [hss]
    refine ⟨⟨_, rfl⟩, fun o ho => ?_⟩
    obtain ⟨out, hout⟩ := Finger.exists_line ho ss
    refine ⟨out, ?_⟩
    rw [render_finger hcheck ho, Finger.render, hss, ok_bind, hout]
    rfl
  · intro hdeep
    have hss := hreads.fault hdeep
    rw [hss]
    refine ⟨?_, rfl, fun o ho => ?_⟩
    · simp only [RunsShallow, not_forall] at hdeep
      obtain ⟨p, hp, hrole, hdepth⟩ := hdeep
      exact ⟨p, hp, hrole, hproper.emptyBeyond p hp hrole (Nat.not_le.mp hdepth)⟩
    · rw [render_finger hcheck ho, Finger.render, hss]
      rfl

/-- A value with `n` quotes around it, which have the identities from 1 to `n`. -/
def quotesAround (v : Value) : Nat → Value
  | 0 => v
  | n + 1 => .blockquote (n + 1) (.tuple [quotesAround v n])

/-- A paragraph whose text is as deep as nodes may lie. -/
def Value.textAtLimit : Value :=
  .document 64 (.tuple [quotesAround (.paragraph 0 (.tuple [.text 65 (.string ['a'])])) 62])

theorem extractor_reads_text_at_limit : ∃ text, plainText Value.textAtLimit = .ok text := by
  have hproper : ProperTree maxDepth Value.textAtLimit := by decide +kernel
  have hcheck := Structure.check_eq_ok_iff.mpr hproper
  exact ((extractor_reads_shallow_runs hcheck).1 (by decide +kernel)).1

/-- **A checked document that the extractor refuses**: a paragraph without text that
is as deep as nodes may lie. -/
theorem exists_checked_not_read :
    ¬ ∀ (doc : Value) (o : RenderOptions), Structure.check maxDepth doc = .ok () → o.Valid →
      (∃ out, render doc (.string Target.finger.name) (.record o.record) = .ok out) ∧
        ∃ text, plainText doc = .ok text := by
  intro hall
  let doc : Value := .document 64 (.tuple [quotesAround (.paragraph 0 (.tuple [])) 63])
  have hproper : ProperTree maxDepth doc := by decide +kernel
  have hdeep : ¬ RunsShallow doc.allPlaces := by decide +kernel
  have hcheck : Structure.check maxDepth doc = .ok () := Structure.check_eq_ok_iff.mpr hproper
  obtain ⟨-, text, htext⟩ := hall doc {} hcheck (by decide)
  rw [plainText_of_check hcheck, extractText, extractBlocks,
    (reads_segments hproper).fault hdeep] at htext
  cases htext

end SmallWeb
