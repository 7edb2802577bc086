import GenericIR.Proofs.Acceptance
import GenericIR.Proofs.PageText

/-! The text of an accepted module determines its outline. Lines of operations, headers of blocks
and lines that close begin in different ways, so that a row ends where the next block begins and
a region where its operation is closed. That an additional block always has a header, and that
flags stand at the ends of blocks only, is what acceptance adds. -/
namespace GenericIR

/-- Everything inside is spelt with safe names, and arranged by the rules. -/
def Operation.Legible (op : Operation) : Prop :=
  ∀ o ∈ op.walk, o.Safe ∧ ∀ r ∈ o.regions, Region.WellFormed r

structure Block.Legible (b : Block) : Prop where
  args : ∀ v ∈ b.args, v.Safe
  operations : ∀ op ∈ b.operations, op.Legible
  terminator_marked : b.terminator.isTerminator = true
  body_unmarked : ∀ op ∈ b.body, op.isTerminator = false

structure Region.Legible (r : Region) : Prop where
  entry : Block.Legible r.entry
  labels : ∀ p ∈ r.blocks, SafeName p.1
  labels_ne : ∀ p ∈ r.blocks, p.1 ≠ RegionOf.entryLabel
  blocks : ∀ p ∈ r.blocks, Block.Legible p.2

namespace Operation.Legible

variable {op : Operation}

theorem safe (h : op.Legible) : op.Safe :=
  (h op op.mem_walk_self).1

theorem of_mem_children (h : op.Legible) {o : Operation} (ho : o ∈ op.children) : o.Legible :=
  fun o' ho' => h o' (mem_walk_of_mem_children ho ho')

theorem regions (h : op.Legible) : ∀ r ∈ op.regions, Region.Legible r := by
  intro r hr
  have hwf : Region.WellFormed r := (h op op.mem_walk_self).2 r hr
  have hblock (p : String × Block) (hp : p ∈ r.labelled) : Block.Legible p.2 := by
    have hwf' := hwf.of_mem_labelled hp
    refine ⟨h.safe.args r hr p hp, fun o ho => ?_, hwf'.terminator_marked, hwf'.body_unmarked⟩
    exact h.of_mem_children (mem_children hr hp ho)
  have hmem (p : String × Block) (hp : p ∈ r.blocks) : p ∈ r.labelled := List.mem_cons_of_mem _ hp
  constructor
  · exact hblock (RegionOf.entryLabel, r.entry) List.mem_cons_self
  · intro p hp
    exact h.safe.labels r hr p.1 (List.mem_map_of_mem (hmem p hp))
  · intro p hp hlabel
    exact hwf.entryLabel_reserved (hlabel ▸ List.mem_map_of_mem hp)
  · intro p hp
    exact hblock p (hmem p hp)

end Operation.Legible

theorem safeName_entryLabel : SafeName RegionOf.entryLabel := by decide

theorem Region.Legible.labelled {r : Region} (h : Region.Legible r) :
    ∀ p ∈ r.labelled, SafeName p.1 ∧ Block.Legible p.2 := by
  refine List.forall_mem_cons.2 ⟨⟨safeName_entryLabel, h.entry⟩, ?_⟩
  intro p hp
  exact ⟨h.labels p hp, h.blocks p hp⟩

theorem Block.Legible.plain_scope {b : Block} (h : b.Legible) (i : Nat) :
    (b.entryScope.bind (earlierResults b.body i)).Plain := by
  have hentry : b.entryScope.Plain := Scope.plain_empty.bind h.args
  apply hentry.bind_earlierResults
  intro op hop
  exact (h.operations op (List.mem_append_left _ hop)).safe

/-- Lines with which operations begin. -/
def OpensOperation (t : Text) : Prop :=
  Begins (fun c => SafeChar c ∨ c = '"') t

/-- Lines with which blocks begin. -/
def OpensBlock (t : Text) : Prop :=
  Begins (· = '^') t

theorem OpensBlock.not_opensOperation {t : Text} (h : OpensBlock t) : ¬ OpensOperation t :=
  h.not_begins fun c hc => by rw [hc]; decide

theorem opensBlock_headerText (label : String) (args : List Value) :
    OpensBlock (headerText label args) := by
  simp [OpensBlock, headerText]

theorem Operation.Safe.begins_texts {op : Operation} (h : op.Safe) (scope : Scope) :
    Begins OpensOperation (op.page {} scope).texts := by
  cases hregions : op.regions with
  | nil =>
    rw [texts_page_of_nil hregions]
    exact begins_cons.2 (h.begins_opening.append _)
  | cons r rs =>
    rw [texts_page_of_cons hregions]
    exact begins_cons.2 (h.begins_opening.append _)

/-- The lines of the operation show its outline, but for the flag at its root. -/
def Operation.Shown (a : Operation) : Prop :=
  ∀ ⦃b : Operation⦄ ⦃s t : Scope⦄, b.Legible → s.Plain → t.Plain →
    ReadApart (fun _ => False) (a.page {} s).texts (b.page {} t).texts
      (a.isTerminator = b.isTerminator → a.outline = b.outline)

theorem forall₂_zipIdx_iff {α : Type} {R : α → α → Prop} {as bs : List α} :
    List.Forall₂ (fun p q => R p.1 q.1) as.zipIdx bs.zipIdx ↔ List.Forall₂ R as bs := by
  conv_rhs => rw [← List.zipIdx_map_fst 0 as, ← List.zipIdx_map_fst 0 bs,
    List.forall₂_map_left_iff, List.forall₂_map_right_iff]

/-- Rows of operations are read apart operation by operation. -/
theorem row_readApart {as bs : List Operation} {s t : Nat → Scope} (ha : ∀ a ∈ as, a.Legible)
    (hb : ∀ b ∈ bs, b.Legible) (hs : ∀ i, (s i).Plain) (ht : ∀ i, (t i).Plain)
    (hshown : ∀ a ∈ as, a.Shown) :
    ReadApart OpensOperation (as.zipIdx.flatMap fun (op, i) => (op.page {} (s i)).texts)
      (bs.zipIdx.flatMap fun (op, i) => (op.page {} (t i)).texts)
      (List.Forall₂ (fun a b => a.isTerminator = b.isTerminator → a.outline = b.outline)
        as bs) := by
  have hfirst {ops : List Operation} {scope : Nat → Scope} (h : ∀ op ∈ ops, op.Legible) :
      ∀ p ∈ ops.zipIdx, Begins (fun t => OpensOperation t ∧ ¬ False)
        (p.1.page {} (scope p.2)).texts := by
    intro p hp
    have hop : p.1.Legible := h p.1 (List.fst_mem_of_mem_zipIdx hp)
    exact (hop.safe.begins_texts _).imp fun _ h => ⟨h, not_false⟩
  rw [← forall₂_zipIdx_iff]
  apply ReadApart.flatMap (fun _ => False.elim) (hfirst ha) (hfirst hb)
  intro p hp q hq
  have hp := List.fst_mem_of_mem_zipIdx hp
  have hq := List.fst_mem_of_mem_zipIdx hq
  exact hshown p.1 hp (hb q.1 hq) (hs p.2) (ht q.2)

theorem forall₂_concat_iff {α : Type} {R : α → α → Prop} {as bs : List α} {a b : α} :
    List.Forall₂ R (as ++ [a]) (bs ++ [b]) ↔ List.Forall₂ R as bs ∧ R a b := by
  rw [← List.forall₂_reverse_iff, List.reverse_concat, List.reverse_concat, List.forall₂_cons,
    List.forall₂_reverse_iff, and_comm]

theorem map_outline_eq {as bs : List Operation}
    (h : List.Forall₂ (fun a b => a.isTerminator = b.isTerminator → a.outline = b.outline) as bs)
    (ha : ∀ a ∈ as, a.isTerminator = false) (hb : ∀ b ∈ bs, b.isTerminator = false) :
    as.map Operation.outline = bs.map Operation.outline := by
  induction h with
  | nil => rfl
  | cons hab _ ih =>
    rw [List.forall_mem_cons] at ha hb
    rw [List.map_cons, List.map_cons, hab (ha.1.trans hb.1.symm), ih ha.2 hb.2]

namespace Block.Legible

variable {b b' : Block}

/-- In a block the flags are known, so that its lines show the outlines in full. -/
theorem readApart_rowTexts (h : b.Legible) (h' : b'.Legible)
    (hshown : ∀ op ∈ b.operations, op.Shown) :
    ReadApart OpensOperation b.rowTexts b'.rowTexts
      (b.body.map Operation.outline = b'.body.map Operation.outline ∧
        b.terminator.outline = b'.terminator.outline) := by
  refine (row_readApart h.operations h'.operations h.plain_scope h'.plain_scope hshown).imp ?_
  intro hrow
  obtain ⟨hbody, hlast⟩ := forall₂_concat_iff.1 hrow
  exact ⟨map_outline_eq hbody h.body_unmarked h'.body_unmarked,
    hlast (h.terminator_marked.trans h'.terminator_marked.symm)⟩

theorem begins_rowTexts (h : b.Legible) : Begins OpensOperation b.rowTexts := by
  obtain ⟨op, ops, hops⟩ : ∃ op ops, b.operations = op :: ops :=
    List.exists_cons_of_ne_nil (by simp [BlockOf.operations])
  have hop : op.Legible := h.operations op (hops ▸ List.mem_cons_self)
  rw [rowTexts, hops, List.zipIdx_cons, List.flatMap_cons]
  exact (hop.safe.begins_texts _).append _

/-- An entry block has a header if it has arguments. -/
theorem readApart_entryHeader (h : b.Legible) (h' : b'.Legible) :
    ReadApart OpensBlock (headerTexts RegionOf.entryLabel b.args)
      (headerTexts RegionOf.entryLabel b'.args)
      (b.args.map Value.name = b'.args.map Value.name ∧
        b.args.map (fun v => v.type.print) = b'.args.map fun v => v.type.print) := by
  have hheader (args : List Value) : headerTexts RegionOf.entryLabel args =
      if args.isEmpty then [] else [headerText RegionOf.entryLabel args] := by
    simp [headerTexts]
  have hopens (args : List Value) : Begins OpensBlock [headerText RegionOf.entryLabel args] :=
    begins_cons.2 (opensBlock_headerText _ _)
  have hargs := readApart_headerText (k := fun _ => False) safeName_entryLabel safeName_entryLabel
    h.args h'.args
  rw [hheader, hheader]
  apply ReadApart.unlessEmpty (fun _ => hopens _) (fun _ => hopens _)
  · intro hnil hnil'
    rw [hnil, hnil']
    exact ⟨rfl, rfl⟩
  · intro _ _
    exact (ReadApart.cons (fun htext => (hargs.of_eq htext).2) fun _ => .refl _ []).imp And.left

theorem readApart_entry (h : b.Legible) (h' : b'.Legible) (hshown : ∀ op ∈ b.operations, op.Shown) :
    ReadApart OpensOperation (headerTexts RegionOf.entryLabel b.args ++ b.rowTexts)
      (headerTexts RegionOf.entryLabel b'.args ++ b'.rowTexts)
      ((b.map Operation.outline).outline RegionOf.entryLabel =
        (b'.map Operation.outline).outline RegionOf.entryLabel) := by
  have hnext {b : Block} (h : b.Legible) (r : List Text) : ¬ Begins OpensBlock (b.rowTexts ++ r) :=
    (h.begins_rowTexts.append r).not_begins fun t ht ht' => ht'.not_opensOperation ht
  have hrows := h.readApart_rowTexts h' hshown
  refine ((h.readApart_entryHeader h').append (fun r _ => hnext h r) (fun r _ => hnext h' r)
    fun _ => hrows).imp ?_
  rintro ⟨⟨hnames, htypes⟩, hbody, hlast⟩
  simp only [BlockOf.outline, BlockOf.map, hnames, htypes, hbody, hlast]

/-- Any other block has a header, which names it. -/
theorem readApart_labelled {label label' : String} (hl : SafeName label) (hl' : SafeName label')
    (hne : label ≠ RegionOf.entryLabel) (hne' : label' ≠ RegionOf.entryLabel)
    (h : b.Legible) (h' : b'.Legible) (hshown : ∀ op ∈ b.operations, op.Shown) :
    ReadApart OpensOperation (headerTexts label b.args ++ b.rowTexts)
      (headerTexts label' b'.args ++ b'.rowTexts)
      ((b.map Operation.outline).outline label = (b'.map Operation.outline).outline label') := by
  have hheader : headerText label b.args = headerText label' b'.args →
      label = label' ∧ b.args.map Value.name = b'.args.map Value.name ∧
        b.args.map (fun v => v.type.print) = b'.args.map fun v => v.type.print :=
    (readApart_headerText (k := fun _ => False) hl hl' h.args h'.args).of_eq
  rw [headerTexts, headerTexts, if_neg fun h => hne h.1, if_neg fun h => hne' h.1]
  refine (ReadApart.cons hheader fun _ => h.readApart_rowTexts h' hshown).imp ?_
  rintro ⟨⟨hlabel, hnames, htypes⟩, hbody, hlast⟩
  simp only [BlockOf.outline, BlockOf.map, hlabel, hnames, htypes, hbody, hlast]

end Block.Legible

/-- The lines of a region end where no operation and no block begins. -/
theorem Region.Legible.readApart_page {r r' : Region} (h : Region.Legible r)
    (h' : Region.Legible r') (hshown : ∀ op ∈ r.operations, op.Shown) :
    ReadApart (fun t => OpensOperation t ∨ OpensBlock t) (Region.page {} r).texts
      (Region.page {} r').texts
      ((r.map Operation.outline).outline = (r'.map Operation.outline).outline) := by
  have hblock {r : Region} (h : Region.Legible r) : ∀ p ∈ r.blocks,
      Begins (fun t => (OpensOperation t ∨ OpensBlock t) ∧ ¬ OpensOperation t)
        (headerTexts p.1 p.2.args ++ Block.rowTexts p.2) := by
    intro p hp
    have hopens := opensBlock_headerText p.1 p.2.args
    rw [headerTexts, if_neg fun hlabel => h.labels_ne p hp hlabel.1]
    exact begins_cons.2 ⟨.inr hopens, hopens.not_opensOperation⟩
  have hshown' (p : String × Block) (hp : p ∈ r.labelled) : ∀ op ∈ p.2.operations, op.Shown :=
    fun op hop => hshown op (List.mem_flatMap.2 ⟨p, hp, hop⟩)
  have hentry := h.entry.readApart_entry h'.entry (hshown' _ List.mem_cons_self)
  have hblocks := ReadApart.flatMap (fun _ => .inl) (hblock h) (hblock h') fun p hp p' hp' =>
    (h.blocks p hp).readApart_labelled (h.labels p hp) (h'.labels p' hp') (h.labels_ne p hp)
      (h'.labels_ne p' hp') (h'.blocks p' hp') (hshown' p (List.mem_cons_of_mem _ hp))
  rw [texts_page, texts_page, outline_eq, outline_eq]
  refine (hentry.append (fun _ => not_begins_flatMap (fun _ => .inl) (hblock h))
    (fun _ => not_begins_flatMap (fun _ => .inl) (hblock h')) fun _ => hblocks).imp ?_
  rintro ⟨hentry, hblocks⟩
  rw [hentry, map_eq_map_of_forall₂ hblocks]

/-- The lines between those that open and close an operation. -/
theorem regions_readApart {r r' : Region} {rs rs' : List Region}
    (h : ∀ u ∈ r :: rs, Region.Legible u) (h' : ∀ u ∈ r' :: rs', Region.Legible u)
    (hshown : ∀ u ∈ r :: rs, ∀ op ∈ u.operations, op.Shown) :
    ReadApart (fun t => (OpensOperation t ∨ OpensBlock t) ∨ t = regionGap)
      ((Region.page {} r).texts ++
        rs.flatMap fun r => regionGap :: (Region.page {} r).texts)
      ((Region.page {} r').texts ++
        rs'.flatMap fun r => regionGap :: (Region.page {} r).texts)
      ((r :: rs).map (fun r => (r.map Operation.outline).outline) =
        (r' :: rs').map fun r => (r.map Operation.outline).outline) := by
  have hseparator : ¬ (OpensOperation regionGap ∨ OpensBlock regionGap) := by
    simp [regionGap, OpensOperation, OpensBlock, SafeChar]
  have hbegins (rs : List Region) : ∀ r ∈ rs, Begins
      (fun t => ((OpensOperation t ∨ OpensBlock t) ∨ t = regionGap) ∧
        ¬ (OpensOperation t ∨ OpensBlock t))
      (regionGap :: (Region.page {} r).texts) :=
    fun _ _ => begins_cons.2 ⟨.inr rfl, hseparator⟩
  rw [List.forall_mem_cons] at h h' hshown
  have hrest := ReadApart.flatMap (fun _ => .inl) (hbegins rs) (hbegins rs') fun r hr r' hr' =>
    ((h.2 r hr).readApart_page (h'.2 r' hr') (hshown.2 r hr)).prepend [regionGap]
  refine ((h.1.readApart_page h'.1 hshown.1).append
    (fun _ => not_begins_flatMap (fun _ => .inl) (hbegins rs))
    (fun _ => not_begins_flatMap (fun _ => .inl) (hbegins rs')) fun _ => hrest).imp ?_
  rintro ⟨hfirst, hrest⟩
  rw [List.map_cons, List.map_cons, hfirst, map_eq_map_of_forall₂ hrest]

/-- From the operations inside to the operation around them. -/
theorem Operation.Legible.shown {a : Operation} (ha : a.Legible)
    (ih : ∀ o ∈ a.children, o.Shown) : a.Shown := by
  intro b s t hb hs ht
  have hopening := ha.safe.readApart_opening (k := fun _ => False) hb.safe
  cases hra : a.regions with
  | nil =>
    cases hrb : b.regions with
    | nil =>
      rw [texts_page_of_nil hra, texts_page_of_nil hrb]
      refine (ReadApart.cons (ha.safe.line_inj hb.safe hs ht) fun _ => .refl _ []).imp ?_
      rintro ⟨hheading, -⟩ hflag
      rw [outline_eq, outline_eq, hheading hflag, hra, hrb]
    | cons r rs =>
      rw [texts_page_of_nil hra, texts_page_of_cons hrb]
      exact .of_heads (ha.safe.line_ne hb.safe)
  | cons r rs =>
    cases hrb : b.regions with
    | nil =>
      rw [texts_page_of_cons hra, texts_page_of_nil hrb]
      exact .of_heads (hb.safe.line_ne ha.safe).symm
    | cons r' rs' =>
      have hregions := regions_readApart (hra ▸ ha.regions) (hrb ▸ hb.regions)
        (hra ▸ fun r hr o ho => ih o (List.mem_flatMap.2 ⟨r, hr, ho⟩))
      have hlast (u : Text) : ¬ Begins
          (fun t => (OpensOperation t ∨ OpensBlock t) ∨ t = regionGap)
          ["\x7d)".toList ++ u] := by
        simp [regionGap, OpensOperation, OpensBlock, SafeChar]
      have hrest (hnames : a.resultNames = b.resultNames ∧ a.name = b.name ∧
          a.operands = b.operands) :=
        hregions.append (fun _ _ => hlast (a.closing {} s)) (fun _ _ => hlast (b.closing {} t))
          fun _ => ReadApart.cons (p := fun _ => False)
            (fun h => (ha.safe.readApart_closing hb.safe hs ht hnames.1 hnames.2.2).of_eq
              (List.append_cancel_left h)) fun _ => .refl _ []
      rw [texts_page_of_cons hra, texts_page_of_cons hrb, List.cons_append, List.cons_append]
      have hfirst (h : a.opening ++ " (\x7b".toList = b.opening ++ " (\x7b".toList) :=
        (hopening not_begins_false not_begins_false h).1
      refine (ReadApart.cons hfirst hrest).imp ?_
      rintro ⟨hnames, hregions, hclosing, -⟩ hflag
      rw [outline_eq, outline_eq, heading_eq hnames hclosing hflag, hra, hrb, hregions]

theorem Operation.Legible.isShown {a : Operation} (ha : a.Legible) : a.Shown := by
  induction a using Operation.induction with
  | step a ih => exact ha.shown fun o ho => ih o ho (ha.of_mem_children ho)

theorem Block.Legible.isLine {label : String} {b : Block} (hl : SafeName label) (h : b.Legible)
    (ih : ∀ op ∈ b.operations, ∀ s : Scope, s.Plain → ∀ t ∈ (op.page {} s).texts, IsLine t) :
    ∀ t ∈ headerTexts label b.args ++ b.rowTexts, IsLine t := by
  intro t ht
  rcases List.mem_append.1 ht with hheader | hrow
  · unfold headerTexts at hheader
    split at hheader
    · exact absurd hheader List.not_mem_nil
    · obtain rfl := List.mem_singleton.1 hheader
      have hspellings := BlockOf.oneLine_headerSpellings hl h.args
      exact ⟨BlockOf.newline_not_mem_headerText hspellings, by simp [headerText]⟩
  · obtain ⟨p, hp, hrow⟩ := List.mem_flatMap.1 hrow
    exact ih p.1 (List.fst_mem_of_mem_zipIdx hp) _ (h.plain_scope p.2) t hrow

/-- Every line of an operation is one line on the page. -/
theorem Operation.Legible.isLine {op : Operation} (h : op.Legible) {s : Scope} (hs : s.Plain) :
    ∀ t ∈ (op.page {} s).texts, IsLine t := by
  induction op using Operation.induction generalizing s with
  | step op ih =>
    have hopening {u : Text} (hu : '\n' ∉ u) : IsLine (op.opening ++ u) := by
      refine ⟨List.not_mem_append h.safe.unbroken.newline_not_mem_opening hu, ?_⟩
      refine (h.safe.begins_opening.imp fun c hc hblank => ?_).append u
      rw [hblank] at hc
      exact absurd hc (by decide)
    have hclosing : '\n' ∉ op.closing {} s :=
      h.safe.unbroken.newline_not_mem_closing hs.unbroken
    have hregion (r : Region) (hr : r ∈ op.regions) : ∀ t ∈ (Region.page {} r).texts, IsLine t := by
      intro t ht
      rw [Region.texts_page, List.mem_flatMap] at ht
      obtain ⟨p, hp, ht⟩ := ht
      obtain ⟨hname, hblock⟩ := (h.regions r hr).labelled p hp
      refine hblock.isLine hname (fun o ho s hs => ?_) t ht
      have hchild : o ∈ op.children := mem_children hr hp ho
      exact ih o hchild (h.of_mem_children hchild) hs
    cases hregions : op.regions with
    | nil =>
      rw [texts_page_of_nil hregions, List.forall_mem_singleton]
      exact hopening hclosing
    | cons r rs =>
      rw [hregions, List.forall_mem_cons] at hregion
      rw [texts_page_of_cons hregions]
      have hgap : IsLine regionGap := ⟨by decide, by simp [regionGap]⟩
      have hlast : IsLine ("\x7d)".toList ++ op.closing {} s) :=
        ⟨List.not_mem_append (by decide) hclosing, by simp⟩
      intro t ht
      simp only [List.mem_append, List.mem_cons, List.mem_flatMap, List.not_mem_nil,
        or_false] at ht
      rcases ht with (rfl | hfirst | ⟨r', hr', rfl | hrest⟩) | rfl
      · exact hopening (by decide)
      · exact hregion.1 t hfirst
      · exact hgap
      · exact hregion.2 r' hr' t hrest
      · exact hlast

namespace Module

variable {m m₁ m₂ : Module}

theorem legible (h : m.Accepted) (hs : m.Safe) : ∀ op ∈ m.ops, op.Legible := by
  intro op hop o ho
  have hm : m.WellFormed := diagnostics_eq_nil_iff.1 (accepted_iff.1 h)
  have ho' : o ∈ m.walk := List.mem_flatMap.2 ⟨op, hop, ho⟩
  exact ⟨hs o ho', hm.regions_of_mem_walk o ho'⟩

theorem unmarked (h : m.Accepted) : ∀ op ∈ m.ops, op.isTerminator = false :=
  (diagnostics_eq_nil_iff.1 (accepted_iff.1 h)).unmarked

/-- The lines of the operations of a module. -/
def rowTexts (m : Module) : List Text :=
  m.ops.zipIdx.flatMap fun (op, i) => (op.page {} (Scope.bind ∅ (earlierResults m.ops i))).texts

theorem texts_page (m : Module) :
    (m.page {}).texts = "module \x7b".toList :: (m.rowTexts ++ [['}']]) := by
  have hbody : (m.body {}).texts = m.rowTexts := by
    rw [body, Printed.sequence_eq, Page.append_empty, Page.texts_concat, List.flatMap_map]
    rfl
  rw [page, Page.texts_append, Page.texts_append, Page.texts_nest, hbody]
  rfl

theorem plain_scope (h : ∀ op ∈ m.ops, op.Legible) (i : Nat) :
    (Scope.bind ∅ (earlierResults m.ops i)).Plain :=
  Scope.plain_empty.bind_earlierResults (fun op hop => (h op hop).safe) i

theorem isLine (h : ∀ op ∈ m.ops, op.Legible) : ∀ t ∈ (m.page {}).texts, IsLine t := by
  rw [texts_page]
  refine List.forall_mem_cons.2 ⟨⟨by decide, by simp⟩, List.forall_mem_append.2 ⟨?_, ?_⟩⟩
  · intro t ht
    obtain ⟨p, hp, ht⟩ := List.mem_flatMap.1 ht
    exact (h p.1 (List.fst_mem_of_mem_zipIdx hp)).isLine (plain_scope h p.2) t ht
  · exact List.forall_mem_singleton.2 ⟨by decide, by simp⟩

/-- Accepted modules with safe names that print alike, without places, have the same outline. -/
theorem outline_eq_of_print_eq (h₁ : m₁.Accepted) (h₂ : m₂.Accepted) (hs₁ : m₁.Safe)
    (hs₂ : m₂.Safe) (h : m₁.print {} = m₂.print {}) : m₁.outline = m₂.outline := by
  have hl₁ := legible h₁ hs₁
  have hl₂ := legible h₂ hs₂
  have htexts := Page.texts_eq_of_print_eq (isLine hl₁) (isLine hl₂) h
  rw [texts_page, texts_page] at htexts
  have hrows := row_readApart hl₁ hl₂ (plain_scope hl₁) (plain_scope hl₂)
    fun op hop => (hl₁ op hop).isShown
  have hend : ¬ Begins OpensOperation [['}']] := by
    simp [OpensOperation, SafeChar]
  obtain ⟨hops, -⟩ := hrows hend hend (List.cons.inj htexts).2
  exact map_outline_eq hops (unmarked h₁) (unmarked h₂)

end Module

def yieldArgument : Operation where
  name := "test.yield"
  id := "1"
  operands := ["%a"]
  isTerminator := true

/-- A function that gives back its argument. -/
def identityFunction (id : String) (type : Ty) : Operation where
  name := "test.func"
  id := id
  regions := [{ entry := { args := [⟨"%a", type⟩], terminator := yieldArgument } }]

def identityModule (id : String) (type : Ty) : Module where
  ops := [identityFunction id type]

theorem identityModule_safe (id : String) {type : Ty} (h : type.Plain SafeChar) :
    (identityModule id type).Safe := by
  have hname : SafeName "test.func" := by decide
  have harg : SafeName "%a" := by decide
  refine List.forall_mem_cons.2 ⟨?_, List.forall_mem_singleton.2 ?_⟩
  · refine ⟨hname, nofun, nofun, nofun, nofun, ?_, ?_⟩
    · exact List.forall_mem_singleton.2 (List.forall_mem_singleton.2 safeName_entryLabel)
    · refine List.forall_mem_singleton.2 (List.forall_mem_singleton.2 ?_)
      exact List.forall_mem_singleton.2 ⟨harg, h⟩
  · refine ⟨?_, List.forall_mem_singleton.2 harg, nofun, nofun, nofun, nofun, nofun⟩
    decide

/-- Two different modules of one text, and so of one outline. -/
theorem identityModule_outline_eq :
    (identityModule "0" (.tensor [.dynamic] .f64)).Accepted ∧
      (identityModule "2" (.unrankedTensor .f64)).Accepted ∧
      (identityModule "0" (.tensor [.dynamic] .f64)).print {} =
        (identityModule "2" (.unrankedTensor .f64)).print {} ∧
      (identityModule "0" (.tensor [.dynamic] .f64)).outline =
        (identityModule "2" (.unrankedTensor .f64)).outline := by
  have hranked : (identityModule "0" (.tensor [.dynamic] .f64)).Accepted :=
    Module.accepted_iff.2 (by decide)
  have hunranked : (identityModule "2" (.unrankedTensor .f64)).Accepted :=
    Module.accepted_iff.2 (by decide)
  have hprint : (identityModule "0" (.tensor [.dynamic] .f64)).print {} =
      (identityModule "2" (.unrankedTensor .f64)).print {} := rfl
  exact ⟨hranked, hunranked, hprint, Module.outline_eq_of_print_eq hranked hunranked
    (identityModule_safe "0" (.tensor _ (.float _)))
    (identityModule_safe "2" (.unrankedTensor (.float _))) hprint⟩

end GenericIR
