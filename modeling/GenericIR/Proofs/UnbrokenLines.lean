import GenericIR.Proofs.OperandTypes
import GenericIR.Proofs.Spellings

/-! Pages without broken lines. If no name in an operation breaks a line, then no line of its page
is broken, and the printed text falls apart into the lines of the page. -/
namespace GenericIR

/-- Around the lines of its regions an operation has no broken line. -/
theorem Operation.Unbroken.newline_not_mem_linesAround {op : Operation} (h : op.Unbroken)
    {closing : Text} (hc : '\n' ∉ closing) {regions : List (List Line)}
    (hr : ∀ lines ∈ regions, ∀ l ∈ lines, '\n' ∉ l.text) :
    ∀ l ∈ op.linesAround closing regions, '\n' ∉ l.text := by
  have hopening := h.newline_not_mem_opening
  have hnested {lines : List Line} (hl : ∀ l ∈ lines, '\n' ∉ l.text) :
      ∀ l ∈ lines.map (Line.nest 2), '\n' ∉ l.text :=
    List.forall_mem_map.2 hl
  cases regions with
  | nil => exact List.forall_mem_singleton.2 (List.not_mem_append hopening hc)
  | cons r rs =>
    rw [List.forall_mem_cons] at hr
    refine List.forall_mem_append.2 ⟨List.forall_mem_cons.2 ⟨?_, ?_⟩, ?_⟩
    · exact List.not_mem_append hopening (by decide)
    · refine List.forall_mem_append.2 ⟨hnested hr.1, fun l hl => ?_⟩
      obtain ⟨lines, hlines, hl⟩ := List.mem_flatMap.1 hl
      exact List.forall_mem_cons.2 ⟨by decide, hnested (hr.2 lines hlines)⟩ l hl
    · exact List.forall_mem_singleton.2 (List.not_mem_append (by decide) hc)

theorem Block.newline_not_mem_blockHeader {label : String} {b : Block}
    (h : ∀ s ∈ b.headerSpellings label, OneLine s) :
    ∀ l ∈ (Printed.blockHeader label b.args).lines, '\n' ∉ l.text := by
  unfold Printed.blockHeader
  split
  · exact fun l hl => absurd hl List.not_mem_nil
  · exact List.forall_mem_singleton.2 (BlockOf.newline_not_mem_headerText h)

/-- All that an operation of the block sees is spelt in the block. -/
theorem Block.unbroken_placeAt {label : String} {labels : List String} {b : Block}
    (h : ∀ s ∈ b.headerSpellings label, OneLine s) (hops : ∀ op ∈ b.operations, op.Unbroken)
    (i : Nat) : (b.placeAt labels i).scope.Unbroken := by
  refine Scope.unbroken_ofValues fun v hv s hs => ?_
  rcases List.mem_append.1 hv with harg | hresult
  · exact h s (List.mem_cons_of_mem _ (List.mem_flatMap.2 ⟨v, harg, hs⟩))
  · obtain ⟨op, hop, hvop⟩ := List.mem_flatMap.1 hresult
    exact (hops op (List.mem_append_left _ (List.mem_of_mem_take hop))).results v hvop s hs

/-- Neither the header of the block nor any operation in it, at any depth, breaks a line. -/
structure Block.Unbroken (label : String) (b : Block) : Prop where
  header : ∀ s ∈ b.headerSpellings label, OneLine s
  inside : ∀ op ∈ b.operations, ∀ o ∈ op.walk, o.Unbroken

theorem Block.Unbroken.newline_not_mem_lines_of {options : PrintOptions} {label : String}
    {b : Block} (h : b.Unbroken label)
    (ih : ∀ o ∈ b.operations, ∀ scope : Scope, scope.Unbroken →
      ∀ l ∈ (o.page options scope).lines, '\n' ∉ l.text) :
    ∀ l ∈ (Block.page options label b).lines, '\n' ∉ l.text := by
  intro l hl
  rw [lines_page options label [], List.mem_append] at hl
  rcases hl with hl | hl
  · exact newline_not_mem_blockHeader h.header l hl
  · obtain ⟨o, ho, hl⟩ := List.mem_flatMap.1 hl
    have hops (o : Operation) (ho : o ∈ b.operations) : o.Unbroken := h.inside o ho o o.mem_walk_self
    exact ih o.1 (List.fst_mem_of_mem_zipIdx ho) _ (unbroken_placeAt h.header hops _) l hl

theorem Operation.unbroken_blocks {op : Operation} (h : ∀ o ∈ op.walk, o.Unbroken) {r : Region}
    (hr : r ∈ op.regions) : ∀ p ∈ r.labelled, Block.Unbroken p.1 p.2 := by
  refine fun p hp => ⟨(h op op.mem_walk_self).headers hr p hp, fun o ho o' ho' => ?_⟩
  exact h o' (mem_walk_of_mem_children (mem_children hr hp ho) ho')

theorem Region.mem_lines_page {options : PrintOptions} {r : Region} {l : Line} :
    l ∈ (Region.page options r).lines ↔ ∃ p ∈ r.labelled, l ∈ (Block.page options p.1 p.2).lines := by
  rw [page_eq, Page.lines_concat, List.flatMap_map, List.mem_flatMap]

/-- No name breaks a line of an operation, at any depth. -/
theorem Operation.newline_not_mem_lines {options : PrintOptions} {op : Operation}
    (h : ∀ o ∈ op.walk, o.Unbroken) {scope : Scope} (hs : scope.Unbroken) :
    ∀ l ∈ (op.page options scope).lines, '\n' ∉ l.text := by
  induction op using Operation.induction generalizing scope with
  | step op ih =>
    have hop := h op op.mem_walk_self
    have hregion (r : Region) (hr : r ∈ op.regions) :
        ∀ l ∈ (Region.page options r).lines, '\n' ∉ l.text := by
      intro l hl
      obtain ⟨p, hp, hl⟩ := Region.mem_lines_page.1 hl
      have hblock := unbroken_blocks h hr p hp
      refine hblock.newline_not_mem_lines_of (fun o ho scope hs => ?_) l hl
      exact ih o (mem_children hr hp ho) (hblock.inside o ho) hs
    rw [page_eq, lines_frame, List.map_map]
    apply hop.newline_not_mem_linesAround (hop.newline_not_mem_closing hs)
    exact List.forall_mem_map.2 hregion

theorem Block.Unbroken.newline_not_mem_lines {options : PrintOptions} {label : String} {b : Block}
    (h : b.Unbroken label) : ∀ l ∈ (Block.page options label b).lines, '\n' ∉ l.text :=
  h.newline_not_mem_lines_of fun o ho _ hs => Operation.newline_not_mem_lines (h.inside o ho) hs

theorem Region.newline_not_mem_lines_of_blocks {options : PrintOptions} {r : Region}
    (h : ∀ p ∈ r.labelled, Block.Unbroken p.1 p.2) :
    ∀ l ∈ (Region.page options r).lines, '\n' ∉ l.text := by
  intro l hl
  obtain ⟨p, hp, hl⟩ := mem_lines_page.1 hl
  exact (h p hp).newline_not_mem_lines l hl

theorem Region.newline_not_mem_lines {options : PrintOptions} {op : Operation} {r : Region}
    (h : ∀ o ∈ op.walk, o.Unbroken) (hr : r ∈ op.regions) :
    ∀ l ∈ (Region.page options r).lines, '\n' ∉ l.text :=
  newline_not_mem_lines_of_blocks (Operation.unbroken_blocks h hr)

/-- Unbroken lines are what the printed text falls apart into. -/
theorem Page.splitOn_print {p : Page} (h : ∀ l ∈ p.lines, '\n' ∉ l.text) (level : Int) :
    (p.print level).splitOn '\n' =
      p.lines.map (fun l => indentation (level + l.depth) ++ l.text) ++ [[]] := by
  have hlines (ls : List Line) (h : ∀ l ∈ ls, '\n' ∉ l.text) :
      (ls.flatMap (Line.print level)).splitOn '\n' =
        ls.map (fun l => indentation (level + l.depth) ++ l.text) ++ [[]] := by
    induction ls with
    | nil => rfl
    | cons l ls ih =>
      rw [List.forall_mem_cons] at h
      have hfirst := List.not_mem_append (newline_not_mem_indentation (level + l.depth)) h.1
      rw [List.flatMap_cons, Line.print, List.append_assoc, List.singleton_append,
        List.splitOn_append_cons_self_of_not_mem hfirst, ih h.2]
      rfl
  exact hlines p.lines h

end GenericIR
