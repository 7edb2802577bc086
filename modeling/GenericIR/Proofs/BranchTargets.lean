import GenericIR.Proofs.Acceptance
import GenericIR.Proofs.UnbrokenLines

/-! Branch targets in the text. Among the lines of a region of an accepted module, every branch
target of its blocks has exactly one header. There is one exception: the entry block can be branched
to like any other, but it has no header if it has no arguments. -/
namespace GenericIR

variable {options : PrintOptions}

/-- How the header of a block begins. -/
def headerStart (label : String) : Text :=
  '^' :: label.toList ++ ['(']

theorem lines_blockHeader (label : String) (args : List Value) :
    (Printed.blockHeader label args).lines =
      if label = RegionOf.entryLabel ∧ args = [] then [] else [⟨0, headerText label args⟩] := by
  unfold Printed.blockHeader
  simp only [List.isEmpty_iff]
  split <;> rfl

theorem headerStart_prefix (label : String) (args : List Value) :
    headerStart label <+: headerText label args := by
  unfold headerStart headerText Text.surround
  exact ⟨Text.commaSeparated (args.map Value.print) ++ "):".toList, by simp⟩

/-- If labels have no parenthesis in them, a header shows which label it is for. -/
theorem eq_of_headerStart_prefix {label label' : String} {args : List Value}
    (hl : '(' ∉ label.toList) (hl' : '(' ∉ label'.toList)
    (h : headerStart label <+: headerText label' args) : label = label' := by
  have hchars {s : String} (hs : '(' ∉ s.toList) : ∀ c ∈ s.toList, c ≠ '(' :=
    fun c hc hparen => hs (hparen ▸ hc)
  have hends (t : Text) : ¬ Begins (fun c => c ≠ '(') ('(' :: t) := by
    simp
  obtain ⟨rest, hrest⟩ := h
  have hcut : label.toList ++ '(' :: rest = label'.toList ++ '(' ::
      (Text.commaSeparated (args.map Value.print) ++ "):".toList) := by
    simpa [headerStart, headerText, Text.surround] using hrest
  have happart := ReadApart.run (hchars hl) (hchars hl')
  exact String.toList_inj.1 (happart (hends _) (hends _) hcut).1

namespace Operation

variable {op : Operation}

/-- At the margin an operation only opens, or goes on behind a region. -/
theorem lines_at_margin {scope : Scope} {l : Line} (hl : l ∈ (op.page options scope).lines)
    (hdepth : l.depth = 0) : op.opening <+: l.text ∨ ['\x7d'] <+: l.text := by
  have hnested {lines : List Line} : l ∉ lines.map (Line.nest 2) := by
    intro hmem
    obtain ⟨inner, -, rfl⟩ := List.mem_map.1 hmem
    exact absurd hdepth (Nat.succ_ne_zero _)
  rw [page_eq, lines_frame] at hl
  cases hregions : (op.regions.map (Region.page options)).map Page.lines with
  | nil =>
    rw [hregions, linesAround, List.mem_singleton] at hl
    rw [hl]
    exact .inl (List.prefix_append _ _)
  | cons lines rest =>
    simp only [hregions, linesAround, List.mem_append, List.mem_cons, List.mem_flatMap,
      List.not_mem_nil, or_false, hnested, false_or] at hl
    rcases hl with (rfl | ⟨-, -, rfl⟩) | rfl
    · exact .inl (List.prefix_append _ _)
    · exact .inr (by decide)
    · exact .inr ⟨')' :: op.closing options scope, rfl⟩

/-- An operation opens with its first result or with its quoted name. -/
theorem not_caret_prefix_opening (h : ∀ x ∈ op.resultNames, '^' ∉ x.toList) :
    ¬ ['^'] <+: op.opening := by
  have hbindings := not_mem_bindingPart h
  rw [opening_eq]
  intro hcaret
  cases hparts : op.bindingPart with
  | nil => simp [hparts, Text.surround] at hcaret
  | cons c rest =>
    rw [hparts] at hcaret hbindings
    obtain ⟨rfl, -⟩ := List.cons_prefix_cons.1 hcaret
    exact hbindings List.mem_cons_self

/-- Neither how an operation opens nor a brace looks like a header. -/
theorem not_headerStart_prefix (h : ∀ x ∈ op.resultNames, '^' ∉ x.toList) {scope : Scope} {l : Line}
    (hl : l ∈ (op.page options scope).lines) (hdepth : l.depth = 0) (label : String) :
    ¬ headerStart label <+: l.text := by
  intro hstart
  have hcaret : ['^'] <+: l.text := (List.prefix_append ['^'] _).trans hstart
  rcases lines_at_margin hl hdepth with hopening | hbrace
  · have hne : op.opening ≠ [] := by simp [opening, Text.surround]
    exact not_caret_prefix_opening h
      (List.prefix_of_prefix_length_le hcaret hopening (List.length_pos_iff.2 hne))
  · have hsame := List.prefix_of_prefix_length_le hcaret hbrace (Nat.le_refl 1)
    exact absurd hsame (by decide)

end Operation

namespace Region

variable {r : Region}

/-- The lines of a region in order, the headers of its blocks marked by their labels. -/
def markedLines (options : PrintOptions) (r : Region) : List (Option String × Line) :=
  r.labelled.flatMap fun (label, b) =>
    (Printed.blockHeader label b.args).lines.map (some label, ·) ++
      (b.operations.zipIdx.flatMap fun (op, i) =>
        (op.page options (Block.placeAt r.labels b i).scope).lines).map (none, ·)

/-- Nothing but a header begins like one, and like that of no other block. -/
structure HeadersApart (r : Region) : Prop where
  labels : ∀ label ∈ r.labels, '(' ∉ label.toList
  results : ∀ op ∈ r.operations, ∀ x ∈ op.resultNames, '^' ∉ x.toList

theorem map_snd_markedLines :
    (r.markedLines options).map Prod.snd = (Region.page options r).lines := by
  rw [lines_page]
  simp [markedLines, List.map_flatMap, Function.comp_def]

/-- A marked line is the header of its block, the others come from the operations of the blocks. -/
theorem mem_markedLines {l : Option String × Line} (hl : l ∈ r.markedLines options) :
    ∃ p ∈ r.labelled, l = (some p.1, ⟨0, headerText p.1 p.2.args⟩) ∨
      (l.1 = none ∧ ∃ op ∈ p.2.operations, ∃ scope, l.2 ∈ (op.page options scope).lines) := by
  obtain ⟨p, hp, hl⟩ := List.mem_flatMap.1 hl
  refine ⟨p, hp, ?_⟩
  rcases List.mem_append.1 hl with hheader | hrow
  · rw [lines_blockHeader] at hheader
    split at hheader
    · exact absurd hheader List.not_mem_nil
    · exact .inl (by simpa using hheader)
  · obtain ⟨line, hline, rfl⟩ := List.mem_map.1 hrow
    obtain ⟨o, ho, hline⟩ := List.mem_flatMap.1 hline
    exact .inr ⟨rfl, o.1, List.fst_mem_of_mem_zipIdx ho, _, hline⟩

theorem headerStart_of_mem_markedLines {l : Option String × Line}
    (hl : l ∈ r.markedLines options) {label : String} (hlabel : l.1 = some label) :
    l.2.depth = 0 ∧ headerStart label <+: l.2.text := by
  obtain ⟨p, -, rfl | ⟨hnone, -⟩⟩ := mem_markedLines hl
  · obtain rfl := Option.some.inj hlabel
    exact ⟨rfl, headerStart_prefix p.1 p.2.args⟩
  · rw [hnone] at hlabel
    exact absurd hlabel (Option.some_ne_none label).symm

/-- At the margin only the header of a block begins like it. -/
theorem HeadersApart.mark_eq (h : r.HeadersApart) {l : Option String × Line}
    (hl : l ∈ r.markedLines options) {label : String} (hlabel : label ∈ r.labels)
    (hdepth : l.2.depth = 0) (hstart : headerStart label <+: l.2.text) : l.1 = some label := by
  obtain ⟨p, hp, rfl | ⟨-, o, ho, scope, hline⟩⟩ := mem_markedLines hl
  · have hpLabel : p.1 ∈ r.labels := List.mem_map_of_mem hp
    have heq := eq_of_headerStart_prefix (h.labels label hlabel) (h.labels p.1 hpLabel) hstart
    rw [heq]
  · have hresults := h.results o (List.mem_flatMap.2 ⟨p, hp, ho⟩)
    exact absurd hstart (Operation.not_headerStart_prefix hresults hline hdepth label)

/-- All blocks have a header, in order, but for an entry block without arguments. -/
theorem filterMap_markedLines (hentry : RegionOf.entryLabel ∉ r.blocks.map Prod.fst) :
    (r.markedLines options).filterMap Prod.fst =
      (if r.entry.args = [] then [] else [RegionOf.entryLabel]) ++ r.blocks.map Prod.fst := by
  have hblock : (r.markedLines options).filterMap Prod.fst = r.labelled.flatMap fun p =>
      if p.1 = RegionOf.entryLabel ∧ p.2.args = [] then [] else [p.1] := by
    unfold markedLines
    rw [List.filterMap_flatMap]
    apply List.flatMap_congr
    intro p _
    rw [List.filterMap_append, List.filterMap_map, List.filterMap_map, lines_blockHeader]
    split <;> simp
  have hblocks : (r.blocks.flatMap fun p =>
      if p.1 = RegionOf.entryLabel ∧ p.2.args = [] then [] else [p.1]) =
        r.blocks.map Prod.fst := by
    rw [List.map_eq_flatMap]
    apply List.flatMap_congr
    intro p hp
    have hne : p.1 ≠ RegionOf.entryLabel := fun h => hentry (h ▸ List.mem_map_of_mem hp)
    exact if_neg fun h => hne h.1
  rw [hblock, RegionOf.labelled, List.flatMap_cons, hblocks]
  simp

/-- A label of the region has one header, or none if it is that of an entry without arguments. -/
theorem WellFormed.count_markedLines (h : r.WellFormed) {label : String} (hl : label ∈ r.labels) :
    ((r.markedLines options).filterMap Prod.fst).count label =
      if label = RegionOf.entryLabel ∧ r.entry.args = [] then 0 else 1 := by
  rw [filterMap_markedLines h.entryLabel_reserved, List.count_append]
  by_cases hentry : label = RegionOf.entryLabel
  · subst hentry
    rw [List.count_eq_zero.2 h.entryLabel_reserved]
    by_cases hargs : r.entry.args = [] <;> simp [hargs]
  · have hmem : label ∈ r.blocks.map Prod.fst := by
      simpa [RegionOf.labels, RegionOf.labelled, hentry] using hl
    have hother : (if r.entry.args = [] then [] else [RegionOf.entryLabel]).count label = 0 := by
      apply List.count_eq_zero.2
      split <;> simp [hentry]
    rw [hother, List.count_eq_one_of_mem h.labels_nodup hmem, if_neg fun h => hentry h.1]

end Region

/-- The text of a region shows every branch target of its blocks by one header, and nothing else
begins like it. Only the label of an entry block without arguments has no header. -/
theorem Module.Accepted.header_of_successor {m : Module} (h : m.Accepted)
    {op : Operation} (hop : op ∈ m.walk) {r : Region} (hr : r ∈ op.regions)
    {b : String × Block} (hb : b ∈ r.labelled) {o : Operation} (ho : o ∈ b.2.operations)
    {label : String} (hl : label ∈ o.successors) (options : PrintOptions) (level : Int) :
    Region.print options r level =
        (Region.markedLines options r).flatMap (fun l => l.2.print level) ∧
      ((∀ o ∈ m.walk, o.Unbroken) → (Region.print options r level).splitOn '\n' =
        (Region.markedLines options r).map
          (fun l => indentation (level + l.2.depth) ++ l.2.text) ++ [[]]) ∧
      (∀ l ∈ Region.markedLines options r, ∀ target, l.1 = some target →
        l.2.depth = 0 ∧ headerStart target <+: l.2.text) ∧
      (Region.HeadersApart r → ∀ l ∈ Region.markedLines options r,
        l.2.depth = 0 → headerStart label <+: l.2.text → l.1 = some label) ∧
      ((Region.markedLines options r).filterMap Prod.fst).count label =
        if label = RegionOf.entryLabel ∧ r.entry.args = [] then 0 else 1 := by
  have hm : m.WellFormed := diagnostics_eq_nil_iff.1 (accepted_iff.1 h)
  have hwf : Region.WellFormed r := hm.regions_of_mem_walk op hop r hr
  have hlabel : label ∈ r.labels := (hwf.of_mem_labelled hb).successors_known o ho label hl
  refine ⟨?_, fun hnames => ?_, fun l hl target => Region.headerStart_of_mem_markedLines hl,
    fun hapart l hl => hapart.mark_eq hl hlabel, hwf.count_markedLines hlabel⟩
  · rw [Region.print, Page.print, ← Region.map_snd_markedLines, List.flatMap_map]
  · have hinside : ∀ o ∈ op.walk, o.Unbroken := fun o ho => hnames o (mem_walk_of_mem_walk hop ho)
    have hunbroken : ∀ l ∈ (Region.page options r).lines, '\n' ∉ l.text :=
      Region.newline_not_mem_lines hinside hr
    have hlines := Page.splitOn_print hunbroken level
    rw [← Region.map_snd_markedLines, List.map_map] at hlines
    exact hlines

/-- A terminator that goes on with one block. -/
def branch (id label : String) : Operation where
  name := "cf.br"
  id := id
  successors := [label]
  isTerminator := true

/-- The entry and a second block, which branch to each other. Neither has arguments. -/
def loopRegion : Region where
  entry := { terminator := branch "1" "bb1" }
  blocks := [("bb1", { terminator := branch "2" "bb0" })]

def loopFunction : Operation where
  name := "test.func"
  id := "f"
  regions := [loopRegion]

def loopModule : Module where
  ops := [loopFunction]

theorem loopModule_accepted : loopModule.Accepted :=
  Module.accepted_iff.2 (by decide)

theorem loopFunction_mem_walk : loopFunction ∈ loopModule.walk :=
  List.mem_flatMap.2 ⟨loopFunction, List.mem_singleton.2 rfl, loopFunction.mem_walk_self⟩

theorem loopModule_unbroken : ∀ o ∈ loopModule.walk, o.Unbroken := by
  decide

theorem loopRegion_headersApart : Region.HeadersApart loopRegion :=
  ⟨by decide, by decide⟩

theorem loopRegion_header_of_successor :
    loopModule.Accepted ∧ loopFunction ∈ loopModule.walk ∧
      (Region.print {} loopRegion 0).splitOn '\n' = (Region.markedLines {} loopRegion).map
        (fun l => indentation (0 + l.2.depth) ++ l.2.text) ++ [[]] ∧
      ((Region.markedLines {} loopRegion).filterMap Prod.fst).count "bb1" = 1 := by
  have hregion : loopRegion ∈ loopFunction.regions := List.mem_singleton.2 rfl
  have hentry : (RegionOf.entryLabel, loopRegion.entry) ∈ loopRegion.labelled := List.mem_cons_self
  have hbranch : branch "1" "bb1" ∈ loopRegion.entry.operations := List.mem_singleton.2 rfl
  have htarget : "bb1" ∈ (branch "1" "bb1").successors := List.mem_singleton.2 rfl
  have hheader := Module.Accepted.header_of_successor loopModule_accepted loopFunction_mem_walk
    hregion hentry hbranch htarget {} 0
  exact ⟨loopModule_accepted, loopFunction_mem_walk, hheader.2.1 loopModule_unbroken,
    hheader.2.2.2.2.trans (by decide)⟩

/-- The branch back to the entry leads to no header. -/
theorem not_forall_countP_headerStart :
    ¬ ∀ m : Module, m.Accepted → (∀ o ∈ m.walk, o.Unbroken) →
      ∀ op ∈ m.walk, ∀ r ∈ op.regions, Region.HeadersApart r → ∀ b ∈ r.labelled,
        ∀ o ∈ b.2.operations, ∀ label ∈ o.successors,
          ((Region.print {} r 0).splitOn '\n').countP (headerStart label).isPrefixOf = 1 := by
  intro h
  have hback := h loopModule loopModule_accepted loopModule_unbroken loopFunction
    loopFunction_mem_walk loopRegion (List.mem_singleton.2 rfl) loopRegion_headersApart
    ("bb1", { terminator := branch "2" "bb0" }) (List.mem_cons_of_mem _ (List.mem_singleton.2 rfl))
    (branch "2" "bb0") (List.mem_singleton.2 rfl) "bb0" (List.mem_singleton.2 rfl)
  revert hback
  decide

end GenericIR
