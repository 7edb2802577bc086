import Mathlib.Data.List.Pairwise
import GenericIR.Proofs.AttrFaults
import GenericIR.Proofs.Sites

/-! What acceptance means: the check of a tree finds nothing if and only if the tree is
well-formed. Each layer, from the row of operations to the module, is settled on its own. -/
namespace GenericIR

namespace Operation

theorem operandFaults_eq_nil_iff {op : Operation} {scope : Scope} :
    op.operandFaults scope = [] ↔ ∀ x ∈ op.operands, x ∈ scope.names := by
  simp [operandFaults, ← Scope.contains_iff]

theorem markFaults_eq_nil_iff {op : Operation} {isLast : Bool} :
    op.markFaults isLast = [] ↔ op.isTerminator = isLast := by
  cases isLast <;> cases h : op.isTerminator <;> simp [markFaults, h]

theorem successorFaults_eq_nil_iff {op : Operation} {labels : Option (List String)} :
    op.successorFaults labels = [] ↔
      ∀ label ∈ op.successors, ∃ known, labels = some known ∧ label ∈ known := by
  cases labels with
  | none => simp [successorFaults, List.eq_nil_iff_forall_not_mem]
  | some known => simp [successorFaults]

theorem faults_eq_nil_iff {op : Operation} {place : Place} :
    op.faults place = [] ↔
      (∀ x ∈ op.operands, x ∈ place.scope.names) ∧ op.isTerminator = place.isLast ∧
      (∀ label ∈ op.successors, ∃ known, place.labels = some known ∧ label ∈ known) ∧
      op.AttrsWellFormed := by
  simp only [faults, List.append_eq_nil_iff, operandFaults_eq_nil_iff, markFaults_eq_nil_iff,
    successorFaults_eq_nil_iff, attrFaults_eq_nil_iff, and_assoc]

/-- The rules that no longer depend on where the operation stands. -/
def InsideWellFormed (op : Operation) : Prop :=
  op.AttrsWellFormed ∧ op.regions.flatMap Region.check = []

theorem check_eq_nil_iff {op : Operation} {place : Place} :
    op.check place = [] ↔
      (∀ x ∈ op.operands, x ∈ place.scope.names) ∧ op.isTerminator = place.isLast ∧
      (∀ label ∈ op.successors, ∃ known, place.labels = some known ∧ label ∈ known) ∧
      op.InsideWellFormed := by
  rw [check_eq, List.append_eq_nil_iff, List.map_eq_nil_iff, faults_eq_nil_iff, InsideWellFormed]
  simp only [and_assoc]

end Operation

/-- What a row without faults in it says about the operations of the row. -/
theorem Checked.sequence_eq_nil_iff {labels : Option (List String)} {scope : Scope}
    {ops : List Operation} {last : Scope → List Diagnostic} (hn : scope.names.Nodup) :
    sequence labels scope (ops.map fun op => (op, op.check)) last = [] ↔
      (∀ i op, ops[i]? = some op → ∀ x ∈ op.operands,
        x ∈ scope.names ++ (earlierResults ops i).map Value.name) ∧
      (∀ op ∈ ops, op.isTerminator = false ∧
        (∀ label ∈ op.successors, ∃ known, labels = some known ∧ label ∈ known) ∧
        op.InsideWellFormed) ∧
      (scope.names ++ ops.flatMap Operation.resultNames).Nodup ∧
      last (scope.bind (ops.flatMap Operation.results)) = [] := by
  rw [sequence_eq, List.append_eq_nil_iff, List.flatMap_eq_nil_iff, ← row_names_nodup_iff hn]
  simp only [Prod.forall, List.mem_zipIdx_iff_getElem?, List.append_eq_nil_iff,
    Operation.check_eq_nil_iff, Operation.redefinitions_eq_nil_iff, Scope.names_bind]
  constructor
  · rintro ⟨h, hlast⟩
    refine ⟨fun i op hop => (h op i hop).1.1, fun op hop => ?_,
      fun i op hop => (h op i hop).2, hlast⟩
    obtain ⟨i, hi⟩ := List.mem_iff_getElem?.1 hop
    exact (h op i hi).1.2
  · rintro ⟨hoperands, hops, hnames, hlast⟩
    refine ⟨fun op i hop => ⟨⟨hoperands i op hop, ?_⟩, hnames i op hop⟩, hlast⟩
    exact hops op (List.mem_of_getElem? hop)

/-- A block is faultless if and only if it is well-formed and so is all inside it. -/
theorem Block.check_eq_nil_iff {labels : List String} {b : Block} :
    Block.check labels b = [] ↔
      Block.WellFormed labels b ∧ ∀ op ∈ b.operations, op.InsideWellFormed := by
  have hargs : repeats Value.name [] b.args = [] ↔ (b.args.map Value.name).Nodup := by
    simp [repeats_eq_nil_iff]
  have hentry : b.entryScope.names = b.args.map Value.name := Scope.names_ofValues b.args
  have hknown {op : Operation} :
      (∀ label ∈ op.successors, ∃ known, some labels = some known ∧ label ∈ known) ↔
        ∀ label ∈ op.successors, label ∈ labels := by simp
  rw [check_eq, List.append_eq_nil_iff, List.map_eq_nil_iff, hargs]
  constructor
  · rintro ⟨hn, h⟩
    rw [Checked.sequence_eq_nil_iff (hentry ▸ hn), hentry] at h
    obtain ⟨hoperands, hops, hnames, hlast⟩ := h
    rw [Operation.check_eq_nil_iff, Scope.names_bind, hentry] at hlast
    obtain ⟨hlastOperands, hlastMark, hlastSuccessors, hlastInside⟩ := hlast
    refine ⟨⟨?_, hlastMark, fun op hop => (hops op hop).1, ?_, hnames⟩, ?_⟩
    · refine forall_getElem?_concat.2 ⟨fun i op hi => ?_, ?_⟩
      · simpa [boundBefore] using hoperands i op hi
      · simpa [boundBefore] using hlastOperands
    · refine List.forall_mem_append.2 ⟨fun op hop => hknown.1 (hops op hop).2.1, ?_⟩
      simpa using hlastSuccessors
    · refine List.forall_mem_append.2 ⟨fun op hop => (hops op hop).2.2, ?_⟩
      simpa using hlastInside
  · rintro ⟨h, hinside⟩
    have hn := List.Nodup.of_append_left h.names_nodup
    obtain ⟨hoperands, hlastOperands⟩ := forall_getElem?_concat.1 h.operands_bound
    obtain ⟨hsuccessors, hlastSuccessors⟩ := List.forall_mem_append.1 h.successors_known
    obtain ⟨hinside, hlastInside⟩ := List.forall_mem_append.1 hinside
    refine ⟨hn, ?_⟩
    rw [Checked.sequence_eq_nil_iff (hentry ▸ hn), hentry]
    refine ⟨fun i op hi => ?_, fun op hop => ?_, h.names_nodup, ?_⟩
    · simpa [boundBefore] using hoperands i op hi
    · exact ⟨h.body_unmarked op hop, hknown.2 (hsuccessors op hop), hinside op hop⟩
    · rw [Operation.check_eq_nil_iff, Scope.names_bind, hentry]
      refine ⟨?_, h.terminator_marked, ?_, ?_⟩
      · simpa [boundBefore] using hlastOperands
      · simpa using hlastSuccessors
      · simpa using hlastInside

theorem Region.WellFormed.of_mem_labelled {r : Region} (h : Region.WellFormed r)
    {p : String × Block} (hp : p ∈ r.labelled) :
    Block.WellFormed (RegionOf.entryLabel :: r.blocks.map Prod.fst) p.2 := by
  rcases List.mem_cons.1 hp with rfl | hp
  · exact h.entry
  · exact h.blocks p hp

/-- A region is faultless if and only if it is well-formed and so is all inside it. -/
theorem Region.check_eq_nil_iff {r : Region} :
    Region.check r = [] ↔
      Region.WellFormed r ∧ ∀ op ∈ r.operations, op.InsideWellFormed := by
  have hlabels : repeats Prod.fst [RegionOf.entryLabel]
      (r.map fun op : Operation => (op, op.check)).blocks = [] ↔
        (r.blocks.map Prod.fst).Nodup ∧ RegionOf.entryLabel ∉ r.blocks.map Prod.fst := by
    simp [repeats_eq_nil_iff, RegionOf.map, Function.comp_def]
    grind
  rw [check_eq, List.append_eq_nil_iff, List.map_eq_nil_iff, hlabels, List.flatMap_eq_nil_iff]
  simp only [Block.check_eq_nil_iff]
  constructor
  · rintro ⟨⟨hnodup, hentry⟩, hblocks⟩
    obtain ⟨hfirst, hlater⟩ := List.forall_mem_cons.1 hblocks
    refine ⟨⟨hnodup, hentry, hfirst.1, fun p hp => (hlater p hp).1⟩, fun op hop => ?_⟩
    obtain ⟨p, hp, hop⟩ := List.mem_flatMap.1 hop
    exact (hblocks p hp).2 op hop
  · rintro ⟨h, hinside⟩
    refine ⟨⟨h.labels_nodup, h.entryLabel_reserved⟩, fun p hp => ⟨h.of_mem_labelled hp, ?_⟩⟩
    exact fun op hop => hinside op (List.mem_flatMap.2 ⟨p, hp, hop⟩)

/-- The rules reach every operation at every depth. -/
theorem Operation.insideWellFormed_iff (op : Operation) :
    op.InsideWellFormed ↔
      ∀ o ∈ op.walk, o.AttrsWellFormed ∧ ∀ r ∈ o.regions, Region.WellFormed r := by
  induction op using Operation.induction with
  | step op ih =>
    have hchildren : (∀ o ∈ op.children, o.InsideWellFormed) ↔
        ∀ o ∈ op.children.flatMap walk,
          o.AttrsWellFormed ∧ ∀ r ∈ o.regions, Region.WellFormed r := by
      simp only [List.mem_flatMap, forall_exists_index, and_imp]
      exact ⟨fun h o c hc ho => (ih c hc).1 (h c hc) o ho,
        fun h c hc => (ih c hc).2 fun o ho => h o c hc ho⟩
    rw [walk_eq, List.forall_mem_cons, ← hchildren, InsideWellFormed, List.flatMap_eq_nil_iff]
    simp only [Region.check_eq_nil_iff, children, List.mem_flatMap]
    grind

theorem Module.structureDiagnostics_eq_nil_iff {m : Module} :
    m.structureDiagnostics = [] ↔
      (∀ i op, m.ops[i]? = some op → ∀ x ∈ op.operands,
        x ∈ (earlierResults m.ops i).map Value.name) ∧
      (∀ op ∈ m.ops, op.isTerminator = false) ∧ (∀ op ∈ m.ops, op.successors = []) ∧
      (m.ops.flatMap Operation.resultNames).Nodup ∧
      ∀ o ∈ m.walk, o.AttrsWellFormed ∧ ∀ r ∈ o.regions, Region.WellFormed r := by
  have hwalk : (∀ op ∈ m.ops, op.InsideWellFormed) ↔
      ∀ o ∈ m.walk, o.AttrsWellFormed ∧ ∀ r ∈ o.regions, Region.WellFormed r := by
    simp only [Operation.insideWellFormed_iff, walk, List.mem_flatMap]
    grind
  have hempty : (∅ : Scope).names = [] := rfl
  rw [structureDiagnostics, Checked.sequence_eq_nil_iff (by simp [hempty]), ← hwalk]
  simp only [hempty, List.nil_append, List.eq_nil_iff_forall_not_mem (l := Operation.successors _)]
  grind

theorem secondDefinitions_eq_nil_iff {seen : List String} {ops : List Operation}
    (hn : seen.Nodup) :
    secondDefinitions seen ops = [] ↔
      (ops.filterMap Operation.symbol?).Nodup ∧
        ∀ name ∈ ops.filterMap Operation.symbol?, name ∉ seen := by
  induction ops generalizing seen with
  | nil => simp [secondDefinitions]
  | cons op ops ih =>
    cases hs : op.symbol? with
    | none => simp [secondDefinitions, hs, ih hn]
    | some name =>
      simp only [secondDefinitions, hs, List.filterMap_cons_some hs]
      by_cases hmem : name ∈ seen
      · simp [List.count_eq_one_of_mem hn hmem, hmem]
      · have hcount : seen.count name ≠ 1 := by simp [List.count_eq_zero_of_not_mem hmem]
        rw [if_neg hcount, List.nil_append, ih (List.nodup_cons.2 ⟨hmem, hn⟩), List.nodup_cons]
        grind

namespace Module

theorem symbolDiagnostics_eq_nil_iff {m : Module} :
    m.symbolDiagnostics = [] ↔ (m.walk.filterMap Operation.symbol?).Nodup := by
  simp [symbolDiagnostics, secondDefinitions_eq_nil_iff]

/-- A symbol comes twice in the walk if and only if it is defined at two paths. -/
theorem symbols_nodup_iff {m : Module} :
    (m.walk.filterMap Operation.symbol?).Nodup ↔
      ∀ path op bound path' op' bound' name, m.Stands path op bound →
        m.Stands path' op' bound' → op.symbol? = some name → op'.symbol? = some name →
          path = path' := by
  have hsites : (m.walk.filterMap Operation.symbol?).Nodup ↔
      (m.sites outerFirst).Pairwise fun s t =>
        ∀ name, s.op.symbol? = some name → t.op.symbol? ≠ some name := by
    rw [← m.map_op_sites, List.filterMap_map, List.Nodup, List.pairwise_filterMap]
    refine List.Pairwise.iff fun s t => ?_
    exact ⟨fun h name hs ht => h name hs name ht rfl, fun h x hx y hy hxy => h x hx (hxy ▸ hy)⟩
  rw [hsites]
  constructor
  · intro h path op bound path' op' bound' name hop hop' hname hname'
    obtain ⟨s, hs, rfl, rfl, -⟩ := hop.exists_site
    obtain ⟨t, ht, rfl, rfl, -⟩ := hop'.exists_site
    have hsymm : Std.Symm fun s t : Site =>
        ∀ name, s.op.symbol? = some name → t.op.symbol? ≠ some name :=
      ⟨fun _ _ hapart name ht hs => hapart name hs ht⟩
    by_contra hne
    exact h.forall hs ht (fun heq => hne (congrArg Site.path heq)) name hname hname'
  · intro h
    refine List.Nodup.pairwise_of_forall_ne (m.nodup_path_sites.of_map _) ?_
    intro s hs t ht hne name hname hname'
    obtain ⟨bound, hop, -⟩ := stands_of_mem_sites hs
    obtain ⟨bound', hop', -⟩ := stands_of_mem_sites ht
    exact hne (eq_of_path_eq hs ht (h _ _ _ _ _ _ name hop hop' hname hname'))

theorem diagnostics_eq_nil_iff {m : Module} : m.diagnostics = [] ↔ m.WellFormed := by
  rw [diagnostics, List.append_eq_nil_iff, structureDiagnostics_eq_nil_iff,
    symbolDiagnostics_eq_nil_iff, symbols_nodup_iff, forall_mem_walk_iff]
  constructor
  · rintro ⟨⟨hoperands, hmarks, hsuccessors, hnames, hinside⟩, hsymbols⟩
    exact ⟨hoperands, hmarks, hsuccessors, hnames,
      fun path op bound h => (hinside path op bound h).2,
      fun path op bound h => (hinside path op bound h).1, hsymbols⟩
  · intro h
    exact ⟨⟨h.operands_bound, h.unmarked, h.no_successors, h.names_nodup,
      fun path op bound hop => ⟨h.attrs path op bound hop, h.regions path op bound hop⟩⟩,
      h.symbols_apart⟩

theorem WellFormed.regions_of_mem_walk {m : Module} (h : m.WellFormed) :
    ∀ op ∈ m.walk, ∀ r ∈ op.regions, Region.WellFormed r :=
  forall_mem_walk_iff.2 h.regions

theorem WellFormed.attrs_of_mem_walk {m : Module} (h : m.WellFormed) :
    ∀ op ∈ m.walk, op.AttrsWellFormed :=
  forall_mem_walk_iff.2 h.attrs

theorem verify_value (m : Module) :
    m.verify.value =
      if m.diagnostics.isEmpty then .ok m.collectSymbols.value else .error m.diagnostics := by
  rw [verify, Log.Noted.value_bind]
  split <;> rfl

theorem accepted_iff {m : Module} : m.Accepted ↔ m.diagnostics = [] := by
  rw [Accepted, verify_value, ← List.isEmpty_iff]
  split <;> simp_all

/-- Verification accepts exactly the well-formed modules. -/
theorem accepted_iff_wellFormed (m : Module) : m.Accepted ↔ m.WellFormed :=
  accepted_iff.trans diagnostics_eq_nil_iff

end Module

end GenericIR
