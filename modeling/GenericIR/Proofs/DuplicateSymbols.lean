import GenericIR.Proofs.FirstDefinitions
import GenericIR.Proofs.Scoping

/-! Symbols defined more than once. Verification reports the second definition of a symbol and no
other; collecting the symbols turns down every definition after the first. Which definition comes
second and which ones come later is said by the paths that lead to the operations. Where nothing is
reported, the collected table holds each definition under its own symbol, and nothing else. -/
namespace GenericIR

namespace Fault

def isDuplicateSymbol : Fault → Bool
  | duplicateSymbol _ => true
  | _ => false

/-- The faults that the check of the structure can find. -/
def IsStructural (f : Fault) : Prop :=
  f.isDuplicateSymbol = false

end Fault

theorem Operation.isStructural_of_mem_faults {op : Operation} {place : Place} {f : Fault}
    (hf : f ∈ op.faults place) : f.IsStructural := by
  simp only [faults, List.mem_append] at hf
  rcases hf with ((hf | hf) | hf) | hf
  · obtain ⟨x, -, rfl⟩ := List.mem_map.1 hf
    rfl
  · unfold markFaults at hf
    split at hf <;> simp_all [Fault.IsStructural, Fault.isDuplicateSymbol]
  · unfold successorFaults at hf
    split at hf <;> obtain ⟨label, -, rfl⟩ := List.mem_map.1 hf <;> rfl
  · obtain ⟨p, -, hf⟩ := List.mem_flatMap.1 hf
    obtain ⟨a, -, hf⟩ := Attr.mem_faults.1 hf
    rcases Attr.mem_ownFaults.1 hf with ⟨-, -, rfl⟩ | ⟨shape, t, payload, -, -, rfl⟩ <;> rfl

/-- A row is checked for structure where its operations are. -/
theorem Checked.isStructural_of_mem_sequence {labels : Option (List String)} {scope : Scope}
    {ops : List Operation} {last : Scope → List Diagnostic} {d : Diagnostic}
    (hops : ∀ op ∈ ops, ∀ place, ∀ d ∈ op.check place, d.fault.IsStructural)
    (hlast : ∀ scope, ∀ d ∈ last scope, d.fault.IsStructural)
    (hd : d ∈ sequence labels scope (ops.map fun op => (op, op.check)) last) :
    d.fault.IsStructural := by
  rw [sequence_eq, List.mem_append, List.mem_flatMap] at hd
  rcases hd with ⟨p, hp, hd⟩ | hd
  · rcases List.mem_append.1 hd with hd | hd
    · exact hops p.1 (List.fst_mem_of_mem_zipIdx hp) _ d hd
    · obtain ⟨v, -, rfl⟩ := List.mem_map.1 hd
      rfl
  · exact hlast _ d hd

theorem Region.isStructural_of_mem_check {r : Region} {d : Diagnostic}
    (hops : ∀ op ∈ r.operations, ∀ place, ∀ d ∈ op.check place, d.fault.IsStructural)
    (hd : d ∈ Region.check r) : d.fault.IsStructural := by
  rw [check_eq, List.mem_append, List.mem_flatMap] at hd
  rcases hd with hd | ⟨p, hp, hd⟩
  · obtain ⟨q, -, rfl⟩ := List.mem_map.1 hd
    rfl
  have hop (op : Operation) (h : op ∈ p.2.operations) := hops op (List.mem_flatMap.2 ⟨p, hp, h⟩)
  rw [Block.check_eq, List.mem_append] at hd
  rcases hd with hd | hd
  · obtain ⟨v, -, rfl⟩ := List.mem_map.1 hd
    rfl
  · refine Checked.isStructural_of_mem_sequence (fun op h => hop op ?_) (fun scope => ?_) hd
    · exact List.mem_append_left _ h
    · exact hop p.2.terminator (by simp [BlockOf.operations]) _

theorem Operation.isStructural_of_mem_check {op : Operation} {place : Place} {d : Diagnostic}
    (hd : d ∈ op.check place) : d.fault.IsStructural := by
  induction op using Operation.induction generalizing place d with
  | step op ih =>
    rw [check_eq, List.mem_append, List.mem_map, List.mem_flatMap] at hd
    rcases hd with ⟨f, hf, rfl⟩ | ⟨r, hr, hd⟩
    · exact isStructural_of_mem_faults hf
    · refine Region.isStructural_of_mem_check (fun o ho place d hd => ?_) hd
      exact ih o (List.mem_flatMap.2 ⟨r, hr, ho⟩) hd

/-- Given how many definitions came before, the one that makes the second of its symbol. -/
def secondAfter (count : Nat) (definitions : List Definition) : Option Definition :=
  match count with
  | 0 => definitions[1]?
  | 1 => definitions[0]?
  | _ => none

/-- Of each symbol exactly the second definition is reported. -/
theorem secondDefinitions_filter (seen : List String) (row : List (Operation × Nat))
    (name : String) :
    (secondDefinitions seen (row.map Prod.fst)).filter (·.fault = .duplicateSymbol name) =
      (secondAfter (seen.count name) (definitionsIn name row)).toList.map fun d =>
        d.operation.diagnose (.duplicateSymbol name) := by
  induction row generalizing seen with
  | nil =>
    have hnone : secondAfter (seen.count name) [] = none := by
      unfold secondAfter
      split <;> rfl
    simp [secondDefinitions, definitionsIn, hnone]
  | cons p row ih =>
    rw [List.map_cons, secondDefinitions, definitionsIn_cons]
    cases h : p.1.symbol? with
    | none => simp [ih]
    | some key =>
      simp only [List.filter_append, ih]
      by_cases hkey : key = name
      · subst hkey
        rcases hcount : seen.count key with _ | _ | n <;>
          simp [secondAfter, hcount, Operation.diagnose]
      · have hother : ∀ d ∈ (if seen.count key = 1 then [p.1.diagnose (.duplicateSymbol key)]
            else []), ¬ decide (d.fault = .duplicateSymbol name) := by
          split <;> simp [Operation.diagnose, hkey]
        rw [List.filter_eq_nil_iff.2 hother, List.count_cons_of_ne hkey]
        simp [hkey]

def Diagnostic.isDuplicateSymbol (d : Diagnostic) : Bool :=
  d.fault.isDuplicateSymbol

namespace Module

theorem positioned_map_fst (m : Module) : m.positioned.map Prod.fst = m.walk :=
  List.zipIdx_map_fst 0 m.walk

theorem symbolDiagnostics_filter (m : Module) (name : String) :
    m.symbolDiagnostics.filter (·.fault = .duplicateSymbol name) =
      (m.definitionsOf name)[1]?.toList.map fun d =>
        d.operation.diagnose (.duplicateSymbol name) := by
  rw [symbolDiagnostics, ← positioned_map_fst, secondDefinitions_filter]
  rfl

theorem isDuplicateSymbol_of_mem_symbolDiagnostics {m : Module} {d : Diagnostic}
    (hd : d ∈ m.symbolDiagnostics) : d.isDuplicateSymbol := by
  have hrow (seen : List String) (ops : List Operation) :
      ∀ d ∈ secondDefinitions seen ops, d.isDuplicateSymbol := by
    induction ops generalizing seen with
    | nil => exact fun d hd => absurd hd List.not_mem_nil
    | cons op ops ih =>
      rw [secondDefinitions]
      split
      · exact ih seen
      · refine List.forall_mem_append.2 ⟨?_, ih _⟩
        split <;> simp [Operation.diagnose, Diagnostic.isDuplicateSymbol, Fault.isDuplicateSymbol]
  exact hrow [] m.walk d hd

/-- Duplicate symbols are reported by the pass over the symbols and by nothing else. -/
theorem errors_filter_isDuplicateSymbol (m : Module) :
    m.errors.filter Diagnostic.isDuplicateSymbol = m.symbolDiagnostics := by
  have hstructure : ∀ d ∈ m.structureDiagnostics, ¬ d.isDuplicateSymbol := by
    intro d hd
    have hf : d.fault.IsStructural := Checked.isStructural_of_mem_sequence
      (fun op _ place d => op.isStructural_of_mem_check) (fun _ _ h => absurd h List.not_mem_nil) hd
    simpa [Fault.IsStructural, Diagnostic.isDuplicateSymbol] using hf
  rw [errors_eq, diagnostics, List.filter_append, List.filter_eq_nil_iff.2 hstructure,
    List.filter_eq_self.2 fun d hd => isDuplicateSymbol_of_mem_symbolDiagnostics hd,
    List.nil_append]

theorem rejectedInsertions_filter (m : Module) (name : String) :
    (m.rejectedInsertions.filter fun p => p.1 = name).map Prod.snd =
      (m.definitionsOf name).tail := by
  rw [rejectedInsertions, rejections_filter]
  rfl

/-- The second definition of a symbol comes after one other definition and before the rest. -/
theorem getElem?_one_definitionsOf {m : Module} {name : String} {d : Definition} :
    (m.definitionsOf name)[1]? = some d ↔
      ∃ s, m.DefinedAt d s ∧ s.Defines name ∧
        ∃ first ∈ m.sites outerFirst, first.Defines name ∧ first.path.Before s.path ∧
          ∀ t ∈ m.sites outerFirst, t.Defines name → t = first ∨ t = s ∨ s.path.Before t.path := by
  rw [getElem?_one_eq_some_iff_second Nat.lt_asymm (m.pairwise_definitionsOf name)]
  refine mem_definitionsOf_and_iff fun s hs => ?_
  refine exists_definitionsOf_iff fun e first hfirst => and_congr (hfirst.lt_iff hs) ?_
  exact forall_definitionsOf_iff fun f t ht =>
    or_congr (ht.eq_iff hfirst) (or_congr (ht.eq_iff hs) (hs.lt_iff ht))

/-- What follows the first definition of a symbol comes after some other one. -/
theorem mem_tail_definitionsOf {m : Module} {name : String} {d : Definition} :
    d ∈ (m.definitionsOf name).tail ↔
      ∃ s, m.DefinedAt d s ∧ s.Defines name ∧
        ∃ t ∈ m.sites outerFirst, t.Defines name ∧ t.path.Before s.path := by
  rw [mem_tail_iff_after Nat.lt_asymm (m.pairwise_definitionsOf name)]
  exact mem_definitionsOf_and_iff fun s hs => exists_definitionsOf_iff fun e t ht => ht.lt_iff hs

/-- A symbol is reported, and turned down, as soon as it has a second definition. -/
theorem exists_mem_errors_iff {m : Module} {name : String} :
    (∃ d ∈ m.errors, d.fault = .duplicateSymbol name) ↔ (m.definitionsOf name)[1]?.isSome := by
  have hreported : (∃ d ∈ m.errors, d.fault = .duplicateSymbol name) ↔
      ∃ d, d ∈ m.symbolDiagnostics.filter (·.fault = .duplicateSymbol name) := by
    rw [← errors_filter_isDuplicateSymbol, List.filter_filter]
    simp only [List.mem_filter, Bool.and_eq_true, decide_eq_true_eq]
    refine exists_congr fun d => and_congr_right fun _ => ?_
    exact (and_iff_left_of_imp fun h => by rw [Diagnostic.isDuplicateSymbol, h]; rfl).symm
  rw [hreported, symbolDiagnostics_filter]
  cases (m.definitionsOf name)[1]? <;> simp

theorem mem_rejectedInsertions_iff {m : Module} {name : String} :
    name ∈ m.rejectedInsertions.map Prod.fst ↔ (m.definitionsOf name)[1]?.isSome := by
  have hrejected : name ∈ m.rejectedInsertions.map Prod.fst ↔
      (m.rejectedInsertions.filter fun p => p.1 = name).map Prod.snd ≠ [] := by
    rw [Ne, List.map_eq_nil_iff, List.filter_eq_nil_iff, List.mem_map]
    simp
  rw [hrejected, rejectedInsertions_filter]
  rcases m.definitionsOf name with _ | ⟨d, _ | ⟨e, ds⟩⟩ <;> simp

/-- In a well-formed module no symbol has two definitions. -/
theorem WellFormed.length_definitionsOf_le {m : Module} (h : m.WellFormed) (name : String) :
    (m.definitionsOf name).length ≤ 1 := by
  have hcount : (m.definitionsOf name).length =
      (m.walk.filterMap Operation.symbol?).count name := by
    rw [List.count_filterMap, ← positioned_map_fst, List.countP_map, List.countP_eq_length_filter,
      definitionsOf, definitionsIn, List.length_map]
    exact congrArg List.length (List.filter_congr fun p _ => Bool.eq_iff_iff.2 (by simp))
  rw [hcount]
  exact List.nodup_iff_count_le_one.1 (symbols_nodup_iff.2 h.symbols_apart) name

/-- Of a symbol with at most one definition the table has exactly that one. -/
theorem WellFormed.lookup_collectSymbols_iff {m : Module} (h : m.WellFormed) {name : String}
    {d : Definition} :
    m.collectSymbols.value.lookup name = some d ↔
      m.walk[d.position]? = some d.operation ∧ d.operation.symbol? = some name := by
  rw [m.lookup_collectSymbols, ← mem_definitionsOf]
  have hlength := h.length_definitionsOf_le name
  rcases hrow : m.definitionsOf name with _ | ⟨e, _ | ⟨f, ds⟩⟩
  · simp
  · simp [eq_comm]
  · simp [hrow] at hlength

/-- Reports and rejections speak of the same symbols, in the order of the paths, and what an
accepted module gives back is exactly the operations with symbols, each under its own. -/
theorem duplicates_agree (m : Module) :
    m.errors.filter Diagnostic.isDuplicateSymbol = m.symbolDiagnostics ∧
    (∀ name, m.symbolDiagnostics.filter (·.fault = .duplicateSymbol name) =
      (m.definitionsOf name)[1]?.toList.map fun d =>
        d.operation.diagnose (.duplicateSymbol name)) ∧
    (∀ name, (m.rejectedInsertions.filter fun p => p.1 = name).map Prod.snd =
      (m.definitionsOf name).tail) ∧
    m.collectSymbols.notes.filter isWarning =
      m.rejectedInsertions.map (fun p => p.2.duplicateNote p.1) ∧
    (∀ name, (∃ d ∈ m.errors, d.fault = .duplicateSymbol name) ↔
      name ∈ m.rejectedInsertions.map Prod.fst) ∧
    (∀ table, m.verify.value = .ok table →
      (∀ op ∈ m.walk, ∀ a, op.findAttr symbolKey = some a → ∃ name, a = .string name) ∧
      ∀ name d, table.lookup name = some d ↔ m.walk[d.position]? = some d.operation ∧
        d.operation.findAttr symbolKey = some (.string name)) ∧
    (m.sites outerFirst).map Site.op = m.walk ∧
    (m.sites outerFirst).Pairwise (fun s t => s.path.Before t.path) ∧
    (∀ name, (m.definitionsOf name).Pairwise fun d e => d.position < e.position) ∧
    (∀ name d, (m.definitionsOf name)[1]? = some d ↔
      ∃ s, m.DefinedAt d s ∧ s.Defines name ∧
        ∃ first ∈ m.sites outerFirst, first.Defines name ∧ first.path.Before s.path ∧
          ∀ t ∈ m.sites outerFirst, t.Defines name →
            t = first ∨ t = s ∨ s.path.Before t.path) ∧
    (∀ name d, d ∈ (m.definitionsOf name).tail ↔
      ∃ s, m.DefinedAt d s ∧ s.Defines name ∧
        ∃ t ∈ m.sites outerFirst, t.Defines name ∧ t.path.Before s.path) := by
  refine ⟨m.errors_filter_isDuplicateSymbol, m.symbolDiagnostics_filter,
    m.rejectedInsertions_filter, ?_, fun name => ?_, fun table htable => ?_, m.map_op_sites,
    m.pairwise_sites, m.pairwise_definitionsOf, fun _ _ => getElem?_one_definitionsOf,
    fun _ _ => mem_tail_definitionsOf⟩
  · rw [m.collectSymbols_eq.2, warnings_collectRow]
    rfl
  · rw [exists_mem_errors_iff, mem_rejectedInsertions_iff]
  · have haccepted : m.Accepted := ⟨table, htable⟩
    have hm : m.WellFormed := diagnostics_eq_nil_iff.1 (accepted_iff.1 haccepted)
    have hcollected : table = m.collectSymbols.value := by
      rw [verify_value, accepted_iff.1 haccepted] at htable
      exact (Except.ok.inj htable).symm
    refine ⟨fun op hop => (hm.attrs_of_mem_walk op hop).symbol_string, fun name d => ?_⟩
    rw [hcollected, hm.lookup_collectSymbols_iff, Operation.symbol?_eq_some_iff]

end Module

end GenericIR
