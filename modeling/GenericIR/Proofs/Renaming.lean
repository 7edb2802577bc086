import Mathlib.Logic.Equiv.Basic
import GenericIR.Proofs.InsertionOrder

/-! Names do not matter to verification. Renaming values and labels one to one renames the
diagnostics and changes nothing else about them: scopes, the names bound so far and the labels of
regions of the renamed module are those of the module, renamed. This holds in whatever order the
attributes of an operation are visited, since these have no part in it. -/
namespace GenericIR

/-- New names for values and for labels, different ones for different names. The entry block keeps
its label. -/
structure Renaming where
  value : String → String
  label : String → String
  value_injective : Function.Injective value
  label_injective : Function.Injective label
  label_entry : label RegionOf.entryLabel = RegionOf.entryLabel

section Definitions

variable {α : Type} (ρ : Renaming)

def Value.renamed (v : Value) : Value :=
  { v with name := ρ.value v.name }

def BlockOf.renamed (b : BlockOf α) : BlockOf α :=
  { b with args := b.args.map (Value.renamed ρ) }

def RegionOf.renamed (r : RegionOf α) : RegionOf α where
  entry := r.entry.renamed ρ
  blocks := r.blocks.map fun p => (ρ.label p.1, p.2.renamed ρ)

def Operation.renamed (op : Operation) : Operation :=
  op.fold fun op regions =>
    { op with
      operands := op.operands.map ρ.value
      results := op.results.map (Value.renamed ρ)
      regions := regions.map fun r => (r.map Prod.snd).renamed ρ
      successors := op.successors.map ρ.label }

def Module.renamed (m : Module) : Module :=
  { m with ops := m.ops.map (Operation.renamed ρ) }

def Scope.renamed (scope : Scope) : Scope :=
  ⟨scope.entries.map fun p => (ρ.value p.1, p.2)⟩

def Place.renamed (place : Place) : Place where
  scope := place.scope.renamed ρ
  labels := place.labels.map (·.map ρ.label)
  isLast := place.isLast

def Fault.renamed : Fault → Fault
  | undefinedOperand x => undefinedOperand (ρ.value x)
  | successorOutsideRegion label => successorOutsideRegion (ρ.label label)
  | unknownSuccessor label => unknownSuccessor (ρ.label label)
  | duplicateLabel label => duplicateLabel (ρ.label label)
  | duplicateArgument x => duplicateArgument (ρ.value x)
  | redefinition x => redefinition (ρ.value x)
  | f => f

def Diagnostic.renamed (d : Diagnostic) : Diagnostic :=
  { d with fault := d.fault.renamed ρ }

end Definitions

variable {α β : Type} {ρ : Renaming}

@[simp] theorem RegionOf.labelled_renamed (r : RegionOf α) :
    (r.renamed ρ).labelled = r.labelled.map fun p => (ρ.label p.1, p.2.renamed ρ) := by
  simp [labelled, renamed, ρ.label_entry]

@[simp] theorem RegionOf.labels_renamed (r : RegionOf α) :
    (r.renamed ρ).labels = r.labels.map ρ.label := by
  simp [labels, Function.comp_def]

@[simp] theorem BlockOf.operations_renamed (b : BlockOf α) :
    (b.renamed ρ).operations = b.operations := rfl

@[simp] theorem RegionOf.operations_renamed (r : RegionOf α) :
    (r.renamed ρ).operations = r.operations := by
  simp [operations, List.flatMap_map]

theorem Operation.renamed_eq (op : Operation) :
    op.renamed ρ =
      { op with
        operands := op.operands.map ρ.value
        results := op.results.map (Value.renamed ρ)
        regions := op.regions.map fun r => (r.map (renamed ρ)).renamed ρ
        successors := op.successors.map ρ.label } := by
  rw [renamed, fold_eq]
  simp only [List.map_map, Function.comp_def, RegionOf.map_map]
  rfl

theorem Operation.children_renamed (op : Operation) :
    (op.renamed ρ).children = op.children.map (renamed ρ) := by
  simp only [renamed_eq, children, List.flatMap_map, RegionOf.operations_renamed,
    RegionOf.operations_map, List.map_flatMap]

theorem Operation.walk_renamed (op : Operation) :
    (op.renamed ρ).walk = op.walk.map (renamed ρ) := by
  induction op using Operation.induction with
  | step op ih =>
    rw [walk_eq, walk_eq, children_renamed, List.map_cons, List.flatMap_map, List.map_flatMap]
    exact congrArg (_ :: ·) (List.flatMap_congr fun o ho => ih o ho)

theorem Module.walk_renamed (m : Module) :
    (m.renamed ρ).walk = m.walk.map (Operation.renamed ρ) := by
  simp only [walk, renamed, List.flatMap_map, List.map_flatMap, Operation.walk_renamed]

namespace Scope

@[simp] theorem names_renamed (scope : Scope) :
    (scope.renamed ρ).names = scope.names.map ρ.value := by
  simp [names, renamed, Function.comp_def]

theorem bind_renamed (scope : Scope) (values : List Value) :
    (scope.renamed ρ).bind (values.map (Value.renamed ρ)) = (scope.bind values).renamed ρ := by
  simp [bind, Dict.update, renamed, Value.renamed, Function.comp_def]

theorem contains_renamed (scope : Scope) (x : String) :
    (scope.renamed ρ).contains (ρ.value x) = scope.contains x := by
  rw [Bool.eq_iff_iff, contains_iff, contains_iff, names_renamed,
    List.mem_map_of_injective ρ.value_injective]

end Scope

theorem BlockOf.entryScope_renamed (b : BlockOf α) :
    (b.renamed ρ).entryScope = b.entryScope.renamed ρ :=
  Scope.bind_renamed ∅ b.args

/-- What is repeated among names stays so among the new names, and is reported under these. -/
theorem map_repeats_renamed (key : α → String) (key' : β → String) {f : α → β}
    {g : String → String} (hg : Function.Injective g) (hkey : ∀ a, key' (f a) = g (key a))
    (seen : List String) (as : List α) {report : α → Diagnostic} {report' : β → Diagnostic}
    (hreport : ∀ a ∈ as, report' (f a) = (report a).renamed ρ) :
    (repeats key' (seen.map g) (as.map f)).map report' =
      ((repeats key seen as).map report).map (Diagnostic.renamed ρ) := by
  rw [repeats_map_of_injective key key' hg hkey, List.map_map, List.map_map]
  exact List.map_congr_left fun a ha => hreport a (mem_of_mem_repeats ha)

namespace Operation

variable (op : Operation)

theorem diagnose_renamed (f : Fault) :
    (op.renamed ρ).diagnose (f.renamed ρ) = (op.diagnose f).renamed ρ := by
  rw [renamed_eq]
  rfl

theorem operandFaults_renamed (scope : Scope) :
    (op.renamed ρ).operandFaults (scope.renamed ρ) =
      (op.operandFaults scope).map (Fault.renamed ρ) := by
  simp only [operandFaults, renamed_eq, List.filter_map, List.map_map, Function.comp_def,
    Scope.contains_renamed]
  rfl

theorem markFaults_renamed (isLast : Bool) :
    (op.renamed ρ).markFaults isLast = (op.markFaults isLast).map (Fault.renamed ρ) := by
  simp only [markFaults, renamed_eq]
  split <;> rfl

theorem successorFaults_renamed (labels : Option (List String)) :
    (op.renamed ρ).successorFaults (labels.map (·.map ρ.label)) =
      (op.successorFaults labels).map (Fault.renamed ρ) := by
  cases labels with
  | none => simp [successorFaults, renamed_eq, Fault.renamed]
  | some labels =>
    simp only [successorFaults, renamed_eq, Option.map_some, List.filter_map, List.map_map,
      Function.comp_def, List.mem_map_of_injective ρ.label_injective]
    rfl

/-- Attributes name neither values nor labels. -/
theorem attrFault_renamed {key : String} {a : Attr} {f : Fault} (hf : f ∈ a.faults key) :
    f.renamed ρ = f := by
  obtain ⟨a, -, hf⟩ := Attr.mem_faults.1 hf
  rcases Attr.mem_ownFaults.1 hf with ⟨-, -, rfl⟩ | ⟨shape, t, payload, -, -, rfl⟩ <;> rfl

theorem faultsIn_renamed (order : AttrDict → List (String × Attr)) (place : Place) :
    (op.renamed ρ).faultsIn order (place.renamed ρ) =
      (op.faultsIn order place).map (Fault.renamed ρ) := by
  have hattrs : (op.renamed ρ).attrs = op.attrs := by rw [renamed_eq]
  have hsame : ((order op.attrs).flatMap fun p => p.2.faults p.1).map (Fault.renamed ρ) =
      (order op.attrs).flatMap fun p => p.2.faults p.1 := by
    rw [List.map_congr_left fun f hf => ?_, List.map_id']
    obtain ⟨p, -, hf⟩ := List.mem_flatMap.1 hf
    exact attrFault_renamed hf
  simp only [faultsIn, Place.renamed, operandFaults_renamed, markFaults_renamed,
    successorFaults_renamed, hattrs, List.map_append]
  exact congrArg (_ ++ ·) hsame.symm

theorem redefinitions_renamed (scope : Scope) :
    (op.renamed ρ).redefinitions (scope.renamed ρ) =
      (op.redefinitions scope).map (Diagnostic.renamed ρ) := by
  have hresults : (op.renamed ρ).results = op.results.map (Value.renamed ρ) := by rw [renamed_eq]
  rw [redefinitions, redefinitions, hresults, Scope.names_renamed]
  exact map_repeats_renamed Value.name Value.name ρ.value_injective (fun _ => rfl) _ _
    fun v _ => op.diagnose_renamed (.redefinition v.name)

end Operation

namespace Checked

/-- The second operation is the first one renamed, and so is what is found wrong with it. -/
structure Renamed (ρ : Renaming) (p q : Operation × Checked) : Prop where
  own : q.1 = p.1.renamed ρ
  checked : ∀ place, q.2 (place.renamed ρ) = (p.2 place).map (Diagnostic.renamed ρ)

variable {f g : α → Operation × Checked}

theorem sequence_renamed {ps qs : List (Operation × Checked)} (h : List.Forall₂ (Renamed ρ) ps qs)
    {last last' : Scope → List Diagnostic}
    (hlast : ∀ scope, last' (scope.renamed ρ) = (last scope).map (Diagnostic.renamed ρ))
    (labels : Option (List String)) (scope : Scope) :
    sequence (labels.map (·.map ρ.label)) (scope.renamed ρ) qs last' =
      (sequence labels scope ps last).map (Diagnostic.renamed ρ) := by
  induction h generalizing scope with
  | nil => exact hlast scope
  | @cons p q _ _ hpq _ ih =>
    have hresults : (p.1.renamed ρ).results = p.1.results.map (Value.renamed ρ) := by
      rw [Operation.renamed_eq]
    have hchecked := hpq.checked ⟨scope, labels, false⟩
    rw [sequence, sequence, List.map_append, List.map_append, hpq.own, hresults,
      Scope.bind_renamed, ih, p.1.redefinitions_renamed, ← hchecked]
    rfl

theorem block_renamed {b : BlockOf α} (h : ∀ a ∈ b.operations, Renamed ρ (f a) (g a))
    (labels : List String) :
    block (labels.map ρ.label) ((b.map g).renamed ρ) =
      (block labels (b.map f)).map (Diagnostic.renamed ρ) := by
  have hlast : Renamed ρ (f b.terminator) (g b.terminator) :=
    h b.terminator (by simp [BlockOf.operations])
  have hbody : List.Forall₂ (Renamed ρ) (b.body.map f) (b.body.map g) :=
    forall₂_map_map fun a ha => h a (List.mem_append_left _ ha)
  have hargs : ((repeats Value.name [] (b.args.map (Value.renamed ρ))).map fun v =>
      (g b.terminator).1.diagnose (.duplicateArgument v.name)) =
        ((repeats Value.name [] b.args).map fun v =>
          (f b.terminator).1.diagnose (.duplicateArgument v.name)).map (Diagnostic.renamed ρ) := by
    rw [hlast.own]
    exact map_repeats_renamed Value.name Value.name ρ.value_injective (fun _ => rfl) [] b.args
      fun v _ => (f b.terminator).1.diagnose_renamed (.duplicateArgument v.name)
  have hrow : sequence (some (labels.map ρ.label)) (b.entryScope.renamed ρ) (b.body.map g)
      (fun scope => (g b.terminator).2 ⟨scope, some (labels.map ρ.label), true⟩) =
        (sequence (some labels) b.entryScope (b.body.map f) fun scope =>
          (f b.terminator).2 ⟨scope, some labels, true⟩).map (Diagnostic.renamed ρ) :=
    sequence_renamed hbody (fun scope => hlast.checked ⟨scope, some labels, true⟩) (some labels) _
  rw [← BlockOf.entryScope_renamed] at hrow
  rw [block, block, List.map_append]
  exact congrArg₂ _ hargs hrow

theorem region_renamed {r : RegionOf α} (h : ∀ a ∈ r.operations, Renamed ρ (f a) (g a)) :
    region ((r.map g).renamed ρ) = (region (r.map f)).map (Diagnostic.renamed ρ) := by
  have hblock (p : String × BlockOf α) (hp : p ∈ r.labelled) :
      ∀ a ∈ p.2.operations, Renamed ρ (f a) (g a) :=
    fun a ha => h a (List.mem_flatMap.2 ⟨p, hp, ha⟩)
  rw [region, region, List.map_append]
  congr 1
  · have hblocks : ((r.map g).renamed ρ).blocks =
        r.blocks.map fun p => (ρ.label p.1, (p.2.map g).renamed ρ) := by
      simp only [RegionOf.map, RegionOf.renamed, List.map_map, Function.comp_def]
    have hentry : [RegionOf.entryLabel].map ρ.label = [RegionOf.entryLabel] := by
      rw [List.map_singleton, ρ.label_entry]
    rw [map_repeats_labels, hblocks]
    conv_lhs => rw [← hentry]
    refine map_repeats_renamed Prod.fst Prod.fst ρ.label_injective (fun _ => rfl) _ r.blocks
      fun p hp => ?_
    have hlast := hblock p (List.mem_cons_of_mem _ hp) p.2.terminator (by simp [BlockOf.operations])
    have hdiagnose := (f p.2.terminator).1.diagnose_renamed (ρ := ρ) (.duplicateLabel p.1)
    rwa [← hlast.own] at hdiagnose
  · rw [RegionOf.labels_renamed, RegionOf.labelled_renamed, RegionOf.labels_map,
      RegionOf.labels_map, RegionOf.labelled_map, RegionOf.labelled_map, List.flatMap_map,
      List.flatMap_map, List.flatMap_map, List.map_flatMap]
    exact List.flatMap_congr fun p hp => block_renamed (hblock p hp) r.labels

end Checked

theorem RegionOf.map_renamed (r : RegionOf α) (f : α → β) :
    (r.renamed ρ).map f = (r.map f).renamed ρ := by
  simp only [RegionOf.map, renamed, List.map_map, Function.comp_def]
  rfl

theorem Operation.checkIn_renamed (op : Operation) (order : AttrDict → List (String × Attr))
    (place : Place) :
    (op.renamed ρ).checkIn order (place.renamed ρ) =
      (op.checkIn order place).map (Diagnostic.renamed ρ) := by
  induction op using Operation.induction generalizing place with
  | step op ih =>
    have hregions : ((op.renamed ρ).regions.flatMap fun r =>
        Checked.region (r.map fun o => (o, o.checkIn order))) =
          (op.regions.flatMap fun r =>
            Checked.region (r.map fun o => (o, o.checkIn order))).map (Diagnostic.renamed ρ) := by
      rw [renamed_eq, List.map_flatMap, List.flatMap_map]
      refine List.flatMap_congr fun r hr => ?_
      rw [RegionOf.map_renamed, RegionOf.map_map]
      refine Checked.region_renamed fun o ho => ⟨rfl, fun place => ?_⟩
      exact ih o (List.mem_flatMap.2 ⟨r, hr, ho⟩) place
    rw [checkIn_eq, checkIn_eq, faultsIn_renamed, hregions, List.map_append, List.map_map,
      List.map_map]
    refine congrArg (· ++ _) (List.map_congr_left fun f _ => ?_)
    exact op.diagnose_renamed f

theorem Operation.symbol?_renamed (op : Operation) : (op.renamed ρ).symbol? = op.symbol? := by
  rw [symbol?, symbol?, findAttr, findAttr, renamed_eq]

theorem secondDefinitions_renamed (seen : List String) (ops : List Operation) :
    secondDefinitions seen (ops.map (Operation.renamed ρ)) =
      (secondDefinitions seen ops).map (Diagnostic.renamed ρ) := by
  induction ops generalizing seen with
  | nil => rfl
  | cons op ops ih =>
    rw [List.map_cons, secondDefinitions, secondDefinitions, op.symbol?_renamed]
    cases op.symbol? with
    | none => exact ih seen
    | some name =>
      have hdiagnose := op.diagnose_renamed (ρ := ρ) (.duplicateSymbol name)
      dsimp only
      rw [ih, List.map_append]
      split
      · exact congrArg (· :: _) hdiagnose
      · rfl

namespace Module

theorem diagnosticsIn_renamed (m : Module) (order : AttrDict → List (String × Attr)) :
    (m.renamed ρ).diagnosticsIn order = (m.diagnosticsIn order).map (Diagnostic.renamed ρ) := by
  have hops : List.Forall₂ (Checked.Renamed ρ) (m.ops.map fun op => (op, op.checkIn order))
      ((m.renamed ρ).ops.map fun op => (op, op.checkIn order)) := by
    rw [renamed, List.map_map]
    exact forall₂_map_map fun op _ => ⟨rfl, op.checkIn_renamed order⟩
  have hsymbols : (m.renamed ρ).symbolDiagnostics =
      m.symbolDiagnostics.map (Diagnostic.renamed ρ) := by
    rw [symbolDiagnostics, symbolDiagnostics, walk_renamed, secondDefinitions_renamed]
  rw [diagnosticsIn, diagnosticsIn, List.map_append, hsymbols]
  exact congrArg (· ++ _) (Checked.sequence_renamed hops (fun _ => rfl) none ∅)

end Module

namespace Fault

/-- The value whose name is in the message. -/
def value? : Fault → Option String
  | undefinedOperand x | duplicateArgument x | redefinition x => some x
  | _ => none

/-- The label that is in the message. -/
def label? : Fault → Option String
  | successorOutsideRegion label | unknownSuccessor label | duplicateLabel label => some label
  | _ => none

/-- The message is the same but for the name of a value or a label in it, which is the new one. -/
structure SaysRenamed (ρ : Renaming) (f g : Fault) : Prop where
  value : ∀ x, f.value? = some x → ∃ before after, f.message = before ++ x ++ after ∧
    g.message = before ++ ρ.value x ++ after
  label : ∀ x, f.label? = some x → ∃ before after, f.message = before ++ x ++ after ∧
    g.message = before ++ ρ.label x ++ after
  other : f.value? = none → f.label? = none → g.message = f.message

section SaysRenamed

variable {f g : Fault} {x before after : String}

theorem SaysRenamed.of_value (hvalue : f.value? = some x) (hlabel : f.label? = none)
    (hf : f.message = before ++ x ++ after) (hg : g.message = before ++ ρ.value x ++ after) :
    f.SaysRenamed ρ g where
  value y hy := by
    obtain rfl : x = y := Option.some.inj (hvalue.symm.trans hy)
    exact ⟨before, after, hf, hg⟩
  label y hy := nomatch hlabel.symm.trans hy
  other hnone := nomatch hvalue.symm.trans hnone

theorem SaysRenamed.of_label (hvalue : f.value? = none) (hlabel : f.label? = some x)
    (hf : f.message = before ++ x ++ after) (hg : g.message = before ++ ρ.label x ++ after) :
    f.SaysRenamed ρ g where
  value y hy := nomatch hvalue.symm.trans hy
  label y hy := by
    obtain rfl : x = y := Option.some.inj (hlabel.symm.trans hy)
    exact ⟨before, after, hf, hg⟩
  other _ hnone := nomatch hlabel.symm.trans hnone

end SaysRenamed

theorem saysRenamed (ρ : Renaming) (f : Fault) : f.SaysRenamed ρ (f.renamed ρ) := by
  have hend (s : String) : s = s ++ "" := String.append_empty.symm
  cases f with
  | undefinedOperand x => exact .of_value rfl rfl rfl rfl
  | successorOutsideRegion label => exact .of_label rfl rfl rfl rfl
  | unknownSuccessor label => exact .of_label rfl rfl rfl rfl
  | duplicateLabel label => exact .of_label rfl rfl (hend _) (hend _)
  | duplicateArgument x => exact .of_value rfl rfl (hend _) (hend _)
  | redefinition x => exact .of_value rfl rfl (hend _) (hend _)
  | _ => exact ⟨nofun, nofun, fun _ _ => rfl⟩

end Fault

/-- But for the names in their messages, the diagnostics are the same at every position. -/
theorem Module.diagnosticsIn_renamed_rel (m : Module) (ρ : Renaming)
    (order : AttrDict → List (String × Attr)) :
    List.Forall₂ (fun d e : Diagnostic => d.opName = e.opName ∧ d.opId = e.opId ∧ d.loc = e.loc ∧
      d.fault.SaysRenamed ρ e.fault) (m.diagnosticsIn order) ((m.renamed ρ).diagnosticsIn order) := by
  rw [diagnosticsIn_renamed, List.forall₂_map_right_iff, List.forall₂_same]
  exact fun d _ => ⟨rfl, rfl, rfl, d.fault.saysRenamed ρ⟩

/-- Renaming a module renames its diagnostics, and so does not change whether it is accepted; nor
does it hang on the order in which attributes are visited. -/
theorem Module.verification_renamed (m : Module) (ρ : Renaming) :
    ((m.renamed ρ).Accepted ↔ m.Accepted) ∧
    (m.renamed ρ).errors = m.errors.map (Diagnostic.renamed ρ) ∧
    List.Forall₂ (fun d e : Diagnostic => d.opName = e.opName ∧ d.opId = e.opId ∧ d.loc = e.loc ∧
      d.fault.SaysRenamed ρ e.fault) m.errors (m.renamed ρ).errors ∧
    ∀ order,
      ((m.renamed ρ).diagnosticsIn order = [] ↔ m.diagnosticsIn order = []) ∧
      (m.renamed ρ).diagnosticsIn order = (m.diagnosticsIn order).map (Diagnostic.renamed ρ) ∧
      List.Forall₂ (fun d e : Diagnostic => d.opName = e.opName ∧ d.opId = e.opId ∧
        d.loc = e.loc ∧ d.fault.SaysRenamed ρ e.fault) (m.diagnosticsIn order)
        ((m.renamed ρ).diagnosticsIn order) := by
  have hdiagnostics : (m.renamed ρ).diagnostics = m.diagnostics.map (Diagnostic.renamed ρ) :=
    m.diagnosticsIn_renamed Dict.toSortedList
  refine ⟨?_, ?_, ?_, fun order => ⟨?_, m.diagnosticsIn_renamed order, ?_⟩⟩
  · rw [accepted_iff, accepted_iff, hdiagnostics, List.map_eq_nil_iff]
  · rw [errors_eq, errors_eq, hdiagnostics]
  · rw [errors_eq, errors_eq]
    exact m.diagnosticsIn_renamed_rel ρ Dict.toSortedList
  · rw [m.diagnosticsIn_renamed, List.map_eq_nil_iff]
  · exact m.diagnosticsIn_renamed_rel ρ order

/-- Two values change names, and so do two labels. -/
def Renaming.swap (x y k l : String) (hk : k ≠ RegionOf.entryLabel)
    (hl : l ≠ RegionOf.entryLabel) : Renaming where
  value := Equiv.swap x y
  label := Equiv.swap k l
  value_injective := (Equiv.swap x y).injective
  label_injective := (Equiv.swap k l).injective
  label_entry := Equiv.swap_apply_of_ne_of_ne hk.symm hl.symm

/-- A block with an argument twice, whose terminator uses an unbound value and goes astray. -/
def strayModule : Module where
  ops := [{
    name := "test.func"
    id := "1"
    regions := [{ entry := {
      args := [⟨"%a", .i32⟩, ⟨"%a", .i32⟩]
      terminator := {
        name := "cf.br"
        id := "2"
        operands := ["%b"]
        isTerminator := true
        successors := ["bb1", "bb0"] } } }] }]

theorem strayModule_renamed :
    (strayModule.renamed (.swap "%a" "%b" "bb1" "bb2" (by decide) (by decide))).errors.map
        (fun d => d.fault) =
      [.duplicateArgument "%b", .undefinedOperand "%a", .unknownSuccessor "bb2"] := by
  rw [(strayModule.verification_renamed _).2.1]
  decide +kernel

end GenericIR
