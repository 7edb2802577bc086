import GenericIR.Diagnostic
import GenericIR.Scope
import GenericIR.Symbols

/-! Verification: the structural rules of a module. Operands are bound earlier in the same
block, names and labels are bound once, terminators stand at the end of blocks and branch
within their region, dense literals fill their shape, and symbols are strings and unique. -/
namespace GenericIR

/-- Where an operation stands. -/
structure Place where
  scope : Scope
  /-- The labels of the region around it; there is none around the operations of a module. -/
  labels : Option (List String)
  /-- It is the last of its block. -/
  isLast : Bool

/-- The elements whose key occurred before, among `seen` or in the list itself. -/
def repeats {α : Type} (key : α → String) (seen : List String) : List α → List α
  | [] => []
  | a :: as => (if key a ∈ seen then [a] else []) ++ repeats key (key a :: seen) as

namespace Attr

def symbolFaults (key : String) (a : Attr) : List Fault :=
  if key = symbolKey ∧ a.string? = none then [.symbolNotString] else []

mutual

/-- The elements of an array are judged under the key of the array. -/
def faults (key : String) : Attr → List Fault
  | array elements t => symbolFaults key (array elements t) ++ allFaults key elements
  | dense shape t payload =>
    symbolFaults key (dense shape t payload) ++
      if payload.fits shape then [] else [.shapeMismatch key shape]
  | a => symbolFaults key a

def allFaults (key : String) : List Attr → List Fault
  | [] => []
  | a :: as => faults key a ++ allFaults key as

end

@[simp] theorem allFaults_eq_flatMap (key : String) (as : List Attr) :
    allFaults key as = as.flatMap (faults key) := by
  induction as with
  | nil => rfl
  | cons a as ih => simp [allFaults, ih]

end Attr

namespace Operation

def operandFaults (op : Operation) (scope : Scope) : List Fault :=
  (op.operands.filter fun x => !scope.contains x).map .undefinedOperand

def markFaults (op : Operation) (isLast : Bool) : List Fault :=
  match isLast, op.isTerminator with
  | true, false => [.unmarkedTerminator]
  | false, true => [.earlyTerminator]
  | _, _ => []

def successorFaults (op : Operation) : Option (List String) → List Fault
  | none => op.successors.map .successorOutsideRegion
  | some labels => (op.successors.filter fun label => label ∉ labels).map .unknownSuccessor

/-- In a region a successor is at fault if no block is found under that label. -/
theorem successorFaults_labels {α : Type} (op : Operation) (r : RegionOf α) :
    op.successorFaults (some r.labels) =
      (op.successors.filter fun label => (r.findBlock label).isNone).map .unknownSuccessor := by
  have hlabel (label : String) : decide (label ∉ r.labels) = (r.findBlock label).isNone := by
    rw [Bool.eq_iff_iff, decide_eq_true_iff, ← RegionOf.isSome_findBlock]
    simp
  simp only [successorFaults, hlabel]

def attrFaults (op : Operation) : List Fault :=
  op.attrs.toSortedList.flatMap fun (key, a) => a.faults key

/-- What is wrong with the operation itself, whatever is inside. -/
def faults (op : Operation) (place : Place) : List Fault :=
  op.operandFaults place.scope ++ op.markFaults place.isLast ++
    op.successorFaults place.labels ++ op.attrFaults

/-- The results whose names are taken. -/
def redefinitions (op : Operation) (scope : Scope) : List Diagnostic :=
  (repeats Value.name scope.names op.results).map fun v => op.diagnose (.redefinition v.name)

end Operation

/-- What is wrong with an operation and everything inside, once it is told its place. -/
abbrev Checked := Place → List Diagnostic

namespace Checked

/-- Operations in a row, each in the scope left by those before it, and then `last`. -/
def sequence (labels : Option (List String)) (scope : Scope) :
    List (Operation × Checked) → (Scope → List Diagnostic) → List Diagnostic
  | [], last => last scope
  | (op, checked) :: rest, last =>
    checked ⟨scope, labels, false⟩ ++ op.redefinitions scope ++
      sequence labels (scope.bind op.results) rest last

/-- Faults of the arguments are laid to the terminator. -/
def block (labels : List String) (b : BlockOf (Operation × Checked)) : List Diagnostic :=
  ((repeats Value.name [] b.args).map fun v => b.terminator.1.diagnose (.duplicateArgument v.name))
    ++ sequence (some labels) b.entryScope b.body fun scope =>
      b.terminator.2 ⟨scope, some labels, true⟩

/-- The label of the entry block is taken from the beginning. -/
def region (r : RegionOf (Operation × Checked)) : List Diagnostic :=
  ((repeats Prod.fst [RegionOf.entryLabel] r.blocks).map fun (label, b) =>
    b.terminator.1.diagnose (.duplicateLabel label))
    ++ r.labelled.flatMap fun (_, b) => block r.labels b

end Checked

def Operation.check (op : Operation) : Checked :=
  op.fold fun op regions place =>
    (op.faults place).map op.diagnose ++ regions.flatMap Checked.region

def Block.check (labels : List String) (b : Block) : List Diagnostic :=
  Checked.block labels (b.map fun op => (op, op.check))

def Region.check (r : Region) : List Diagnostic :=
  Checked.region (r.map fun op => (op, op.check))

theorem Operation.check_eq (op : Operation) (place : Place) :
    op.check place = (op.faults place).map op.diagnose ++ op.regions.flatMap Region.check := by
  rw [check, fold_eq, List.flatMap_map]
  rfl

/-- The second definition of each symbol, given the symbols defined before. -/
def secondDefinitions (seen : List String) : List Operation → List Diagnostic
  | [] => []
  | op :: ops =>
    match op.symbol? with
    | none => secondDefinitions seen ops
    | some name =>
      (if seen.count name = 1 then [op.diagnose (.duplicateSymbol name)] else []) ++
        secondDefinitions (name :: seen) ops

namespace Module

open Log

def structureDiagnostics (m : Module) : List Diagnostic :=
  Checked.sequence none ∅ (m.ops.map fun op => (op, op.check)) fun _ => []

def symbolDiagnostics (m : Module) : List Diagnostic :=
  secondDefinitions [] m.walk

def diagnostics (m : Module) : List Diagnostic :=
  m.structureDiagnostics ++ m.symbolDiagnostics

/-- The symbols of a module without faults, or else all its faults. -/
def verify (m : Module) : Noted (Except (List Diagnostic) (SymbolTable Definition)) := do
  m.diagnostics.forM fun d => Noted.note .debug "verify" d.summary
  if m.diagnostics.isEmpty then
    return .ok (← m.collectSymbols)
  else
    Noted.note .info "verify"
      ("Module failed verification with " ++ Decimal.string m.diagnostics.length ++ " errors")
    return .error m.diagnostics

end Module

end GenericIR
