import GenericIR.Attr.Printer
import GenericIR.Operation.Fold
import GenericIR.Page
import GenericIR.Scope

/-! The text of operations, blocks, regions and modules. An operation names its operands but
not their types, so it is printed in a scope. A block starts its own scope from its arguments;
nothing else comes in from outside. -/
namespace GenericIR

/-- What is printed besides the program itself. -/
structure PrintOptions where
  locations : Bool := false
  deriving DecidableEq, Repr

/-- The place behind an operation or module, if it is wanted and known. -/
def Span.print (options : PrintOptions) (s : Span) : Text :=
  if options.locations && !s.isUnknown then
    Text.surround " loc(" ")" (Text.quoted s.file ++ ':' :: Decimal.digits s.start.row.toNat ++
      ':' :: Decimal.digits s.start.column.toNat)
  else []

def Value.print (v : Value) : Text :=
  v.name.toList ++ ": ".toList ++ v.type.print

/-- How an operation prints once it is told its scope. -/
abbrev Printed := Scope → Page

namespace Printed

/-- Operations in a row, each in the scope left by those before it, and then `last`. -/
def sequence (scope : Scope) : List (Operation × Printed) → Printed → Page
  | [], last => last scope
  | (op, printed) :: rest, last => printed scope ++ sequence (scope.bind op.results) rest last

/-- Only the entry block goes without a label, and only if it has no arguments. -/
def blockHeader (label : String) (args : List Value) : Page :=
  if label = RegionOf.entryLabel ∧ args.isEmpty then ∅
  else .line ('^' :: label.toList ++
    Text.surround "(" "):" (Text.commaSeparated (args.map Value.print)))

def block (label : String) (b : BlockOf (Operation × Printed)) : Page :=
  blockHeader label b.args ++ sequence b.entryScope b.body b.terminator.2

def region (r : RegionOf (Operation × Printed)) : Page :=
  .concat (r.labelled.map fun (label, b) => block label b)

end Printed

namespace Operation

variable (options : PrintOptions)

/-- Results, name and operands. -/
def opening (op : Operation) : Text :=
  (if op.results.isEmpty then []
    else Text.commaSeparated (op.resultNames.map String.toList) ++ " = ".toList) ++
  Text.surround "\"" "\"" op.name.toList ++
  Text.surround "(" ")" (Text.commaSeparated (op.operands.map String.toList))

def resultTypes (op : Operation) : Text :=
  match op.results with
  | [v] => v.type.print
  | vs => Text.surround "(" ")" (Text.commaSeparated (vs.map fun v => v.type.print))

/-- The operands with the types that the scope has for them. -/
def typedOperands (op : Operation) (scope : Scope) : List (String × Option Ty) :=
  op.operands.map fun x => (x, scope.find? x)

/-- Everything behind the regions. An operand without a type in scope leaves a gap. -/
def closing (op : Operation) (scope : Scope) : Text :=
  (if op.attrs.isEmpty then [] else ' ' :: op.attrs.print) ++
  Text.surround " : (" ") -> "
    (Text.commaSeparated ((op.typedOperands scope).map fun (_, type) => type.elim [] Ty.print)) ++
  op.resultTypes ++
  (if op.successors.isEmpty then []
    else Text.surround " [" "]" (Text.commaSeparated (op.successors.map ('^' :: ·.toList)))) ++
  op.loc.print options

def untypedOperands (op : Operation) (scope : Scope) : List UntypedOperand :=
  (op.typedOperands scope).filterMap fun (x, type) =>
    if type.isNone then some ⟨op.name, x⟩ else none

/-- An operation around its printed regions. -/
def frame (op : Operation) (scope : Scope) (regions : List Page) : Page :=
  (match regions with
    | [] => .line (op.opening ++ op.closing options scope)
    | regions =>
      .line (op.opening ++ " (\x7b".toList) ++
      .concat ((regions.map (·.nest 2)).intersperse (.line "\x7d, \x7b".toList)) ++
      .line ("\x7d)".toList ++ op.closing options scope)) ++
  .misses (op.untypedOperands scope)

def page (op : Operation) : Printed :=
  op.fold fun op regions scope => op.frame options scope (regions.map Printed.region)

def print (op : Operation) (scope : Scope) (level : Int) : Text :=
  (op.page options scope).print level

end Operation

namespace Block

def page (options : PrintOptions) (label : String) (b : Block) : Page :=
  Printed.block label (b.map fun op => (op, op.page options))

def print (options : PrintOptions) (label : String) (b : Block) (level : Int) : Text :=
  (b.page options label).print level

end Block

namespace Region

def page (options : PrintOptions) (r : Region) : Page :=
  Printed.region (r.map fun op => (op, op.page options))

def print (options : PrintOptions) (r : Region) (level : Int) : Text :=
  (r.page options).print level

end Region

theorem Operation.page_eq (options : PrintOptions) (op : Operation) (scope : Scope) :
    op.page options scope = op.frame options scope (op.regions.map (Region.page options)) := by
  rw [page, fold_eq, List.map_map]
  rfl

namespace Module

/-- The operations of a module share one scope, as if they were the body of a block. -/
def body (options : PrintOptions) (m : Module) : Page :=
  Printed.sequence ∅ (m.ops.map fun op => (op, op.page options)) fun _ => ∅

def page (options : PrintOptions) (m : Module) : Page :=
  .line "module \x7b".toList ++ (m.body options).nest 1 ++ .line ('}' :: m.loc.print options)

def print (options : PrintOptions) (m : Module) : Text :=
  (m.page options).print 0

/-- The text of the module, with notes of the printing. -/
def write (options : PrintOptions) (m : Module) : Log.Noted Text := do
  Log.Noted.note .debug "printer"
    ("Printing module with " ++ Decimal.string m.ops.length ++ " operations")
  (m.page options).write 0

end Module

end GenericIR
