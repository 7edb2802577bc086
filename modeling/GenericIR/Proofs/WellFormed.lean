import GenericIR.Proofs.Nesting
import GenericIR.Verify

/-! Well-formed modules: the rules that verification stands for, said of the program alone,
with no scope threaded and no order of checks. An operation is judged by the values bound
before it in its own block, a block by its names, a region by its labels. -/
namespace GenericIR

namespace Payload

/-- Lists of the right length for every extent, and single numbers below the last one. -/
inductive Nested : List UInt64 → Payload → Prop
  | scalar (value : Binary64) : Nested [] (scalar value)
  | list {extent : UInt64} {shape : List UInt64} {elements : List Payload}
      (length : elements.length = extent.toNat) (each : ∀ p ∈ elements, Nested shape p) :
      Nested (extent :: shape) (list elements)

/-- One number for all elements, or exactly the elements of the shape. -/
def Fills (shape : List UInt64) (p : Payload) : Prop :=
  (∃ value, p = scalar value) ∨ Nested shape p

end Payload

/-- `a.Holds b`: the attribute `b` is `a` itself or stands in it, arrays in arrays included. -/
inductive Attr.Holds : Attr → Attr → Prop
  | self (a : Attr) : Holds a a
  | element {elements : List Attr} {elementType : Ty} {a b : Attr}
      (mem : a ∈ elements) (holds : Holds a b) : Holds (array elements elementType) b

/-- What an operation carries under its keys. -/
structure Operation.AttrsWellFormed (op : Operation) : Prop where
  literals_fill : ∀ key a, op.findAttr key = some a → ∀ shape elementType payload,
    a.Holds (.dense shape elementType payload) → payload.Fills shape
  symbol_string : ∀ a, op.findAttr symbolKey = some a → ∃ name, a = .string name

/-- A block of a region in which the given labels are known. -/
structure Block.WellFormed (labels : List String) (b : Block) : Prop where
  operands_bound : ∀ i op, b.operations[i]? = some op → ∀ x ∈ op.operands,
    x ∈ (b.boundBefore i).map Value.name
  terminator_marked : b.terminator.isTerminator = true
  body_unmarked : ∀ op ∈ b.body, op.isTerminator = false
  successors_known : ∀ op ∈ b.operations, ∀ label ∈ op.successors, label ∈ labels
  names_nodup : (b.args.map Value.name ++ b.body.flatMap Operation.resultNames).Nodup

structure Region.WellFormed (r : Region) : Prop where
  labels_nodup : (r.blocks.map Prod.fst).Nodup
  entryLabel_reserved : RegionOf.entryLabel ∉ r.blocks.map Prod.fst
  entry : Block.WellFormed (RegionOf.entryLabel :: r.blocks.map Prod.fst) r.entry
  blocks : ∀ p ∈ r.blocks, Block.WellFormed (RegionOf.entryLabel :: r.blocks.map Prod.fst) p.2

/-- The operations of a module stand in a row as in the body of a block, in no region. -/
structure Module.WellFormed (m : Module) : Prop where
  operands_bound : ∀ i op, m.ops[i]? = some op → ∀ x ∈ op.operands,
    x ∈ (earlierResults m.ops i).map Value.name
  unmarked : ∀ op ∈ m.ops, op.isTerminator = false
  no_successors : ∀ op ∈ m.ops, op.successors = []
  names_nodup : (m.ops.flatMap Operation.resultNames).Nodup
  regions : ∀ path op bound, m.Stands path op bound → ∀ r ∈ op.regions, Region.WellFormed r
  attrs : ∀ path op bound, m.Stands path op bound → op.AttrsWellFormed
  /-- No symbol is defined at two paths. -/
  symbols_apart : ∀ path op bound path' op' bound' name, m.Stands path op bound →
    m.Stands path' op' bound' → op.symbol? = some name → op'.symbol? = some name → path = path'

/-- Verification finds nothing and answers with the symbols. -/
def Module.Accepted (m : Module) : Prop :=
  ∃ symbols, m.verify.value = .ok symbols

end GenericIR
