import GenericIR.Attr
import GenericIR.Decimal

/-! Dense payloads and shapes. -/
namespace GenericIR

namespace Payload

mutual

/-- The payload is nested exactly as the shape says: a list of the right length for each
extent, and single numbers below the last one. -/
def isNested : List UInt64 → Payload → Bool
  | [], scalar _ => true
  | _ :: _, scalar _ => false
  | [], list _ => false
  | extent :: shape, list elements => elements.length == extent.toNat && allNested shape elements

def allNested (shape : List UInt64) : List Payload → Bool
  | [] => true
  | p :: ps => isNested shape p && allNested shape ps

end

/-- A single number fills any shape; a list has to be nested by it. -/
def fits (shape : List UInt64) : Payload → Bool
  | scalar _ => true
  | list elements => isNested shape (list elements)

end Payload

/-- The extents of a shape with a cross between them. -/
def shapeText (shape : List UInt64) : String :=
  "x".intercalate (shape.map fun extent => Decimal.string extent.toNat)

end GenericIR
