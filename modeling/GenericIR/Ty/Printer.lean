import GenericIR.Decimal
import GenericIR.Ty

/-! The text of types. -/
namespace GenericIR

/-- The extent and the cross after it. -/
def Dim.print : Dim → Text
  | .fixed extent => Decimal.digits extent.toNat ++ ['x']
  | .dynamic => "*x".toList

namespace Ty

/-- A shape in front of the text of its element. -/
def printShaped (dims : List Dim) (element : Text) : Text :=
  dims.flatMap Dim.print ++ element

def nullText : Text := "<null>".toList

def printCustom (text : Option String) : Text :=
  text.elim nullText String.toList

mutual

def print : Ty → Text
  | absent => nullText
  | int width => 'i' :: Decimal.digits width.bits
  | float width => 'f' :: Decimal.digits width.bits
  | index => "index".toList
  | memref dims element => Text.surround "memref<" ">" (printShaped dims (print element))
  | tensor dims element => Text.surround "tensor<" ">" (printShaped dims (print element))
  | unrankedTensor element => Text.surround "tensor<*x" ">" (print element)
  | struct fields => Text.surround "struct<" ">" (Text.commaSeparated (printAll fields))
  | named name => '!' :: name.toList
  | function inputs results =>
    Text.surround "(" ") -> (" (Text.commaSeparated (printAll inputs)) ++
      Text.commaSeparated (printAll results) ++ [')']
  | custom text => printCustom text

def printAll : List Ty → List Text
  | [] => []
  | t :: ts => print t :: printAll ts

end

@[simp] theorem printAll_eq_map (ts : List Ty) : printAll ts = ts.map print := by
  induction ts with
  | nil => rfl
  | cons t ts ih => simp [printAll, ih]

end Ty

end GenericIR
