import GenericIR.Decimal.Binary64
import GenericIR.Dict
import GenericIR.Ty

/-! Attributes: the constants that an operation carries under string keys. -/
namespace GenericIR

inductive Visibility where
  | shared | internal | nested
  deriving DecidableEq, Repr

def Visibility.name : Visibility → String
  | .shared => "public"
  | .internal => "private"
  | .nested => "nested"

/-- The elements of a dense literal: one number, or a list of such. -/
inductive Payload where
  | scalar (value : Binary64)
  | list (elements : List Payload)
  deriving Repr

def Payload.ofVector (values : List Binary64) : Payload :=
  .list (values.map .scalar)

/-- Where a type is absent, the attribute has none. -/
inductive Attr where
  | string (value : String)
  | bool (value : Bool)
  | int (value : Int64) (type : Ty)
  | float (value : Binary64) (type : Ty)
  | type (type : Ty)
  | array (elements : List Attr) (elementType : Ty)
  | dense (shape : List UInt64) (elementType : Ty) (payload : Payload)
  | symbolRef (name : String)
  | visibility (visibility : Visibility)
  | unit
  /-- A foreign attribute, known by its text. -/
  | custom (text : Option String)
  deriving Repr

namespace Attr

/-- A dense literal, of `f64` unless an element type is given. -/
def denseLiteral (shape : List UInt64) (payload : Payload) (elementType : Ty := .absent) : Attr :=
  .dense shape (if elementType.isAbsent then .f64 else elementType) payload

def string? : Attr → Option String
  | string value => some value
  | _ => none

end Attr

abbrev AttrDict := Dict Attr

end GenericIR
