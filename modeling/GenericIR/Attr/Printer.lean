import GenericIR.Attr
import GenericIR.Text.Quoted
import GenericIR.Ty.Printer

/-! The text of attributes and of attribute dictionaries. -/
namespace GenericIR

namespace Payload

mutual

def print : Payload → Text
  | scalar value => value.print
  | list elements => Text.surround "[" "]" (Text.commaSeparated (printAll elements))

def printAll : List Payload → List Text
  | [] => []
  | p :: ps => print p :: printAll ps

end

@[simp] theorem printAll_eq_map (ps : List Payload) : printAll ps = ps.map print := by
  induction ps with
  | nil => rfl
  | cons p ps ih => simp [printAll, ih]

end Payload

namespace Attr

/-- The type that follows a number, if it has one. -/
def printSuffix (t : Ty) : Text :=
  if t.isAbsent then [] else " : ".toList ++ t.print

mutual

def print : Attr → Text
  | string value => Text.quoted value
  | bool value => (if value then "true" else "false").toList
  | int value t => Decimal.signed value.toInt ++ printSuffix t
  | float value t => value.print ++ printSuffix t
  | .type t => t.print
  | array elements _ => Text.surround "[" "]" (Text.commaSeparated (printAll elements))
  | dense shape elementType payload =>
    Text.surround "dense<" "> : " payload.print ++
      Text.surround "tensor<" ">" (Ty.printShaped (shape.map .fixed) elementType.print)
  | symbolRef name => '@' :: name.toList
  | visibility v => Text.surround "\"" "\"" v.name.toList
  | unit => "unit".toList
  | custom text => Ty.printCustom text

def printAll : List Attr → List Text
  | [] => []
  | a :: as => print a :: printAll as

end

@[simp] theorem printAll_eq_map (as : List Attr) : printAll as = as.map print := by
  induction as with
  | nil => rfl
  | cons a as ih => simp [printAll, ih]

end Attr

namespace AttrDict

def printEntry (attrs : AttrDict) (key : String) : Text :=
  key.toList ++ " = ".toList ++ ((attrs.find? key).elim "<missing>".toList Attr.print)

/-- The entries under the given keys, in the order of the keys. -/
def printEntries (attrs : AttrDict) (keys : List String) : Text :=
  Text.commaSeparated (keys.map attrs.printEntry)

/-- The whole dictionary by key. A callee marks it as holding inherent properties, which is
shown by the brackets. -/
def print (attrs : AttrDict) : Text :=
  let entries := attrs.printEntries attrs.keys
  if attrs.contains "callee" then Text.surround "<\x7b" "\x7d>" entries
  else Text.surround "\x7b" "\x7d" entries

end AttrDict

end GenericIR
