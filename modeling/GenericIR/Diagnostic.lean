import GenericIR.Attr.Shape
import GenericIR.Operation

/-! Diagnostics: what can be wrong with an operation, and how it is said. -/
namespace GenericIR

inductive Fault where
  | undefinedOperand (name : String)
  /-- The last operation of a block is not marked as a terminator. -/
  | unmarkedTerminator
  /-- An operation before the last is marked as a terminator. -/
  | earlyTerminator
  | successorOutsideRegion (label : String)
  | unknownSuccessor (label : String)
  | symbolNotString
  | shapeMismatch (key : String) (shape : List UInt64)
  | duplicateLabel (label : String)
  | duplicateArgument (name : String)
  | redefinition (name : String)
  | duplicateSymbol (name : String)
  deriving DecidableEq, Repr

def Fault.message : Fault → String
  | undefinedOperand name => "operand " ++ name ++ " is not defined in the enclosing block"
  | unmarkedTerminator => "block terminator is not marked as a terminator"
  | earlyTerminator => "terminator appears before the end of its block"
  | successorOutsideRegion label => "successor ^" ++ label ++ " used outside of a region"
  | unknownSuccessor label => "successor ^" ++ label ++ " does not name a block of the region"
  | symbolNotString => "sym_name must be a string attribute"
  | shapeMismatch key shape =>
    "dense literal '" ++ key ++ "' does not match shape " ++ shapeText shape
  | duplicateLabel label => "duplicate block label ^" ++ label
  | duplicateArgument name => "duplicate block argument " ++ name
  | redefinition name => "redefinition of value " ++ name
  | duplicateSymbol name => "duplicate symbol @" ++ name

/-- A fault and the operation it is laid to. -/
structure Diagnostic where
  opName : String
  opId : String
  loc : Span
  fault : Fault
  deriving DecidableEq, Repr

def Operation.diagnose (op : Operation) (fault : Fault) : Diagnostic :=
  ⟨op.name, op.id, op.loc, fault⟩

/-- A message under the name and id of an operation. -/
def attributed (opName opId message : String) : String :=
  opName ++ " (" ++ opId ++ "): " ++ message

/-- The place in front of a message, if it is known. -/
def Span.heading (s : Span) : String :=
  if s.isUnknown then ""
  else s.file ++ ":" ++ Decimal.string s.start.row.toNat ++ ":" ++
    Decimal.string s.start.column.toNat ++ ": "

namespace Diagnostic

/-- One line, without the place. -/
def summary (d : Diagnostic) : String :=
  attributed d.opName d.opId d.fault.message

def toString (d : Diagnostic) : String :=
  d.loc.heading ++ d.summary

end Diagnostic

end GenericIR
