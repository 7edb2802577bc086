import GenericIR.Log.Note
import GenericIR.Operation.Walk

/-! Symbols: the names under which operations can be referred to from elsewhere. An operation
defines a symbol by a string under the key `sym_name`; of two definitions of one symbol the
first in walking order stands. -/
namespace GenericIR

def symbolKey : String := "sym_name"

/-- The symbol that the operation defines, if it does. -/
def Operation.symbol? (op : Operation) : Option String :=
  (op.findAttr symbolKey).bind Attr.string?

structure SymbolTable (α : Type) where
  definitions : Dict α := ∅

namespace SymbolTable

variable {α : Type}

instance : EmptyCollection (SymbolTable α) := ⟨{}⟩

/-- Defines `name`, unless it is defined already; says whether it did. -/
def insert (table : SymbolTable α) (name : String) (a : α) : Bool × SymbolTable α :=
  if table.definitions.contains name then (false, table)
  else (true, ⟨table.definitions.insert name a⟩)

def lookup (table : SymbolTable α) (name : String) : Option α :=
  table.definitions.find? name

def size (table : SymbolTable α) : Nat :=
  table.definitions.size

def isEmpty (table : SymbolTable α) : Bool :=
  table.definitions.isEmpty

/-- The symbols in increasing order with their definitions. -/
def toList (table : SymbolTable α) : List (String × α) :=
  table.definitions.toSortedList

end SymbolTable

/-- An operation of a module; the position counts along the walk through the module. -/
structure Definition where
  position : Nat
  operation : Operation

namespace Module

open Log

/-- Adds what one operation defines. -/
def collectStep (table : SymbolTable Definition) (op : Operation) (position : Nat) :
    Noted (SymbolTable Definition) := do
  match op.findAttr symbolKey with
  | none => return table
  | some (.string name) =>
    let (isNew, table) := table.insert name ⟨position, op⟩
    unless isNew do
      Noted.note .warn "symbols"
        ("Duplicate symbol @" ++ name ++ " defined by " ++ op.name ++ " (" ++ op.id ++ ")")
    return table
  | some _ =>
    Noted.note .debug "symbols" ("Ignoring non-string sym_name on " ++ op.name)
    return table

def collectSymbols (m : Module) : Noted (SymbolTable Definition) := do
  let table ← m.walk.zipIdx.foldlM (fun table (op, position) => collectStep table op position) ∅
  Noted.note .debug "symbols"
    ("Collected " ++ Decimal.string table.size ++ " symbols")
  return table

end Module

end GenericIR
