import GenericIR.Decimal
import GenericIR.Log.Note
import GenericIR.Operation

/-! Building operations one at a time. A draft holds everything but the id; building draws the
id from a generator, which threads a state of its own from one operation to the next. -/
namespace GenericIR

/-- The results of a draft, or only their types; then their names come from the id. -/
inductive ResultPlan where
  | given (values : List Value)
  | typed (types : List Ty)

structure Draft where
  name : String
  operands : List String := []
  results : ResultPlan := .given []
  attrs : AttrDict := ∅
  regions : List Region := []
  isTerminator : Bool := false
  loc : Span := .unknown
  successors : List String := []

/-- One change to a draft. -/
inductive Setting where
  | operands (names : List String)
  | results (values : List Value)
  | resultTypes (types : List Ty)
  | attrs (attrs : AttrDict)
  | regions (regions : List Region)
  | isTerminator (flag : Bool)
  | loc (loc : Span)
  | successors (labels : List String)

namespace ResultPlan

/-- A single result is called like the operation, several are numbered. -/
def values (id : String) : ResultPlan → List Value
  | given values => values
  | typed [type] => [⟨id, type⟩]
  | typed types =>
    types.zipIdx.map fun (type, i) => ⟨id ++ "_" ++ Decimal.string i, type⟩

end ResultPlan

namespace Draft

/-- Replaces what was set before. -/
def set (d : Draft) : Setting → Draft
  | .operands names => { d with operands := names }
  | .results values => { d with results := .given values }
  | .resultTypes types => { d with results := .typed types }
  | .attrs attrs => { d with attrs }
  | .regions regions => { d with regions }
  | .isTerminator flag => { d with isTerminator := flag }
  | .loc loc => { d with loc }
  | .successors labels => { d with successors := labels }

def setAll (d : Draft) (settings : List Setting) : Draft :=
  settings.foldl set d

/-- The operation of that id. -/
def finish (d : Draft) (id : String) : Operation where
  name := d.name
  id := id
  operands := d.operands
  results := d.results.values id
  attrs := d.attrs
  regions := d.regions
  isTerminator := d.isTerminator
  loc := d.loc
  successors := d.successors

/-- Draws one id; also returns the state for the next operation. -/
def build {m : Type → Type} [Monad m] {ε : Type} (d : Draft) (generate : ε → m (ε × String))
    (state : ε) : m (ε × Operation) := do
  let (state, id) ← generate state
  return (state, d.finish id)

end Draft

/-- Numbers behind a fixed stem. The counter starts again at zero behind its last value. -/
def counterIds (stem : String) (next : UInt64) : Log.Noted (UInt64 × String) := do
  let id := stem ++ Decimal.string next.toNat
  Log.Noted.note .trace "builder" ("Assigned id " ++ id)
  return (next + 1, id)

end GenericIR
