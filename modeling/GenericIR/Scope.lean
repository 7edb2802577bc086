import GenericIR.Operation

/-! Scopes: the bindings of value names to types that an operation can see. A scope begins
with the arguments of a block and grows by the results of one operation after another. -/
namespace GenericIR

abbrev Scope := Dict Ty

namespace Scope

def bind (scope : Scope) (values : List Value) : Scope :=
  scope.update (values.map fun v => (v.name, v.type))

def ofValues (values : List Value) : Scope :=
  bind ∅ values

/-- All names bound so far, oldest first; a name bound twice stands twice. -/
def names (scope : Scope) : List String :=
  scope.entries.map Prod.fst

@[simp] theorem names_bind (scope : Scope) (values : List Value) :
    (scope.bind values).names = scope.names ++ values.map Value.name := by
  simp [names, bind, Dict.update, Function.comp_def]

@[simp] theorem names_ofValues (values : List Value) :
    (ofValues values).names = values.map Value.name := by
  simp [ofValues]
  rfl

@[simp] theorem bind_nil (scope : Scope) : scope.bind [] = scope := by
  simp [bind, Dict.update]

theorem bind_append (scope : Scope) (vs ws : List Value) :
    scope.bind (vs ++ ws) = (scope.bind vs).bind ws := by
  simp [bind, Dict.update]

theorem contains_iff {scope : Scope} {x : String} : scope.contains x ↔ x ∈ scope.names := by
  rw [Dict.contains, Dict.isSome_find?]
  simp [names]

end Scope

/-- The scope at the beginning of a block. -/
def BlockOf.entryScope {α : Type} (b : BlockOf α) : Scope :=
  .ofValues b.args

end GenericIR
