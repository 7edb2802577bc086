import GenericIR.Dict
import GenericIR.Log.Level

/-! Filters: a threshold for every module, written as comma-separated rules such as
`printer=trace,verify=debug,*=warn`. -/
namespace GenericIR.Log

inductive Rule where
  /-- The threshold of the modules without one of their own. -/
  | others (level : Level)
  | only (module : String) (level : Level)
  deriving DecidableEq, Repr

/-- A module alone is let through altogether; nothing at all is no rule. -/
def Rule.ofText? (field : List Char) : Option Rule :=
  let name := field.takeWhile (· ≠ '=')
  match field.dropWhile (· ≠ '=') with
  | _ :: level =>
    if name = ['*'] then some (.others (Level.ofName level))
    else some (.only (String.ofList name) (Level.ofName level))
  | [] => if name = [] then none else some (.only (String.ofList name) .trace)

def Rule.listOfText (spec : List Char) : List Rule :=
  (spec.splitOn ',').filterMap Rule.ofText?

structure Filter where
  fallback : Level := .info
  overrides : Dict Level := ∅
  deriving Repr

namespace Filter

def apply (f : Filter) : Rule → Filter
  | .others level => { f with fallback := level }
  | .only module level => { f with overrides := f.overrides.insert module level }

/-- Forgets the overrides and follows the rules of `spec`; the fallback stays unless one of
them sets it. -/
def parse (f : Filter) (spec : String) : Filter :=
  (Rule.listOfText spec.toList).foldl apply { f with overrides := ∅ }

def threshold (f : Filter) (module : String) : Level :=
  (f.overrides.find? module).getD f.fallback

def allows (f : Filter) (level : Level) (module : String) : Bool :=
  decide (f.threshold module ≤ level)

/-- The lowest threshold of all. -/
def minLevel (f : Filter) : Level :=
  f.overrides.values.foldl min f.fallback

end Filter

end GenericIR.Log
