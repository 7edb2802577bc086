import GenericIR.Log.Level

/-! What the log of a run is to be, and how the command line and an environment variable say
so. -/
namespace GenericIR.Log

structure Config where
  level : Level := .warn
  /-- Filter rules; without any, the level holds for all modules. -/
  filterSpec : String := ""
  /-- The log file, if it has a name. -/
  file : String := ""
  console : Bool := true
  colors : Bool := true
  deriving DecidableEq, Repr

/-- An argument that concerns the log. -/
inductive Flag where
  | level (level : Level)
  | filter (spec : String)
  | file (path : String)
  | verbosity (count : Nat)
  deriving DecidableEq, Repr

namespace Flag

/-- The number of letters in `-v`, `-vv` and so on. -/
def verbosity? : List Char → Option Nat
  | '-' :: 'v' :: vs => if vs.all (· == 'v') then some (vs.length + 1) else none
  | _ => none

def begins (start : String) (arg : String) : Bool :=
  start.toList.isPrefixOf arg.toList

/-- What follows `start`, if the argument begins with it. -/
def value? (start : String) (arg : String) : Option (List Char) :=
  if begins start arg then some (arg.toList.drop start.length) else none

def ofArg? (arg : String) : Option Flag :=
  if let some s := value? "--log-level=" arg then some (.level (Level.ofName s))
  else if let some s := value? "--log-filter=" arg then some (.filter (String.ofList s))
  else if let some s := value? "--log-file=" arg then some (.file (String.ofList s))
  else if arg = "-q" ∨ arg = "--quiet" then some (.level .error)
  else if arg = "--verbose" then some (.verbosity 1)
  else (verbosity? arg.toList).map .verbosity

def level? : Flag → Option Level
  | level l => some l
  | _ => none

def filter? : Flag → Option String
  | filter spec => some spec
  | _ => none

def file? : Flag → Option String
  | file path => some path
  | _ => none

def count : Flag → Nat
  | verbosity n => n
  | _ => 0

end Flag

/-- Whether an argument concerns the log, said of its text alone. -/
def isLogOption (arg : String) : Bool :=
  Flag.begins "--log-level=" arg || Flag.begins "--log-filter=" arg ||
    Flag.begins "--log-file=" arg || arg == "-q" || arg == "--quiet" || arg == "--verbose" ||
    (Flag.verbosity? arg.toList).isSome

/-- The level asked for by `-v` and its like. -/
def verboseLevel? : Nat → Option Level
  | 0 => none
  | 1 => some .info
  | 2 => some .debug
  | _ => some .trace

/-- The last level that was named, else the one of the greatest verbosity. -/
def chosenLevel? (flags : List Flag) : Option Level :=
  (flags.filterMap Flag.level?).getLast? <|> verboseLevel? ((flags.map Flag.count).foldl max 0)

namespace Config

def ofFlags (flags : List Flag) : Config where
  level := (chosenLevel? flags).getD .warn
  filterSpec := (flags.filterMap Flag.filter?).getLast?.getD ""
  file := (flags.filterMap Flag.file?).getLast?.getD ""

/-- A text with an equality sign or a comma holds filter rules, any other the name of a level;
an empty one says nothing. -/
def withText (c : Config) (text : String) : Config :=
  if text.isEmpty then c
  else if text.toList.any fun ch => ch == '=' || ch == ',' then { c with filterSpec := text }
  else { c with level := Level.ofName text.toList }

/-- The environment is asked only if the arguments name neither a level nor a filter. -/
def ofArgs (args : List String) (environment : Option String) : Config :=
  let flags := args.filterMap Flag.ofArg?
  let c := ofFlags flags
  if (chosenLevel? flags).isSome || (flags.filterMap Flag.filter?).getLast?.isSome then c
  else environment.elim c c.withText

end Config

end GenericIR.Log
