import GenericIR.Text

/-! Where a path leads. A path is followed one part after the other, through directories only;
what it leads to is nothing, a device, or a file. -/
namespace GenericIR

inductive Location where
  /-- Nothing can be opened here. -/
  | refused
  /-- Can be opened, but no text arrives. -/
  | full
  /-- Different paths may lead to one file, which is known by its key. -/
  | file (key : String)
  deriving DecidableEq, Repr

/-- The names that lead from the root to a place. -/
abbrev Route := List Text

namespace Route

/-- The place one part of a path leads to from a directory. -/
def step (directory : Route) (part : Text) : Route :=
  if part = [] || part = ['.'] then directory
  else if part = ['.', '.'] then directory.dropLast
  else directory ++ [part]

/-- The path from the root, without detours. -/
def path (p : Route) : String :=
  String.ofList (p.flatMap ('/' :: ·))

/-- A name may have 255 bytes. -/
def hasFittingName (p : Route) : Bool :=
  p.all (·.encode.length ≤ 255)

end Route

structure Directories where
  working : Route := []
  /-- The directories that take new files. What leads to them is a directory, too. -/
  places : List Route
  devices : List (Route × Location) := []

namespace Directories

def contains (d : Directories) (p : Route) : Bool :=
  (d.places ++ d.devices.map (·.1.dropLast)).any (p.isPrefixOf ·)

/-- The end of the way along `parts`, which leaves directories only. -/
def follow (d : Directories) (start : Route) (parts : List Text) : Option Route :=
  parts.foldlM (fun p part => if d.contains p then some (p.step part) else none) start

/-- A path ends before its first zero character, and may have 4095 bytes up to there. Behind a
last slash it still leads on, to the directory itself. -/
def locate (d : Directories) (path : String) : Location :=
  let path : Text := path.toList.takeWhile (· ≠ '\x00')
  let start := if path.head? = some '/' then [] else d.working
  if 4095 < path.encode.length then .refused
  else match d.follow start (path.splitOn '/') with
    | none => .refused
    | some p =>
      match d.devices.lookup p with
      | some device => device
      | none =>
        if !d.contains p && d.places.contains p.dropLast && p.hasFittingName then .file p.path
        else .refused

end Directories

end GenericIR
