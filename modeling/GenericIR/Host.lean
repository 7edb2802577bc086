import GenericIR.Buffer
import GenericIR.Log.Note

/-! What a program asks of its surroundings. Text written to an open file may be held back
until it is flushed. -/
namespace GenericIR

inductive FileMode where
  /-- Begins with an empty file. -/
  | replace
  /-- Writes behind what is there. -/
  | append
  deriving DecidableEq, Repr

structure Host (m : Type → Type) (η : Type) where
  /-- The time of day, for a log line. -/
  stamp : m Text
  /-- Where in the program a note is made; how the program was built decides it. -/
  callSite : Log.Note → m Log.CallSite
  writeOut : Text → m Unit
  writeErr : Text → m Unit
  /-- A handle of the file, unless it cannot be opened. -/
  openFile : String → FileMode → m (Option η)
  write : η → Piece → m Unit
  /-- Whether all that was held back has reached the file. -/
  flush : η → m Bool

/-- The standard error stream, as far as colours are concerned. -/
structure Terminal where
  isTerminal : Bool := false
  /-- The kind of terminal, if the environment tells. -/
  kind : Option String := none
  deriving DecidableEq, Repr

def Terminal.hasColor (t : Terminal) : Bool :=
  t.isTerminal && t.kind.any (· ≠ "dumb")

end GenericIR
