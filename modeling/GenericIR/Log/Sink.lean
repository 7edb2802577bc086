import GenericIR.Host
import GenericIR.Log.Logger

/-! Sinks of a program: its standard error stream and log files. -/
namespace GenericIR.Log

inductive Sink (η : Type) where
  | console (colored : Bool)
  | file (handle : η)
  | null

variable {m : Type → Type} [Monad m] {η : Type} (host : Host m η)

namespace Sink

/-- A file is flushed when it is told to, and after every error. -/
def accept : Sink η → Event → m Unit
  | console colored, .record r => do
    host.writeErr (r.print (← host.stamp) colored)
  | file handle, .record r => do
    (r.pieces (← host.stamp) false).forM (host.write handle)
    if .error ≤ r.level then discard (host.flush handle)
  | file handle, .flush => discard (host.flush handle)
  | _, _ => return

/-- A sink for that file; a file that cannot be opened swallows everything. -/
def ofFile (path : String) (mode : FileMode) : m (Bool × Sink η) := do
  match ← host.openFile path mode with
  | some handle => return (true, file handle)
  | none => return (false, null)

/-- The console of that terminal, in colours if they are wanted and shown. -/
def ofTerminal (terminal : Terminal) (colors : Bool) : Sink η :=
  console (colors && terminal.hasColor)

/-- The sinks that a configuration asks for. A log file that cannot be opened is left out with
a warning. -/
def ofConfig (terminal : Terminal) (config : Config) : m (List (Sink η)) := do
  let consoles := if config.console then [ofTerminal terminal config.colors] else []
  if config.file.isEmpty then return consoles
  let (isOpen, sink) ← ofFile host config.file .append
  if isOpen then return consoles ++ [sink]
  host.writeErr ("warning: could not open log file: " ++ config.file ++ "\n").toList
  return consoles

end Sink

namespace Logger

def deliver (ds : List (Sink η × Event)) : m Unit :=
  ds.forM fun (sink, event) => sink.accept host event

/-- The value, after its notes have gone to the sinks. -/
def report {α : Type} (logger : Logger (Sink η)) (x : Noted α) : m α := do
  x.notes.forM fun n => do deliver host (logger.deliveries n (← host.callSite n))
  return x.value

end Logger

end GenericIR.Log
