import GenericIR.Tool.Run
import Std.Time.Zoned

/-! The tool as a program: arguments, environment, streams and files of the real world. -/
namespace GenericIR.Tool

/-- The local time of day, to the millisecond. -/
def timeOfDay : IO Text := do
  let t ← Std.Time.PlainTime.now
  let field (width : Nat) (n : Int) := Decimal.padded width n.toNat
  return field 2 t.hour.toInt ++ ':' :: field 2 t.minute.toInt ++ ':' :: field 2 t.second.toInt ++
    '.' :: field 3 (t.nanosecond.toInt / 1000000)

/-- An open file and what it holds back. -/
structure RealFile where
  handle : IO.FS.Handle
  buffer : IO.Ref Buffer

/-- Sends bytes to the file, which is to hold back `buffer` behind them. What does not arrive
stays in the buffer. -/
def RealFile.send (f : RealFile) (bytes : ByteArray) (buffer : Buffer) : IO Bool := do
  try
    unless bytes.isEmpty do
      f.handle.write bytes
      f.handle.flush
    f.buffer.set buffer
    return true
  catch _ =>
    f.buffer.set ⟨bytes ++ buffer.held⟩
    return false

def openRealFile (path : String) (mode : FileMode) : IO (Option RealFile) := do
  try
    let handle ← IO.FS.Handle.mk path (match mode with
      | .replace => .write
      | .append => .append)
    return some { handle, buffer := ← IO.mkRef {} }
  catch _ => return none

def realHost : Host IO RealFile where
  stamp := timeOfDay
  callSite _ := return {}
  writeOut text := do (← IO.getStdout).putStr (String.ofList text)
  writeErr text := do (← IO.getStderr).putStr (String.ofList text)
  openFile := openRealFile
  write f piece := do
    let (bytes, buffer) := (← f.buffer.get).add piece
    discard (f.send bytes buffer)
  flush f := do f.send (← f.buffer.get).held {}

def realEnvironment : IO Environment := do
  return {
    logText := ← IO.getEnv "IRT_LOG"
    terminal := {
      isTerminal := ← (← IO.getStderr).isTty
      kind := ← IO.getEnv "TERM" } }

end GenericIR.Tool

def main (args : List String) : IO UInt32 := do
  GenericIR.Tool.run GenericIR.Tool.realHost (← GenericIR.Tool.realEnvironment) args
