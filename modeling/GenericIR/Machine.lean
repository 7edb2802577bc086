import GenericIR.Dict
import GenericIR.Directories
import GenericIR.Host

/-! A machine to run programs on without touching the real one: two output streams and a disk. -/
namespace GenericIR

structure Disk where
  /-- Where the paths lead. -/
  locate : String → Location
  files : Dict ByteArray := ∅

structure OpenFile where
  /-- The file behind the handle; there is none behind a full device. -/
  key : Option String
  /-- Where the next text goes; without a position, to the end of the file. -/
  position : Option Nat
  buffer : Buffer := {}

structure Machine where
  disk : Disk
  clock : Text := "00:00:00.000".toList
  callSites : Log.Note → Log.CallSite := fun _ => {}
  out : Text := []
  err : Text := []
  opened : List OpenFile := []

/-- `new` in place of the bytes of `old` from `position` on, with zeros up to there. -/
def overwrite (old : ByteArray) (position : Nat) (new : ByteArray) : ByteArray :=
  old.extract 0 position ++ ⟨Array.replicate (position - old.size) 0⟩ ++ new ++
    old.extract (position + new.size) old.size

namespace Disk

def read (d : Disk) (key : String) : ByteArray :=
  (d.files.find? key).getD .empty

def store (d : Disk) (key : String) (bytes : ByteArray) : Disk :=
  { d with files := d.files.replace key bytes }

/-- Puts bytes at a position of a file, or at its end. No bytes leave it as it is, even where
the position is beyond the end. -/
def place (d : Disk) (key : String) (position : Option Nat) (bytes : ByteArray) : Disk :=
  if bytes.isEmpty then d
  else match position with
    | none => d.store key (d.read key ++ bytes)
    | some position => d.store key (overwrite (d.read key) position bytes)

end Disk

namespace Machine

def openFile (s : Machine) (path : String) (mode : FileMode) : Option Nat × Machine :=
  let add (f : OpenFile) (disk : Disk) :=
    (some s.opened.length, { s with disk, opened := s.opened ++ [f] })
  match s.disk.locate path, mode with
  | .refused, _ => (none, s)
  | .full, _ => add { key := none, position := none } s.disk
  | .file key, .replace => add { key := some key, position := some 0 } (s.disk.store key .empty)
  | .file key, .append =>
    add { key := some key, position := none } (s.disk.store key (s.disk.read key))

/-- Sends bytes to an open file that is to hold back `buffer` behind them. What a full device
does not take stays in the buffer. -/
def send (s : Machine) (handle : Nat) (f : OpenFile) (bytes : ByteArray) (buffer : Buffer) :
    Bool × Machine :=
  match f.key with
  | none =>
    let held := bytes ++ buffer.held
    (held.isEmpty, { s with opened := s.opened.set handle { f with buffer := ⟨held⟩ } })
  | some key =>
    let position := f.position.map (· + bytes.size)
    (true, {
      s with
      disk := s.disk.place key f.position bytes
      opened := s.opened.set handle { f with position, buffer } })

theorem send_fst (s : Machine) (handle : Nat) (f : OpenFile) (bytes : ByteArray)
    (buffer : Buffer) :
    (s.send handle f bytes buffer).1 = (f.key.isSome || (bytes ++ buffer.held).isEmpty) := by
  unfold send
  cases f.key <;> simp

def write (s : Machine) (handle : Nat) (piece : Piece) : Machine :=
  match s.opened[handle]? with
  | none => s
  | some f =>
    let (bytes, buffer) := f.buffer.add piece
    (s.send handle f bytes buffer).2

def flush (s : Machine) (handle : Nat) : Bool × Machine :=
  match s.opened[handle]? with
  | none => (false, s)
  | some f => s.send handle f f.buffer.held {}

/-- The machine as the surroundings of a program; a handle counts the files opened before. -/
def host : Host (StateM Machine) Nat where
  stamp := return (← get).clock
  callSite n := return (← get).callSites n
  writeOut text := modify fun s => { s with out := s.out ++ text }
  writeErr text := modify fun s => { s with err := s.err ++ text }
  openFile path mode := modifyGet fun s => s.openFile path mode
  write handle piece := modify fun s => s.write handle piece
  flush handle := modifyGet fun s => s.flush handle

end Machine

end GenericIR
