import GenericIR.Buffer
import GenericIR.Log.Note

/-! Log records and the line that each becomes. -/
namespace GenericIR.Log

structure Record extends Note where
  site : Option CallSite := none
  deriving DecidableEq, Repr

def Record.ofNote (n : Note) (site : CallSite) : Record :=
  { n with site := some site }

/-- What a sink is told. -/
inductive Event where
  | record (r : Record)
  | flush
  deriving DecidableEq, Repr

/-- The control sequence that starts the colour of a level. -/
def Level.color : Level → String
  | trace => "\x1b[90m"
  | debug => "\x1b[36m"
  | info => "\x1b[32m"
  | warn => "\x1b[33m"
  | error => "\x1b[31m"
  | fatal => "\x1b[1;31m"
  | off => ""

/-- The name of the level, at least five characters wide. -/
def Level.label (level : Level) : List Piece :=
  .text level.name.toList :: List.replicate (5 - level.name.length) .blank

/-- The time stamp, the level, the module and the message, in the pieces that are written. -/
def Record.pieces (r : Record) (stamp : Text) (colored : Bool) : List Piece :=
  let level :=
    if colored then
      .text r.level.color.toList :: r.level.label ++ [.text "\x1b[0m".toList]
    else r.level.label
  [.text stamp, .text " ".toList] ++ level ++
    [.text " [".toList, .text r.module.toList, .text "] ".toList, .text r.message.toList,
      .text "\n".toList]

def Record.print (r : Record) (stamp : Text) (colored : Bool) : Text :=
  Piece.joined (r.pieces stamp colored)

end GenericIR.Log
