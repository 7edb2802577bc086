import GenericIR.Log.Config

/-! The command line of the tool. -/
namespace GenericIR.Tool

structure Options where
  /-- What to do; empty if nothing was asked for. -/
  command : String := ""
  /-- Where the output goes; empty for the standard output. -/
  output : String := ""
  locations : Bool := false
  verify : Bool := false
  deriving DecidableEq, Repr

inductive UsageError where
  | missingFileName
  | unknownOption (arg : String)
  | unexpectedArgument (arg : String)
  deriving DecidableEq, Repr

def UsageError.message : UsageError → String
  | missingFileName => "-o requires a file name"
  | unknownOption arg => "unknown option: " ++ arg
  | unexpectedArgument arg => "unexpected argument: " ++ arg

/-- Arguments that look like options but name a command. -/
def isCommandFlag (arg : String) : Bool :=
  arg == "-h" || arg == "--help" || arg == "-V" || arg == "--version"

namespace Options

/-- Reads the arguments from left to right, beginning with what was read before. Arguments that
concern the log are passed over. -/
def read (o : Options) : List String → Except UsageError Options
  | [] => .ok o
  | arg :: rest =>
    if Log.isLogOption arg then read o rest
    else if arg = "-o" then
      match rest with
      | [] => .error .missingFileName
      | path :: rest => read { o with output := path } rest
    else if arg = "--emit-locations" then read { o with locations := true } rest
    else if arg = "--verify" then read { o with verify := true } rest
    else if arg.toList.head? = some '-' && !isCommandFlag arg then .error (.unknownOption arg)
    else if o.command.isEmpty then read { o with command := arg } rest
    else .error (.unexpectedArgument arg)

def ofArgs (args : List String) : Except UsageError Options :=
  read {} args

end Options

end GenericIR.Tool
