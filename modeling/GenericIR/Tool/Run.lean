import GenericIR.Log.Sink
import GenericIR.Operation.Printer
import GenericIR.Tool.Options
import GenericIR.Tool.Sample
import GenericIR.Verify

/-! A run of the tool: arguments and surroundings in, an exit code out. -/
namespace GenericIR.Tool

def versionNumbers : List Nat := [0, 1, 0]

def version : String :=
  ".".intercalate (versionNumbers.map Decimal.string)

def usageLines : List String := [
  "Usage: irt <command> [options]",
  "",
  "Commands:",
  "  sample              Print the built-in sample module",
  "",
  "Options:",
  "  -o <file>           Write output to <file> instead of stdout",
  "  --emit-locations    Append loc(...) to operations",
  "  --verify            Verify the module before printing",
  "  --log-level=<lvl>   trace, debug, info, warn, error, off",
  "  --log-filter=<spec> e.g. printer=trace,*=warn",
  "  --log-file=<path>   Also write log records to <path>",
  "  -v, -vv, -vvv, -q   Adjust log verbosity",
  "  -h, --help          Show this message",
  "  -V, --version       Show the version"]

def usage : String :=
  String.join (usageLines.map (· ++ "\n"))

inductive OutputError where
  | cannotOpen (path : String)
  | cannotWrite (path : String)
  deriving DecidableEq, Repr

def OutputError.message : OutputError → String
  | cannotOpen path => "cannot open " ++ path ++ " for writing"
  | cannotWrite path => "failed to write " ++ path

/-- What a run finds besides its arguments. -/
structure Environment where
  /-- The variable that says what to log. -/
  logText : Option String := none
  terminal : Terminal := {}

variable {m : Type → Type} [Monad m] {η : Type} (host : Host m η)

/-- Fills a file and counts its bytes. -/
def writeOutput (path : String) (text : Text) : m (Except OutputError Nat) := do
  match ← host.openFile path .replace with
  | none => return .error (.cannotOpen path)
  | some handle =>
    host.write handle (.text text)
    if ← host.flush handle then return .ok text.encode.length
    else return .error (.cannotWrite path)

open Log

/-- Says something on behalf of the tool itself. -/
def tell (logger : Logger (Sink η)) (level : Level) (message : String) : m Unit :=
  logger.report host (Noted.note level "cli" message)

/-- Puts the text where the options want it. -/
def emitText (logger : Logger (Sink η)) (options : Options) (text : Text) : m UInt32 := do
  if options.output.isEmpty then
    host.writeOut text
    return 0
  match ← writeOutput host options.output text with
  | .error e =>
    tell host logger .error e.message
    return 1
  | .ok size =>
    tell host logger .info ("Wrote " ++ Decimal.string size ++ " bytes to " ++ options.output)
    return 0

def runSample (logger : Logger (Sink η)) (options : Options) : m UInt32 := do
  let sample ← logger.report host Sample.build
  if options.verify then
    match ← logger.report host sample.verify with
    | .error diagnostics =>
      diagnostics.forM fun d => tell host logger .error d.toString
      return 1
    | .ok table =>
      tell host logger .info ("Verified module, " ++ Decimal.string table.size ++ " symbols")
  let text ← logger.report host (sample.write { locations := options.locations })
  emitText host logger options text

def runCommand (logger : Logger (Sink η)) (options : Options) : m UInt32 := do
  if options.command ∈ ["", "-h", "--help"] then
    host.writeOut usage.toList
    return 0
  else if options.command ∈ ["-V", "--version"] then
    host.writeOut ("irt " ++ version ++ "\n").toList
    return 0
  else if options.command = "sample" then
    runSample host logger options
  else
    host.writeErr ("error: unknown command: " ++ options.command ++ "\n").toList
    return 1

/-- The log is set up before the arguments are judged. -/
def run (environment : Environment) (args : List String) : m UInt32 := do
  let config := Config.ofArgs args environment.logText
  let logger := Logger.configured config (← Sink.ofConfig host environment.terminal config)
  match Options.ofArgs args with
  | .error e =>
    host.writeErr ("error: " ++ e.message ++ "\n").toList
    return 1
  | .ok options =>
    let code ← runCommand host logger options
    Logger.deliver host (logger.dispatch .flush)
    return code

end GenericIR.Tool
