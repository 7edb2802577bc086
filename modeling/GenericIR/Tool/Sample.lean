import GenericIR.Builder

/-! A small module to show: three functions, with a branch, a call and dense constants. Its
operations are placed on consecutive rows in the order in which they are built. -/
namespace GenericIR.Tool.Sample

/-- What the next operation depends on. -/
structure Progress where
  counter : UInt64 := 0
  row : UInt32 := 1

/-- Builds the next operation of the file. -/
def emit (file : String) (d : Draft) : StateT Progress Log.Noted Operation := do
  let { counter, row } ← get
  let d := { d with loc := ⟨file, ⟨row, 0⟩, ⟨row, 1⟩⟩ }
  let (counter, op) ← (d.build (counterIds "%") counter : Log.Noted _)
  set { counter, row := row + 1 : Progress }
  return op

def tensor4 : Ty := .tensor [.fixed 4] .f64

def vector4 : Payload :=
  .ofVector [⟨0x3fe0000000000000⟩, ⟨0xbfe0000000000000⟩, ⟨0x3ff0000000000000⟩,
    ⟨0x4000000000000000⟩]

def one : Binary64 := ⟨0x3ff0000000000000⟩

variable (file : String)

def addBiasFunction : StateT Progress Log.Noted Operation := do
  let bias ← emit file {
    name := "arith.constant"
    results := .typed [tensor4]
    attrs := .ofList [("value", .denseLiteral [4] vector4)] }
  let sum ← emit file {
    name := "arith.addf"
    operands := ["%x", bias.id]
    results := .typed [tensor4] }
  let ret ← emit file { name := "func.return", operands := [sum.id], isTerminator := true }
  emit file {
    name := "func.func"
    regions := [{
      entry := { args := [⟨"%x", tensor4⟩], body := [bias, sum], terminator := ret } }]
    attrs := .ofList [
      ("sym_name", .string "add_bias"),
      ("function_type", .type (.function [tensor4] [tensor4])),
      ("sym_visibility", .visibility .internal)] }

/-- A block that returns a constant. -/
def returnConstant (value : Int64) : StateT Progress Log.Noted Block := do
  let constant ← emit file {
    name := "arith.constant"
    results := .typed [.i32]
    attrs := .ofList [("value", .int value .i32)] }
  let ret ← emit file { name := "func.return", operands := [constant.id], isTerminator := true }
  return { body := [constant], terminator := ret }

def selectFunction : StateT Progress Log.Noted Operation := do
  let branch ← emit file {
    name := "cf.cond_br"
    operands := ["%cond"]
    successors := ["then", "else"]
    isTerminator := true }
  let yes ← returnConstant file 1
  let no ← returnConstant file 0
  emit file {
    name := "func.func"
    regions := [{
      entry := { args := [⟨"%cond", .i1⟩, ⟨"%a", .i32⟩, ⟨"%b", .i32⟩], terminator := branch }
      blocks := [("then", yes), ("else", no)] }]
    attrs := .ofList [
      ("sym_name", .string "select"),
      ("function_type", .type (.function [.i1, .i32, .i32] [.i32]))] }

def mainFunction : StateT Progress Log.Noted Operation := do
  let input ← emit file {
    name := "arith.constant"
    results := .typed [tensor4]
    attrs := .ofList [("value", .denseLiteral [4] (.scalar one))] }
  let call ← emit file {
    name := "func.call"
    operands := [input.id]
    results := .typed [tensor4]
    attrs := .ofList [("callee", .symbolRef "add_bias")] }
  let ret ← emit file { name := "func.return", isTerminator := true }
  emit file {
    name := "func.func"
    regions := [{ entry := { body := [input, call], terminator := ret } }]
    attrs := .ofList [
      ("sym_name", .string "main"),
      ("function_type", .type (.function [] [])),
      ("llvm.emit_c_interface", .unit)] }

def functions : StateT Progress Log.Noted Module := do
  let first ← addBiasFunction file
  let second ← selectFunction file
  let last ← mainFunction file
  return { ops := [first, second, last], loc := first.loc.merge last.loc }

/-- The sample, as if it had been read from `file`. -/
def build (file : String := "sample.irt") : Log.Noted Module :=
  (functions file).run' {}

end GenericIR.Tool.Sample
