/-! Log levels, from the most talkative to silence. -/
namespace GenericIR.Log

inductive Level where
  | trace | debug | info | warn | error | fatal | off
  deriving DecidableEq, Repr

namespace Level

def rank : Level → Nat
  | trace => 0
  | debug => 1
  | info => 2
  | warn => 3
  | error => 4
  | fatal => 5
  | off => 6

instance : LE Level where
  le a b := a.rank ≤ b.rank

instance : LT Level where
  lt a b := a.rank < b.rank

instance (a b : Level) : Decidable (a ≤ b) :=
  inferInstanceAs (Decidable (a.rank ≤ b.rank))

instance (a b : Level) : Decidable (a < b) :=
  inferInstanceAs (Decidable (a.rank < b.rank))

instance : Min Level where
  min a b := if b < a then b else a

def all : List Level := [trace, debug, info, warn, error, fatal, off]

def name : Level → String
  | trace => "TRACE"
  | debug => "DEBUG"
  | info => "INFO"
  | warn => "WARN"
  | error => "ERROR"
  | fatal => "FATAL"
  | off => "OFF"

/-- The level of that name, in any mixture of capital and small ASCII letters. -/
def ofName? (s : List Char) : Option Level :=
  all.find? fun level => s.map Char.toUpper == level.name.toList

/-- What is no level's name means `info`. -/
def ofName (s : List Char) : Level :=
  (ofName? s).getD info

theorem mem_all (level : Level) : level ∈ all := by
  cases level <;> decide

theorem ofName_name (level : Level) : ofName level.name.toList = level := by
  cases level <;> decide

end Level

end GenericIR.Log
