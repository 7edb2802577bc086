/-! Places in source files. -/
namespace GenericIR

structure Position where
  row : UInt32 := 0
  column : UInt32 := 0
  deriving DecidableEq, Repr

/-- Row first, then column. -/
instance : LT Position where
  lt p q := p.row < q.row ∨ p.row = q.row ∧ p.column < q.column

instance (p q : Position) : Decidable (p < q) :=
  inferInstanceAs (Decidable (_ ∨ _))

/-- A range of one file. The empty range of the nameless file stands for no place at all. -/
structure Span where
  file : String := ""
  start : Position := {}
  stop : Position := {}
  deriving DecidableEq, Repr

namespace Span

def unknown : Span := {}

def isUnknown (s : Span) : Bool :=
  s == unknown

/-- The least span over both; the file is that of the first. -/
def merge (a b : Span) : Span where
  file := a.file
  start := if b.start < a.start then b.start else a.start
  stop := if a.stop < b.stop then b.stop else a.stop

end Span

end GenericIR
