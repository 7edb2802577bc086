import GenericIR.Text

/-! Text on its way to a file. An open file takes text piece by piece and holds it back until it
is flushed or too much has come together; what goes to the file and what is held back are
together what was written. -/
namespace GenericIR

/-- What is written to a file in one go. -/
inductive Piece where
  | text (t : Text)
  /-- A blank that fills a column. -/
  | blank
  deriving DecidableEq, Repr

namespace Piece

def toText : Piece → Text
  | text t => t
  | blank => [' ']

def bytes (p : Piece) : ByteArray :=
  ⟨p.toText.encode.toArray⟩

def joined (ps : List Piece) : Text :=
  ps.flatMap toText

@[simp] theorem joined_append (ps qs : List Piece) :
    joined (ps ++ qs) = joined ps ++ joined qs := by
  simp [joined]

end Piece

/-- The bytes that an open file holds back. -/
structure Buffer where
  held : ByteArray := .empty

namespace Buffer

/-- The number of bytes that can be held back. -/
def capacity : Nat := 8191

/-- A text of this many bytes is never held back. -/
def longText : Nat := 1024

/-- Whether a piece goes to the file, with all that was held back before it. A text does so when
it would fill the buffer, a blank only when the buffer is full already. -/
def passes (b : Buffer) : Piece → Bool
  | .text t => min longText (capacity - b.held.size) ≤ (Piece.text t).bytes.size
  | .blank => capacity ≤ b.held.size

/-- What goes to the file with a piece, and what is held back then. -/
def add (b : Buffer) (p : Piece) : ByteArray × Buffer :=
  let bytes := b.held ++ p.bytes
  if b.passes p then (bytes, {}) else (.empty, ⟨bytes⟩)

/-- Nothing is lost or moved. -/
theorem add_append (b : Buffer) (p : Piece) :
    (b.add p).1 ++ (b.add p).2.held = b.held ++ p.bytes := by
  unfold add
  split <;> simp

end Buffer

end GenericIR
