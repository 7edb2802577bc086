import GenericIR.Log.Note
import GenericIR.Text

/-! Pages: text that knows its lines and how deep each is indented, so that it can be put
inside other text before anything is written out. -/
namespace GenericIR

structure Line where
  depth : Nat
  text : Text
  deriving Repr

/-- An operand that was looked up by an operation of that name, in vain. -/
structure UntypedOperand where
  operation : String
  operand : String
  deriving DecidableEq, Repr

def UntypedOperand.note (u : UntypedOperand) : Log.Note where
  level := .trace
  module := "printer"
  message := "Operand " ++ u.operand ++ " of " ++ u.operation ++ " has no type in scope"

structure Page where
  lines : List Line := []
  /-- The operands whose type could not be printed, in the order of the look-ups. -/
  untyped : List UntypedOperand := []
  deriving Repr

/-- Two blanks a level; there is no level below the margin. -/
def indentation (level : Int) : Text :=
  List.replicate (level.toNat * 2) ' '

theorem eq_blank_of_mem_indentation {level : Int} {c : Char} (h : c ∈ indentation level) :
    c = ' ' :=
  List.eq_of_mem_replicate h

theorem newline_not_mem_indentation (level : Int) : '\n' ∉ indentation level :=
  fun h => absurd (eq_blank_of_mem_indentation h) (by decide)

namespace Line

def print (level : Int) (line : Line) : Text :=
  indentation (level + line.depth) ++ line.text ++ ['\n']

end Line

namespace Page

instance : EmptyCollection Page := ⟨{}⟩

instance : Append Page where
  append p q := ⟨p.lines ++ q.lines, p.untyped ++ q.untyped⟩

def line (text : Text) : Page :=
  { lines := [⟨0, text⟩] }

def misses (untyped : List UntypedOperand) : Page :=
  { untyped }

def concat (pages : List Page) : Page :=
  pages.foldr (· ++ ·) ∅

/-- Moves every line to the right. -/
def nest (depth : Nat) (p : Page) : Page :=
  { p with lines := p.lines.map fun l => { l with depth := l.depth + depth } }

/-- The text of the page with its margin at the given level. -/
def print (level : Int) (p : Page) : Text :=
  p.lines.flatMap (Line.print level)

/-- The text of the page, with notes of what was missing. -/
def write (level : Int) (p : Page) : Log.Noted Text :=
  ⟨p.print level, p.untyped.map UntypedOperand.note⟩

@[simp] theorem lines_append (p q : Page) : (p ++ q).lines = p.lines ++ q.lines := rfl

@[simp] theorem untyped_append (p q : Page) : (p ++ q).untyped = p.untyped ++ q.untyped := rfl

theorem append_assoc (p q r : Page) : p ++ q ++ r = p ++ (q ++ r) := by
  change Page.mk _ _ = Page.mk _ _
  simp

@[simp] theorem append_empty (p : Page) : p ++ ∅ = p := by
  change Page.mk (p.lines ++ []) (p.untyped ++ []) = p
  simp

theorem concat_append (ps qs : List Page) : concat (ps ++ qs) = concat ps ++ concat qs := by
  induction ps with
  | nil => rfl
  | cons p ps ih => exact (congrArg (p ++ ·) ih).trans (append_assoc p _ _).symm

@[simp] theorem untyped_line (text : Text) : (line text).untyped = [] := rfl

@[simp] theorem untyped_misses (untyped : List UntypedOperand) :
    (misses untyped).untyped = untyped := rfl

@[simp] theorem untyped_nest (depth : Nat) (p : Page) : (p.nest depth).untyped = p.untyped := rfl

theorem untyped_concat (pages : List Page) : (concat pages).untyped = pages.flatMap untyped := by
  induction pages with
  | nil => rfl
  | cons p ps ih => simpa [concat] using ih

@[simp] theorem print_append (level : Int) (p q : Page) :
    (p ++ q).print level = p.print level ++ q.print level := by
  simp [print]

theorem print_nest (level : Int) (depth : Nat) (p : Page) :
    (p.nest depth).print level = p.print (level + depth) := by
  have shift (l : Line) : Line.print level { l with depth := l.depth + depth } =
      Line.print (level + depth) l := by
    have : level + ((l.depth + depth : Nat) : Int) = level + depth + l.depth := by omega
    simp only [Line.print, this]
  simp [print, nest, List.flatMap_map, shift]

end Page

end GenericIR
