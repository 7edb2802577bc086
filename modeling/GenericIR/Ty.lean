/-! Types. The catalogue is closed but for one way out: a foreign type brings its own text. A
type may be absent wherever one is expected, also inside another type. -/
namespace GenericIR

inductive IntWidth where
  | w1 | w8 | w16 | w32 | w64
  deriving DecidableEq, Repr

def IntWidth.bits : IntWidth → Nat
  | .w1 => 1
  | .w8 => 8
  | .w16 => 16
  | .w32 => 32
  | .w64 => 64

theorem IntWidth.bits_inj {v w : IntWidth} : v.bits = w.bits ↔ v = w := by
  cases v <;> cases w <;> decide

inductive FloatWidth where
  | w32 | w64
  deriving DecidableEq, Repr

def FloatWidth.bits : FloatWidth → Nat
  | .w32 => 32
  | .w64 => 64

theorem FloatWidth.bits_inj {v w : FloatWidth} : v.bits = w.bits ↔ v = w := by
  cases v <;> cases w <;> decide

/-- An extent of a shaped type. -/
inductive Dim where
  | fixed (extent : UInt64)
  | dynamic
  deriving DecidableEq, Repr

inductive Ty where
  | absent
  | int (width : IntWidth)
  | float (width : FloatWidth)
  | index
  | memref (dims : List Dim) (element : Ty)
  | tensor (dims : List Dim) (element : Ty)
  | unrankedTensor (element : Ty)
  | struct (fields : List Ty)
  | named (name : String)
  | function (inputs results : List Ty)
  /-- A foreign type, known by its text; without text there is no foreign type behind it. -/
  | custom (text : Option String)
  deriving Repr

namespace Ty

instance : Inhabited Ty := ⟨absent⟩

def i1 : Ty := int .w1
def i32 : Ty := int .w32
def f64 : Ty := float .w64

def isAbsent : Ty → Bool
  | absent => true
  | _ => false

def isInteger : Ty → Bool
  | int _ => true
  | _ => false

def isFloat : Ty → Bool
  | float _ => true
  | _ => false

def isShaped : Ty → Bool
  | memref .. | tensor .. | unrankedTensor _ => true
  | _ => false

mutual

/-- Structural equality. `shared a b` may answer early that the two are one and the same
object; where it does not, the types are compared by their parts, foreign ones by their text. -/
def equalWith (shared : Ty → Ty → Bool) : Ty → Ty → Bool
  | absent, absent => true
  | absent, _ => false
  | int w, b => shared (int w) b || match b with
    | int w' => w == w'
    | _ => false
  | float w, b => shared (float w) b || match b with
    | float w' => w == w'
    | _ => false
  | index, b => shared index b || match b with
    | index => true
    | _ => false
  | memref dims element, b => shared (memref dims element) b || match b with
    | memref dims' element' => dims == dims' && equalWith shared element element'
    | _ => false
  | tensor dims element, b => shared (tensor dims element) b || match b with
    | tensor dims' element' => dims == dims' && equalWith shared element element'
    | _ => false
  | unrankedTensor element, b => shared (unrankedTensor element) b || match b with
    | unrankedTensor element' => equalWith shared element element'
    | _ => false
  | struct fields, b => shared (struct fields) b || match b with
    | struct fields' => allEqualWith shared fields fields'
    | _ => false
  | named name, b => shared (named name) b || match b with
    | named name' => name == name'
    | _ => false
  | function inputs results, b => shared (function inputs results) b || match b with
    | function inputs' results' =>
      allEqualWith shared inputs inputs' && allEqualWith shared results results'
    | _ => false
  | custom text, b => shared (custom text) b || match b with
    | custom text' => text == text'
    | _ => false

def allEqualWith (shared : Ty → Ty → Bool) : List Ty → List Ty → Bool
  | [], [] => true
  | a :: as, b :: bs => equalWith shared a b && allEqualWith shared as bs
  | _, _ => false

end

/-- Structural equality, looking at every part. -/
def equal (a b : Ty) : Bool :=
  equalWith (fun _ _ => false) a b

end Ty

end GenericIR
