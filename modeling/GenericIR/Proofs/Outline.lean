import GenericIR.Attr.Printer
import GenericIR.Operation.Walk
import GenericIR.Proofs.TypeText

/-! What the text of a module shows. The outline keeps the tree of operations, regions and blocks
with all names; of types and attributes it keeps the text, of ids and places nothing. Names are
safe if they cannot be mistaken for anything else in the text. -/
namespace GenericIR

def SafeChar (c : Char) : Prop :=
  c.isAlphanum ∨ c ∈ ['_', '.', '%', '$']

instance : DecidablePred SafeChar :=
  fun _ => inferInstanceAs (Decidable (_ ∨ _))

structure SafeName (s : String) : Prop where
  nonempty : s ≠ ""
  chars : ∀ c ∈ s.toList, SafeChar c

instance (s : String) : Decidable (SafeName s) :=
  decidable_of_iff (s ≠ "" ∧ s.toList.all fun c => SafeChar c)
    ⟨fun h => ⟨h.1, by simpa using h.2⟩, fun h => ⟨h.nonempty, by simpa using h.chars⟩⟩

theorem nameKind_safeChar : Ty.NameKind SafeChar where
  digit c h := by simp [SafeChar, Char.isAlphanum, h]
  comma := by decide
  angle := by decide
  paren := by decide

theorem SafeName.begins {s : String} (h : SafeName s) : Begins SafeChar s.toList :=
  .of_forall (by simpa using h.nonempty) h.chars

theorem SafeName.readApart {s t : String} (hs : SafeName s) (ht : SafeName t) :
    ReadApart SafeChar s.toList t.toList (s = t) :=
  (ReadApart.run hs.chars ht.chars).imp String.toList_inj.1

structure Value.Safe (v : Value) : Prop where
  name : SafeName v.name
  type : v.type.Plain SafeChar

/-- No foreign type or attribute occurs in the attribute, and the names in it are safe. The
element type of an array is not shown. -/
inductive Attr.Plain : Attr → Prop
  | string (value : String) : Plain (string value)
  | bool (value : Bool) : Plain (bool value)
  | int (value : Int64) {t : Ty} (of : t.Plain SafeChar) : Plain (int value t)
  | float (value : Binary64) {t : Ty} (of : t.Plain SafeChar) : Plain (float value t)
  | type {t : Ty} (of : t.Plain SafeChar) : Plain (type t)
  | array {elements : List Attr} (elementType : Ty) (of : ∀ a ∈ elements, Plain a) :
      Plain (array elements elementType)
  | dense (shape : List UInt64) {elementType : Ty} (payload : Payload)
      (of : elementType.Plain SafeChar) : Plain (dense shape elementType payload)
  | symbolRef {name : String} (safe : SafeName name) : Plain (symbolRef name)
  | visibility (visibility : Visibility) : Plain (.visibility visibility)
  | unit : Plain unit

/-- All names are safe that the operation or a block directly inside it spells out. -/
structure Operation.Safe (op : Operation) : Prop where
  name : SafeName op.name
  operands : ∀ x ∈ op.operands, SafeName x
  results : ∀ v ∈ op.results, v.Safe
  attrs : ∀ key a, op.findAttr key = some a → SafeName key ∧ a.Plain
  successors : ∀ label ∈ op.successors, SafeName label
  labels : ∀ r ∈ op.regions, ∀ label ∈ r.labels, SafeName label
  args : ∀ r ∈ op.regions, ∀ p ∈ r.labelled, ∀ v ∈ p.2.args, v.Safe

def Module.Safe (m : Module) : Prop :=
  ∀ op ∈ m.walk, op.Safe

/-- What the lines of an operation say of the operation itself. -/
structure Heading where
  name : String
  operands : List String
  resultNames : List String
  resultTypes : List Text
  attrs : Text
  successors : List String
  isTerminator : Bool
  deriving DecidableEq

structure BlockOutline (α : Type) where
  label : String
  argNames : List String
  argTypes : List Text
  body : List α
  terminator : α

inductive Outline where
  | operation (heading : Heading) (regions : List (List (BlockOutline Outline)))

def Operation.heading (op : Operation) : Heading where
  name := op.name
  operands := op.operands
  resultNames := op.resultNames
  resultTypes := op.results.map fun v => v.type.print
  attrs := op.attrs.print
  successors := op.successors
  isTerminator := op.isTerminator

def BlockOf.outline {α : Type} (label : String) (b : BlockOf α) : BlockOutline α where
  label := label
  argNames := b.args.map Value.name
  argTypes := b.args.map fun v => v.type.print
  body := b.body
  terminator := b.terminator

def RegionOf.outline {α : Type} (r : RegionOf α) : List (BlockOutline α) :=
  r.labelled.map fun (label, b) => b.outline label

def Operation.outline (op : Operation) : Outline :=
  op.fold fun op regions => .operation op.heading (regions.map fun r => (r.map Prod.snd).outline)

theorem Operation.outline_eq (op : Operation) :
    op.outline =
      .operation op.heading (op.regions.map fun r => (r.map Operation.outline).outline) := by
  rw [outline, fold_eq, List.map_map]
  simp only [Function.comp_def, RegionOf.map_map]
  rfl

theorem Region.outline_eq (r : Region) :
    (r.map Operation.outline).outline =
      (r.entry.map Operation.outline).outline RegionOf.entryLabel ::
        r.blocks.map fun p => (p.2.map Operation.outline).outline p.1 := by
  simp [RegionOf.outline, RegionOf.labelled, RegionOf.map, Function.comp_def]

def Module.outline (m : Module) : List Outline :=
  m.ops.map Operation.outline

end GenericIR
