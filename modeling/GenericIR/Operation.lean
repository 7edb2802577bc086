import GenericIR.Attr
import GenericIR.Source

/-! Operations, blocks, regions and modules. An operation holds regions, a region blocks, and
a block operations again. Blocks and regions are written for any kind of content, so that what
a computation found at the operations of a region can stand in the same places. -/
namespace GenericIR

/-- A name and its type: a result of an operation or an argument of a block. -/
structure Value where
  name : String
  type : Ty
  deriving Repr

/-- A straight line of operations; the last one, the terminator, stands apart. -/
structure BlockOf (α : Type) where
  args : List Value := []
  body : List α := []
  terminator : α

/-- An entry block, and further blocks under labels. -/
structure RegionOf (α : Type) where
  entry : BlockOf α
  blocks : List (String × BlockOf α) := []

structure Operation where
  name : String
  id : String
  operands : List String := []
  results : List Value := []
  attrs : AttrDict := ∅
  regions : List (RegionOf Operation) := []
  isTerminator : Bool := false
  loc : Span := .unknown
  /-- Labels of the blocks that a terminator may branch to. -/
  successors : List String := []

abbrev Block := BlockOf Operation

abbrev Region := RegionOf Operation

structure Module where
  ops : List Operation := []
  loc : Span := .unknown

namespace BlockOf

variable {α β : Type}

def map (f : α → β) (b : BlockOf α) : BlockOf β where
  args := b.args
  body := b.body.map f
  terminator := f b.terminator

/-- The body, then the terminator. -/
def operations (b : BlockOf α) : List α :=
  b.body ++ [b.terminator]

@[simp] theorem operations_map (f : α → β) (b : BlockOf α) :
    (b.map f).operations = b.operations.map f := by
  simp [operations, map]

@[simp] theorem map_map {γ : Type} (g : β → γ) (f : α → β) (b : BlockOf α) :
    (b.map f).map g = b.map fun a => g (f a) := by
  simp [map, Function.comp_def]

@[simp] theorem map_id (b : BlockOf α) : (b.map fun a => a) = b := by
  simp [map]

theorem map_congr {f g : α → β} {b : BlockOf α} (h : ∀ a ∈ b.operations, f a = g a) :
    b.map f = b.map g := by
  have hbody : ∀ a ∈ b.body, f a = g a := fun a ha => h a (by simp [operations, ha])
  have hlast : f b.terminator = g b.terminator := h _ (by simp [operations])
  rw [map, map, List.map_congr_left hbody, hlast]

end BlockOf

namespace RegionOf

variable {α β : Type}

/-- The label under which the entry block is known. -/
def entryLabel : String := "bb0"

def map (f : α → β) (r : RegionOf α) : RegionOf β where
  entry := r.entry.map f
  blocks := r.blocks.map fun (label, b) => (label, b.map f)

/-- All blocks with their labels, the entry block first. -/
def labelled (r : RegionOf α) : List (String × BlockOf α) :=
  (entryLabel, r.entry) :: r.blocks

def labels (r : RegionOf α) : List String :=
  r.labelled.map Prod.fst

/-- The first block of that label; the label of the entry block always means the entry. -/
def findBlock (r : RegionOf α) (label : String) : Option (BlockOf α) :=
  r.labelled.lookup label

def operations (r : RegionOf α) : List α :=
  r.labelled.flatMap fun (_, b) => b.operations

@[simp] theorem labelled_map (f : α → β) (r : RegionOf α) :
    (r.map f).labelled = r.labelled.map fun (label, b) => (label, b.map f) := rfl

@[simp] theorem labels_map (f : α → β) (r : RegionOf α) : (r.map f).labels = r.labels := by
  simp [labels, Function.comp_def]

@[simp] theorem operations_map (f : α → β) (r : RegionOf α) :
    (r.map f).operations = r.operations.map f := by
  simp [operations, List.flatMap_map, List.map_flatMap]

@[simp] theorem map_map {γ : Type} (g : β → γ) (f : α → β) (r : RegionOf α) :
    (r.map f).map g = r.map fun a => g (f a) := by
  simp [map, Function.comp_def]

@[simp] theorem map_id (r : RegionOf α) : (r.map fun a => a) = r := by
  simp [map]

theorem map_congr {f g : α → β} {r : RegionOf α} (h : ∀ a ∈ r.operations, f a = g a) :
    r.map f = r.map g := by
  have hblock (p : String × BlockOf α) (hp : p ∈ r.labelled) : p.2.map f = p.2.map g :=
    BlockOf.map_congr fun a ha => h a (List.mem_flatMap.2 ⟨p, hp, ha⟩)
  have hentry : r.entry.map f = r.entry.map g := hblock (entryLabel, r.entry) (by simp [labelled])
  have hblocks : r.blocks.map (fun (label, b) => (label, b.map f)) =
      r.blocks.map fun (label, b) => (label, b.map g) :=
    List.map_congr_left fun p hp => Prod.ext rfl (hblock p (by simp [labelled, hp]))
  rw [map, map, hentry, hblocks]

theorem isSome_findBlock {r : RegionOf α} {label : String} :
    (r.findBlock label).isSome ↔ label ∈ r.labels := by
  rw [findBlock, labels]
  induction r.labelled with
  | nil => simp
  | cons b bs ih =>
    obtain ⟨l, b⟩ := b
    rw [List.lookup_cons]
    split <;> simp_all

end RegionOf

namespace Operation

def findAttr (op : Operation) (key : String) : Option Attr :=
  op.attrs.find? key

/-- The operations directly inside, in order. -/
def children (op : Operation) : List Operation :=
  op.regions.flatMap RegionOf.operations

def resultNames (op : Operation) : List String :=
  op.results.map Value.name

end Operation

end GenericIR
