import GenericIR.Operation

/-! Where operations stand. A path leads to an operation through the regions and blocks of those
around it, and what the operation may refer to is bound before it in its own block. This is said of
the tree alone: no scope is threaded, and nothing is listed. -/
namespace GenericIR

/-- The way from an operation to one directly inside it: the indices of the region, of the
block in the region and of the operation in the block. -/
structure Step where
  region : Nat
  block : Nat
  index : Nat
  deriving DecidableEq

abbrev Path := List Step

/-- The results of the first `i` operations of a row, oldest first. -/
def earlierResults (ops : List Operation) (i : Nat) : List Value :=
  (ops.take i).flatMap Operation.results

/-- What the operation at index `i` may refer to; the terminator stands at the end. -/
def Block.boundBefore (b : Block) (i : Nat) : List Value :=
  b.args ++ earlierResults b.body i

/-- The entry block has index 0, the blocks with labels follow. -/
def Region.block? (r : Region) : Nat → Option Block
  | 0 => some r.entry
  | k + 1 => (r.blocks[k]?).map Prod.snd

/-- `m.Stands path op bound`: in the module `op` stands at that path, and `bound` are the values
bound before it in its own block, oldest first. -/
inductive Module.Stands (m : Module) : Path → Operation → List Value → Prop
  | top {i : Nat} {op : Operation} (operation : m.ops[i]? = some op) :
    Stands m [⟨0, 0, i⟩] op (earlierResults m.ops i)
  | inside {path : Path} {outer op : Operation} {bound : List Value} {r : Region} {b : Block}
    {j k i : Nat} (around : Stands m path outer bound) (region : outer.regions[j]? = some r)
    (block : r.block? k = some b) (operation : b.operations[i]? = some op) :
    Stands m (path ++ [⟨j, k, i⟩]) op (b.boundBefore i)

theorem Region.map_getElem?_labelled (r : Region) (k : Nat) :
    (r.labelled[k]?).map Prod.snd = r.block? k := by
  cases k <;> rfl

end GenericIR
