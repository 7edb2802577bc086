import GenericIR.Operation.Fold

/-! Every operation of a tree, each before those inside it. -/
namespace GenericIR

def Operation.walk (op : Operation) : List Operation :=
  op.fold fun op regions =>
    op :: regions.flatMap fun r => r.operations.flatMap Prod.snd

theorem Operation.walk_eq (op : Operation) :
    op.walk = op :: op.children.flatMap Operation.walk := by
  simp only [walk, fold_eq _ op, children, List.flatMap_map, List.flatMap_assoc,
    RegionOf.operations_map]
  rfl

theorem Operation.mem_walk_self (op : Operation) : op ∈ op.walk := by
  rw [walk_eq]
  exact List.mem_cons_self

theorem Operation.mem_children {op o : Operation} {r : Region} {p : String × Block}
    (hr : r ∈ op.regions) (hp : p ∈ r.labelled) (ho : o ∈ p.2.operations) : o ∈ op.children :=
  List.mem_flatMap.2 ⟨r, hr, List.mem_flatMap.2 ⟨p, hp, ho⟩⟩

theorem Operation.mem_walk_of_mem_children {op child o : Operation} (hchild : child ∈ op.children)
    (ho : o ∈ child.walk) : o ∈ op.walk := by
  rw [walk_eq]
  exact List.mem_cons_of_mem op (List.mem_flatMap.2 ⟨child, hchild, ho⟩)

theorem Operation.mem_walk_trans {op inner o : Operation} (hinner : inner ∈ op.walk)
    (ho : o ∈ inner.walk) : o ∈ op.walk := by
  induction op using Operation.induction with
  | step op ih =>
    rw [walk_eq, List.mem_cons] at hinner
    rcases hinner with rfl | hinner
    · exact ho
    · obtain ⟨child, hchild, hinner⟩ := List.mem_flatMap.1 hinner
      exact mem_walk_of_mem_children hchild (ih child hchild hinner)

def Module.walk (m : Module) : List Operation :=
  m.ops.flatMap Operation.walk

theorem Module.mem_walk_of_mem_walk {m : Module} {op o : Operation} (hop : op ∈ m.walk)
    (ho : o ∈ op.walk) : o ∈ m.walk := by
  obtain ⟨top, htop, hop⟩ := List.mem_flatMap.1 hop
  exact List.mem_flatMap.2 ⟨top, htop, Operation.mem_walk_trans hop ho⟩

end GenericIR
