import GenericIR.Operation

/-! Recursion and induction over operations. `fold` computes an answer for an operation from
the answers for the operations inside it, which it finds in the places of those operations;
`fold_eq` is its one equation. -/
namespace GenericIR.Operation

variable {β : Type}

mutual

/-- The answer of `step` at the root, where each operation further down is paired with the
answer at it. -/
def fold (step : Operation → List (RegionOf (Operation × β)) → β) : Operation → β
  | ⟨name, id, operands, results, attrs, regions, isTerminator, loc, successors⟩ =>
    step ⟨name, id, operands, results, attrs, regions, isTerminator, loc, successors⟩
      (foldRegions step regions)

def foldRegions (step : Operation → List (RegionOf (Operation × β)) → β) :
    List Region → List (RegionOf (Operation × β))
  | [] => []
  | ⟨entry, blocks⟩ :: regions =>
    ⟨foldBlock step entry, foldBlocks step blocks⟩ :: foldRegions step regions

def foldBlocks (step : Operation → List (RegionOf (Operation × β)) → β) :
    List (String × Block) → List (String × BlockOf (Operation × β))
  | [] => []
  | (label, b) :: bs => (label, foldBlock step b) :: foldBlocks step bs

def foldBlock (step : Operation → List (RegionOf (Operation × β)) → β) :
    Block → BlockOf (Operation × β)
  | ⟨args, body, terminator⟩ => ⟨args, foldBody step body, (terminator, fold step terminator)⟩

def foldBody (step : Operation → List (RegionOf (Operation × β)) → β) :
    List Operation → List (Operation × β)
  | [] => []
  | op :: ops => (op, fold step op) :: foldBody step ops

end

variable (step : Operation → List (RegionOf (Operation × β)) → β)

theorem foldBody_eq_map (ops : List Operation) :
    foldBody step ops = ops.map fun o => (o, o.fold step) := by
  induction ops with
  | nil => rfl
  | cons op ops ih => simp [foldBody, ih]

theorem foldBlock_eq_map (b : Block) :
    foldBlock step b = b.map fun o => (o, o.fold step) := by
  cases b
  simp [foldBlock, BlockOf.map, foldBody_eq_map]

theorem foldBlocks_eq_map (bs : List (String × Block)) :
    foldBlocks step bs = bs.map fun (label, b) => (label, b.map fun o => (o, o.fold step)) := by
  induction bs with
  | nil => rfl
  | cons b bs ih => simp [foldBlocks, foldBlock_eq_map, ih]

theorem foldRegions_eq_map (rs : List Region) :
    foldRegions step rs = rs.map (·.map fun o => (o, o.fold step)) := by
  induction rs with
  | nil => rfl
  | cons r rs ih => simp [foldRegions, foldBlock_eq_map, foldBlocks_eq_map, RegionOf.map, ih]

theorem fold_eq (op : Operation) :
    op.fold step = step op (op.regions.map (·.map fun o => (o, o.fold step))) := by
  cases op
  simp [fold, foldRegions_eq_map]

/-- What holds of an operation as soon as it holds of those directly inside it holds of all. -/
theorem induction {P : Operation → Prop}
    (step : ∀ op : Operation, (∀ o ∈ op.children, P o) → P op) (op : Operation) : P op :=
  @Operation.rec P
    (fun rs => ∀ r ∈ rs, ∀ o ∈ r.operations, P o)
    (fun r => ∀ o ∈ r.operations, P o)
    (fun b => ∀ o ∈ b.operations, P o)
    (fun bs => ∀ b ∈ bs, ∀ o ∈ b.2.operations, P o)
    (fun os => ∀ o ∈ os, P o)
    (fun b => ∀ o ∈ b.2.operations, P o)
    (fun _ _ _ _ _ _ _ _ _ inside => step _ fun o h =>
      have ⟨r, hr, ho⟩ := List.mem_flatMap.1 h
      inside r hr o ho)
    (by simp) (by simp_all)
    (by
      intro entry blocks he hb o ho
      simp only [RegionOf.operations, RegionOf.labelled, List.flatMap_cons, List.mem_append,
        List.mem_flatMap] at ho
      obtain ho | ⟨b, hb', ho⟩ := ho
      · exact he o ho
      · exact hb b hb' o ho)
    (by
      intro args body last hb hl o ho
      simp only [BlockOf.operations, List.mem_append, List.mem_singleton] at ho
      obtain ho | rfl := ho
      · exact hb o ho
      · exact hl)
    (by simp) (by simp_all) (by simp) (by simp_all) (by simp)
    op

end GenericIR.Operation
