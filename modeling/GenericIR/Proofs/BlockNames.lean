import GenericIR.Proofs.Acceptance

/-! The names that a block of an accepted module binds. Arguments and results of the body are
all different. The results of the terminator come after everything that is compared, so that
they may repeat a name; the block binds every name once exactly when they do not. -/
namespace GenericIR

/-- All names bound in the block, those of its terminator included. -/
def Block.boundNames (b : Block) : List String :=
  b.args.map Value.name ++ b.operations.flatMap Operation.resultNames

theorem Block.boundNames_eq (b : Block) :
    b.boundNames = (b.args.map Value.name ++ b.body.flatMap Operation.resultNames) ++
      b.terminator.resultNames := by
  simp [boundNames, BlockOf.operations]

theorem Module.Accepted.boundNames_nodup_iff {m : Module} (h : m.Accepted)
    {op : Operation} (hop : op ∈ m.walk) {r : Region} (hr : r ∈ op.regions)
    {label : String} {b : Block} (hb : (label, b) ∈ r.labelled) :
    (b.args.map Value.name ++ b.body.flatMap Operation.resultNames).Nodup ∧
      (b.boundNames.Nodup ↔ b.terminator.resultNames.Nodup ∧
        ∀ x ∈ b.terminator.resultNames,
          x ∉ b.args.map Value.name ++ b.body.flatMap Operation.resultNames) := by
  have hm : m.WellFormed := diagnostics_eq_nil_iff.1 (accepted_iff.1 h)
  have hn := ((hm.regions_of_mem_walk op hop r hr).of_mem_labelled hb).names_nodup
  refine ⟨hn, ?_⟩
  rw [Block.boundNames_eq, List.nodup_append]
  constructor
  · rintro ⟨-, hlast, hdisjoint⟩
    exact ⟨hlast, fun x hx hx' => hdisjoint x hx' x hx rfl⟩
  · rintro ⟨hlast, hnew⟩
    exact ⟨hn, hlast, fun x hx y hy hxy => hnew y hy (hxy ▸ hx)⟩

/-- A block whose terminator binds the name of the argument again. -/
def reboundBlock : Block where
  args := [⟨"%a", .i32⟩]
  terminator := { name := "test.yield", id := "1", results := [⟨"%a", .i32⟩], isTerminator := true }

def reboundFunction : Operation where
  name := "test.func"
  id := "f"
  regions := [{ entry := reboundBlock }]

def reboundArgument : Module where
  ops := [reboundFunction]

theorem reboundArgument_accepted : reboundArgument.Accepted :=
  Module.accepted_iff.2 (by decide)

theorem reboundFunction_mem_walk : reboundFunction ∈ reboundArgument.walk := by
  refine List.mem_flatMap.2 ⟨reboundFunction, List.mem_singleton.2 rfl, ?_⟩
  rw [Operation.walk_eq]
  exact List.mem_cons_self

theorem reboundBlock_boundNames_nodup_iff :
    reboundArgument.Accepted ∧ reboundFunction ∈ reboundArgument.walk ∧
      (reboundBlock.boundNames.Nodup ↔ ["%a"].Nodup ∧ ∀ x ∈ ["%a"], x ∉ ["%a"]) :=
  ⟨reboundArgument_accepted, reboundFunction_mem_walk,
    (Module.Accepted.boundNames_nodup_iff reboundArgument_accepted reboundFunction_mem_walk
      (List.mem_singleton.2 rfl) (List.mem_singleton.2 rfl)).2⟩

theorem not_forall_boundNames_nodup :
    ¬ ∀ m : Module, m.Accepted → ∀ op ∈ m.walk, ∀ r ∈ op.regions, ∀ p ∈ r.labelled,
      (Block.boundNames p.2).Nodup := by
  intro h
  have hm := h reboundArgument reboundArgument_accepted
  revert hm
  decide

end GenericIR
