import GenericIR.Proofs.Alignment

/-! What the text does not depend on. Printing without places is printing a module from which all
places have been taken, with places or without. Ids and the marks of terminators are never printed,
so that modules that differ in nothing else have one text. -/
namespace GenericIR

namespace Operation

/-- The operation and all inside it, without their places. -/
def unplaced (op : Operation) : Operation :=
  op.fold fun op regions => { op with regions := regions.map (·.map Prod.snd), loc := .unknown }

theorem unplaced_eq (op : Operation) :
    op.unplaced = { op with regions := op.regions.map (·.map unplaced), loc := .unknown } := by
  rw [unplaced, fold_eq]
  simp only [List.map_map, Function.comp_def, RegionOf.map_map]
  rfl

/-- But for what is inside, the two differ at most in their ids and in how they are marked. -/
def SameButMarks (a b : Operation) : Prop :=
  b = { a with id := b.id, isTerminator := b.isTerminator, regions := b.regions }

theorem SameButMarks.printsLike {a b : Operation} (h : a.SameButMarks b) (options : PrintOptions) :
    a.PrintsLike options options b := by
  unfold SameButMarks at h
  rw [h]
  exact ⟨rfl, fun _ _ => rfl⟩

end Operation

theorem Span.print_unwanted (s : Span) : s.print { locations := false } = [] := rfl

theorem Span.print_unknown (options : PrintOptions) : Span.unknown.print options = [] := by
  unfold Span.print
  have hunknown : Span.unknown.isUnknown = true := rfl
  rw [hunknown, Bool.not_true, Bool.and_false]
  rfl

namespace Operation

/-- An operation that shows no place closes as it does where places are not wanted. -/
theorem frame_unplaced (a : Operation) (options : PrintOptions) (scope : Scope)
    (regions : List Page) :
    a.frame { locations := false } scope regions = a.unplaced.frame options scope regions := by
  have hclosing : a.closing { locations := false } scope = a.unplaced.closing options scope := by
    rw [closing, closing, unplaced_eq, Span.print_unwanted, Span.print_unknown]
    rfl
  unfold frame
  rw [hclosing, unplaced_eq]
  rfl

theorem aligned_unplaced (options : PrintOptions) (op : Operation) :
    op.Aligned (PrintsLike { locations := false } options) op.unplaced := by
  apply aligned_fold
  · intro op
    rw [unplaced_eq]
  · intro op
    refine ⟨?_, op.frame_unplaced options⟩
    rw [unplaced_eq]

end Operation

namespace Module

/-- The module without its place and those of all operations in it. -/
def unplaced (m : Module) : Module where
  ops := m.ops.map Operation.unplaced
  loc := .unknown

theorem print_unplaced (m : Module) (options : PrintOptions) :
    m.print { locations := false } = m.unplaced.print options := by
  apply print_eq_of_aligned
  · rw [unplaced, List.forall₂_map_right_iff, List.forall₂_same]
    exact fun op _ => op.aligned_unplaced options
  · rw [Span.print_unwanted, unplaced, Span.print_unknown]

/-- Places show only where they are wanted, ids and marks never: without places a module has the
text of its unplaced self, and modules that differ in ids and marks alone have the same texts. -/
theorem text_forgets_places_and_marks (m : Module) :
    (∀ options, m.print { locations := false } = m.unplaced.print options) ∧
      ∀ n : Module, m.Aligned Operation.SameButMarks n →
        ∀ options, m.print options = n.print options := by
  refine ⟨m.print_unplaced, fun n h options => ?_⟩
  apply print_eq_of_aligned
  · exact h.ops.imp fun a b hab => hab.imp fun _ _ hsame => hsame.printsLike options
  · rw [h.loc]

end Module

/-- A function with one operation inside, at the given place, under the given id and mark. -/
def markedModule (id : String) (isTerminator : Bool) (loc : Span) : Module where
  ops := [{
    name := "test.func"
    id := id ++ "f"
    regions := [{ entry := { terminator := { name := "test.yield", id, isTerminator, loc } } }]
    isTerminator
    loc }]
  loc

theorem markedModule_text :
    let loc : Span := ⟨"a.irt", ⟨1, 2⟩, ⟨1, 3⟩⟩
    (markedModule "1" true loc).Aligned Operation.SameButMarks (markedModule "x" false loc) ∧
      (markedModule "1" true loc).print { locations := true } =
        (markedModule "x" false loc).print { locations := true } ∧
      (markedModule "1" true loc).print { locations := false } =
        (markedModule "1" true .unknown).print { locations := true } := by
  intro loc
  let yield (id : String) (isTerminator : Bool) : Operation :=
    { name := "test.yield", id, isTerminator, loc }
  have haligned :
      (markedModule "1" true loc).Aligned Operation.SameButMarks (markedModule "x" false loc) := by
    have hyield : (yield "1" true).Aligned Operation.SameButMarks (yield "x" false) :=
      @Operation.Aligned.node _ _ _ [] rfl rfl rfl fun _ h => absurd h List.not_mem_nil
    refine ⟨.cons ?_ .nil, rfl⟩
    refine @Operation.Aligned.node _ _ _
      [{ entry := { terminator := (yield "1" true, yield "x" false) } }] rfl rfl rfl ?_
    exact List.forall_mem_singleton.2 (List.forall_mem_singleton.2 hyield)
  have htext := (markedModule "1" true loc).text_forgets_places_and_marks
  exact ⟨haligned, htext.2 _ haligned _, htext.1 _⟩

end GenericIR
