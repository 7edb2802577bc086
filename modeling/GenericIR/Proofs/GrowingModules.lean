import GenericIR.Proofs.InsertionOrder

/-! Growing modules. Operations put behind a module take back nothing that was found wrong with it.
What each pass of verification reports on the whole begins with what it reported before; since one
pass follows the other, new faults of structure come between the old reports. -/
namespace GenericIR

/-- The check of a row begins with what is found before its last part. -/
theorem Checked.prefix_sequence (labels : Option (List String)) (scope : Scope)
    (ops : List (Operation × Checked)) (last : Scope → List Diagnostic) :
    sequence labels scope ops (fun _ => []) <+: sequence labels scope ops last := by
  induction ops generalizing scope with
  | nil => exact List.nil_prefix
  | cons p ops ih =>
    rw [sequence, sequence]
    exact (List.prefix_append_right_inj _).2 (ih _)

theorem Checked.sequence_append (labels : Option (List String)) (scope : Scope)
    (ops later : List (Operation × Checked)) (last : Scope → List Diagnostic) :
    sequence labels scope (ops ++ later) last =
      sequence labels scope ops fun scope => sequence labels scope later last := by
  induction ops generalizing scope with
  | nil => rfl
  | cons p ops ih => rw [List.cons_append, sequence, sequence, ih]

/-- Definitions that come later are reported behind the earlier ones, and take none of them back. -/
theorem prefix_secondDefinitions_append (seen : List String) (ops later : List Operation) :
    secondDefinitions seen ops <+: secondDefinitions seen (ops ++ later) := by
  induction ops generalizing seen with
  | nil => exact List.nil_prefix
  | cons op ops ih =>
    rw [List.cons_append, secondDefinitions, secondDefinitions]
    cases op.symbol? with
    | none => exact ih seen
    | some name => exact (List.prefix_append_right_inj _).2 (ih _)

namespace Module

variable (xs ys : List Operation) (loc loc' : Span)

theorem prefix_structure_append (order : AttrDict → List (String × Attr)) :
    Checked.sequence none ∅ (xs.map fun op => (op, op.checkIn order)) (fun _ => []) <+:
      Checked.sequence none ∅ ((xs ++ ys).map fun op => (op, op.checkIn order)) fun _ => [] := by
  rw [List.map_append, Checked.sequence_append]
  exact Checked.prefix_sequence _ _ _ _

theorem prefix_symbolDiagnostics_append :
    (mk xs loc).symbolDiagnostics <+: (mk (xs ++ ys) loc').symbolDiagnostics := by
  rw [symbolDiagnostics, symbolDiagnostics, walk, walk, List.flatMap_append]
  exact prefix_secondDefinitions_append _ _ _

theorem diagnosticsIn_sublist (order : AttrDict → List (String × Attr)) :
    ((mk xs loc).diagnosticsIn order).Sublist ((mk (xs ++ ys) loc').diagnosticsIn order) :=
  (prefix_structure_append xs ys order).sublist.append
    (prefix_symbolDiagnostics_append xs ys loc loc').sublist

/-- Operations behind a module leave its errors as they are and in their order, whatever the order in
which attributes are visited; so they do not make a module acceptable. -/
theorem errors_sublist_append :
    (mk xs loc).errors.Sublist (mk (xs ++ ys) loc').errors ∧
    ((mk (xs ++ ys) loc').Accepted → (mk xs loc).Accepted) ∧
    ∀ order, ((mk xs loc).diagnosticsIn order).Sublist
      ((mk (xs ++ ys) loc').diagnosticsIn order) := by
  have hdiagnostics : (mk xs loc).diagnostics.Sublist (mk (xs ++ ys) loc').diagnostics :=
    diagnosticsIn_sublist xs ys loc loc' Dict.toSortedList
  refine ⟨?_, fun h => ?_, diagnosticsIn_sublist xs ys loc loc'⟩
  · rw [errors_eq, errors_eq]
    exact hdiagnostics
  · rw [accepted_iff] at h ⊢
    rw [h] at hdiagnostics
    exact List.sublist_nil.1 hdiagnostics

/-- New faults of structure come before the old report of a symbol. -/
example :
    let define : Operation :=
      { name := "test.func", id := "f", attrs := .ofList [("sym_name", .string "f")] }
    let use : Operation := { name := "test.use", id := "1", operands := ["%x"] }
    ({ ops := [define, define] } : Module).errors.map Diagnostic.fault = [.duplicateSymbol "f"] ∧
      ({ ops := [define, define, use] } : Module).errors.map Diagnostic.fault =
        [.undefinedOperand "%x", .duplicateSymbol "f"] := by
  decide +kernel

end Module

end GenericIR
