import Mathlib.Data.List.Nodup
import GenericIR.Operation.Printer
import GenericIR.Proofs.WellFormed

/-! Rows of operations: what a check of a row finds, operation by operation, and when the names
that a row binds are all different. -/
namespace GenericIR

theorem forall_getElem?_cons {α : Type} {P : Nat → α → Prop} {a : α} {as : List α} :
    (∀ i b, (a :: as)[i]? = some b → P i b) ↔
      P 0 a ∧ ∀ i b, as[i]? = some b → P (i + 1) b := by
  constructor
  · exact fun h => ⟨h 0 a rfl, fun i b hb => h (i + 1) b (by simpa using hb)⟩
  · rintro ⟨h0, h⟩ (_ | i) b hb
    · simp_all
    · exact h i b (by simpa using hb)

theorem forall_getElem?_concat {α : Type} {P : Nat → α → Prop} {as : List α} {a : α} :
    (∀ i b, (as ++ [a])[i]? = some b → P i b) ↔
      (∀ i b, as[i]? = some b → P i b) ∧ P as.length a := by
  constructor
  · refine fun h => ⟨fun i b hb => h i b ?_, h as.length a (by simp)⟩
    obtain ⟨hi, -⟩ := List.getElem?_eq_some_iff.1 hb
    rw [List.getElem?_append_left hi, hb]
  · rintro ⟨h, hlast⟩ i b hb
    rcases Nat.lt_trichotomy i as.length with hi | rfl | hi
    · exact h i b (by rwa [List.getElem?_append_left hi] at hb)
    · simp_all
    · rw [List.getElem?_eq_none (by simp; omega)] at hb
      simp at hb

@[simp] theorem earlierResults_zero (ops : List Operation) : earlierResults ops 0 = [] := rfl

@[simp] theorem earlierResults_cons_succ (op : Operation) (ops : List Operation) (i : Nat) :
    earlierResults (op :: ops) (i + 1) = op.results ++ earlierResults ops i := by
  simp [earlierResults]

@[simp] theorem earlierResults_length (ops : List Operation) :
    earlierResults ops ops.length = ops.flatMap Operation.results := by
  simp [earlierResults]

/-- A row of operations is checked in the scopes that the operations before leave. -/
theorem Checked.sequence_eq (labels : Option (List String)) (f : Operation → Checked)
    (scope : Scope) (ops : List Operation) (last : Scope → List Diagnostic) :
    sequence labels scope (ops.map fun op => (op, f op)) last =
      (ops.zipIdx.flatMap fun (op, i) =>
        f op ⟨scope.bind (earlierResults ops i), labels, false⟩ ++
          op.redefinitions (scope.bind (earlierResults ops i))) ++
        last (scope.bind (ops.flatMap Operation.results)) := by
  induction ops generalizing scope with
  | nil => simp [sequence]
  | cons op ops ih =>
    simp only [List.map_cons, sequence, ih, List.zipIdx_cons', List.flatMap_cons, List.flatMap_map,
      Prod.map_fst, Prod.map_snd, id_eq, earlierResults_zero, Scope.bind_nil,
      earlierResults_cons_succ, Scope.bind_append, List.append_assoc]

/-- A row of operations is printed in the same scopes. -/
theorem Printed.sequence_eq (f : Operation → Printed) (scope : Scope) (ops : List Operation)
    (last : Printed) :
    sequence scope (ops.map fun op => (op, f op)) last =
      .concat (ops.zipIdx.map fun (op, i) => f op (scope.bind (earlierResults ops i))) ++
        last (scope.bind (ops.flatMap Operation.results)) := by
  induction ops generalizing scope with
  | nil => simp [sequence]; rfl
  | cons op ops ih =>
    simp only [List.map_cons, sequence, ih, List.zipIdx_cons', List.map_map, Function.comp_def,
      Prod.map_fst, Prod.map_snd, id_eq, earlierResults_zero, Scope.bind_nil,
      earlierResults_cons_succ, Scope.bind_append, List.flatMap_cons, Page.concat,
      List.foldr_cons, Page.append_assoc]

/-- A block is checked as its arguments, the row of its body and the terminator behind it. -/
theorem Block.check_eq (labels : List String) (b : Block) :
    Block.check labels b =
      (repeats Value.name [] b.args).map
          (fun v => b.terminator.diagnose (.duplicateArgument v.name)) ++
        Checked.sequence (some labels) b.entryScope (b.body.map fun op => (op, op.check))
          fun scope => b.terminator.check ⟨scope, some labels, true⟩ := rfl

/-- A block is printed as its header and its operations in the scopes that it gives them. -/
theorem Block.page_eq (options : PrintOptions) (label : String) (b : Block) :
    Block.page options label b =
      Printed.blockHeader label b.args ++ .concat (b.operations.zipIdx.map fun (op, i) =>
        op.page options (b.entryScope.bind (earlierResults b.body i))) := by
  have hpage : Block.page options label b = Printed.blockHeader label b.args ++
      Printed.sequence b.entryScope (b.body.map fun op => (op, op.page options))
        (b.terminator.page options) := rfl
  rw [hpage, Printed.sequence_eq, BlockOf.operations, List.zipIdx_append, List.map_append,
    Page.concat_append]
  simp [Page.concat]

/-- A region is printed block after block. -/
theorem Region.page_eq (options : PrintOptions) (r : Region) :
    Region.page options r = .concat (r.labelled.map fun p => Block.page options p.1 p.2) := by
  rw [page, Printed.region, RegionOf.labelled_map, List.map_map]
  rfl

theorem flatMap_intersperse_cons {α β : Type} (f : α → List β) (separator a : α) (as : List α) :
    ((a :: as).intersperse separator).flatMap f =
      f a ++ as.flatMap fun b => f separator ++ f b := by
  induction as generalizing a with
  | nil => simp
  | cons b as ih => simp [ih]

/-- A region is checked as its labels and then block after block. -/
theorem Region.check_eq (r : Region) :
    Region.check r =
      (repeats Prod.fst [RegionOf.entryLabel]
          (r.map fun op : Operation => (op, op.check)).blocks).map
            (fun p => p.2.terminator.1.diagnose (.duplicateLabel p.1)) ++
        r.labelled.flatMap fun p => Block.check r.labels p.2 := by
  simp only [check, Checked.region, RegionOf.labelled_map, RegionOf.labels_map, List.flatMap_map]
  rfl

/-- Repetitions stay where they are if keys change one to one. -/
theorem repeats_map_of_injective {α β : Type} (key : α → String) (key' : β → String) {f : α → β}
    {g : String → String} (hg : Function.Injective g) (hkey : ∀ a, key' (f a) = g (key a))
    (seen : List String) (as : List α) :
    repeats key' (seen.map g) (as.map f) = (repeats key seen as).map f := by
  induction as generalizing seen with
  | nil => rfl
  | cons a as ih =>
    have hseen : key' (f a) ∈ seen.map g ↔ key a ∈ seen := by
      rw [hkey, List.mem_map_of_injective hg]
    rw [List.map_cons, repeats, repeats, hkey, ← List.map_cons, ih, List.map_append]
    simp only [← hkey, hseen]
    split <;> rfl

theorem repeats_map {α β : Type} (key : β → String) (f : α → β) (seen : List String)
    (as : List α) :
    repeats key seen (as.map f) = (repeats (fun a => key (f a)) seen as).map f := by
  rw [← repeats_map_of_injective _ key Function.injective_id fun _ => rfl, List.map_id]

theorem mem_of_mem_repeats {α : Type} {key : α → String} {seen : List String} {as : List α} {a : α}
    (h : a ∈ repeats key seen as) : a ∈ as := by
  induction as generalizing seen with
  | nil => exact h
  | cons b bs ih =>
    rcases List.mem_append.1 h with hfirst | hrest
    · split at hfirst
      · exact List.mem_cons.2 (.inl (List.mem_singleton.1 hfirst))
      · exact absurd hfirst List.not_mem_nil
    · exact List.mem_cons_of_mem b (ih hrest)

theorem repeats_eq_nil_iff {α : Type} {key : α → String} {seen : List String} {as : List α} :
    repeats key seen as = [] ↔ (as.map key).Nodup ∧ ∀ a ∈ as, key a ∉ seen := by
  induction as generalizing seen with
  | nil => simp [repeats]
  | cons a as ih =>
    by_cases h : key a ∈ seen
    · simp [repeats, h]
    · simp only [repeats, h, ↓reduceIte, List.nil_append, ih, List.map_cons, List.nodup_cons,
        List.mem_map, List.mem_cons]
      grind

theorem Operation.redefinitions_eq_nil_iff {op : Operation} {scope : Scope} :
    op.redefinitions scope = [] ↔
      op.resultNames.Nodup ∧ ∀ x ∈ op.resultNames, x ∉ scope.names := by
  simp [redefinitions, repeats_eq_nil_iff, resultNames]

/-- Each operation of a row binds new names if and only if no two bindings meet. -/
theorem row_names_nodup_iff {names : List String} {ops : List Operation} (hn : names.Nodup) :
    (∀ i op, ops[i]? = some op → op.resultNames.Nodup ∧
        ∀ x ∈ op.resultNames, x ∉ names ++ (earlierResults ops i).map Value.name) ↔
      (names ++ ops.flatMap Operation.resultNames).Nodup := by
  induction ops generalizing names with
  | nil => simpa using hn
  | cons op ops ih =>
    rw [forall_getElem?_cons]
    simp only [earlierResults_zero, List.map_nil, List.append_nil, earlierResults_cons_succ,
      List.map_append, List.flatMap_cons]
    simp only [← List.append_assoc]
    have hhead : (op.resultNames.Nodup ∧ ∀ x ∈ op.resultNames, x ∉ names) ↔
        (names ++ op.resultNames).Nodup := by
      rw [List.nodup_append]
      grind
    constructor
    · rintro ⟨h0, h⟩
      exact (ih (hhead.1 h0)).1 h
    · intro h
      have h0 := List.Nodup.of_append_left h
      exact ⟨hhead.2 h0, (ih h0).2 h⟩

end GenericIR
