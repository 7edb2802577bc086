import GenericIR.Operation.Printer
import GenericIR.Proofs.Acceptance
import GenericIR.Proofs.Sites

/-! Verification and printing share their scoping. Every operand of every operation is one use;
a use without a binding in reach is reported by the one and left without a type by the other,
and nothing else is. -/
namespace GenericIR

/-- An operand at its index among the operands of a site. -/
structure Use where
  site : Site
  index : Nat
  name : String

namespace Use

/-- Nothing in the own block before the operation binds the name. -/
def isUnbound (u : Use) : Bool :=
  decide (u.name ∉ u.site.place.scope.names)

def diagnostic (u : Use) : Diagnostic :=
  u.site.op.diagnose (.undefinedOperand u.name)

def miss (u : Use) : UntypedOperand :=
  ⟨u.site.op.name, u.name⟩

end Use

namespace Site

def uses (s : Site) : List Use :=
  s.op.operands.zipIdx.map fun (x, i) => ⟨s, i, x⟩

def unboundUses (s : Site) : List Use :=
  s.uses.filter Use.isUnbound

theorem map_unboundUses {γ : Type} (f : Use → γ) (g : Operation → String → γ) (s : Site)
    (h : ∀ i x, f ⟨s, i, x⟩ = g s.op x) :
    s.unboundUses.map f =
      (s.op.operands.filter fun x => !s.place.scope.contains x).map (g s.op) := by
  have hname (x : String) : (!s.place.scope.contains x) = decide (x ∉ s.place.scope.names) := by
    simp [← Scope.contains_iff]
  have hop : s.op.operands = s.op.operands.zipIdx.map Prod.fst := (List.zipIdx_map_fst 0 _).symm
  conv_rhs => rw [hop]
  simp only [unboundUses, uses, List.filter_map, List.map_map, hname]
  exact List.map_congr_left fun p _ => h p.2 p.1

end Site

def Fault.isUndefinedOperand : Fault → Bool
  | undefinedOperand _ => true
  | _ => false

def Diagnostic.isUndefinedOperand (d : Diagnostic) : Bool :=
  d.fault.isUndefinedOperand

namespace Operation

theorem filter_faults (op : Operation) (place : Place) :
    (op.faults place).filter Fault.isUndefinedOperand = op.operandFaults place.scope := by
  have hoperand : ∀ f ∈ op.operandFaults place.scope, f.isUndefinedOperand := by
    intro f hf
    obtain ⟨x, -, rfl⟩ := List.mem_map.1 hf
    rfl
  have hmark : ∀ f ∈ op.markFaults place.isLast, ¬ f.isUndefinedOperand := by
    cases h : op.isTerminator <;> cases h' : place.isLast <;>
      simp [markFaults, h, Fault.isUndefinedOperand]
  have hsuccessor : ∀ f ∈ op.successorFaults place.labels, ¬ f.isUndefinedOperand := by
    intro f hf
    cases h : place.labels <;> rw [h] at hf <;> obtain ⟨x, -, rfl⟩ := List.mem_map.1 hf <;>
      simp [Fault.isUndefinedOperand]
  have hattr : ∀ f ∈ op.attrFaults, ¬ f.isUndefinedOperand := by
    intro f hf
    obtain ⟨p, -, hf⟩ := List.mem_flatMap.1 hf
    obtain ⟨a, -, hf⟩ := Attr.mem_faults.1 hf
    rcases Attr.mem_ownFaults.1 hf with ⟨-, -, rfl⟩ | ⟨shape, t, payload, -, -, rfl⟩ <;>
      simp [Fault.isUndefinedOperand]
  rw [faults, List.filter_append, List.filter_append, List.filter_append,
    List.filter_eq_self.2 hoperand, List.filter_eq_nil_iff.2 hmark,
    List.filter_eq_nil_iff.2 hsuccessor, List.filter_eq_nil_iff.2 hattr]
  simp

end Operation

open Diagnostic (isUndefinedOperand)

theorem filter_map_diagnose {α : Type} (as : List α) (op : α → Operation) (fault : α → Fault)
    (h : ∀ a, (fault a).isUndefinedOperand = false) :
    (as.map fun a => (op a).diagnose (fault a)).filter isUndefinedOperand = [] := by
  simp [List.filter_eq_nil_iff, Diagnostic.isUndefinedOperand, Operation.diagnose, h]

/-- In a block only the checks of its operations find undefined operands. -/
theorem Block.filter_check (labels : List String) (b : Block) :
    (Block.check labels b).filter isUndefinedOperand =
      b.operations.zipIdx.flatMap fun (op, i) =>
        (op.check (b.placeAt labels i)).filter isUndefinedOperand := by
  rw [check_eq, List.filter_append, filter_map_diagnose _ _ _ fun _ => rfl, List.nil_append,
    Checked.sequence_eq, List.filter_append, List.filter_flatMap, BlockOf.operations,
    List.zipIdx_append, List.flatMap_append]
  congr 1
  · apply List.flatMap_congr
    rintro ⟨op, i⟩ hi
    have hi : i ≠ b.body.length := Nat.ne_of_lt (List.snd_lt_of_mem_zipIdx hi)
    rw [List.filter_append, Operation.redefinitions, filter_map_diagnose _ _ _ fun _ => rfl,
      List.append_nil]
    simp only [placeAt_eq, beq_false_of_ne hi]
  · simp [placeAt_eq]

theorem Region.filter_check (r : Region) :
    (Region.check r).filter isUndefinedOperand =
      r.labelled.zipIdx.flatMap fun (p, _) => p.2.operations.zipIdx.flatMap fun (op, i) =>
        (op.check (Block.placeAt r.labels p.2 i)).filter isUndefinedOperand := by
  rw [check_eq, List.filter_append, filter_map_diagnose _ _ _ fun _ => rfl, List.nil_append,
    List.filter_flatMap]
  simp only [Block.filter_check]
  exact (flatMap_zipIdx r.labelled _).symm

theorem Operation.filter_check (op : Operation) (path : Path) (place : Place) :
    (op.check place).filter isUndefinedOperand =
      (Site.unboundUses ⟨path, op, place⟩).map Use.diagnostic ++
        op.visitInside (fun o _ place => (o.check place).filter isUndefinedOperand) path := by
  have hown : ((op.faults place).map op.diagnose).filter isUndefinedOperand =
      (Site.unboundUses ⟨path, op, place⟩).map Use.diagnostic := by
    have hf : (op.faults place).filter (isUndefinedOperand ∘ op.diagnose) =
        op.operandFaults place.scope := filter_faults op place
    rw [List.filter_map, hf, operandFaults, List.map_map]
    exact (Site.map_unboundUses Use.diagnostic
      (fun op x => op.diagnose (.undefinedOperand x)) ⟨path, op, place⟩ fun _ _ => rfl).symm
  rw [check_eq, List.filter_append, hown, List.filter_flatMap]
  simp only [Region.filter_check]
  exact congrArg (_ ++ ·) (flatMap_zipIdx op.regions _).symm

theorem Operation.filter_check_eq_sites (op : Operation) (path : Path) (place : Place) :
    (op.check place).filter isUndefinedOperand =
      ((op.sites outerFirst path place).flatMap Site.unboundUses).map Use.diagnostic := by
  induction op using Operation.induction generalizing path place with
  | step op ih =>
    rw [filter_check op path, sites_eq, outerFirst, List.flatMap_cons, List.map_append,
      flatMap_visitInside, map_visitInside]
    exact congrArg (_ ++ ·) (visitInside_congr fun o ho path place => ih o ho path place)

/-- The places of a block give the scopes in which its operations are printed. -/
theorem Block.untyped_page (options : PrintOptions) (label : String) (labels : List String)
    (b : Block) :
    (Block.page options label b).untyped = b.operations.zipIdx.flatMap fun (op, i) =>
      (op.page options (b.placeAt labels i).scope).untyped := by
  have hheader : (Printed.blockHeader label b.args).untyped = [] := by
    unfold Printed.blockHeader
    split <;> rfl
  rw [page_eq, Page.untyped_append, hheader, List.nil_append, Page.untyped_concat,
    List.flatMap_map]
  simp only [placeAt_eq]

theorem Region.untyped_page (options : PrintOptions) (r : Region) :
    (Region.page options r).untyped = r.labelled.zipIdx.flatMap fun (p, _) =>
      p.2.operations.zipIdx.flatMap fun (op, i) =>
        (op.page options (Block.placeAt r.labels p.2 i).scope).untyped := by
  rw [page_eq, Page.untyped_concat, List.flatMap_map]
  simp only [Block.untyped_page options _ r.labels]
  exact (flatMap_zipIdx r.labelled _).symm

theorem Operation.untyped_frame (options : PrintOptions) (op : Operation) (scope : Scope)
    (regions : List Page) :
    (op.frame options scope regions).untyped =
      regions.flatMap Page.untyped ++ op.untypedOperands scope := by
  cases regions with
  | nil => simp [frame]
  | cons r rs =>
    simp only [frame, Page.untyped_append, Page.untyped_line, Page.untyped_concat,
      Page.untyped_misses, List.nil_append, List.append_nil]
    rw [List.map_cons, flatMap_intersperse_cons, List.flatMap_map, List.flatMap_cons]
    rfl

theorem Operation.untyped_page (options : PrintOptions) (op : Operation) (path : Path)
    (place : Place) :
    (op.page options place.scope).untyped =
      op.visitInside (fun o _ place => (o.page options place.scope).untyped) path ++
        (Site.unboundUses ⟨path, op, place⟩).map Use.miss := by
  have hown : op.untypedOperands place.scope =
      (Site.unboundUses ⟨path, op, place⟩).map Use.miss := by
    rw [Site.map_unboundUses Use.miss (fun op x => ⟨op.name, x⟩) ⟨path, op, place⟩
      fun _ _ => rfl, untypedOperands, typedOperands, List.filterMap_map]
    induction op.operands with
    | nil => rfl
    | cons x xs ih => cases h : place.scope.find? x <;> simp_all [Dict.contains]
  rw [page_eq, untyped_frame, hown, List.flatMap_map]
  simp only [Region.untyped_page]
  exact congrArg (· ++ _) (flatMap_zipIdx op.regions _).symm

theorem Operation.untyped_page_eq_sites (options : PrintOptions) (op : Operation) (path : Path)
    (place : Place) :
    (op.page options place.scope).untyped =
      ((op.sites innerFirst path place).flatMap Site.unboundUses).map Use.miss := by
  induction op using Operation.induction generalizing path place with
  | step op ih =>
    rw [untyped_page options op path, sites_eq, innerFirst, List.flatMap_append,
      List.map_append, flatMap_visitInside, map_visitInside, List.flatMap_singleton]
    exact congrArg (· ++ _) (visitInside_congr fun o ho path place => ih o ho path place)

namespace Module

/-- The error list of verification; an accepted module has none. -/
def errors (m : Module) : List Diagnostic :=
  match m.verify.value with
  | .ok _ => []
  | .error diagnostics => diagnostics

theorem errors_eq (m : Module) : m.errors = m.diagnostics := by
  rw [errors, verify_value]
  cases h : m.diagnostics <;> rfl

theorem filter_errors (m : Module) :
    m.errors.filter isUndefinedOperand =
      ((m.sites outerFirst).flatMap Site.unboundUses).map Use.diagnostic := by
  have hsymbols : ∀ (seen : List String) (ops : List Operation),
      (secondDefinitions seen ops).filter isUndefinedOperand = [] := by
    intro seen ops
    induction ops generalizing seen with
    | nil => rfl
    | cons op ops ih =>
      rw [secondDefinitions]
      split
      · exact ih seen
      · rw [List.filter_append, ih]
        split <;> rfl
  rw [errors_eq, diagnostics, List.filter_append, symbolDiagnostics, hsymbols, List.append_nil,
    structureDiagnostics, Checked.sequence_eq, List.append_nil, List.filter_flatMap, sites,
    List.flatMap_assoc, List.map_flatMap]
  apply List.flatMap_congr
  rintro ⟨op, i⟩ -
  rw [List.filter_append, Operation.redefinitions, filter_map_diagnose _ _ _ fun _ => rfl,
    List.append_nil]
  exact Operation.filter_check_eq_sites op [⟨0, 0, i⟩] (m.placeAt i)

theorem untyped_page_eq_sites (options : PrintOptions) (m : Module) :
    (m.page options).untyped =
      ((m.sites innerFirst).flatMap Site.unboundUses).map Use.miss := by
  have hpage : (m.page options).untyped = (m.body options).untyped := by
    simp [page]
  rw [hpage, body, Printed.sequence_eq, Page.untyped_append, Page.untyped_concat,
    List.flatMap_map, sites, List.flatMap_assoc, List.map_flatMap]
  refine (List.append_nil _).trans (List.flatMap_congr ?_)
  rintro ⟨op, i⟩ -
  exact Operation.untyped_page_eq_sites options op [⟨0, 0, i⟩] (m.placeAt i)

/-- The uses that verification reports, in the order of its errors. -/
def reportedUses (m : Module) : List Use :=
  (m.sites outerFirst).flatMap Site.unboundUses

/-- The uses whose type printing does not find, in the order of its look-ups. -/
def missedUses (m : Module) : List Use :=
  (m.sites innerFirst).flatMap Site.unboundUses

theorem missedUses_perm (m : Module) : m.missedUses.Perm m.reportedUses :=
  m.sites_perm.flatMap_right _

/-- A use is reported if and only if its type is missed, wherever it stands. -/
theorem scoping_agrees (m : Module) (options : PrintOptions) :
    (m.sites outerFirst).map Site.op = m.walk ∧ ((m.sites outerFirst).map Site.path).Nodup ∧
    m.errors.filter isUndefinedOperand = m.reportedUses.map Use.diagnostic ∧
    (m.page options).untyped = m.missedUses.map Use.miss ∧
    (∀ s ∈ m.sites outerFirst, ∀ u ∈ s.uses, u ∈ m.reportedUses ↔ u ∈ m.missedUses) ∧
    ((m.errors.filter isUndefinedOperand).map fun d => (d.opName, d.fault)).Perm
      ((m.page options).untyped.map fun u => (u.operation, .undefinedOperand u.operand)) ∧
    (m.Accepted → (m.page options).untyped = []) := by
  have hreported := m.filter_errors
  have hmissed := m.untyped_page_eq_sites options
  refine ⟨m.map_op_sites, m.nodup_path_sites, hreported, hmissed,
    fun s _ u _ => m.missedUses_perm.mem_iff.symm, ?_, fun h => ?_⟩
  · rw [hreported, hmissed, List.map_map, List.map_map]
    exact (m.missedUses_perm.map _).symm
  · have hnone : m.reportedUses.map Use.diagnostic = [] := by
      rw [reportedUses, ← hreported, errors_eq, accepted_iff.1 h, List.filter_nil]
    have hempty : m.missedUses = [] :=
      List.Perm.eq_nil ((List.map_eq_nil_iff.1 hnone) ▸ m.missedUses_perm)
    rw [hmissed, ← missedUses, hempty, List.map_nil]

end Module

end GenericIR
