import Mathlib.Algebra.BigOperators.Group.List.Basic
import Mathlib.Algebra.GroupWithZero.Nat
import GenericIR.Proofs.BranchTargets
import GenericIR.Proofs.PageText

/-! Lines and the walk. The printed lines open the operations of a module in the order in which they
are walked, one line for each. All other lines end a region or head a block, so that they can be
told by how they begin, and counted. -/
namespace GenericIR

namespace Text

/-- The lines of a text in which the last line is ended too. -/
def lines (t : Text) : List Text :=
  (t.splitOn '\n').dropLast

end Text

/-- Line after line, the lines open these operations in order, but for a number of other lines
that head a block or end a region. -/
inductive LinesOpen : List Operation → ℕ → List Line → Prop
  | nil : LinesOpen [] 0 []
  | opening {op : Operation} {ops : List Operation} {others : ℕ} {l : Line} {ls : List Line}
      (of : op.opening <+: l.text) (rest : LinesOpen ops others ls) :
      LinesOpen (op :: ops) others (l :: ls)
  | other {ops : List Operation} {others : ℕ} {l : Line} {ls : List Line}
      (of : Begins (· ∈ ['^', '}']) l.text) (rest : LinesOpen ops others ls) :
      LinesOpen ops (others + 1) (l :: ls)

namespace LinesOpen

variable {α : Type} {ops ops' : List Operation} {others others' : ℕ} {ls ls' : List Line}

theorem append (h : LinesOpen ops others ls) (h' : LinesOpen ops' others' ls') :
    LinesOpen (ops ++ ops') (others + others') (ls ++ ls') := by
  induction h with
  | nil =>
    rw [Nat.zero_add]
    exact h'
  | opening of _ ih => exact .opening of ih
  | @other _ n _ _ of _ ih =>
    rw [Nat.add_right_comm n]
    exact .other of ih

theorem flatMap {f : α → List Operation} {n : α → ℕ} {g : α → List Line} {as : List α}
    (h : ∀ a ∈ as, LinesOpen (f a) (n a) (g a)) :
    LinesOpen (as.flatMap f) (as.map n).sum (as.flatMap g) := by
  induction as with
  | nil => exact .nil
  | cons a as ih =>
    rw [List.forall_mem_cons] at h
    rw [List.flatMap_cons, List.flatMap_cons, List.map_cons, List.sum_cons]
    exact h.1.append (ih h.2)

theorem nest (h : LinesOpen ops others ls) (depth : ℕ) :
    LinesOpen ops others (ls.map (Line.nest depth)) := by
  induction h with
  | nil => exact .nil
  | opening of _ ih => exact .opening of ih
  | other of _ ih => exact .other of ih

end LinesOpen

/-- Only an entry block without arguments has no header. -/
def hasHeader (p : String × Block) : Bool :=
  ¬ (p.1 = RegionOf.entryLabel ∧ p.2.args = [])

def Operation.blocks (op : Operation) : List (String × Block) :=
  op.regions.flatMap RegionOf.labelled

/-- How many lines the regions of these operations add to the lines of the operations. -/
def otherLines (ops : List Operation) : ℕ :=
  (ops.flatMap Operation.regions).length + (ops.flatMap Operation.blocks).countP hasHeader

theorem otherLines_flatMap {α : Type} (f : α → List Operation) (as : List α) :
    otherLines (as.flatMap f) = (as.map fun a => otherLines (f a)).sum := by
  simp only [otherLines, List.flatMap_assoc, List.sum_map_add]
  rw [List.length_flatMap, List.countP_flatMap]
  rfl

namespace LinesOpen

variable {options : PrintOptions}

theorem blockHeader (p : String × Block) :
    LinesOpen [] ([p].countP hasHeader) (Printed.blockHeader p.1 p.2.args).lines := by
  rw [lines_blockHeader, List.countP_singleton, hasHeader]
  by_cases h : p.1 = RegionOf.entryLabel ∧ p.2.args = []
  · rw [if_pos h, decide_eq_false (not_not.2 h), if_neg Bool.false_ne_true]
    exact .nil
  · rw [if_neg h, decide_eq_true h, if_pos rfl]
    exact .other (begins_cons.2 (by decide)) .nil

/-- A row of operations shows the walks through them, whatever the scopes are. -/
theorem row {ops : List Operation} (scopes : ℕ → Scope)
    (h : ∀ op ∈ ops, ∀ scope, LinesOpen op.walk (otherLines op.walk) (op.page options scope).lines) :
    LinesOpen (ops.flatMap Operation.walk) (otherLines (ops.flatMap Operation.walk))
      (ops.zipIdx.flatMap fun (op, i) => (op.page options (scopes i)).lines) := by
  rw [← flatMap_zipIdx ops, otherLines_flatMap]
  exact .flatMap fun p hp => h p.1 (List.fst_mem_of_mem_zipIdx hp) _

/-- A region adds the headers of its blocks. -/
theorem region {r : Region}
    (h : ∀ op ∈ r.operations, ∀ scope,
      LinesOpen op.walk (otherLines op.walk) (op.page options scope).lines) :
    LinesOpen (r.operations.flatMap Operation.walk)
      (r.labelled.countP hasHeader + otherLines (r.operations.flatMap Operation.walk))
      (Region.page options r).lines := by
  have hblock (p : String × Block) (hp : p ∈ r.labelled) :=
    (blockHeader p).append (row (fun i => (Block.placeAt r.labels p.2 i).scope) fun op hop =>
      h op (List.mem_flatMap.2 ⟨p, hp, hop⟩))
  have hothers : r.labelled.countP hasHeader + otherLines (r.operations.flatMap Operation.walk) =
      (r.labelled.map fun p => [p].countP hasHeader +
        otherLines (p.2.operations.flatMap Operation.walk)).sum := by
    rw [List.sum_map_add, ← otherLines_flatMap, ← List.flatMap_assoc]
    congr 1
    conv_lhs => rw [← List.flatMap_singleton' r.labelled]
    exact List.countP_flatMap
  rw [hothers, Region.lines_page, RegionOf.operations, List.flatMap_assoc]
  exact .flatMap hblock

/-- Around its regions an operation opens once, and adds one line for each region. -/
theorem linesAround {α : Type} (op : Operation) (closing : Text) {f : α → List Operation}
    {n : α → ℕ} {g : α → List Line} {as : List α} (h : ∀ a ∈ as, LinesOpen (f a) (n a) (g a)) :
    LinesOpen (op :: as.flatMap f) (as.length + (as.map n).sum)
      (op.linesAround closing (as.map g)) := by
  cases as with
  | nil => exact .opening (List.prefix_append _ _) .nil
  | cons a as =>
    rw [List.forall_mem_cons] at h
    have hfirst := h.1.nest 2
    have hrest : LinesOpen (as.flatMap f) (as.map fun a => n a + 1).sum
        ((as.map g).flatMap fun ls => ⟨0, "\x7d, \x7b".toList⟩ :: ls.map (Line.nest 2)) := by
      rw [List.flatMap_map]
      exact .flatMap fun b hb => .other (begins_cons.2 (by decide)) ((h.2 b hb).nest 2)
    have hlast : LinesOpen [] 1 [⟨0, "\x7d)".toList ++ closing⟩] :=
      .other (begins_cons.2 (by decide)) .nil
    have hlines : LinesOpen _ _ (op.linesAround closing ((a :: as).map g)) :=
      .opening (List.prefix_append _ _) ((hfirst.append hrest).append hlast)
    have hothers : n a + (as.map fun a => n a + 1).sum + 1 =
        (a :: as).length + ((a :: as).map n).sum := by
      simp only [List.sum_map_add, List.map_const', List.sum_replicate_nat, List.map_cons,
        List.sum_cons, List.length_cons]
      omega
    rw [List.append_nil, hothers] at hlines
    exact hlines

end LinesOpen

namespace Module

variable {m : Module}

theorem Safe.newline_not_mem_lines (h : m.Safe) (options : PrintOptions) :
    ∀ l ∈ (m.page options).lines, '\n' ∉ l.text := by
  have hbody : ∀ l ∈ (m.body options).lines, '\n' ∉ l.text := by
    intro l hl
    rw [lines_body, List.mem_flatMap] at hl
    obtain ⟨p, hp, hl⟩ := hl
    have hop : p.1 ∈ m.ops := List.fst_mem_of_mem_zipIdx hp
    have hsafe (o : Operation) (ho : o ∈ m.ops) : o.Safe :=
      h o (List.mem_flatMap.2 ⟨o, ho, o.mem_walk_self⟩)
    have hscope : (m.placeAt p.2).scope.Plain :=
      Scope.plain_empty.bind_earlierResults hsafe p.2
    have hinside : ∀ o ∈ p.1.walk, o.Unbroken :=
      fun o ho => (h o (List.mem_flatMap.2 ⟨p.1, hop, ho⟩)).unbroken
    exact Operation.newline_not_mem_lines hinside hscope.unbroken l hl
  have hlast : '\n' ∉ '}' :: m.loc.print options :=
    List.not_mem_cons_of_ne_of_not_mem (by decide) (Span.newline_not_mem_print options m.loc)
  refine List.forall_mem_append.2 ⟨List.forall_mem_cons.2 ⟨by decide, ?_⟩,
    List.forall_mem_singleton.2 hlast⟩
  exact List.forall_mem_map.2 hbody

theorem lines_page (options : PrintOptions) (m : Module) :
    (m.page options).lines = ⟨0, "module \x7b".toList⟩ ::
      ((m.body options).lines.map (Line.nest 1) ++ [⟨0, '}' :: m.loc.print options⟩]) := rfl

end Module

end GenericIR
