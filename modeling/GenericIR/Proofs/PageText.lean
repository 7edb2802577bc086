import GenericIR.Proofs.LineText
import GenericIR.Proofs.Rows

/-! The lines of a page, without their indentation, and what the printed page says of them. -/
namespace GenericIR

/-- Text that fills one line and is not indented by itself. -/
structure IsLine (t : Text) : Prop where
  unbroken : '\n' ∉ t
  flush : Begins (· ≠ ' ') t

theorem Line.readApart_print (level : Int) {l l' : Line} (h : IsLine l.text) (h' : IsLine l'.text) :
    ReadApart (fun _ => False) (l.print level) (l'.print level) (l.text = l'.text) := by
  have hblank (n : Int) : ∀ c ∈ indentation n, c = ' ' := fun _ => eq_blank_of_mem_indentation
  have hunbroken {t : Text} (ht : IsLine t) (n : Int) : ∀ c ∈ indentation n ++ t, c ≠ '\n' := by
    refine List.forall_mem_append.2 ⟨fun c hc => ?_, fun c hc hn => ht.unbroken (hn ▸ hc)⟩
    rw [hblank n c hc]
    decide
  have hflush {t : Text} (ht : IsLine t) : ¬ Begins (· = ' ') t :=
    ht.flush.not_begins fun _ h => h
  refine ((ReadApart.run (hunbroken h _) (hunbroken h' _)).close (a := '\n') (by simp) []).imp ?_
  intro htexts
  exact (ReadApart.run (hblank _) (hblank _) (hflush h) (hflush h') htexts).2

namespace Page

def texts (p : Page) : List Text :=
  p.lines.map Line.text

@[simp] theorem texts_empty : (∅ : Page).texts = [] := rfl

@[simp] theorem texts_line (t : Text) : (line t).texts = [t] := rfl

@[simp] theorem texts_misses (untyped : List UntypedOperand) : (misses untyped).texts = [] := rfl

@[simp] theorem texts_append (p q : Page) : (p ++ q).texts = p.texts ++ q.texts := by
  simp [texts]

@[simp] theorem texts_nest (depth : Nat) (p : Page) : (p.nest depth).texts = p.texts := by
  simp [texts, nest]

theorem texts_concat (ps : List Page) : (concat ps).texts = ps.flatMap texts := by
  induction ps with
  | nil => rfl
  | cons p ps ih => exact (texts_append p _).trans (congrArg (p.texts ++ ·) ih)

/-- The printed page shows its lines. -/
theorem texts_eq_of_print_eq {p q : Page} {level : Int} (hp : ∀ t ∈ p.texts, IsLine t)
    (hq : ∀ t ∈ q.texts, IsLine t) (h : p.print level = q.print level) : p.texts = q.texts := by
  rw [texts, List.forall_mem_map] at hp hq
  have hbegins (l : Line) : Begins (fun _ => True ∧ ¬ False) (l.print level) :=
    .of_forall (by simp [Line.print]) (by simp)
  have hlines := ReadApart.flatMap (p := fun _ => True) (fun _ => False.elim)
    (fun l _ => hbegins l) (fun l _ => hbegins l)
    fun l hl l' hl' => Line.readApart_print level (hp l hl) (hq l' hl')
  exact map_eq_map_of_forall₂ (hlines.of_eq h)

end Page

theorem Operation.texts_page_of_nil {op : Operation} (h : op.regions = []) (scope : Scope) :
    (op.page {} scope).texts = [op.opening ++ op.closing {} scope] := by
  rw [page_eq, h]
  simp [frame]

/-- The line between two regions of an operation. -/
def regionGap : Text :=
  "\x7d, \x7b".toList

theorem Operation.texts_page_of_cons {op : Operation} {r : Region} {rs : List Region}
    (h : op.regions = r :: rs) (scope : Scope) :
    (op.page {} scope).texts =
      (op.opening ++ " (\x7b".toList) :: ((r.page {}).texts ++
        rs.flatMap fun r => regionGap :: (r.page {}).texts) ++
        ["\x7d)".toList ++ op.closing {} scope] := by
  rw [page_eq, h]
  simp only [List.map_cons, frame, Page.texts_append, Page.texts_line, Page.texts_concat,
    Page.texts_misses, flatMap_intersperse_cons, Page.texts_nest, List.flatMap_map,
    List.append_assoc, List.append_nil, List.cons_append, List.nil_append, regionGap]

/-- The lines of the operations in a block. -/
def Block.rowTexts (b : Block) : List Text :=
  b.operations.zipIdx.flatMap fun (op, i) =>
    (op.page {} (b.entryScope.bind (earlierResults b.body i))).texts

/-- The header line, if there is one. -/
def headerTexts (label : String) (args : List Value) : List Text :=
  if label = RegionOf.entryLabel ∧ args.isEmpty then [] else [headerText label args]

theorem Block.texts_page (label : String) (b : Block) :
    (Block.page {} label b).texts = headerTexts label b.args ++ b.rowTexts := by
  have hheader : (Printed.blockHeader label b.args).texts = headerTexts label b.args := by
    unfold Printed.blockHeader headerTexts
    split <;> rfl
  rw [page_eq, Page.texts_append, hheader, Page.texts_concat, List.flatMap_map]
  rfl

theorem Region.texts_page (r : Region) :
    (Region.page {} r).texts = r.labelled.flatMap fun p => headerTexts p.1 p.2.args ++
      Block.rowTexts p.2 := by
  rw [page_eq, Page.texts_concat, List.flatMap_map]
  simp only [Block.texts_page]

end GenericIR
