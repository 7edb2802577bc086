import GenericIR.Proofs.UnbrokenLines

/-! Uniform indentation. What is printed some levels further to the right is the same text with blanks
in front of every line: all levels in an operation are counted from its own, and nothing that is
printed breaks a line by itself, whatever the quoted strings contain. -/
namespace GenericIR

namespace Text

/-- The text with `margin` in front of every line; whether a line begins with it is given. -/
def indentedFrom (margin : Text) (begins : Bool) : Text → Text
  | [] => []
  | c :: rest => (if begins then margin else []) ++ c :: indentedFrom margin (c == '\n') rest

/-- The text with that many blanks in front of every line. -/
def indented (blanks : ℕ) (t : Text) : Text :=
  indentedFrom (List.replicate blanks ' ') true t

theorem indentedFrom_append_newline (margin : Text) {line : Text} (h : '\n' ∉ line) (begins : Bool)
    (rest : Text) : indentedFrom margin begins (line ++ '\n' :: rest) =
      (if begins then margin else []) ++ line ++ '\n' :: indentedFrom margin true rest := by
  induction line generalizing begins with
  | nil => simp [indentedFrom]
  | cons c line ih =>
    rw [List.mem_cons, not_or] at h
    have hgoesOn : (c == '\n') = false := beq_eq_false_iff_ne.2 (Ne.symm h.1)
    simp [indentedFrom, hgoesOn, ih h.2]

theorem indented_append_newline (blanks : ℕ) {line : Text} (h : '\n' ∉ line) (rest : Text) :
    indented blanks (line ++ '\n' :: rest) =
      List.replicate blanks ' ' ++ line ++ '\n' :: indented blanks rest :=
  indentedFrom_append_newline _ h true rest

end Text

theorem indentation_add (level k : ℕ) (depth : ℕ) :
    indentation ((level + k : ℕ) + depth) =
      List.replicate (2 * k) ' ' ++ indentation (level + depth) := by
  rw [indentation, indentation, List.replicate_append_replicate]
  congr 1
  omega

/-- The lines of a page keep their depths, so that all of them move. -/
theorem Page.print_add {p : Page} (h : ∀ l ∈ p.lines, '\n' ∉ l.text) (level k : ℕ) :
    p.print (level + k : ℕ) = Text.indented (2 * k) (p.print level) := by
  have hlines (ls : List Line) (h : ∀ l ∈ ls, '\n' ∉ l.text) :
      ls.flatMap (Line.print (level + k : ℕ)) =
        Text.indented (2 * k) (ls.flatMap (Line.print level)) := by
    induction ls with
    | nil => rfl
    | cons l ls ih =>
      rw [List.forall_mem_cons] at h
      have hline : '\n' ∉ indentation (level + l.depth) ++ l.text :=
        List.not_mem_append (newline_not_mem_indentation _) h.1
      rw [List.flatMap_cons, List.flatMap_cons, ih h.2, Line.print, Line.print, indentation_add,
        List.append_assoc _ ['\n'], List.append_assoc _ ['\n'], List.singleton_append,
        List.singleton_append, Text.indented_append_newline _ hline, List.append_assoc _ _ l.text]
  exact hlines p.lines h

/-- Where no name breaks a line, operations, blocks and regions are printed on a level further to the
right as they are on this one, with two blanks for each level in front of every line. -/
theorem texts_move_by_levels (options : PrintOptions) (level k : ℕ) :
    (∀ (op : Operation) (scope : Scope), (∀ o ∈ op.walk, o.Unbroken) → scope.Unbroken →
      op.print options scope (level + k : ℕ) =
        Text.indented (2 * k) (op.print options scope level)) ∧
    (∀ (label : String) (b : Block), b.Unbroken label →
      Block.print options label b (level + k : ℕ) =
        Text.indented (2 * k) (Block.print options label b level)) ∧
    (∀ r : Region, (∀ p ∈ r.labelled, Block.Unbroken p.1 p.2) →
      Region.print options r (level + k : ℕ) =
        Text.indented (2 * k) (Region.print options r level)) := by
  refine ⟨fun op scope hop hscope => ?_, fun label b hb => ?_, fun r hr => ?_⟩
  · exact Page.print_add (Operation.newline_not_mem_lines hop hscope) level k
  · exact Page.print_add hb.newline_not_mem_lines level k
  · exact Page.print_add (Region.newline_not_mem_lines_of_blocks hr) level k

/-- A function with line breaks in a comment and in the name of its file. -/
def commentedFunction : Operation where
  name := "test.func"
  id := "1"
  attrs := .ofList [("comment", .string "first\nsecond")]
  regions := [{ entry := { terminator := { name := "test.end", id := "2", isTerminator := true } } }]
  loc := ⟨"one\ntwo", ⟨1, 1⟩, ⟨1, 1⟩⟩

theorem commentedFunction_moves :
    (∀ o ∈ commentedFunction.walk, o.Unbroken) ∧
      commentedFunction.print { locations := true } ∅ 3 =
        Text.indented 4 (commentedFunction.print { locations := true } ∅ 1) := by
  have hunbroken : ∀ o ∈ commentedFunction.walk, o.Unbroken := by decide
  have hscope : Scope.Unbroken ∅ := fun _ _ h => nomatch h
  exact ⟨hunbroken, (texts_move_by_levels { locations := true } 1 2).1 _ ∅ hunbroken hscope⟩

end GenericIR
