import GenericIR.Proofs.LastSaid
import GenericIR.Proofs.Sites

/-! The types of operands. A second printer takes the text for the type of every operand from
outside, by the path of the operation and the index of the operand, and looks nothing up. The
printed module is what it prints where each operand is given the type of the last binding of its
name among the values bound before the operation in its own block, or nothing where there is none.
These values are said of the tree; that a scope answers with the last of them is proved. A scope
shows in the last line of an operation alone, so that the text of its regions does not depend on
it. -/
namespace GenericIR

/-- The value binds the name to that type. -/
def Value.Binds (x : String) (v : Value) (type : Ty) : Prop :=
  v.name = x ∧ v.type = type

/-- The binding that counts: no later one is of the same name. -/
def IsLastBinding (bound : List Value) (x : String) (type : Ty) : Prop :=
  SaidLast (Value.Binds x) bound type

namespace Scope

variable {bound : List Value} {x : String}

theorem find?_ofValues (bound : List Value) (x : String) :
    (ofValues bound).find? x =
      bound.findSomeRev? fun v => if v.name = x then some v.type else none := by
  rw [ofValues, bind, Dict.find?_update, Dict.find?_empty, Option.or_none]
  simp only [Dict.ofList, Dict.find?, List.findSomeRev?_eq_findSome?_reverse,
    ← List.map_reverse, List.findSome?_map]
  rfl

/-- A scope answers with the last binding of a name. -/
theorem find?_ofValues_eq_some_iff {type : Ty} :
    (ofValues bound).find? x = some type ↔ IsLastBinding bound x type := by
  rw [find?_ofValues]
  exact findSomeRev?_eq_some_iff_saidLast fun v type => by simp [Value.Binds]

theorem find?_ofValues_eq_none_iff :
    (ofValues bound).find? x = none ↔ x ∉ bound.map Value.name := by
  rw [← Option.not_isSome_iff_eq_none, ← Dict.contains, contains_iff, names_ofValues]

end Scope

namespace Page

@[simp] theorem lines_line (t : Text) : (line t).lines = [⟨0, t⟩] := rfl

@[simp] theorem lines_misses (untyped : List UntypedOperand) : (misses untyped).lines = [] := rfl

theorem lines_concat (pages : List Page) : (concat pages).lines = pages.flatMap lines := by
  induction pages with
  | nil => rfl
  | cons p ps ih => simpa [concat] using ih

end Page

/-- The line of a region that is moved to the right with it. -/
def Line.nest (depth : Nat) (l : Line) : Line :=
  { l with depth := l.depth + depth }

namespace Operation

variable (options : PrintOptions)

/-- The lines of an operation around those of its regions, with what closes it given. -/
def linesAround (op : Operation) (closing : Text) : List (List Line) → List Line
  | [] => [⟨0, op.opening ++ closing⟩]
  | r :: rs =>
    ⟨0, op.opening ++ " (\x7b".toList⟩ ::
      (r.map (Line.nest 2) ++
        rs.flatMap fun r => ⟨0, "\x7d, \x7b".toList⟩ :: r.map (Line.nest 2)) ++
      [⟨0, "\x7d)".toList ++ closing⟩]

theorem lines_frame (op : Operation) (scope : Scope) (regions : List Page) :
    (op.frame options scope regions).lines =
      op.linesAround (op.closing options scope) (regions.map Page.lines) := by
  cases regions with
  | nil => simp [frame, linesAround]
  | cons r rs =>
    simp only [frame, linesAround, Page.lines_append, Page.lines_line, Page.lines_misses,
      Page.lines_concat, List.map_cons, flatMap_intersperse_cons, List.flatMap_map,
      List.append_nil]
    rfl

/-- What stands behind the regions where the operand types are given by their texts. -/
def closingGiven (types : Nat → Text) (op : Operation) : Text :=
  (if op.attrs.isEmpty then [] else ' ' :: op.attrs.print) ++
  Text.surround " : (" ") -> "
    (Text.commaSeparated (op.operands.zipIdx.map fun (_, i) => types i)) ++
  op.resultTypes ++
  (if op.successors.isEmpty then []
    else Text.surround " [" "]" (Text.commaSeparated (op.successors.map ('^' :: ·.toList)))) ++
  op.loc.print options

theorem closing_eq_closingGiven {op : Operation} {scope : Scope} {types : Nat → Text}
    (h : ∀ i x, op.operands[i]? = some x → types i = (scope.find? x).elim [] Ty.print) :
    op.closing options scope = op.closingGiven options types := by
  have htypes : (op.typedOperands scope).map (fun p => p.2.elim [] Ty.print) =
      op.operands.zipIdx.map fun p => types p.2 := by
    rw [typedOperands, List.map_map]
    conv_lhs => rw [← List.zipIdx_map_fst 0 op.operands, List.map_map]
    refine List.map_congr_left ?_
    rintro ⟨x, i⟩ hx
    exact (h i x (List.mem_zipIdx_iff_getElem?.1 hx)).symm
  rw [closing, htypes]
  rfl

/-- The lines of an operation and all inside it where the texts of the operand types are given by
the path of each operation. -/
def linesGiven (given : Path → Nat → Text) (op : Operation) : Path → List Line :=
  op.fold fun op regions path =>
    op.linesAround (op.closingGiven options (given path)) (regions.zipIdx.map fun (r, j) =>
      r.labelled.zipIdx.flatMap fun (p, k) => (Printed.blockHeader p.1 p.2.args).lines ++
        p.2.operations.zipIdx.flatMap fun (a, i) => a.2 (path ++ [⟨j, k, i⟩]))

theorem linesGiven_eq (given : Path → Nat → Text) (op : Operation) (path : Path) :
    op.linesGiven options given path =
      op.linesAround (op.closingGiven options (given path)) (op.regions.zipIdx.map fun (r, j) =>
        r.labelled.zipIdx.flatMap fun (p, k) => (Printed.blockHeader p.1 p.2.args).lines ++
          p.2.operations.zipIdx.flatMap fun (o, i) =>
            o.linesGiven options given (path ++ [⟨j, k, i⟩])) := by
  rw [linesGiven, fold_eq]
  simp only [List.zipIdx_map, List.map_map, Function.comp_def, List.flatMap_map,
    RegionOf.labelled_map, BlockOf.operations_map, Prod.map_fst, Prod.map_snd, id_eq]
  rfl

end Operation

theorem Block.lines_page (options : PrintOptions) (label : String) (labels : List String)
    (b : Block) :
    (Block.page options label b).lines = (Printed.blockHeader label b.args).lines ++
      b.operations.zipIdx.flatMap fun (op, i) =>
        (op.page options (b.placeAt labels i).scope).lines := by
  rw [page_eq, Page.lines_append, Page.lines_concat, List.flatMap_map]
  simp only [placeAt_eq]

theorem Region.lines_page (options : PrintOptions) (r : Region) :
    (Region.page options r).lines = r.labelled.flatMap fun (label, b) =>
      (Printed.blockHeader label b.args).lines ++ b.operations.zipIdx.flatMap fun (op, i) =>
        (op.page options (Block.placeAt r.labels b i).scope).lines := by
  rw [page_eq, Page.lines_concat, List.flatMap_map]
  simp only [Block.lines_page options _ r.labels]

theorem Module.lines_body (options : PrintOptions) (m : Module) :
    (m.body options).lines = m.ops.zipIdx.flatMap fun (op, i) =>
      (op.page options (m.placeAt i).scope).lines := by
  rw [body, Printed.sequence_eq, Page.lines_append, Page.lines_concat, List.flatMap_map]
  exact List.append_nil _

namespace Site

/-- The text for the type of an operand, as the bindings before the operation say it. -/
def typeText (s : Site) (x : String) : Text :=
  (s.place.scope.find? x).elim [] Ty.print

/-- All operands of the site are given the texts that its bindings say. -/
def Given (given : Path → Nat → Text) (s : Site) : Prop :=
  ∀ i x, s.op.operands[i]? = some x → given s.path i = s.typeText x

end Site

/-- Printing in a scope is printing with the operand types given that the places say. -/
theorem Operation.lines_page_eq (options : PrintOptions) {given : Path → Nat → Text}
    {op : Operation} {path : Path} {place : Place}
    (h : ∀ s ∈ op.sites outerFirst path place, s.Given given) :
    (op.page options place.scope).lines = op.linesGiven options given path := by
  induction op using Operation.induction generalizing path place with
  | step op ih =>
    rw [sites_eq, outerFirst, List.forall_mem_cons] at h
    rw [page_eq, lines_frame, linesGiven_eq, closing_eq_closingGiven options h.1, List.map_map]
    congr 1
    conv_lhs => rw [← List.zipIdx_map_fst 0 op.regions, List.map_map]
    refine List.map_congr_left fun r hr => ?_
    refine (Region.lines_page options r.1).trans ?_
    rw [← flatMap_zipIdx r.1.labelled]
    refine List.flatMap_congr fun p hp => congrArg (_ ++ ·) ?_
    refine List.flatMap_congr fun o ho => ih o.1 (mem_children_of_mem_zipIdx hr hp ho) ?_
    intro s hs
    refine h.2 s ?_
    simp only [visitInside, List.mem_flatMap]
    exact ⟨r, hr, p, hp, o, ho, hs⟩

/-- The regions of an operation at the given level, printed with no scope around them. -/
def Operation.regionsText (options : PrintOptions) (op : Operation) (level : Int) : Text :=
  ((op.regions.map fun r => Region.print options r (level + 2)).intersperse
    (indentation level ++ "\x7d, \x7b\n".toList)).flatten

theorem Page.print_concat (level : Int) (pages : List Page) :
    (concat pages).print level = pages.flatMap (print level) := by
  rw [print, lines_concat, List.flatMap_assoc]
  rfl

theorem flatten_intersperse_cons {α : Type} (separator a : List α) (as : List (List α)) :
    ((a :: as).intersperse separator).flatten = a ++ as.flatMap fun b => separator ++ b := by
  rw [← List.flatMap_id, flatMap_intersperse_cons]
  rfl

/-- Around its regions an operation prints one line before them and one line, the only one that
depends on the scope, behind them. -/
theorem Operation.print_of_regions_ne_nil (options : PrintOptions) {op : Operation}
    (h : op.regions ≠ []) (scope : Scope) (level : Int) :
    op.print options scope level =
      indentation level ++ op.opening ++ " (\x7b\n".toList ++ op.regionsText options level ++
        indentation level ++ "\x7d)".toList ++ op.closing options scope ++ ['\n'] := by
  obtain ⟨r, rs, hregions⟩ := List.exists_cons_of_ne_nil h
  have hline (t : Text) : (Page.line t).print level = indentation level ++ t ++ ['\n'] := by
    simp [Page.print, Page.line, Line.print]
  have hmisses (u : List UntypedOperand) : (Page.misses u).print level = [] := rfl
  have hregion (r : Region) : ((Region.page options r).nest 2).print level =
      Region.print options r (level + 2) := Page.print_nest level 2 _
  rw [print, page_eq, regionsText, hregions]
  simp only [List.map_cons, frame, Page.print_append, Page.print_concat, hline, hmisses,
    flatMap_intersperse_cons, flatten_intersperse_cons, List.flatMap_map, hregion]
  simp

namespace Module

/-- The lines of a module where the operand types are given. -/
def linesGiven (options : PrintOptions) (given : Path → Nat → Text) (m : Module) : List Line :=
  ⟨0, "module \x7b".toList⟩ ::
    ((m.ops.zipIdx.flatMap fun (op, i) => op.linesGiven options given [⟨0, 0, i⟩]).map
      (Line.nest 1) ++ [⟨0, '}' :: m.loc.print options⟩])

def printGiven (options : PrintOptions) (given : Path → Nat → Text) (m : Module) : Text :=
  (m.linesGiven options given).flatMap (Line.print 0)

theorem print_eq_printGiven (options : PrintOptions) {given : Path → Nat → Text} {m : Module}
    (h : ∀ s ∈ m.sites outerFirst, s.Given given) :
    m.print options = m.printGiven options given := by
  have hbody : (m.body options).lines =
      m.ops.zipIdx.flatMap fun (op, i) => op.linesGiven options given [⟨0, 0, i⟩] := by
    rw [lines_body]
    refine List.flatMap_congr fun p hp => ?_
    have hsites : ∀ s ∈ p.1.sites outerFirst [⟨0, 0, p.2⟩] (m.placeAt p.2), s.Given given :=
      fun s hs => h s (List.mem_flatMap.2 ⟨p, hp, hs⟩)
    exact Operation.lines_page_eq options hsites
  have hlines : (m.page options).lines = m.linesGiven options given := by
    rw [linesGiven, ← hbody]
    rfl
  rw [print, Page.print, hlines, printGiven]

def siteAt? (m : Module) (path : Path) : Option Site :=
  (m.sites outerFirst).find? fun s => s.path = path

theorem siteAt?_path {m : Module} {s : Site} (hs : s ∈ m.sites outerFirst) :
    m.siteAt? s.path = some s := by
  cases hfind : m.siteAt? s.path with
  | none => simpa using List.find?_eq_none.1 hfind s hs
  | some t =>
    have hpath : t.path = s.path := by simpa using List.find?_some hfind
    have ht : t ∈ m.sites outerFirst := List.mem_of_find?_eq_some hfind
    rw [List.inj_on_of_nodup_map m.nodup_path_sites ht hs hpath]

/-- The text for the type of an operand of the operation at the given path. -/
def operandText (m : Module) (path : Path) (i : Nat) : Text :=
  match m.siteAt? path with
  | none => []
  | some s => (s.op.operands[i]?).elim [] s.typeText

theorem given_operandText {m : Module} {s : Site} (hs : s ∈ m.sites outerFirst) :
    s.Given m.operandText := by
  intro i x hx
  simp only [operandText, siteAt?_path hs, hx]
  rfl

/-- The texts are those of the last bindings. -/
def TypesGiven (m : Module) (given : Path → Nat → Text) : Prop :=
  ∀ path op bound, m.Stands path op bound → ∀ i x, op.operands[i]? = some x →
    (∀ type, IsLastBinding bound x type → given path i = type.print) ∧
    (x ∉ bound.map Value.name → given path i = [])

theorem typesGiven_operandText (m : Module) : m.TypesGiven m.operandText := by
  intro path op bound h i x hx
  obtain ⟨s, hs, rfl, rfl, hscope⟩ := h.exists_site
  rw [given_operandText hs i x hx, Site.typeText, hscope]
  refine ⟨fun type hlast => ?_, fun hunbound => ?_⟩
  · rw [Scope.find?_ofValues_eq_some_iff.2 hlast]
    rfl
  · rw [Scope.find?_ofValues_eq_none_iff.2 hunbound]
    rfl

/-- The scope at a site gives the texts that are asked for. -/
theorem TypesGiven.given {m : Module} {given : Path → Nat → Text} (h : m.TypesGiven given)
    {s : Site} (hs : s ∈ m.sites outerFirst) : s.Given given := by
  intro i x hx
  obtain ⟨bound, hstands, hscope⟩ := stands_of_mem_sites hs
  obtain ⟨hlast, hunbound⟩ := h _ _ _ hstands i x hx
  rw [Site.typeText, hscope]
  cases hfind : (Scope.ofValues bound).find? x with
  | none => exact hunbound (Scope.find?_ofValues_eq_none_iff.1 hfind)
  | some type => exact hlast type (Scope.find?_ofValues_eq_some_iff.1 hfind)

/-- The printed text is the one in which every operand has the type of the last binding of its name
among the values bound before the operation in its own block, and no type if there is none. The
regions of an operation are printed as they are without a scope. -/
theorem operand_types_recovered (m : Module) (options : PrintOptions) :
    (∀ op, op ∈ m.walk ↔ ∃ path bound, m.Stands path op bound) ∧
    m.TypesGiven m.operandText ∧
    (∀ given, m.TypesGiven given → m.print options = m.printGiven options given) ∧
    ∀ (op : Operation) (scope : Scope) (level : Int), op.regions ≠ [] →
      op.print options scope level =
        indentation level ++ op.opening ++ " (\x7b\n".toList ++ op.regionsText options level ++
          indentation level ++ "\x7d)".toList ++ op.closing options scope ++ ['\n'] :=
  ⟨fun _ => mem_walk_iff, m.typesGiven_operandText,
    fun _ h => print_eq_printGiven options fun _ hs => h.given hs,
    fun op scope level h => op.print_of_regions_ne_nil options h scope level⟩

end Module

end GenericIR
