import GenericIR.Operation.Printer
import GenericIR.Proofs.AttrFaults
import GenericIR.Proofs.AttrText
import GenericIR.Proofs.TypeEquality

/-! Names in the text. The spellings of a type, an attribute or an operation are the strings that
its text takes over as they are: names, labels, keys and foreign texts, but not what is quoted. If
none of them contains a line break, then neither does the text of the type or attribute, nor what
opens or closes the operation. -/
namespace GenericIR

/-- The string stays on one line. -/
def OneLine (s : String) : Prop :=
  '\n' ∉ s.toList

instance : DecidablePred OneLine :=
  fun _ => inferInstanceAs (Decidable (¬ _))

namespace Ty

mutual

def spellings : Ty → List String
  | memref _ element => spellings element
  | tensor _ element => spellings element
  | unrankedTensor element => spellings element
  | struct fields => allSpellings fields
  | named name => [name]
  | function inputs results => allSpellings inputs ++ allSpellings results
  | custom text => text.toList
  | _ => []

def allSpellings : List Ty → List String
  | [] => []
  | t :: ts => spellings t ++ allSpellings ts

end

@[simp] theorem allSpellings_eq_flatMap (ts : List Ty) :
    allSpellings ts = ts.flatMap spellings := by
  induction ts with
  | nil => rfl
  | cons t ts ih => simp [allSpellings, ih]

end Ty

namespace Attr

mutual

/-- Strings are quoted, and the element type of an array is not shown. -/
def spellings : Attr → List String
  | int _ t => t.spellings
  | float _ t => t.spellings
  | type t => t.spellings
  | array elements _ => allSpellings elements
  | dense _ elementType _ => elementType.spellings
  | symbolRef name => [name]
  | custom text => text.toList
  | _ => []

def allSpellings : List Attr → List String
  | [] => []
  | a :: as => spellings a ++ allSpellings as

end

@[simp] theorem allSpellings_eq_flatMap (as : List Attr) :
    allSpellings as = as.flatMap spellings := by
  induction as with
  | nil => rfl
  | cons a as ih => simp [allSpellings, ih]

end Attr

def Value.spellings (v : Value) : List String :=
  v.name :: v.type.spellings

def BlockOf.headerSpellings {α : Type} (label : String) (b : BlockOf α) : List String :=
  label :: b.args.flatMap Value.spellings

/-- The strings that stand in the lines of the operation and in the headers of its blocks. -/
def Operation.spellings (op : Operation) : List String :=
  op.name :: op.operands ++ op.successors ++ op.results.flatMap Value.spellings ++
    op.attrs.toSortedList.flatMap (fun (key, a) => key :: a.spellings) ++
    op.regions.flatMap fun r => r.labelled.flatMap fun (label, b) => b.headerSpellings label

variable {α : Type}

theorem newline_not_mem_digits (n : Nat) : '\n' ∉ Decimal.digits n :=
  fun h => absurd (Decimal.isDigit_of_mem_digits h) (by decide)

theorem newline_not_mem_commaSeparated_map {f : α → Text} {as : List α}
    (h : ∀ a ∈ as, '\n' ∉ f a) : '\n' ∉ Text.commaSeparated (as.map f) :=
  Text.not_mem_commaSeparated (List.forall_mem_map.2 h)

namespace Ty

theorem newline_not_mem_printShaped (dims : List Dim) {element : Text} (h : '\n' ∉ element) :
    '\n' ∉ printShaped dims element := by
  have hdim (d : Dim) : '\n' ∉ d.print := by
    cases d with
    | fixed n => exact List.not_mem_append (newline_not_mem_digits _) (by decide)
    | dynamic => decide
  refine List.not_mem_append (fun hmem => ?_) h
  obtain ⟨d, -, hd⟩ := List.mem_flatMap.1 hmem
  exact hdim d hd

theorem newline_not_mem_printCustom {text : Option String} (h : ∀ s ∈ text.toList, OneLine s) :
    '\n' ∉ printCustom text := by
  cases text with
  | none => decide
  | some s => exact h s (by simp)

theorem newline_not_mem_print {t : Ty} (h : ∀ s ∈ t.spellings, OneLine s) : '\n' ∉ t.print := by
  have hlisting {ts : List Ty} (h : ∀ s ∈ allSpellings ts, OneLine s)
      (ih : ∀ t ∈ ts, (∀ s ∈ t.spellings, OneLine s) → '\n' ∉ t.print) :
      '\n' ∉ Text.commaSeparated (printAll ts) := by
    rw [printAll_eq_map]
    refine newline_not_mem_commaSeparated_map fun t ht => ih t ht fun s hs => h s ?_
    rw [allSpellings_eq_flatMap]
    exact List.mem_flatMap.2 ⟨t, ht, hs⟩
  induction t using Ty.induction with
  | absent => decide
  | int w => cases w <;> decide
  | float w => cases w <;> decide
  | index => decide
  | memref dims element ih => exact Text.not_mem_surround (newline_not_mem_printShaped dims (ih h))
  | tensor dims element ih => exact Text.not_mem_surround (newline_not_mem_printShaped dims (ih h))
  | unrankedTensor element ih => exact Text.not_mem_surround (ih h)
  | struct fields ih => exact Text.not_mem_surround (hlisting h ih)
  | named name =>
    exact List.not_mem_cons_of_ne_of_not_mem (by decide) (h name (by simp [spellings]))
  | function inputs results hin hout =>
    rw [spellings, List.forall_mem_append] at h
    have hinputs : '\n' ∉ Text.surround "(" ") -> (" (Text.commaSeparated (printAll inputs)) :=
      Text.not_mem_surround (hlisting h.1 hin)
    exact List.not_mem_append (List.not_mem_append hinputs (hlisting h.2 hout)) (by decide)
  | custom text => exact newline_not_mem_printCustom h

end Ty

namespace Attr

theorem newline_not_mem_printSuffix {t : Ty} (h : ∀ s ∈ t.spellings, OneLine s) :
    '\n' ∉ printSuffix t := by
  unfold printSuffix
  split
  · exact List.not_mem_nil
  · exact List.not_mem_append (by decide) (Ty.newline_not_mem_print h)

theorem newline_not_mem_print {a : Attr} (h : ∀ s ∈ a.spellings, OneLine s) : '\n' ∉ a.print := by
  induction a using Attr.induction with
  | step a ih =>
    cases a with
    | string value =>
      have hvalue := Text.newline_not_mem_escape value.toList
      simp [print, Text.quoted, hvalue]
    | bool value => cases value <;> decide
    | int value t =>
      refine List.not_mem_append ?_ (newline_not_mem_printSuffix h)
      unfold Decimal.signed
      split
      · exact List.not_mem_cons_of_ne_of_not_mem (by decide) (newline_not_mem_digits _)
      · exact newline_not_mem_digits _
    | float value t =>
      have hvalue := value.braceFree_print.newline_not_mem
      exact List.not_mem_append hvalue (newline_not_mem_printSuffix h)
    | type t => exact Ty.newline_not_mem_print h
    | array elements t =>
      rw [print, printAll_eq_map]
      rw [spellings, allSpellings_eq_flatMap] at h
      refine Text.not_mem_surround (newline_not_mem_commaSeparated_map fun e he => ih e he ?_)
      exact fun s hs => h s (List.mem_flatMap.2 ⟨e, he, hs⟩)
    | dense shape elementType payload =>
      have helement := Ty.newline_not_mem_print h
      have hshaped := Ty.newline_not_mem_printShaped (shape.map .fixed) helement
      exact List.not_mem_append (Text.not_mem_surround payload.braceFree_print.newline_not_mem)
        (Text.not_mem_surround hshaped)
    | symbolRef name =>
      exact List.not_mem_cons_of_ne_of_not_mem (by decide) (h name (by simp [spellings]))
    | visibility v => cases v <;> decide
    | unit => decide
    | custom text => exact Ty.newline_not_mem_printCustom h

end Attr

theorem AttrDict.newline_not_mem_print {attrs : AttrDict}
    (h : ∀ p ∈ attrs.toSortedList, ∀ s ∈ p.1 :: p.2.spellings, OneLine s) :
    '\n' ∉ attrs.print := by
  have hentries : '\n' ∉ attrs.printEntries attrs.keys := by
    refine newline_not_mem_commaSeparated_map fun key hkey => ?_
    obtain ⟨a, ha⟩ := Option.isSome_iff_exists.1 (Dict.mem_keys_iff.1 hkey)
    have hentry := h (key, a) (Dict.mem_toSortedList.2 ha)
    rw [List.forall_mem_cons] at hentry
    rw [printEntry, ha]
    exact List.not_mem_append (List.not_mem_append hentry.1 (by decide))
      (Attr.newline_not_mem_print hentry.2)
  unfold print
  split
  · exact Text.not_mem_surround hentries
  · exact Text.not_mem_surround hentries

theorem Span.newline_not_mem_print (options : PrintOptions) (s : Span) :
    '\n' ∉ s.print options := by
  have hfile := Text.newline_not_mem_escape s.file.toList
  unfold print
  split
  · refine Text.not_mem_surround ?_
    simp [Text.quoted, hfile, newline_not_mem_digits]
  · exact List.not_mem_nil

/-- Neither the names nor the foreign texts of the operation break its lines. -/
def Operation.Unbroken (op : Operation) : Prop :=
  ∀ s ∈ op.spellings, OneLine s

instance (op : Operation) : Decidable op.Unbroken :=
  inferInstanceAs (Decidable (∀ s ∈ op.spellings, OneLine s))

/-- The types that the names in scope have do not break a line either. -/
def Scope.Unbroken (scope : Scope) : Prop :=
  ∀ x t, scope.find? x = some t → ∀ s ∈ t.spellings, OneLine s

theorem Scope.unbroken_of_entries {scope : Scope}
    (h : ∀ e ∈ scope.entries, ∀ s ∈ e.2.spellings, OneLine s) : scope.Unbroken :=
  fun x t ht => h (x, t) (Dict.mem_entries_of_find? ht)

theorem Scope.unbroken_ofValues {vs : List Value}
    (h : ∀ v ∈ vs, ∀ s ∈ v.spellings, OneLine s) : (ofValues vs).Unbroken := by
  refine unbroken_of_entries (List.forall_mem_map.2 fun v hv s hs => ?_)
  exact h v hv s (List.mem_cons_of_mem _ hs)

namespace Operation.Unbroken

variable {op : Operation}

theorem name (h : op.Unbroken) : OneLine op.name :=
  h _ (by simp [spellings])

theorem operands (h : op.Unbroken) : ∀ x ∈ op.operands, OneLine x :=
  fun x hx => h x (by simp [spellings, hx])

theorem successors (h : op.Unbroken) : ∀ x ∈ op.successors, OneLine x :=
  fun x hx => h x (by simp [spellings, hx])

theorem results (h : op.Unbroken) : ∀ v ∈ op.results, ∀ s ∈ v.spellings, OneLine s := by
  intro v hv s hs
  have hmem : s ∈ op.results.flatMap Value.spellings := List.mem_flatMap.2 ⟨v, hv, hs⟩
  exact h s (by simp [spellings, hmem])

theorem attrs (h : op.Unbroken) : ∀ p ∈ op.attrs.toSortedList, ∀ s ∈ p.1 :: p.2.spellings,
    OneLine s := by
  intro p hp s hs
  have hmem : s ∈ op.attrs.toSortedList.flatMap fun (key, a) => key :: a.spellings :=
    List.mem_flatMap.2 ⟨p, hp, hs⟩
  exact h s (List.mem_append_left _ (List.mem_append_right _ hmem))

theorem headers (h : op.Unbroken) {r : Region} (hr : r ∈ op.regions) :
    ∀ p ∈ r.labelled, ∀ s ∈ p.2.headerSpellings p.1, OneLine s := by
  intro p hp s hs
  refine h s (List.mem_append_right _ (List.mem_flatMap.2 ⟨r, hr, ?_⟩))
  exact List.mem_flatMap.2 ⟨p, hp, hs⟩

end Operation.Unbroken

namespace Operation

variable {options : PrintOptions} {op : Operation}

/-- The results of an operation, up to its name. -/
def bindingPart (op : Operation) : Text :=
  if op.results.isEmpty then []
  else Text.commaSeparated (op.resultNames.map String.toList) ++ " = ".toList

theorem opening_eq (op : Operation) :
    op.opening = op.bindingPart ++ (Text.surround "\"" "\"" op.name.toList ++
      Text.surround "(" ")" (Text.commaSeparated (op.operands.map String.toList))) := by
  rw [opening, bindingPart, List.append_assoc]

theorem not_mem_bindingPart {c : Char} (h : ∀ x ∈ op.resultNames, c ∉ x.toList)
    (hcomma : c ∉ ", ".toList := by decide) (hequals : c ∉ " = ".toList := by decide) :
    c ∉ op.bindingPart := by
  unfold bindingPart
  split
  · exact List.not_mem_nil
  · exact List.not_mem_append (Text.not_mem_commaSeparated (List.forall_mem_map.2 h) hcomma) hequals

theorem Unbroken.newline_not_mem_opening (h : op.Unbroken) : '\n' ∉ op.opening := by
  have hresults : ∀ x ∈ op.resultNames, OneLine x :=
    List.forall_mem_map.2 fun v hv => h.results v hv v.name List.mem_cons_self
  have hname : '\n' ∉ Text.surround "\"" "\"" op.name.toList := Text.not_mem_surround h.name
  have hoperands := newline_not_mem_commaSeparated_map h.operands
  rw [opening_eq]
  apply List.not_mem_append (not_mem_bindingPart hresults)
  exact List.not_mem_append hname (Text.not_mem_surround hoperands)

theorem Unbroken.newline_not_mem_resultTypes (h : op.Unbroken) : '\n' ∉ op.resultTypes := by
  have htype (v : Value) (hv : v ∈ op.results) : '\n' ∉ v.type.print :=
    Ty.newline_not_mem_print fun s hs => h.results v hv s (List.mem_cons_of_mem _ hs)
  unfold resultTypes
  split
  · rename_i v hv
    exact htype v (by simp [hv])
  · exact Text.not_mem_surround (newline_not_mem_commaSeparated_map htype)

theorem newline_not_mem_operandTypes (op : Operation) {scope : Scope} (hs : scope.Unbroken) :
    '\n' ∉ Text.commaSeparated
      ((op.typedOperands scope).map fun (_, type) => type.elim [] Ty.print) := by
  rw [typedOperands, List.map_map]
  refine newline_not_mem_commaSeparated_map fun x _ => ?_
  cases hx : scope.find? x with
  | none => simp [hx]
  | some t =>
    have ht := Ty.newline_not_mem_print (hs x t hx)
    simpa [hx] using ht

theorem Unbroken.newline_not_mem_closing (h : op.Unbroken) {scope : Scope} (hs : scope.Unbroken) :
    '\n' ∉ op.closing options scope := by
  have hattrs : '\n' ∉ (if op.attrs.isEmpty then [] else ' ' :: op.attrs.print) := by
    split
    · exact List.not_mem_nil
    · exact List.not_mem_cons_of_ne_of_not_mem (by decide) (AttrDict.newline_not_mem_print h.attrs)
  have htypes := op.newline_not_mem_operandTypes hs
  have hsuccessors : '\n' ∉ (if op.successors.isEmpty then []
      else Text.surround " [" "]" (Text.commaSeparated (op.successors.map ('^' :: ·.toList)))) := by
    split
    · exact List.not_mem_nil
    · refine Text.not_mem_surround (newline_not_mem_commaSeparated_map fun label hl => ?_)
      exact List.not_mem_cons_of_ne_of_not_mem (by decide) (h.successors label hl)
  have hplace := op.loc.newline_not_mem_print options
  exact List.not_mem_append (List.not_mem_append (List.not_mem_append
    (List.not_mem_append hattrs (Text.not_mem_surround htypes)) h.newline_not_mem_resultTypes)
      hsuccessors) hplace

end Operation

/-- The header line of a block. -/
def headerText (label : String) (args : List Value) : Text :=
  '^' :: label.toList ++ Text.surround "(" "):" (Text.commaSeparated (args.map Value.print))

theorem BlockOf.newline_not_mem_headerText {label : String} {b : BlockOf α}
    (h : ∀ s ∈ b.headerSpellings label, OneLine s) : '\n' ∉ headerText label b.args := by
  rw [headerSpellings, List.forall_mem_cons] at h
  have harg (v : Value) (hv : v ∈ b.args) : '\n' ∉ v.print := by
    have hv := fun s hs => h.2 s (List.mem_flatMap.2 ⟨v, hv, hs⟩)
    rw [Value.spellings, List.forall_mem_cons] at hv
    exact List.not_mem_append (List.not_mem_append hv.1 (by decide))
      (Ty.newline_not_mem_print hv.2)
  have hlabel : '\n' ∉ '^' :: label.toList :=
    List.not_mem_cons_of_ne_of_not_mem (by decide) h.1
  exact List.not_mem_append hlabel
    (Text.not_mem_surround (newline_not_mem_commaSeparated_map harg))

end GenericIR
