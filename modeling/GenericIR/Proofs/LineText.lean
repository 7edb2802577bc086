import GenericIR.Proofs.Spellings

/-! What the lines of an operation and the header of a block say, without places. A line is
cut into parts, each of which ends where the next one begins. -/
namespace GenericIR

variable {k : Char → Prop}

theorem SafeName.oneLine {s : String} (h : SafeName s) : OneLine s :=
  fun hmem => absurd (h.chars _ hmem) (by decide)

theorem Ty.Plain.oneLine {t : Ty} (h : t.Plain SafeChar) : ∀ s ∈ t.spellings, OneLine s := by
  have hall {ts : List Ty} (ih : ∀ t ∈ ts, ∀ s ∈ t.spellings, OneLine s) :
      ∀ s ∈ allSpellings ts, OneLine s := by
    rw [allSpellings_eq_flatMap, List.forall_mem_flatMap]
    exact ih
  induction h with
  | absent | int | float | index => exact fun s hs => absurd hs List.not_mem_nil
  | memref dims _ ih | tensor dims _ ih => exact ih
  | unrankedTensor _ ih => exact ih
  | struct _ ih => exact hall ih
  | named hchars =>
    exact List.forall_mem_singleton.2 fun hmem => absurd (hchars _ hmem) (by decide)
  | function _ _ hin hout => exact List.forall_mem_append.2 ⟨hall hin, hall hout⟩

theorem Attr.Plain.oneLine {a : Attr} (h : a.Plain) : ∀ s ∈ a.spellings, OneLine s := by
  induction h with
  | string | bool | visibility | unit => exact fun s hs => absurd hs List.not_mem_nil
  | int _ ht | float _ ht | type ht => exact ht.oneLine
  | array elementType _ ih =>
    rw [spellings, allSpellings_eq_flatMap, List.forall_mem_flatMap]
    exact ih
  | dense shape payload ht => exact ht.oneLine
  | symbolRef hname => exact List.forall_mem_singleton.2 hname.oneLine

theorem Value.Safe.oneLine {v : Value} (h : v.Safe) : ∀ s ∈ v.spellings, OneLine s :=
  List.forall_mem_cons.2 ⟨h.name.oneLine, h.type.oneLine⟩

theorem BlockOf.oneLine_headerSpellings {α : Type} {label : String} {b : BlockOf α}
    (hl : SafeName label) (hargs : ∀ v ∈ b.args, v.Safe) :
    ∀ s ∈ b.headerSpellings label, OneLine s :=
  List.forall_mem_cons.2 ⟨hl.oneLine, List.forall_mem_flatMap.2 fun v hv => (hargs v hv).oneLine⟩

/-- Safe names do not break a line. -/
theorem Operation.Safe.unbroken {op : Operation} (h : op.Safe) : op.Unbroken := by
  have hoperands : ∀ s ∈ op.name :: op.operands, OneLine s :=
    List.forall_mem_cons.2 ⟨h.name.oneLine, fun x hx => (h.operands x hx).oneLine⟩
  have hsuccessors : ∀ s ∈ op.successors, OneLine s := fun x hx => (h.successors x hx).oneLine
  have hattrs : ∀ p ∈ op.attrs.toSortedList, ∀ s ∈ p.1 :: p.2.spellings, OneLine s := by
    rintro ⟨key, a⟩ hmem
    obtain ⟨hkey, ha⟩ := h.attrs key a (Dict.mem_toSortedList.1 hmem)
    exact List.forall_mem_cons.2 ⟨hkey.oneLine, ha.oneLine⟩
  have hheaders : ∀ r ∈ op.regions, ∀ p ∈ r.labelled, ∀ s ∈ p.2.headerSpellings p.1,
      OneLine s := by
    intro r hr p hp
    have hlabel : p.1 ∈ r.labels := List.mem_map_of_mem hp
    exact BlockOf.oneLine_headerSpellings (h.labels r hr p.1 hlabel) (h.args r hr p hp)
  unfold Unbroken spellings
  simp only [List.forall_mem_append, List.forall_mem_flatMap]
  exact ⟨⟨⟨⟨hoperands, hsuccessors⟩, fun v hv => (h.results v hv).oneLine⟩, hattrs⟩, hheaders⟩

theorem names_readApart {xs ys : List String} (hx : ∀ x ∈ xs, SafeName x)
    (hy : ∀ y ∈ ys, SafeName y) (c : Char) (t : Text) (hc : ¬ SafeChar c := by decide)
    (hcomma : c ≠ ',' := by decide) :
    ReadApart k (Text.commaSeparated (xs.map String.toList) ++ c :: t)
      (Text.commaSeparated (ys.map String.toList) ++ c :: t) (xs = ys) := by
  have hbegins {x : String} (h : SafeName x) : Begins (· ≠ c) x.toList :=
    h.begins.imp fun d hd hdc => hc (hdc ▸ hd)
  refine (Text.listing_readApart nameKind_safeChar.comma hc hcomma (fun x h => hbegins (hx x h))
    (fun y h => hbegins (hy y h)) (fun x h y h' => (hx x h).readApart (hy y h')) t).imp ?_
  exact fun h => by simpa using h

theorem Value.Safe.readApart_type {v w : Value} (hv : v.Safe) (hw : w.Safe) :
    ReadApart SafeChar v.type.print w.type.print (v.type.print = w.type.print) :=
  (hv.type.readApart_print nameKind_safeChar hw.type).imp (hv.type.print_eq hw.type)

theorem Value.Safe.readApart_print {v w : Value} (hv : v.Safe) (hw : w.Safe) :
    ReadApart SafeChar v.print w.print (v.name = w.name ∧ v.type.print = w.type.print) := by
  have hname : ReadApart (fun _ => False) (v.name.toList ++ ": ".toList)
      (w.name.toList ++ ": ".toList) (v.name = w.name) :=
    (hv.name.readApart hw.name).close (by decide) [' ']
  exact hname.andThen fun _ => hv.readApart_type hw

/-- Types in brackets, each known to be followed by a comma or the closing one. -/
theorem tuple_readApart {vs ws : List Value} (hv : ∀ v ∈ vs, v.Safe) (hw : ∀ w ∈ ws, w.Safe) :
    ReadApart k (Text.surround "(" ")" (Text.commaSeparated (vs.map fun v => v.type.print)))
      (Text.surround "(" ")" (Text.commaSeparated (ws.map fun w => w.type.print)))
      (vs.map (fun v => v.type.print) = ws.map fun w => w.type.print) := by
  have hbegins {v : Value} (h : v.Safe) : Begins (· ≠ ')') v.type.print :=
    h.type.begins_print.of_mem (by decide)
  refine (Text.surround_readApart (c := ')') rfl (Text.listing_readApart nameKind_safeChar.comma
    nameKind_safeChar.paren (by decide) (fun v h => hbegins (hv v h)) (fun w h => hbegins (hw w h))
    (fun v h w h' => (hv v h).readApart_type (hw w h')) [])).imp ?_
  exact map_eq_map_of_forall₂

/-- All types in the scope are plain. -/
def Scope.Plain (s : Scope) : Prop :=
  ∀ e ∈ s.entries, e.2.Plain SafeChar

theorem Scope.Plain.unbroken {s : Scope} (h : s.Plain) : s.Unbroken :=
  unbroken_of_entries fun e he => (h e he).oneLine

theorem Scope.plain_empty : Scope.Plain ∅ :=
  fun _ h => absurd h List.not_mem_nil

theorem Scope.Plain.bind {s : Scope} {vs : List Value} (hs : s.Plain) (hv : ∀ v ∈ vs, v.Safe) :
    (s.bind vs).Plain :=
  List.forall_mem_append.2 ⟨hs, List.forall_mem_map.2 fun v h => (hv v h).type⟩

/-- The results of safe operations extend a scope by plain types only. -/
theorem Scope.Plain.bind_earlierResults {s : Scope} {ops : List Operation} (hs : s.Plain)
    (h : ∀ op ∈ ops, op.Safe) (i : Nat) : (s.bind (earlierResults ops i)).Plain := by
  apply hs.bind
  intro v hv
  obtain ⟨op, hop, hvop⟩ := List.mem_flatMap.1 hv
  exact (h op (List.mem_of_mem_take hop)).results v hvop

theorem Scope.Plain.of_find? {s : Scope} (hs : s.Plain) {x : String} {t : Ty}
    (h : s.find? x = some t) : t.Plain SafeChar :=
  hs (x, t) (Dict.mem_entries_of_find? h)

namespace Operation

variable {a b : Operation}

theorem Safe.resultNames (h : a.Safe) : ∀ x ∈ a.resultNames, SafeName x :=
  List.forall_mem_map.2 fun v hv => (h.results v hv).name

theorem Safe.begins_bindings (h : a.Safe) (hne : a.results ≠ []) :
    Begins SafeChar (Text.commaSeparated (a.resultNames.map String.toList) ++ " = ".toList) := by
  obtain ⟨v, vs, hvs⟩ := List.exists_cons_of_ne_nil hne
  have hv : v.Safe := h.results v (hvs ▸ List.mem_cons_self)
  rw [Operation.resultNames, hvs, List.map_cons, Text.commaSeparated_map_cons]
  exact (hv.name.begins.append _).append _

theorem Safe.readApart_bindingPart (ha : a.Safe) (hb : b.Safe) :
    ReadApart SafeChar a.bindingPart b.bindingPart (a.resultNames = b.resultNames) := by
  refine ReadApart.unlessEmpty ha.begins_bindings hb.begins_bindings ?_ fun _ _ => ?_
  · intro hna hnb
    rw [Operation.resultNames, Operation.resultNames, hna, hnb]
  · exact names_readApart ha.resultNames hb.resultNames ' ' ['=', ' ']

theorem Safe.readApart_opening (ha : a.Safe) (hb : b.Safe) :
    ReadApart k a.opening b.opening
      (a.resultNames = b.resultNames ∧ a.name = b.name ∧ a.operands = b.operands) := by
  rw [opening_eq, opening_eq]
  have hname : ReadApart (fun _ => False) (Text.surround "\"" "\"" a.name.toList)
      (Text.surround "\"" "\"" b.name.toList) (a.name = b.name) :=
    Text.surround_readApart (c := '"') rfl ((ha.name.readApart hb.name).close (by decide) [])
  have hoperands : ReadApart k
      (Text.surround "(" ")" (Text.commaSeparated (a.operands.map String.toList)))
      (Text.surround "(" ")" (Text.commaSeparated (b.operands.map String.toList)))
      (a.operands = b.operands) :=
    Text.surround_readApart rfl (names_readApart ha.operands hb.operands ')' [])
  have hquote (x t : Text) : ¬ Begins SafeChar (Text.surround "\"" "\"" x ++ t) := by
    simp [Text.surround, SafeChar]
  have hrest := hname.andThen fun _ => hoperands
  refine (ha.readApart_bindingPart hb).append ?_ ?_ fun _ => hrest
  · intro r _
    rw [List.append_assoc]
    exact hquote _ _
  · intro r _
    rw [List.append_assoc]
    exact hquote _ _

/-- The attributes of an operation, up to its operand types. -/
def attrPart (op : Operation) : Text :=
  (if op.attrs.isEmpty then [] else ' ' :: op.attrs.print) ++ " : (".toList

/-- The operand types, up to the result types. -/
def operandPart (op : Operation) (scope : Scope) : Text :=
  Text.commaSeparated ((op.operands.map scope.find?).map fun type => type.elim [] Ty.print) ++
    ") -> ".toList

def successorPart (op : Operation) : Text :=
  if op.successors.isEmpty then []
  else Text.surround " [" "]" (Text.commaSeparated (op.successors.map ('^' :: ·.toList)))

theorem closing_eq (op : Operation) (scope : Scope) :
    op.closing {} scope =
      op.attrPart ++ (op.operandPart scope ++ (op.resultTypes ++ op.successorPart)) := by
  simp only [closing, typedOperands, Span.print, attrPart, operandPart, successorPart,
    Text.surround, List.map_map, List.append_assoc, Function.comp_def, Bool.false_and,
    Bool.false_eq_true, ↓reduceIte, List.append_nil]

theorem begins_print_attrs (op : Operation) : Begins (· ∈ ['<', '{']) op.attrs.print := by
  unfold AttrDict.print
  split <;> exact ⟨_, rfl, by decide⟩

/-- With attributes or without, the second character tells. -/
theorem readApart_attrPart_of_isEmpty {Q : Prop} (ha : a.attrs.isEmpty) (hb : ¬ b.attrs.isEmpty) :
    ReadApart k a.attrPart b.attrPart Q := by
  have hbegins : Begins (· ≠ ':') (b.attrs.print ++ " : (".toList) :=
    (b.begins_print_attrs.of_mem (by decide)).append _
  have hcolon : Begins (· = ':') ": (".toList := by simp
  rw [attrPart, attrPart, if_pos ha, if_neg hb]
  exact ReadApart.prepend [' '] (.of_begins hcolon hbegins)

theorem Safe.readApart_attrPart (ha : a.Safe) (hb : b.Safe) :
    ReadApart k a.attrPart b.attrPart (a.attrs.print = b.attrs.print) := by
  by_cases hea : a.attrs.isEmpty <;> by_cases heb : b.attrs.isEmpty
  · have hempty : a.attrs = b.attrs := by
      rw [Dict.isEmpty, List.isEmpty_iff] at hea heb
      rw [Dict.mk.injEq, hea, heb]
    rw [attrPart, attrPart, if_pos hea, if_pos heb]
    exact (ReadApart.refl _ _).imp fun _ => by rw [hempty]
  · exact readApart_attrPart_of_isEmpty hea heb
  · exact (readApart_attrPart_of_isEmpty heb hea).symm
  · rw [attrPart, attrPart, if_neg hea, if_neg heb]
    have hdict := AttrDict.readApart_print ha.attrs hb.attrs fun _ => False
    refine ReadApart.prepend [' '] ?_
    exact (hdict.andThen fun _ => .refl k _).imp And.left

/-- A type in scope shows by how it begins that it is not missing. -/
theorem scopeType_readApart {o o' : Option Ty} (ho : ∀ t ∈ o, t.Plain SafeChar)
    (ho' : ∀ t ∈ o', t.Plain SafeChar) :
    ReadApart (fun c => SafeChar c ∨ c ∈ Ty.openers) (o.elim [] Ty.print) (o'.elim [] Ty.print)
      True := by
  have hmissing {t : Ty} (ht : t.Plain SafeChar) :
      ReadApart (fun c => SafeChar c ∨ c ∈ Ty.openers) [] t.print True := by
    intro r s hr _ hrs
    obtain rfl : r = t.print ++ s := hrs
    exact absurd ((ht.begins_print.imp fun _ => .inr).append s) hr
  cases o with
  | none =>
    cases o' with
    | none => exact .refl _ _
    | some t => exact hmissing (ho' t rfl)
  | some t =>
    cases o' with
    | none => exact (hmissing (ho t rfl)).symm
    | some t' =>
      have htypes := (ho t rfl).readApart_print nameKind_safeChar (ho' t' rfl)
      exact (htypes.mono fun _ => .inl).imp fun _ => trivial

theorem readApart_operandPart {s t : Scope} (hs : s.Plain) (ht : t.Plain)
    (hab : a.operands = b.operands) :
    ReadApart k (a.operandPart s) (b.operandPart t) True := by
  have htype {s : Scope} (hs : s.Plain) {xs : List String} :
      ∀ type ∈ xs.map s.find?, ∀ t ∈ type, t.Plain SafeChar :=
    List.forall_mem_map.2 fun x _ t ht => hs.of_find? ht
  have hempty : a.operands.map s.find? = [] ↔ b.operands.map t.find? = [] := by
    rw [hab, List.map_eq_nil_iff, List.map_eq_nil_iff]
  have htypes := Text.commaSeparated_readApart (by decide) hempty fun o ho o' ho' =>
    scopeType_readApart (htype hs o ho) (htype ht o' ho')
  unfold operandPart
  exact (htypes.close (a := ')') (by decide) _).imp fun _ => trivial

theorem resultTypes_eq_tuple {op : Operation} (h : op.results.length ≠ 1) :
    op.resultTypes =
      Text.surround "(" ")" (Text.commaSeparated (op.results.map fun v => v.type.print)) := by
  unfold resultTypes
  split
  · simp_all
  · rfl

theorem Safe.readApart_resultTypes (ha : a.Safe) (hb : b.Safe)
    (hab : a.resultNames = b.resultNames) :
    ReadApart SafeChar a.resultTypes b.resultTypes
      (a.results.map (fun v => v.type.print) = b.results.map fun v => v.type.print) := by
  have hlength : a.results.length = b.results.length := by
    simpa [Operation.resultNames] using congrArg List.length hab
  by_cases hone : a.results.length = 1
  · obtain ⟨v, hv⟩ := List.length_eq_one_iff.1 hone
    obtain ⟨w, hw⟩ := List.length_eq_one_iff.1 (hlength ▸ hone)
    rw [resultTypes, resultTypes, hv, hw]
    refine ((ha.results v (by simp [hv])).readApart_type (hb.results w (by simp [hw]))).imp ?_
    exact fun h => by simp [h]
  · rw [resultTypes_eq_tuple hone, resultTypes_eq_tuple (hlength ▸ hone)]
    exact tuple_readApart ha.results hb.results

theorem Safe.readApart_successorPart (ha : a.Safe) (hb : b.Safe) :
    ReadApart (· = ' ') a.successorPart b.successorPart (a.successors = b.successors) := by
  refine ReadApart.unlessEmpty (fun _ => by simp [Text.surround])
    (fun _ => by simp [Text.surround]) (fun hna hnb => by rw [hna, hnb]) fun _ _ => ?_
  have hlabel {x y : String} (hx : SafeName x) (hy : SafeName y) :
      ReadApart SafeChar ('^' :: x.toList) ('^' :: y.toList) (x = y) :=
    (hx.readApart hy).prepend ['^']
  refine (Text.surround_readApart (c := ']') rfl (Text.listing_readApart (by decide) (by decide)
    (by decide) (by simp) (by simp)
    (fun x hx y hy => hlabel (ha.successors x hx) (hb.successors y hy)) [])).imp ?_
  exact fun h => by simpa using h

/-- Behind its regions an operation shows its attributes, result types and successors. -/
theorem Safe.readApart_closing {s t : Scope} (ha : a.Safe) (hb : b.Safe) (hs : s.Plain)
    (ht : t.Plain) (hnames : a.resultNames = b.resultNames) (hoperands : a.operands = b.operands) :
    ReadApart (fun c => SafeChar c ∨ c = ' ') (a.closing {} s) (b.closing {} t)
      (a.attrs.print = b.attrs.print ∧
        a.results.map (fun v => v.type.print) = b.results.map (fun v => v.type.print) ∧
        a.successors = b.successors) := by
  have hends {op : Operation} (r : Text) (hr : ¬ Begins (fun c => SafeChar c ∨ c = ' ') r) :
      ¬ Begins SafeChar (op.successorPart ++ r) := by
    unfold successorPart
    split
    · exact fun h => hr (h.imp fun _ => .inl)
    · simp [Text.surround, SafeChar]
  have hsuccessors := (ha.readApart_successorPart hb).mono (q := fun c => SafeChar c ∨ c = ' ')
    fun _ => .inr
  have hresults := (ha.readApart_resultTypes hb hnames).append hends hends fun _ => hsuccessors
  have htypes := (readApart_operandPart hs ht hoperands).andThen fun _ => hresults
  rw [closing_eq, closing_eq]
  refine ((ha.readApart_attrPart hb).andThen fun _ => htypes).imp ?_
  rintro ⟨hattrs, -, hrest⟩
  exact ⟨hattrs, hrest⟩

/-- What opens and what closes an operation say everything but the flag. -/
theorem heading_eq (hopening : a.resultNames = b.resultNames ∧ a.name = b.name ∧
      a.operands = b.operands)
    (hclosing : a.attrs.print = b.attrs.print ∧
      a.results.map (fun v => v.type.print) = b.results.map (fun v => v.type.print) ∧
      a.successors = b.successors)
    (hflag : a.isTerminator = b.isTerminator) : a.heading = b.heading := by
  obtain ⟨hnames, hname, hoperands⟩ := hopening
  obtain ⟨hattrs, htypes, hsuccessors⟩ := hclosing
  simp only [heading, hnames, hname, hoperands, hattrs, htypes, hsuccessors, hflag]

/-- An operation without regions goes on differently behind its operands. -/
theorem closing_ne (op : Operation) (s : Scope) (t : Text) :
    op.closing {} s ≠ " (".toList ++ t := by
  have hsecond (u : Text) : op.attrPart ++ u ≠ " (".toList ++ t := by
    unfold attrPart
    split
    · simp
    · have hfirst : Begins (· ≠ '(') op.attrs.print := op.begins_print_attrs.of_mem (by decide)
      have hbegins := hfirst.append (" : (".toList ++ u)
      intro h
      have htail : op.attrs.print ++ (" : (".toList ++ u) = '(' :: t := by simpa using h
      rw [htail] at hbegins
      simp at hbegins
  rw [closing_eq]
  exact hsecond _

theorem Safe.line_ne {s : Scope} (ha : a.Safe) (hb : b.Safe) :
    a.opening ++ a.closing {} s ≠ b.opening ++ " (\x7b".toList := by
  intro h
  obtain ⟨-, hclosing⟩ := ha.readApart_opening hb not_begins_false not_begins_false h
  exact a.closing_ne s ['\x7b'] hclosing

theorem Safe.line_inj {s t : Scope} (ha : a.Safe) (hb : b.Safe) (hs : s.Plain) (ht : t.Plain)
    (h : a.opening ++ a.closing {} s = b.opening ++ b.closing {} t)
    (hflag : a.isTerminator = b.isTerminator) : a.heading = b.heading := by
  obtain ⟨hopening, hclosing⟩ := ha.readApart_opening hb not_begins_false not_begins_false h
  have hclosing' := ha.readApart_closing hb hs ht hopening.1 hopening.2.2
  exact heading_eq hopening (hclosing'.of_eq hclosing) hflag

theorem Safe.begins_opening (h : a.Safe) : Begins (fun c => SafeChar c ∨ c = '"') a.opening := by
  rw [opening_eq]
  unfold bindingPart
  split
  · simp [Text.surround]
  · rename_i hne
    exact ((h.begins_bindings (by simpa using hne)).imp fun _ => .inl).append _

end Operation

theorem readApart_headerText {label label' : String} {args args' : List Value}
    (hl : SafeName label) (hl' : SafeName label') (hargs : ∀ v ∈ args, v.Safe)
    (hargs' : ∀ v ∈ args', v.Safe) :
    ReadApart k (headerText label args) (headerText label' args')
      (label = label' ∧ args.map Value.name = args'.map Value.name ∧
        args.map (fun v => v.type.print) = args'.map fun v => v.type.print) := by
  have hbegins {v : Value} (h : v.Safe) : Begins (· ≠ ')') v.print := by
    refine ((h.name.begins.imp fun c hc hparen => ?_).append _).append _
    exact nameKind_safeChar.paren (hparen ▸ hc)
  have hargsApart : ReadApart k
      (Text.surround "(" "):" (Text.commaSeparated (args.map Value.print)))
      (Text.surround "(" "):" (Text.commaSeparated (args'.map Value.print))) _ :=
    Text.surround_readApart (c := ')') rfl (Text.listing_readApart nameKind_safeChar.comma
      nameKind_safeChar.paren (by decide) (fun v h => hbegins (hargs v h))
      (fun w h => hbegins (hargs' w h))
      (fun v h w h' => (hargs v h).readApart_print (hargs' w h')) [':'])
  have hparen (args : List Value) (r : Text) : ¬ Begins SafeChar
      (Text.surround "(" "):" (Text.commaSeparated (args.map Value.print)) ++ r) := by
    simp [Text.surround, SafeChar]
  refine (((hl.readApart hl').append (fun r _ => hparen args r) (fun r _ => hparen args' r)
    fun _ => hargsApart).prepend ['^']).imp ?_
  rintro ⟨hlabel, h⟩
  exact ⟨hlabel, map_eq_map_of_forall₂ (h.imp fun _ _ h => h.1),
    map_eq_map_of_forall₂ (h.imp fun _ _ h => h.2)⟩

end GenericIR
