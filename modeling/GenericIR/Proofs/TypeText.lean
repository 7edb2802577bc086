import GenericIR.Proofs.Reading
import GenericIR.Ty.Printer

/-! What the text of a type says. Without foreign types, and if no name contains a comma or a
closing bracket, the text shows where the type ends and which type it is; only a ranked tensor
of one dynamic extent reads as an unranked one. -/
namespace GenericIR

namespace Ty

/-- No foreign type occurs in the type, and its names consist of characters of `k`. -/
inductive Plain (k : Char → Prop) : Ty → Prop
  | absent : Plain k absent
  | int (width : IntWidth) : Plain k (int width)
  | float (width : FloatWidth) : Plain k (float width)
  | index : Plain k index
  | memref (dims : List Dim) {element : Ty} (of : Plain k element) :
      Plain k (memref dims element)
  | tensor (dims : List Dim) {element : Ty} (of : Plain k element) :
      Plain k (tensor dims element)
  | unrankedTensor {element : Ty} (of : Plain k element) : Plain k (unrankedTensor element)
  | struct {fields : List Ty} (of : ∀ t ∈ fields, Plain k t) : Plain k (struct fields)
  | named {name : String} (chars : ∀ c ∈ name.toList, k c) : Plain k (named name)
  | function {inputs results : List Ty} (of : ∀ t ∈ inputs, Plain k t)
      (onto : ∀ t ∈ results, Plain k t) : Plain k (function inputs results)

mutual

/-- The type with every ranked tensor of one dynamic extent made an unranked one. -/
def canonical : Ty → Ty
  | memref dims element => memref dims (canonical element)
  | tensor dims element =>
    if dims = [.dynamic] then unrankedTensor (canonical element)
    else tensor dims (canonical element)
  | unrankedTensor element => unrankedTensor (canonical element)
  | struct fields => struct (allCanonical fields)
  | function inputs results => function (allCanonical inputs) (allCanonical results)
  | t => t

def allCanonical : List Ty → List Ty
  | [] => []
  | t :: ts => canonical t :: allCanonical ts

end

@[simp] theorem allCanonical_eq_map (ts : List Ty) : allCanonical ts = ts.map canonical := by
  induction ts with
  | nil => rfl
  | cons t ts ih => simp [allCanonical, ih]

theorem print_unrankedTensor (element : Ty) :
    (unrankedTensor element).print = (tensor [.dynamic] element).print := by
  rw [print, print]
  rfl

theorem print_struct (fields : List Ty) :
    (struct fields).print =
      "struct<".toList ++ (Text.commaSeparated (fields.map print) ++ ['>']) := by
  rw [print, printAll_eq_map, Text.surround, List.append_assoc]
  rfl

theorem print_function (inputs results : List Ty) :
    (function inputs results).print =
      ['('] ++ ((Text.commaSeparated (inputs.map print) ++ ')' :: " -> (".toList) ++
        (Text.commaSeparated (results.map print) ++ [')'])) := by
  simp only [print, printAll_eq_map, Text.surround, List.append_assoc]
  rfl

/-- Characters with which the text of a type can begin. -/
def openers : List Char :=
  ['<', 'i', 'f', 'm', 't', 's', '!', '(']

theorem Plain.begins_print {k : Char → Prop} {t : Ty} (h : t.Plain k) :
    Begins (· ∈ openers) t.print := by
  cases h <;> exact ⟨_, rfl, by decide⟩

/-- Characters of names: digits among them, and nothing that separates or closes. -/
structure NameKind (k : Char → Prop) : Prop where
  digit : ∀ c : Char, c.isDigit → k c
  comma : ¬ k ','
  angle : ¬ k '>'
  paren : ¬ k ')'

theorem dims_readApart (ds es : List Dim) :
    ReadApart (fun c => c.isDigit ∨ c = '*') (ds.flatMap Dim.print) (es.flatMap Dim.print)
      (ds = es) := by
  have hfixed (n : UInt64) : Begins (fun c : Char => c.isDigit = true) (Dim.fixed n).print :=
    (Decimal.begins_digits n.toNat).append ['x']
  have hbegins (d : Dim) : Begins (fun c => (c.isDigit ∨ c = '*') ∧ ¬ False) d.print := by
    cases d with
    | fixed n => exact (hfixed n).imp fun c hc => ⟨.inl hc, not_false⟩
    | dynamic => simp [Dim.print]
  have hdim (d e : Dim) : ReadApart (fun _ => False) d.print e.print (d = e) := by
    cases d with
    | fixed m =>
      cases e with
      | fixed n =>
        refine ((Decimal.digits_readApart m.toNat n.toNat).close (a := 'x') (by decide) []).imp ?_
        exact fun h => congrArg _ (UInt64.toNat_inj.1 h)
      | dynamic => exact .of_begins (hfixed m) (by simp [Dim.print])
    | dynamic =>
      cases e with
      | fixed n =>
        refine .of_begins (q := fun c => ¬ c.isDigit = true) (by simp [Dim.print]) ?_
        exact (hfixed n).imp fun c hc => not_not.2 hc
      | dynamic => exact (ReadApart.refl _ _).imp fun _ => rfl
  refine (ReadApart.flatMap (fun _ => False.elim) (fun d _ => hbegins d) (fun d _ => hbegins d)
    fun d _ e _ => hdim d e).imp ?_
  exact fun h => by simpa using h

variable {k l : Char → Prop} {a b : Ty}

theorem shaped_readApart (hk : NameKind k) {ds es : List Dim} (ha : a.Plain k) (hb : b.Plain k)
    (h : ReadApart k a.print b.print (a.canonical = b.canonical)) :
    ReadApart l (printShaped ds a.print ++ ['>']) (printShaped es b.print ++ ['>'])
      (ds = es ∧ a.canonical = b.canonical) := by
  have hnext {t : Ty} (ht : t.Plain k) (r : Text) :
      ¬ Begins (fun c => c.isDigit ∨ c = '*') (t.print ++ r) := by
    have hfirst : Begins (fun c => ¬ (c.isDigit ∨ c = '*')) t.print :=
      ht.begins_print.of_mem (by decide)
    exact (hfirst.append r).not_begins fun _ h => h
  exact ((dims_readApart ds es).append (fun r _ => hnext ha r) (fun r _ => hnext hb r)
    fun _ => h).close hk.angle []

theorem listing_readApart (hk : NameKind k) {ts us : List Ty} {c : Char} (hc : ¬ k c)
    (hopener : c ∉ ',' :: openers) (ht : ∀ t ∈ ts, t.Plain k) (hu : ∀ u ∈ us, u.Plain k)
    (h : ∀ t ∈ ts, ∀ u ∈ us, ReadApart k t.print u.print (t.canonical = u.canonical))
    (rest : Text) :
    ReadApart l (Text.commaSeparated (ts.map print) ++ c :: rest)
      (Text.commaSeparated (us.map print) ++ c :: rest)
      (ts.map canonical = us.map canonical) := by
  have hbegins {t : Ty} (ht : t.Plain k) : Begins (· ≠ c) t.print :=
    ht.begins_print.imp fun d hd hdc => hopener (List.mem_cons_of_mem _ (hdc ▸ hd))
  refine (Text.listing_readApart hk.comma hc (fun hcomma => hopener (by simp [hcomma]))
    (fun t h => hbegins (ht t h)) (fun u h => hbegins (hu u h)) h rest).imp ?_
  exact map_eq_map_of_forall₂

theorem int_readApart_index (w : IntWidth) {Q : Prop} :
    ReadApart k (int w).print index.print Q := by
  have hdigits : ReadApart k (Decimal.digits w.bits) "ndex".toList Q :=
    .of_begins (Decimal.begins_digits w.bits) (by simp)
  exact hdigits.prepend ['i']

theorem tensor_readApart (hk : NameKind k) {ds es : List Dim} (ha : a.Plain k) (hb : b.Plain k)
    (h : ReadApart k a.print b.print (a.canonical = b.canonical)) :
    ReadApart k (tensor ds a).print (tensor es b).print
      ((tensor ds a).canonical = (tensor es b).canonical) := by
  refine ((shaped_readApart hk ha hb h).prepend "tensor<".toList).imp ?_
  rintro ⟨rfl, hab⟩
  rw [canonical, canonical, hab]

/-- The text of a plain type shows the type and where it ends. -/
theorem Plain.readApart_print (hk : NameKind k) (ha : a.Plain k) (hb : b.Plain k) :
    ReadApart k a.print b.print (a.canonical = b.canonical) := by
  induction ha generalizing b with
  | absent =>
    cases hb with
    | absent => exact (ReadApart.refl k _).imp fun _ => rfl
    | _ => exact .of_heads (by decide)
  | int w =>
    cases hb with
    | int w' =>
      refine (((Decimal.digits_readApart w.bits w'.bits).mono hk.digit).prepend ['i']).imp ?_
      exact fun h => by rw [IntWidth.bits_inj.1 h]
    | index => exact int_readApart_index w
    | _ => exact .of_heads (by decide)
  | float w =>
    cases hb with
    | float w' =>
      refine (((Decimal.digits_readApart w.bits w'.bits).mono hk.digit).prepend ['f']).imp ?_
      exact fun h => by rw [FloatWidth.bits_inj.1 h]
    | _ => exact .of_heads (by decide)
  | index =>
    cases hb with
    | index => exact (ReadApart.refl k _).imp fun _ => rfl
    | int w => exact (int_readApart_index w).symm
    | _ => exact .of_heads (by decide)
  | memref ds ha ih =>
    cases hb with
    | memref es hb =>
      refine ((shaped_readApart hk ha hb (ih hb)).prepend "memref<".toList).imp ?_
      rintro ⟨rfl, hab⟩
      rw [canonical, canonical, hab]
    | _ => exact .of_heads (by decide)
  | tensor ds ha ih =>
    cases hb with
    | tensor es hb => exact tensor_readApart hk ha hb (ih hb)
    | unrankedTensor hb =>
      rw [print_unrankedTensor]
      exact tensor_readApart hk ha hb (ih hb)
    | _ => exact .of_heads (by decide)
  | unrankedTensor ha ih =>
    rw [print_unrankedTensor]
    cases hb with
    | tensor es hb => exact tensor_readApart hk ha hb (ih hb)
    | unrankedTensor hb =>
      rw [print_unrankedTensor]
      exact tensor_readApart hk ha hb (ih hb)
    | _ => exact .of_heads (by decide)
  | struct hts ih =>
    cases hb with
    | struct hus =>
      rw [print_struct, print_struct]
      refine ((listing_readApart hk hk.angle (by decide) hts hus
        (fun t ht u hu => ih t ht (hus u hu)) []).prepend "struct<".toList).imp ?_
      intro h
      rw [canonical, canonical, allCanonical_eq_map, allCanonical_eq_map, h]
    | _ => exact .of_heads (by decide)
  | named hchars =>
    cases hb with
    | named hchars' =>
      refine ((ReadApart.run hchars hchars').prepend ['!']).imp ?_
      exact fun h => by rw [String.toList_inj.1 h]
    | _ => exact .of_heads (by decide)
  | function hin hout ihin ihout =>
    cases hb with
    | function hin' hout' =>
      have hinputs := listing_readApart (l := fun _ => False) hk hk.paren (by decide) hin hin'
        (fun t ht u hu => ihin t ht (hin' u hu)) " -> (".toList
      have hresults := listing_readApart (l := k) hk hk.paren (by decide) hout hout'
        (fun t ht u hu => ihout t ht (hout' u hu)) []
      rw [print_function, print_function]
      refine ((hinputs.andThen fun _ => hresults).prepend ['(']).imp ?_
      rintro ⟨h, h'⟩
      simp only [canonical, allCanonical_eq_map, h, h']
    | _ => exact .of_heads (by decide)

theorem Plain.print_canonical {t : Ty} (h : t.Plain k) : t.canonical.print = t.print := by
  have hall {ts : List Ty} (ih : ∀ t ∈ ts, t.canonical.print = t.print) :
      (ts.map canonical).map print = ts.map print := by
    rw [List.map_map]
    exact List.map_congr_left ih
  induction h with
  | memref dims _ ih => rw [canonical, print, print, ih]
  | tensor dims _ ih =>
    rw [canonical]
    split
    · rename_i hdims
      rw [print_unrankedTensor, print, print, ih, hdims]
    · rw [print, print, ih]
  | unrankedTensor _ ih => rw [canonical, print, print, ih]
  | struct _ ih => rw [canonical, allCanonical_eq_map, print_struct, print_struct, hall ih]
  | function _ _ hin hout =>
    rw [canonical, allCanonical_eq_map, allCanonical_eq_map, print_function, print_function,
      hall hin, hall hout]
  | _ => rfl

theorem Plain.print_eq (ha : a.Plain k) (hb : b.Plain k) (h : a.canonical = b.canonical) :
    a.print = b.print := by
  rw [← ha.print_canonical, ← hb.print_canonical, h]

end Ty

end GenericIR
