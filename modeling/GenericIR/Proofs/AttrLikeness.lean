import GenericIR.Proofs.AttrFaults
import GenericIR.Proofs.AttrText
import GenericIR.Proofs.NumberText

/-! Which attributes print alike. Without foreign attributes and types, and if all names are safe,
the text of an attribute shows its kind and where it ends; only a visibility cannot be told from
the string of its name. Of a number it shows the text, of a type what types that print alike have in
common, and of an array the elements but not their type. -/
namespace GenericIR

/-- Characters with which the text of an attribute can go on. -/
def AttrChar (c : Char) : Prop :=
  NumberChar c ∨ c = ' '

instance : DecidablePred AttrChar :=
  fun _ => inferInstanceAs (Decidable (_ ∨ _))

theorem SafeChar.attrChar {c : Char} (h : SafeChar c) : AttrChar c :=
  .inl (.inl h)

theorem SignedDigit.attrChar {c : Char} (h : SignedDigit c) : AttrChar c :=
  .inl h.numberChar

namespace Payload

/-- Nested in the same way, with numbers of the same text at the same places. -/
inductive Alike : Payload → Payload → Prop
  | scalar {x y : Binary64} (text : x.print = y.print) : Alike (scalar x) (scalar y)
  | list {ps qs : List Payload} (each : List.Forall₂ Alike ps qs) : Alike (list ps) (list qs)

theorem print_list (ps : List Payload) :
    (list ps).print = '[' :: (Text.commaSeparated (ps.map print) ++ [']']) := by
  rw [print, printAll_eq_map]
  rfl

theorem begins_print (p : Payload) : Begins (· ≠ ']') p.print := by
  cases p with
  | scalar x =>
    refine x.begins_numberChar.imp fun c hc hclose => ?_
    exact absurd (hclose ▸ hc) (by decide)
  | list ps => simp [print_list]

theorem scalar_readApart_list (x : Binary64) (ps : List Payload) {k : Char → Prop} {Q : Prop} :
    ReadApart k (scalar x).print (list ps).print Q := by
  have hopen : Begins (fun c => ¬ NumberChar c) (list ps).print := begins_cons.2 (by decide)
  exact .of_begins x.begins_numberChar hopen

/-- The text of a payload shows its nesting and where it ends. -/
theorem readApart_print (p q : Payload) : ReadApart NumberChar p.print q.print (p.Alike q) := by
  induction p using Payload.induction generalizing q with
  | scalar x =>
    cases q with
    | scalar y => exact (x.readApart_print y).imp .scalar
    | list qs => exact scalar_readApart_list x qs
  | list ps ih =>
    cases q with
    | scalar y => exact (scalar_readApart_list y ps).symm
    | list qs =>
      have hitems : ReadApart NumberChar (Text.commaSeparated (ps.map print) ++ [']'])
          (Text.commaSeparated (qs.map print) ++ [']']) (List.Forall₂ Alike ps qs) :=
        Text.listing_readApart (k := NumberChar) (by decide) (by decide) (by decide)
          (fun p _ => p.begins_print) (fun q _ => q.begins_print) (fun p hp q _ => ih p hp q) []
      rw [print_list, print_list]
      exact (hitems.prepend ['[']).imp .list

theorem Alike.print_eq {p q : Payload} (h : p.Alike q) : p.print = q.print := by
  induction p using Payload.induction generalizing q with
  | scalar x =>
    cases h with
    | scalar text => rw [print, print, text]
  | list ps ih =>
    cases h with
    | list each => rw [print_list, print_list, map_eq_map_of_related each fun p hp q => ih p hp]

end Payload

namespace Attr

/-- What is shown between quotes. -/
def quoted? : Attr → Option String
  | string value => some value
  | visibility v => some v.name
  | _ => none

/-- The types behind two numbers: none behind either, or types that print alike. -/
def SuffixAlike (t u : Ty) : Prop :=
  t.isAbsent = u.isAbsent ∧ t.print = u.print

/-- The same attribute, as far as the text of an attribute can show. -/
inductive Alike : Attr → Attr → Prop
  | quoted {a b : Attr} {s : String} (left : a.quoted? = some s) (right : b.quoted? = some s) :
      Alike a b
  | bool (value : Bool) : Alike (bool value) (bool value)
  | int (value : Int64) {t u : Ty} (types : SuffixAlike t u) : Alike (int value t) (int value u)
  | float {x y : Binary64} {t u : Ty} (text : x.print = y.print) (types : SuffixAlike t u) :
      Alike (float x t) (float y u)
  | type {t u : Ty} (text : t.print = u.print) : Alike (type t) (type u)
  | array {as bs : List Attr} (t u : Ty) (each : List.Forall₂ Alike as bs) :
      Alike (array as t) (array bs u)
  | dense (shape : List UInt64) {t u : Ty} {p q : Payload} (elementTypes : t.print = u.print)
      (payloads : p.Alike q) : Alike (dense shape t p) (dense shape u q)
  | symbolRef (name : String) : Alike (symbolRef name) (symbolRef name)
  | unit : Alike unit unit

theorem print_of_quoted? {a : Attr} {s : String} (h : a.quoted? = some s) :
    a.print = Text.quoted s := by
  cases a with
  | string value =>
    obtain rfl := Option.some.inj h
    rfl
  | visibility v =>
    obtain rfl := Option.some.inj h
    exact print_visibility v
  | _ => exact absurd h (by simp [quoted?])

theorem print_array (as : List Attr) (t : Ty) :
    (array as t).print = '[' :: (Text.commaSeparated (as.map print) ++ [']']) := by
  rw [print, printAll_eq_map]
  rfl

theorem Alike.print_eq {a b : Attr} (h : a.Alike b) : a.print = b.print := by
  have hsuffix {t u : Ty} (h : SuffixAlike t u) : printSuffix t = printSuffix u := by
    rw [printSuffix, printSuffix, h.1, h.2]
  induction a using Attr.induction generalizing b with
  | step a ih =>
    cases h with
    | quoted left right => rw [print_of_quoted? left, print_of_quoted? right]
    | bool | symbolRef | unit => rfl
    | int value types => rw [print, print, hsuffix types]
    | float text types => rw [print, print, text, hsuffix types]
    | type text => exact text
    | array t u each =>
      rw [print_array, print_array, map_eq_map_of_related each fun a ha b => ih a ha]
    | dense shape elementTypes payloads =>
      rw [print, print, payloads.print_eq, elementTypes]

/-- Characters with which an attribute of that kind can begin. -/
def openers : Attr → List Char
  | string _ | visibility _ => ['"']
  | bool _ => ['t', 'f']
  | int .. => "-0123456789".toList
  | float .. => 'i' :: 'n' :: "-0123456789".toList
  | type _ => Ty.openers
  | array .. => ['[']
  | dense .. => ['d']
  | symbolRef _ => ['@']
  | unit => ['u']
  | custom _ => []

theorem Plain.begins_print {a : Attr} (h : a.Plain) : Begins (· ∈ a.openers) a.print := by
  cases h with
  | bool value => cases value <;> exact ⟨_, rfl, by decide⟩
  | int value _ =>
    exact ((Decimal.begins_signed value.toInt).imp fun _ => SignedDigit.mem).append _
  | @float x t _ =>
    have hfirst : Begins (· ∈ (Attr.float x t).openers) x.print := by
      refine x.begins_print.imp fun c hc => ?_
      rcases hc with hc | hc
      · exact List.mem_append_right ['i', 'n'] hc.mem
      · exact List.mem_append_left "-0123456789".toList hc
    exact hfirst.append _
  | type ht => exact ht.begins_print
  | visibility v => cases v <;> exact ⟨_, rfl, by decide⟩
  | _ => exact ⟨_, rfl, List.mem_singleton.2 rfl⟩

/-- Kinds that begin differently. -/
theorem Plain.readApart_of_openers {a b : Attr} (ha : a.Plain) (hb : b.Plain) {k : Char → Prop}
    {Q : Prop} (h : a.openers.all fun c => c ∉ b.openers) : ReadApart k a.print b.print Q := by
  refine .of_begins (q := (· ∉ b.openers)) (ha.begins_print.of_mem h) ?_
  exact hb.begins_print.imp fun c hc => not_not.2 hc

theorem not_begins_printSuffix {k : Char → Prop} (hk : ∀ c, k c → AttrChar c) (hblank : ¬ k ' ')
    (t : Ty) {r : Text} (hr : ¬ Begins AttrChar r) : ¬ Begins k (printSuffix t ++ r) := by
  unfold printSuffix
  split
  · exact fun h => hr (h.imp hk)
  · exact fun h => hblank (begins_cons.1 h)

/-- The type behind a number shows whether it is there. -/
theorem printSuffix_readApart {t u : Ty} (ht : t.Plain SafeChar) (hu : u.Plain SafeChar) :
    ReadApart AttrChar (printSuffix t) (printSuffix u) (SuffixAlike t u) := by
  have hblank (t : Ty) : Begins AttrChar (" : ".toList ++ t.print) := begins_cons.2 (by decide)
  have habsent {t : Ty} (h : t.isAbsent = true) : t = .absent := by
    cases t <;> first | rfl | cases h
  have htypes := (ht.readApart_print nameKind_safeChar hu).imp (ht.print_eq hu)
  refine .optional (fun _ => hblank t) (fun _ => hblank u) (fun htabs huabs => ?_)
    fun htabs huabs => ?_
  · rw [habsent htabs, habsent huabs]
    exact ⟨rfl, rfl⟩
  · refine ((htypes.mono fun _ => SafeChar.attrChar).prepend " : ".toList).imp fun h => ?_
    exact ⟨htabs.trans huabs.symm, h⟩

section Kinds

variable {k : Char → Prop} {Q : Prop} {t u : Ty}

theorem quoted_readApart {a b : Attr} {r s : String} (ha : a.quoted? = some r)
    (hb : b.quoted? = some s) : ReadApart k a.print b.print (a.Alike b) := by
  rw [print_of_quoted? ha, print_of_quoted? hb]
  refine (Text.quoted_readApart r s).imp fun hrs => ?_
  exact .quoted ha (hrs ▸ hb)

theorem int_readApart (ht : t.Plain SafeChar) (hu : u.Plain SafeChar) (v w : Int64) :
    ReadApart AttrChar (int v t).print (int w u).print ((int v t).Alike (int w u)) := by
  have hnext (t : Ty) (r : Text) (hr : ¬ Begins AttrChar r) :
      ¬ Begins SignedDigit (printSuffix t ++ r) :=
    not_begins_printSuffix (fun _ => SignedDigit.attrChar) (by decide) t hr
  refine ((Decimal.signed_readApart v.toInt w.toInt).append (hnext t) (hnext u)
    fun _ => printSuffix_readApart ht hu).imp ?_
  rintro ⟨hvalue, htypes⟩
  obtain rfl := Int64.toInt_inj.1 hvalue
  exact .int v htypes

theorem float_readApart (ht : t.Plain SafeChar) (hu : u.Plain SafeChar) (x y : Binary64) :
    ReadApart AttrChar (float x t).print (float y u).print ((float x t).Alike (float y u)) := by
  have hnext (t : Ty) (r : Text) (hr : ¬ Begins AttrChar r) :
      ¬ Begins NumberChar (printSuffix t ++ r) :=
    not_begins_printSuffix (fun _ => .inl) (by decide) t hr
  refine ((x.readApart_print y).append (hnext t) (hnext u)
    fun _ => printSuffix_readApart ht hu).imp ?_
  rintro ⟨htext, htypes⟩
  exact .float htext htypes

/-- Behind the leading digits of a floating-point number stands what cannot follow a whole
number. -/
theorem int_readApart_float (v : Int64) (x : Binary64) :
    ReadApart AttrChar (int v t).print (float x u).print Q := by
  intro r s hr hs hrs
  obtain ⟨lead, c, rest, htext, hlead, hc⟩ := x.print_eq_cut
  have hcut : Decimal.signed v.toInt ++ (printSuffix t ++ r) =
      lead ++ (c :: rest ++ printSuffix u ++ s) := by
    rw [print, print, htext] at hrs
    simpa using hrs
  have hstop : ¬ SignedDigit c ∧ NumberChar c := by
    have hall : ['.', 'i', 'n'].all fun c => ¬ SignedDigit c ∧ NumberChar c := by decide
    exact of_decide_eq_true (List.all_eq_true.1 hall c hc)
  have hsuffix : ¬ Begins NumberChar (printSuffix t ++ r) :=
    not_begins_printSuffix (fun _ => .inl) (by decide) t hr
  obtain ⟨-, hrest⟩ := ReadApart.run (fun _ => Decimal.signedDigit_of_mem_signed) hlead
    (fun h => hsuffix (h.imp fun _ => SignedDigit.numberChar))
    (fun h => hstop.1 (begins_cons.1 h)) hcut
  exact absurd (hrest ▸ begins_cons.2 hstop.2) hsuffix

theorem inf_readApart_type (hu : u.Plain SafeChar) (y : Text) :
    ReadApart k ("inf".toList ++ y) u.print Q := by
  cases hu with
  | int w =>
    have hsecond : ReadApart k ("nf".toList ++ y) (Decimal.digits w.bits) Q :=
      (ReadApart.of_begins (Decimal.begins_digits w.bits) (by simp)).symm
    exact hsecond.prepend ['i']
  | index => exact ReadApart.prepend (x := 'f' :: y) "in".toList (.of_heads (b := 'd') (by decide))
  | _ => exact .of_heads (by decide)

theorem float_readApart_type (x : Binary64) (hu : u.Plain SafeChar) :
    ReadApart k (float x t).print (type u).print Q := by
  have hbegins {q : Char → Prop} [DecidablePred q] {y : Text} (hy : Begins q y)
      (hq : Ty.openers.all fun c => ¬ q c) : ReadApart k (y ++ printSuffix t) u.print Q :=
    .of_begins (hy.append _) (hu.begins_print.of_mem hq)
  rw [print, print, Binary64.print]
  split
  · exact hbegins (q := (· = '-')) (begins_cons.2 rfl) (by decide)
  · rw [List.nil_append]
    cases x.magnitude with
    | finite units =>
      rw [Binary64.Magnitude.print]
      exact hbegins ((Decimal.begins_digits _).append _) (by decide)
    | infinite => exact inf_readApart_type hu _
    | nan => exact hbegins (q := (· = 'n')) (begins_cons.2 rfl) (by decide)

theorem bool_readApart (v w : Bool) :
    ReadApart k (bool v).print (bool w).print ((bool v).Alike (bool w)) := by
  cases v with
  | true =>
    cases w with
    | true => exact (ReadApart.refl k _).imp fun _ => .bool true
    | false => exact .of_heads (by decide)
  | false =>
    cases w with
    | true => exact .of_heads (by decide)
    | false => exact (ReadApart.refl k _).imp fun _ => .bool false

theorem bool_readApart_type (value : Bool) (hu : u.Plain SafeChar) :
    ReadApart k (bool value).print (type u).print Q := by
  cases value with
  | true =>
    cases hu with
    | tensor dims _ | unrankedTensor _ =>
      exact ReadApart.prepend (x := "rue".toList) ['t'] (.of_heads (b := 'e') (by decide))
    | _ => exact .of_heads (by decide)
  | false =>
    cases hu with
    | float w =>
      have hsecond : ReadApart k "alse".toList (Decimal.digits w.bits) Q :=
        (ReadApart.of_begins (Decimal.begins_digits w.bits) (by simp)).symm
      exact hsecond.prepend ['f']
    | _ => exact .of_heads (by decide)

theorem dense_readApart (ht : t.Plain SafeChar) (hu : u.Plain SafeChar) (shape shape' : List UInt64)
    (p q : Payload) :
    ReadApart k (dense shape t p).print (dense shape' u q).print
      ((dense shape t p).Alike (dense shape' u q)) := by
  have hpayload : ReadApart (fun _ => False) (Text.surround "dense<" "> : " p.print)
      (Text.surround "dense<" "> : " q.print) (p.Alike q) :=
    Text.surround_readApart (c := '>') rfl ((p.readApart_print q).close (by decide) " : ".toList)
  have hshaped : ReadApart k
      (Text.surround "tensor<" ">" (Ty.printShaped (shape.map .fixed) t.print))
      (Text.surround "tensor<" ">" (Ty.printShaped (shape'.map .fixed) u.print))
      (shape.map Dim.fixed = shape'.map Dim.fixed ∧ t.canonical = u.canonical) :=
    Text.surround_readApart (c := '>') rfl (Ty.shaped_readApart nameKind_safeChar ht hu
      (ht.readApart_print nameKind_safeChar hu))
  refine (hpayload.andThen fun _ => hshaped).imp ?_
  rintro ⟨hpq, hdims, htypes⟩
  obtain rfl := List.map_injective_iff.2 (fun m n => Dim.fixed.inj) hdims
  exact .dense shape (ht.print_eq hu htypes) hpq

theorem array_readApart {as bs : List Attr} (t u : Ty) (has : ∀ a ∈ as, a.Plain)
    (hbs : ∀ b ∈ bs, b.Plain)
    (h : ∀ a ∈ as, ∀ b ∈ bs, ReadApart AttrChar a.print b.print (a.Alike b)) :
    ReadApart k (array as t).print (array bs u).print ((array as t).Alike (array bs u)) := by
  have hbegins {a : Attr} (ha : a.Plain) : Begins (· ≠ ']') a.print := by
    cases a <;> exact ha.begins_print.of_mem rfl
  have hitems : ReadApart k (Text.commaSeparated (as.map print) ++ [']'])
      (Text.commaSeparated (bs.map print) ++ [']']) (List.Forall₂ Alike as bs) :=
    Text.listing_readApart (k := AttrChar) (by decide) (by decide) (by decide)
      (fun a ha => hbegins (has a ha)) (fun b hb => hbegins (hbs b hb)) h []
  rw [print_array, print_array]
  exact (hitems.prepend ['[']).imp (.array t u)

end Kinds

variable {a b : Attr}

/-- The text of a plain attribute shows the attribute, as far as any text can, and where it
ends. -/
theorem Plain.readApart_print (ha : a.Plain) (hb : b.Plain) :
    ReadApart AttrChar a.print b.print (a.Alike b) := by
  -- Most kinds differ in how they begin. Left are equal kinds, and those that share an opener.
  induction ha generalizing b with
  | string value =>
    cases b with
    | string value' | visibility v => exact quoted_readApart rfl rfl
    | _ => exact (Plain.string value).readApart_of_openers hb rfl
  | visibility v =>
    cases b with
    | string value' | visibility w => exact quoted_readApart rfl rfl
    | _ => exact (Plain.visibility v).readApart_of_openers hb rfl
  | bool value =>
    cases b with
    | bool value' => exact bool_readApart value value'
    | type u =>
      cases hb with
      | type hu => exact bool_readApart_type value hu
    | _ => exact (Plain.bool value).readApart_of_openers hb rfl
  | int value ht =>
    cases b with
    | int value' u =>
      cases hb with
      | int _ hu => exact int_readApart ht hu value value'
    | float x u => exact int_readApart_float value x
    | _ => exact (Plain.int value ht).readApart_of_openers hb rfl
  | float x ht =>
    cases b with
    | int value u => exact (int_readApart_float value x).symm
    | float y u =>
      cases hb with
      | float _ hu => exact float_readApart ht hu x y
    | type u =>
      cases hb with
      | type hu => exact float_readApart_type x hu
    | _ => exact (Plain.float x ht).readApart_of_openers hb rfl
  | type ht =>
    cases b with
    | bool value => exact (bool_readApart_type value ht).symm
    | float x u => exact (float_readApart_type x ht).symm
    | type u =>
      cases hb with
      | type hu =>
        refine ((ht.readApart_print nameKind_safeChar hu).mono fun _ => SafeChar.attrChar).imp ?_
        exact fun h => .type (ht.print_eq hu h)
    | _ => exact (Plain.type ht).readApart_of_openers hb rfl
  | array t has ih =>
    cases b with
    | array bs u =>
      cases hb with
      | array _ hbs => exact array_readApart t u has hbs fun a ha b hb => ih a ha (hbs b hb)
    | _ => exact (Plain.array t has).readApart_of_openers hb rfl
  | dense shape p ht =>
    cases b with
    | dense shape' u q =>
      cases hb with
      | dense _ _ hu => exact dense_readApart ht hu shape shape' p q
    | _ => exact (Plain.dense shape p ht).readApart_of_openers hb rfl
  | symbolRef hname =>
    cases b with
    | symbolRef name' =>
      cases hb with
      | symbolRef hname' =>
        refine (((hname.readApart hname').mono fun _ => SafeChar.attrChar).prepend ['@']).imp ?_
        rintro rfl
        exact .symbolRef _
    | _ => exact (Plain.symbolRef hname).readApart_of_openers hb rfl
  | unit =>
    cases b with
    | unit => exact (ReadApart.refl _ _).imp fun _ => .unit
    | _ => exact Plain.unit.readApart_of_openers hb rfl

/-- Plain attributes have the same text exactly when they are alike. -/
theorem print_eq_iff_alike (ha : a.Plain) (hb : b.Plain) : a.print = b.print ↔ a.Alike b :=
  ⟨(ha.readApart_print hb).of_eq, Alike.print_eq⟩

/-- A visibility and the string of its name, and two zeros behind which types follow that print
alike. -/
theorem array_print_eq_iff_alike :
    (array [visibility .nested, float ⟨0x8000000000000000⟩ (.tensor [.dynamic] (.named "a.b"))]
        .absent).Plain ∧
      (array [string "nested", float ⟨0⟩ (.unrankedTensor (.named "a.b"))] .i32).Plain ∧
      ((array [visibility .nested, float ⟨0x8000000000000000⟩ (.tensor [.dynamic] (.named "a.b"))]
          .absent).print =
          (array [string "nested", float ⟨0⟩ (.unrankedTensor (.named "a.b"))] .i32).print ↔
        (array [visibility .nested, float ⟨0x8000000000000000⟩ (.tensor [.dynamic] (.named "a.b"))]
          .absent).Alike
          (array [string "nested", float ⟨0⟩ (.unrankedTensor (.named "a.b"))] .i32)) := by
  have hchars : "a.b".toList.all fun c => SafeChar c := by decide
  have hname : (Ty.named "a.b").Plain SafeChar :=
    .named fun c hc => of_decide_eq_true (List.all_eq_true.1 hchars c hc)
  have hleft : (array [visibility .nested,
      float ⟨0x8000000000000000⟩ (.tensor [.dynamic] (.named "a.b"))] .absent).Plain :=
    .array _ (by simpa using ⟨.visibility _, .float _ (.tensor _ hname)⟩)
  have hright : (array [string "nested", float ⟨0⟩ (.unrankedTensor (.named "a.b"))] .i32).Plain :=
    .array _ (by simpa using ⟨.string _, .float _ (.unrankedTensor hname)⟩)
  exact ⟨hleft, hright, print_eq_iff_alike hleft hright⟩

end Attr

end GenericIR
