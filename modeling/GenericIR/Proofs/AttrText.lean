import GenericIR.Proofs.Outline

/-! The text of attributes between braces. Closing braces stand only inside quotes there, and
quotes end where reading them back ends, so that a dictionary ends at its first bare brace. No
line breaks inside. -/
namespace GenericIR

/-- Characters that stand outside of quotes. -/
def Unquoted (c : Char) : Prop :=
  c ∉ ['}', '"', '\n']

instance : DecidablePred Unquoted :=
  fun _ => inferInstanceAs (Decidable (¬ _))

theorem SafeChar.unquoted {c : Char} (h : SafeChar c) : Unquoted c := by
  simp only [SafeChar, Unquoted, List.mem_cons, List.not_mem_nil, or_false] at h ⊢
  rintro (rfl | rfl | rfl) <;> revert h <;> decide

theorem Unquoted.of_isDigit {c : Char} (h : c.isDigit) : Unquoted c := by
  simp only [Unquoted, List.mem_cons, List.not_mem_nil, or_false]
  rintro (rfl | rfl | rfl) <;> revert h <;> decide

/-- A quoted string ends at its closing quote. -/
theorem Text.quoted_readApart {p : Char → Prop} (s t : String) :
    ReadApart p (Text.quoted s) (Text.quoted t) (s = t) := by
  intro r r' _ _ hrs
  simp only [Text.quoted, List.cons_append, List.append_assoc, List.nil_append, List.cons.injEq,
    true_and] at hrs
  have hread := congrArg Text.readQuoted hrs
  rw [Text.readQuoted_escape, Text.readQuoted_escape] at hread
  obtain ⟨hst, hrest⟩ := Prod.mk.inj (Option.some.inj hread)
  exact ⟨String.toList_inj.1 hst, hrest⟩

theorem Attr.print_visibility (v : Visibility) :
    (visibility v).print = Text.quoted v.name := by
  cases v <;> rfl

/-- Quoted strings, with other characters around them that need no quotes. -/
inductive BraceFree : Text → Prop
  | nil : BraceFree []
  | cons {c : Char} {t : Text} (hc : Unquoted c) (ht : BraceFree t) : BraceFree (c :: t)
  | quoted (s : String) {t : Text} (ht : BraceFree t) : BraceFree (Text.quoted s ++ t)

namespace BraceFree

variable {t u : Text}

theorem of_forall (h : ∀ c ∈ t, Unquoted c) : BraceFree t := by
  induction t with
  | nil => exact .nil
  | cons c t ih =>
    rw [List.forall_mem_cons] at h
    exact .cons h.1 (ih h.2)

theorem append (ht : BraceFree t) (hu : BraceFree u) : BraceFree (t ++ u) := by
  induction ht with
  | nil => exact hu
  | cons hc _ ih => exact .cons hc ih
  | quoted s _ ih =>
    rw [List.append_assoc]
    exact .quoted s ih

theorem literal (h : t.all fun c => Unquoted c := by decide) : BraceFree t :=
  of_forall fun c hc => of_decide_eq_true (List.all_eq_true.1 h c hc)

theorem surround {opening closing : String} (ht : BraceFree t)
    (ho : opening.toList.all fun c => Unquoted c := by decide)
    (hc : closing.toList.all fun c => Unquoted c := by decide) :
    BraceFree (Text.surround opening closing t) :=
  ((literal ho).append ht).append (literal hc)

theorem commaSeparated {ts : List Text} (h : ∀ t ∈ ts, BraceFree t) :
    BraceFree (Text.commaSeparated ts) := by
  have hcomma : BraceFree ", ".toList := literal
  induction ts with
  | nil => exact .nil
  | cons t ts ih =>
    rw [List.forall_mem_cons] at h
    cases ts with
    | nil => simpa using h.1
    | cons u us =>
      rw [Text.commaSeparated_cons_cons]
      exact (h.1.append hcomma).append (ih h.2)

theorem digits (n : Nat) : BraceFree (Decimal.digits n) :=
  of_forall fun _ h => .of_isDigit (Decimal.isDigit_of_mem_digits h)

theorem newline_not_mem (h : BraceFree t) : '\n' ∉ t := by
  induction h with
  | nil => exact List.not_mem_nil
  | @cons c t hc _ ih =>
    rintro (_ | ⟨_, h⟩)
    · exact absurd hc (by decide)
    · exact ih h
  | quoted s _ ih =>
    have hs := Text.newline_not_mem_escape s.toList
    simp [Text.quoted, hs, ih]

/-- What stands between braces ends at the first bare brace. -/
theorem readApart (ht : BraceFree t) (hu : BraceFree u) :
    ReadApart (fun c => c ≠ '}') t u (t = u) := by
  intro r s hr hs hrs
  induction ht generalizing u with
  | nil =>
    cases hu with
    | nil => exact ⟨rfl, hrs⟩
    | cons hc _ =>
      obtain rfl := hrs
      exact absurd (begins_cons.2 fun h => hc (by simp [h])) hr
    | quoted s _ =>
      obtain rfl := hrs
      simp [Text.quoted] at hr
  | cons hc ht ih =>
    cases hu with
    | nil =>
      obtain rfl := hrs
      exact absurd (begins_cons.2 fun h => hc (by simp [h])) hs
    | cons hc' hu =>
      obtain ⟨rfl, hrest⟩ := List.cons.inj hrs
      obtain ⟨rfl, hend⟩ := ih hu hrest
      exact ⟨rfl, hend⟩
    | quoted s _ => exact absurd (List.cons.inj hrs).1 fun h => hc (by simp [h])
  | quoted a ht ih =>
    cases hu with
    | nil =>
      obtain rfl := hrs
      simp [Text.quoted] at hs
    | cons hc _ => exact absurd (List.cons.inj hrs).1 fun h => hc (by simp [← h])
    | quoted b hu =>
      rw [List.append_assoc, List.append_assoc] at hrs
      obtain ⟨rfl, hrest⟩ := Text.quoted_readApart a b not_begins_false not_begins_false hrs
      obtain ⟨rfl, hend⟩ := ih hu hrest
      exact ⟨rfl, hend⟩

end BraceFree

theorem BraceFree.printShaped (dims : List Dim) {element : Text} (h : BraceFree element) :
    BraceFree (Ty.printShaped dims element) := by
  refine .append ?_ h
  induction dims with
  | nil => exact .nil
  | cons d dims ih =>
    refine .append ?_ ih
    cases d with
    | fixed n => exact (BraceFree.digits n.toNat).append .literal
    | dynamic => exact .literal

theorem SafeName.braceFree {s : String} (h : SafeName s) : BraceFree s.toList :=
  .of_forall fun c hc => (h.chars c hc).unquoted

theorem Ty.Plain.braceFree_print {t : Ty} (h : t.Plain SafeChar) : BraceFree t.print := by
  have hall {ts : List Ty} (ih : ∀ t ∈ ts, BraceFree t.print) :
      BraceFree (Text.commaSeparated (printAll ts)) := by
    rw [printAll_eq_map]
    exact .commaSeparated (List.forall_mem_map.2 ih)
  induction h with
  | absent => exact .literal
  | int w => exact .cons (by decide) (.digits w.bits)
  | float w => exact .cons (by decide) (.digits w.bits)
  | index => exact .literal
  | memref dims _ ih => exact .surround (ih.printShaped dims)
  | tensor dims _ ih => exact .surround (ih.printShaped dims)
  | unrankedTensor _ ih => exact .surround ih
  | struct _ ih => exact .surround (hall ih)
  | named hchars => exact .cons (by decide) (.of_forall fun c hc => (hchars c hc).unquoted)
  | function _ _ hin hout =>
    have hinputs : BraceFree (Text.surround "(" ") -> (" (Text.commaSeparated (printAll _))) :=
      .surround (hall hin)
    exact (hinputs.append (hall hout)).append .literal

theorem Binary64.braceFree_print (x : Binary64) : BraceFree x.print := by
  have hmagnitude (m : Magnitude) : BraceFree m.print := by
    cases m with
    | finite units =>
      have hzeros (n : Nat) : BraceFree (List.replicate n '0') :=
        .of_forall fun c hc => by rw [List.eq_of_mem_replicate hc]; decide
      exact (BraceFree.digits _).append (.cons (by decide) ((hzeros _).append (.digits _)))
    | infinite => exact .literal
    | nan => exact .literal
  unfold print
  split
  · exact .cons (by decide) (hmagnitude _)
  · exact hmagnitude _

/-- What holds of every number, and of a list as soon as it holds of its elements, holds of all. -/
theorem Payload.induction {P : Payload → Prop} (scalar : ∀ x, P (scalar x))
    (list : ∀ ps, (∀ p ∈ ps, P p) → P (list ps)) (p : Payload) : P p :=
  @Payload.rec P (fun ps => ∀ p ∈ ps, P p) scalar list (by simp) (by simp_all) p

theorem Payload.braceFree_print (p : Payload) : BraceFree p.print := by
  induction p using Payload.induction with
  | scalar x => exact x.braceFree_print
  | list ps ih =>
    rw [print, printAll_eq_map]
    exact .surround (.commaSeparated (List.forall_mem_map.2 ih))

theorem Attr.Plain.braceFree_print {a : Attr} (h : a.Plain) : BraceFree a.print := by
  have hsuffix {t : Ty} (ht : t.Plain SafeChar) : BraceFree (printSuffix t) := by
    unfold printSuffix
    split
    · exact .nil
    · exact .append .literal ht.braceFree_print
  induction h with
  | string value => simpa [print] using BraceFree.quoted value .nil
  | bool value => cases value <;> exact .literal
  | int value ht =>
    refine .append ?_ (hsuffix ht)
    unfold Decimal.signed
    split
    · exact .cons (by decide) (.digits _)
    · exact .digits _
  | float value ht => exact value.braceFree_print.append (hsuffix ht)
  | type ht => exact ht.braceFree_print
  | array elementType _ ih =>
    rw [print, printAll_eq_map]
    exact .surround (.commaSeparated (List.forall_mem_map.2 ih))
  | dense shape payload ht =>
    have helement := ht.braceFree_print.printShaped (shape.map .fixed)
    exact (BraceFree.surround payload.braceFree_print).append (.surround helement)
  | symbolRef hname => exact .cons (by decide) hname.braceFree
  | visibility v =>
    rw [print_visibility]
    simpa using BraceFree.quoted v.name .nil
  | unit => exact .literal

namespace AttrDict

variable {attrs attrs' : AttrDict}

theorem braceFree_printEntries
    (h : ∀ key a, attrs.find? key = some a → SafeName key ∧ a.Plain) :
    BraceFree (attrs.printEntries attrs.keys) := by
  refine .commaSeparated (List.forall_mem_map.2 fun key hkey => ?_)
  obtain ⟨a, ha⟩ := Option.isSome_iff_exists.1 (Dict.mem_keys_iff.1 hkey)
  obtain ⟨hname, hplain⟩ := h key a ha
  rw [printEntry, ha]
  exact (hname.braceFree.append .literal).append hplain.braceFree_print

/-- A dictionary ends at its closing brace. -/
theorem readApart_print (h : ∀ key a, attrs.find? key = some a → SafeName key ∧ a.Plain)
    (h' : ∀ key a, attrs'.find? key = some a → SafeName key ∧ a.Plain) (k : Char → Prop) :
    ReadApart k attrs.print attrs'.print (attrs.print = attrs'.print) := by
  have hentries := (braceFree_printEntries h).readApart (braceFree_printEntries h')
  unfold print
  split
  · split
    · refine (Text.surround_readApart (c := '}') rfl (hentries.close (by decide) ['>'])).imp ?_
      exact fun h => by rw [h]
    · exact .of_heads (by decide)
  · split
    · exact .of_heads (by decide)
    · refine (Text.surround_readApart (c := '}') rfl (hentries.close (by decide) [])).imp ?_
      exact fun h => by rw [h]

end AttrDict

end GenericIR
