import Mathlib.Tactic.IntervalCases
import GenericIR.Decimal.Binary64
import GenericIR.Proofs.Outline

/-! The text of numbers. A whole number shows its value and where it ends. A floating-point number
shows no more than its text; behind its first digits stands a point, or it has no digits at all, so
that it does not read as a whole number, nor as a type. -/
namespace GenericIR

/-- Characters with which a number can go on, a type behind it left out. -/
def NumberChar (c : Char) : Prop :=
  SafeChar c ∨ c = '-'

instance : DecidablePred NumberChar :=
  fun _ => inferInstanceAs (Decidable (_ ∨ _))

/-- Characters of whole numbers. -/
def SignedDigit (c : Char) : Prop :=
  c.isDigit ∨ c = '-'

instance : DecidablePred SignedDigit :=
  fun _ => inferInstanceAs (Decidable (_ ∨ _))

theorem SafeChar.of_isDigit {c : Char} (h : c.isDigit) : SafeChar c :=
  nameKind_safeChar.digit c h

theorem SignedDigit.numberChar {c : Char} (h : SignedDigit c) : NumberChar c :=
  h.imp_left SafeChar.of_isDigit

theorem SignedDigit.mem {c : Char} (h : SignedDigit c) : c ∈ "-0123456789".toList := by
  rcases h with h | rfl
  · have hrange : 48 ≤ c.toNat ∧ c.toNat ≤ 57 := by
      simp only [Char.isDigit, Bool.and_eq_true, decide_eq_true_eq, ge_iff_le] at h
      exact ⟨UInt32.le_iff_toNat_le.1 h.1, UInt32.le_iff_toNat_le.1 h.2⟩
    obtain ⟨hlow, hhigh⟩ := hrange
    rw [← Char.ofNat_toNat c]
    generalize c.toNat = n at hlow hhigh ⊢
    interval_cases n <;> decide
  · decide

namespace Decimal

theorem signedDigit_of_mem_signed {i : Int} {c : Char} (h : c ∈ signed i) : SignedDigit c := by
  unfold signed at h
  split at h
  · rcases List.mem_cons.1 h with rfl | h
    · exact .inr rfl
    · exact .inl (isDigit_of_mem_digits h)
  · exact .inl (isDigit_of_mem_digits h)

theorem signed_ne_nil (i : Int) : signed i ≠ [] := by
  unfold signed
  split
  · exact List.cons_ne_nil _ _
  · exact digits_ne_nil _

theorem signed_inj {i j : Int} (h : signed i = signed j) : i = j := by
  have hsign (m n : Nat) : '-' :: digits m ≠ digits n := by
    intro heq
    have hdash : '-' ∈ digits n := heq ▸ List.mem_cons_self
    exact absurd (isDigit_of_mem_digits hdash) (by decide)
  unfold signed at h
  split at h <;> split at h
  · have habs : i.natAbs = j.natAbs := digits_inj.1 (List.cons.inj h).2
    omega
  · exact absurd h (hsign _ _)
  · exact absurd h.symm (hsign _ _)
  · have habs : i.natAbs = j.natAbs := digits_inj.1 h
    omega

theorem signed_readApart (i j : Int) :
    ReadApart SignedDigit (signed i) (signed j) (i = j) :=
  (ReadApart.run (fun _ => signedDigit_of_mem_signed) fun _ => signedDigit_of_mem_signed).imp
    signed_inj

theorem begins_signed (i : Int) : Begins SignedDigit (signed i) :=
  .of_forall (signed_ne_nil i) fun _ => signedDigit_of_mem_signed

end Decimal

namespace Binary64

/-- What follows the leading digits of a magnitude. -/
theorem Magnitude.print_eq_cut (m : Magnitude) : ∃ (lead : Text) (c : Char) (rest : Text),
    m.print = lead ++ c :: rest ∧ (∀ d ∈ lead, d.isDigit) ∧ c ∈ ['.', 'i', 'n'] := by
  cases m with
  | finite units =>
    exact ⟨Decimal.digits _, '.', _, rfl, fun _ => Decimal.isDigit_of_mem_digits, by simp⟩
  | infinite => exact ⟨[], 'i', ['n', 'f'], rfl, by simp, by simp⟩
  | nan => exact ⟨[], 'n', ['a', 'n'], rfl, by simp, by simp⟩

theorem print_eq_cut (x : Binary64) : ∃ (lead : Text) (c : Char) (rest : Text),
    x.print = lead ++ c :: rest ∧ (∀ d ∈ lead, SignedDigit d) ∧ c ∈ ['.', 'i', 'n'] := by
  obtain ⟨lead, c, rest, htext, hlead, hc⟩ := x.magnitude.print_eq_cut
  refine ⟨(if x.isNegative then ['-'] else []) ++ lead, c, rest, ?_, ?_, hc⟩
  · rw [print, htext, List.append_assoc]
  · refine List.forall_mem_append.2 ⟨?_, fun d hd => .inl (hlead d hd)⟩
    split <;> simp [SignedDigit]

theorem Magnitude.numberChar_of_mem_print {m : Magnitude} {c : Char} (h : c ∈ m.print) :
    NumberChar c := by
  cases m with
  | finite units =>
    have hdigit {n : Nat} (h : c ∈ Decimal.digits n) : NumberChar c :=
      .inl (.of_isDigit (Decimal.isDigit_of_mem_digits h))
    rw [print, List.mem_append, List.mem_cons, Decimal.padded, List.mem_append] at h
    rcases h with h | rfl | h | h
    · exact hdigit h
    · decide
    · rw [List.eq_of_mem_replicate h]
      decide
    · exact hdigit h
  | infinite =>
    have hall : "inf".toList.all fun c => NumberChar c := by decide
    exact of_decide_eq_true (List.all_eq_true.1 hall c h)
  | nan =>
    have hall : "nan".toList.all fun c => NumberChar c := by decide
    exact of_decide_eq_true (List.all_eq_true.1 hall c h)

theorem numberChar_of_mem_print {x : Binary64} {c : Char} (h : c ∈ x.print) : NumberChar c := by
  rw [print, List.mem_append] at h
  rcases h with h | h
  · split at h
    · exact .inr (List.mem_singleton.1 h)
    · exact absurd h List.not_mem_nil
  · exact Magnitude.numberChar_of_mem_print h

theorem Magnitude.begins_print (m : Magnitude) :
    Begins (fun c => SignedDigit c ∨ c ∈ ['i', 'n']) m.print := by
  cases m with
  | finite units => exact ((Decimal.begins_digits _).imp fun _ h => .inl (.inl h)).append _
  | infinite | nan => exact ⟨_, rfl, by decide⟩

theorem begins_print (x : Binary64) :
    Begins (fun c => SignedDigit c ∨ c ∈ ['i', 'n']) x.print := by
  unfold print
  split
  · exact begins_cons.2 (by decide)
  · exact x.magnitude.begins_print

theorem begins_numberChar (x : Binary64) : Begins NumberChar x.print := by
  refine x.begins_print.imp fun c hc => ?_
  rcases hc with hc | hc
  · exact hc.numberChar
  · have hall : ['i', 'n'].all fun c => NumberChar c := by decide
    exact of_decide_eq_true (List.all_eq_true.1 hall c hc)

theorem readApart_print (x y : Binary64) :
    ReadApart NumberChar x.print y.print (x.print = y.print) :=
  .run (fun _ => numberChar_of_mem_print) fun _ => numberChar_of_mem_print

end Binary64

end GenericIR
