import GenericIR.Proofs.TypeText

/-! Structural equality of types, and which types print alike. The comparison part by part is
equality, and stays so if it may stop early at parts that are one and the same object. Types
without foreign ones in them print alike if and only if they are equal once every ranked tensor of
one dynamic extent is made an unranked one. -/
namespace GenericIR.Ty

/-- What holds of a type as soon as it holds of its parts holds of all. -/
theorem induction {P : Ty → Prop} (absent : P absent) (int : ∀ w, P (int w))
    (float : ∀ w, P (float w)) (index : P index)
    (memref : ∀ dims element, P element → P (memref dims element))
    (tensor : ∀ dims element, P element → P (tensor dims element))
    (unrankedTensor : ∀ element, P element → P (unrankedTensor element))
    (struct : ∀ fields, (∀ t ∈ fields, P t) → P (struct fields))
    (named : ∀ name, P (named name))
    (function : ∀ inputs results, (∀ t ∈ inputs, P t) → (∀ t ∈ results, P t) →
      P (function inputs results))
    (custom : ∀ text, P (custom text)) (t : Ty) : P t :=
  @Ty.rec P (fun ts => ∀ t ∈ ts, P t) absent int float index memref tensor unrankedTensor struct
    named function custom (by simp) (by simp_all) t

section Equality

variable {shared : Ty → Ty → Bool}

theorem allEqualWith_iff {as bs : List Ty}
    (h : ∀ a ∈ as, ∀ b, equalWith shared a b = true ↔ a = b) :
    allEqualWith shared as bs = true ↔ as = bs := by
  induction as generalizing bs with
  | nil => cases bs <;> simp [allEqualWith]
  | cons a as ih =>
    rw [List.forall_mem_cons] at h
    cases bs with
    | nil => simp [allEqualWith]
    | cons b bs => rw [allEqualWith, Bool.and_eq_true, h.1 b, ih h.2, List.cons.injEq]

/-- The comparison is equality, wherever it recognises an object as the same. -/
theorem equalWith_iff (hshared : ∀ a b, shared a b = true → a = b) (a b : Ty) :
    equalWith shared a b = true ↔ a = b := by
  have early {a b : Ty} {parts : Bool} (hparts : parts = true ↔ a = b) :
      (shared a b || parts) = true ↔ a = b := by
    rw [Bool.or_eq_true, hparts, or_iff_right_of_imp (hshared a b)]
  induction a using Ty.induction generalizing b with
  | absent => cases b <;> simp [equalWith]
  | memref dims element ih | tensor dims element ih =>
    cases b <;> simp only [equalWith] <;> exact early (by simp [ih])
  | unrankedTensor element ih =>
    cases b <;> simp only [equalWith] <;> exact early (by simp [ih])
  | struct fields ih =>
    cases b <;> simp only [equalWith] <;> exact early (by simp [allEqualWith_iff ih])
  | function inputs results hin hout =>
    cases b <;> simp only [equalWith] <;>
      exact early (by simp [allEqualWith_iff hin, allEqualWith_iff hout])
  | index =>
    cases b with
    | index => simp [equalWith]
    | _ => simp only [equalWith]; exact early (by simp)
  | _ => cases b <;> simp only [equalWith] <;> exact early (by simp)

end Equality

/-- Characters of a name that end no type, neither in a listing nor in brackets. -/
def EnclosedChar (c : Char) : Prop :=
  c ∉ [',', '>', ')']

instance : DecidablePred EnclosedChar :=
  fun _ => inferInstanceAs (Decidable (¬ _))

theorem nameKind_enclosedChar : NameKind EnclosedChar where
  digit c h hmem := by
    simp only [List.mem_cons, List.not_mem_nil, or_false] at hmem
    rcases hmem with rfl | rfl | rfl <;> exact absurd h (by decide)
  comma := by decide
  angle := by decide
  paren := by decide

/-- Types print alike exactly when they are equal but for ranked tensors of one dynamic extent,
which read as unranked ones. -/
theorem print_eq_iff_equal_canonical {a b : Ty} (ha : a.Plain EnclosedChar)
    (hb : b.Plain EnclosedChar) {shared : Ty → Ty → Bool}
    (hshared : ∀ a b, shared a b = true → a = b) :
    a.print = b.print ↔ a.canonical.equalWith shared b.canonical = true := by
  rw [equalWith_iff hshared]
  constructor
  · exact (ha.readApart_print nameKind_enclosedChar hb).of_eq
  · exact ha.print_eq hb

/-- Functions of a tensor of one dynamic extent and of an unranked tensor, with a gap each. -/
theorem function_print_eq_iff_equal_canonical :
    (function [tensor [.dynamic] (named "a<b"), absent] []).Plain EnclosedChar ∧
      (function [unrankedTensor (named "a<b"), absent] []).Plain EnclosedChar ∧
      ((function [tensor [.dynamic] (named "a<b"), absent] []).print =
          (function [unrankedTensor (named "a<b"), absent] []).print ↔
        (function [tensor [.dynamic] (named "a<b"), absent] []).canonical.equal
          (function [unrankedTensor (named "a<b"), absent] []).canonical = true) := by
  have hchars : "a<b".toList.all fun c => EnclosedChar c := by decide
  have hname : (named "a<b").Plain EnclosedChar :=
    .named fun c hc => of_decide_eq_true (List.all_eq_true.1 hchars c hc)
  have hranked : (function [tensor [.dynamic] (named "a<b"), absent] []).Plain EnclosedChar :=
    .function (by simpa using ⟨.tensor _ hname, .absent⟩) nofun
  have hunranked : (function [unrankedTensor (named "a<b"), absent] []).Plain EnclosedChar :=
    .function (by simpa using ⟨.unrankedTensor hname, .absent⟩) nofun
  exact ⟨hranked, hunranked, print_eq_iff_equal_canonical hranked hunranked nofun⟩

end GenericIR.Ty
