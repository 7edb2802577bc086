import GenericIR.Proofs.TypeEquality

/-! The comparison of types is an equivalence that printing respects, however often it stops early
at parts that are one and the same object. Which parts these are is no matter of what the types say:
of two pairs of parts that say the same one may be shared and the other not. So the answers that the
comparison may give are a relation, in which every pair of parts is free to be shared or not. -/
namespace GenericIR.Ty

/-- Of the same kind, where absence is a kind of its own. -/
def sameKind : Ty → Ty → Bool
  | absent, absent => true
  | int _, int _ => true
  | float _, float _ => true
  | index, index => true
  | memref .., memref .. => true
  | tensor .., tensor .. => true
  | unrankedTensor _, unrankedTensor _ => true
  | struct _, struct _ => true
  | named _, named _ => true
  | function .., function .. => true
  | custom _, custom _ => true
  | _, _ => false

mutual

/-- `MayAnswer a b answer`: comparing `a` with `b` can come to `answer`. -/
inductive MayAnswer : Ty → Ty → Bool → Prop
  /-- They are one object, and this is noticed. -/
  | shared (a : Ty) : MayAnswer a a true
  | otherKind {a b : Ty} (h : a.sameKind b = false) : MayAnswer a b false
  | absent : MayAnswer absent absent true
  | int (v w : IntWidth) : MayAnswer (int v) (int w) (v == w)
  | float (v w : FloatWidth) : MayAnswer (float v) (float w) (v == w)
  | index : MayAnswer index index true
  | memref (dims dims' : List Dim) {a b : Ty} {answer : Bool} (h : MayAnswer a b answer) :
    MayAnswer (memref dims a) (memref dims' b) (dims == dims' && answer)
  | tensor (dims dims' : List Dim) {a b : Ty} {answer : Bool} (h : MayAnswer a b answer) :
    MayAnswer (tensor dims a) (tensor dims' b) (dims == dims' && answer)
  | unrankedTensor {a b : Ty} {answer : Bool} (h : MayAnswer a b answer) :
    MayAnswer (unrankedTensor a) (unrankedTensor b) answer
  | struct {as bs : List Ty} {answer : Bool} (h : MayAnswerAll as bs answer) :
    MayAnswer (struct as) (struct bs) answer
  | named (x y : String) : MayAnswer (named x) (named y) (x == y)
  | function {as bs as' bs' : List Ty} {answer answer' : Bool} (h : MayAnswerAll as bs answer)
    (h' : MayAnswerAll as' bs' answer') :
    MayAnswer (function as as') (function bs bs') (answer && answer')
  | custom (text text' : Option String) : MayAnswer (custom text) (custom text') (text == text')

/-- The same for lists of types. -/
inductive MayAnswerAll : List Ty → List Ty → Bool → Prop
  | otherLength {as bs : List Ty} (h : as.length ≠ bs.length) : MayAnswerAll as bs false
  | nil : MayAnswerAll [] [] true
  | cons {a b : Ty} {as bs : List Ty} {answer answer' : Bool} (h : MayAnswer a b answer)
    (h' : MayAnswerAll as bs answer') : MayAnswerAll (a :: as) (b :: bs) (answer && answer')

end

variable {a b : Ty} {as bs : List Ty} {answer : Bool}

theorem sameKind_self (a : Ty) : a.sameKind a = true := by
  cases a <;> rfl

mutual

/-- Whatever is noticed on the way, the answer says whether the types are equal. -/
theorem MayAnswer.iff_eq {a b : Ty} {answer : Bool} :
    MayAnswer a b answer → (answer = true ↔ a = b)
  | .shared a => by simp
  | .otherKind h => by
    refine iff_of_false Bool.false_ne_true ?_
    rintro rfl
    rw [sameKind_self] at h
    exact absurd h nofun
  | .absent => by simp
  | .int v w => by simp
  | .float v w => by simp
  | .index => by simp
  | .memref dims dims' h => by simp [h.iff_eq]
  | .tensor dims dims' h => by simp [h.iff_eq]
  | .unrankedTensor h => by simp [h.iff_eq]
  | .struct h => by simp [h.iff_eq]
  | .named x y => by simp
  | .function h h' => by simp [h.iff_eq, h'.iff_eq]
  | .custom text text' => by simp

theorem MayAnswerAll.iff_eq {as bs : List Ty} {answer : Bool} :
    MayAnswerAll as bs answer → (answer = true ↔ as = bs)
  | .otherLength h => iff_of_false Bool.false_ne_true fun heq => h (congrArg List.length heq)
  | .nil => by simp
  | .cons h h' => by simp [h.iff_eq, h'.iff_eq]

end

theorem equal_iff : a.equal b = true ↔ a = b :=
  equalWith_iff (fun _ _ h => absurd h Bool.false_ne_true) a b

theorem mayAnswerAll_allEqual (h : ∀ a ∈ as, ∀ b, MayAnswer a b (a.equal b)) :
    MayAnswerAll as bs (allEqualWith (fun _ _ => false) as bs) := by
  induction as generalizing bs with
  | nil =>
    cases bs with
    | nil => exact .nil
    | cons b bs => exact .otherLength nofun
  | cons a as ih =>
    rw [List.forall_mem_cons] at h
    cases bs with
    | nil => exact .otherLength nofun
    | cons b bs => exact .cons (h.1 b) (ih h.2)

/-- The comparison that never stops early gives one of the answers. -/
theorem mayAnswer_equal (a b : Ty) : MayAnswer a b (a.equal b) := by
  induction a using Ty.induction generalizing b with
  | absent =>
    cases b with
    | absent => exact .absent
    | _ => exact .otherKind rfl
  | int v =>
    cases b with
    | int w => exact .int v w
    | _ => exact .otherKind rfl
  | float v =>
    cases b with
    | float w => exact .float v w
    | _ => exact .otherKind rfl
  | index =>
    cases b with
    | index => exact .index
    | _ => exact .otherKind rfl
  | memref dims element ih =>
    cases b with
    | memref dims' element' => exact .memref dims dims' (ih element')
    | _ => exact .otherKind rfl
  | tensor dims element ih =>
    cases b with
    | tensor dims' element' => exact .tensor dims dims' (ih element')
    | _ => exact .otherKind rfl
  | unrankedTensor element ih =>
    cases b with
    | unrankedTensor element' => exact .unrankedTensor (ih element')
    | _ => exact .otherKind rfl
  | struct fields ih =>
    cases b with
    | struct fields' => exact .struct (mayAnswerAll_allEqual ih)
    | _ => exact .otherKind rfl
  | named x =>
    cases b with
    | named y => exact .named x y
    | _ => exact .otherKind rfl
  | function inputs results hin hout =>
    cases b with
    | function inputs' results' =>
      exact .function (mayAnswerAll_allEqual hin) (mayAnswerAll_allEqual hout)
    | _ => exact .otherKind rfl
  | custom text =>
    cases b with
    | custom text' => exact .custom text text'
    | _ => exact .otherKind rfl

theorem mayAnswer_iff : MayAnswer a b answer ↔ answer = a.equal b := by
  constructor
  · intro h
    rw [Bool.eq_iff_iff, h.iff_eq, equal_iff]
  · rintro rfl
    exact mayAnswer_equal a b

/-- The comparison part by part is an equivalence, noticing shared parts never changes its answer,
and types that it finds equal print alike. -/
theorem comparison_congruence :
    (∀ a : Ty, a.equal a = true) ∧
    (∀ a b : Ty, a.equal b = b.equal a) ∧
    (∀ a b c : Ty, a.equal b = true → b.equal c = true → a.equal c = true) ∧
    (∀ a b answer, MayAnswer a b answer ↔ answer = a.equal b) ∧
    (∀ shared : Ty → Ty → Bool, (∀ a b, shared a b = true → a = b) →
      ∀ a b : Ty, a.equalWith shared b = a.equal b) ∧
    ∀ a b : Ty, a.equal b = true → a.print = b.print := by
  refine ⟨fun a => equal_iff.2 rfl, fun a b => ?_, fun a b c hab hbc => ?_,
    fun a b answer => mayAnswer_iff, fun shared hshared a b => ?_, fun a b h => ?_⟩
  · rw [Bool.eq_iff_iff, equal_iff, equal_iff, eq_comm]
  · exact equal_iff.2 ((equal_iff.1 hab).trans (equal_iff.1 hbc))
  · rw [Bool.eq_iff_iff, equalWith_iff hshared, equal_iff]
  · rw [equal_iff.1 h]

end GenericIR.Ty
