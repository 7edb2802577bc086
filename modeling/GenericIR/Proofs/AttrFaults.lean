import Mathlib.Data.List.Nodup
import GenericIR.Proofs.WellFormed

/-! Which faults the attributes of an operation have, and when they have none. -/
namespace GenericIR

namespace Payload

theorem allNested_eq_all (shape : List UInt64) (ps : List Payload) :
    allNested shape ps = ps.all (isNested shape) := by
  induction ps with
  | nil => rfl
  | cons p ps ih => simp [allNested, ih]

theorem isNested_iff {shape : List UInt64} {p : Payload} :
    p.isNested shape = true ↔ Nested shape p := by
  induction shape generalizing p with
  | nil =>
    cases p with
    | scalar value => exact ⟨fun _ => .scalar value, fun _ => rfl⟩
    | list elements => exact ⟨fun h => by simp [isNested] at h, fun h => nomatch h⟩
  | cons extent shape ih =>
    cases p with
    | scalar value => exact ⟨fun h => by simp [isNested] at h, fun h => nomatch h⟩
    | list elements =>
      simp only [isNested, allNested_eq_all, Bool.and_eq_true, beq_iff_eq, List.all_eq_true, ih]
      constructor
      · rintro ⟨length, each⟩
        exact .list length each
      · rintro (_ | ⟨length, each⟩)
        exact ⟨length, each⟩

theorem fits_iff {shape : List UInt64} {p : Payload} : p.fits shape = true ↔ p.Fills shape := by
  cases p with
  | scalar value => simp [fits, Fills]
  | list elements => simp [fits, Fills, isNested_iff]

end Payload

namespace Attr

def elements : Attr → List Attr
  | array elements _ => elements
  | _ => []

/-- What holds of an attribute as soon as it holds of its elements holds of all. -/
theorem induction {P : Attr → Prop} (step : ∀ a : Attr, (∀ e ∈ a.elements, P e) → P a)
    (a : Attr) : P a :=
  @Attr.rec P (fun as => ∀ a ∈ as, P a)
    (fun _ => step _ (by simp [elements])) (fun _ => step _ (by simp [elements]))
    (fun _ _ => step _ (by simp [elements])) (fun _ _ => step _ (by simp [elements]))
    (fun _ => step _ (by simp [elements])) (fun _ _ inside => step _ inside)
    (fun _ _ _ => step _ (by simp [elements])) (fun _ => step _ (by simp [elements]))
    (fun _ => step _ (by simp [elements])) (step _ (by simp [elements]))
    (fun _ => step _ (by simp [elements])) (by simp) (by simp_all) a

theorem holds_iff {a b : Attr} : a.Holds b ↔ b = a ∨ ∃ e ∈ a.elements, e.Holds b := by
  constructor
  · rintro (_ | ⟨mem, holds⟩)
    · exact .inl rfl
    · exact .inr ⟨_, mem, holds⟩
  · rintro (rfl | ⟨e, mem, holds⟩)
    · exact .self b
    · cases a with
      | array elements t => exact .element mem holds
      | _ => simp [elements] at mem

def shapeFaults (key : String) : Attr → List Fault
  | dense shape _ payload => if payload.fits shape then [] else [.shapeMismatch key shape]
  | _ => []

/-- The faults of an attribute apart from those of its elements. -/
def ownFaults (key : String) (a : Attr) : List Fault :=
  symbolFaults key a ++ shapeFaults key a

theorem faults_eq (key : String) (a : Attr) :
    a.faults key = a.ownFaults key ++ a.elements.flatMap (faults key) := by
  cases a <;> simp [faults, ownFaults, shapeFaults, elements]

theorem mem_faults {key : String} {a : Attr} {f : Fault} :
    f ∈ a.faults key ↔ ∃ b, a.Holds b ∧ f ∈ b.ownFaults key := by
  induction a using Attr.induction with
  | step a ih =>
    rw [faults_eq, List.mem_append, List.mem_flatMap]
    constructor
    · rintro (h | ⟨e, he, h⟩)
      · exact ⟨a, .self a, h⟩
      · obtain ⟨b, hb, h⟩ := (ih e he).1 h
        exact ⟨b, holds_iff.2 (.inr ⟨e, he, hb⟩), h⟩
    · rintro ⟨b, hb, h⟩
      rcases holds_iff.1 hb with rfl | ⟨e, he, hb⟩
      · exact .inl h
      · exact .inr ⟨e, he, (ih e he).2 ⟨b, hb, h⟩⟩

theorem mem_shapeFaults {key : String} {a : Attr} {f : Fault} :
    f ∈ a.shapeFaults key ↔ ∃ shape elementType payload,
      a = .dense shape elementType payload ∧ ¬ payload.Fills shape ∧
        f = .shapeMismatch key shape := by
  cases a with
  | dense shape elementType payload =>
    have hfit : payload.fits shape = true ↔ payload.Fills shape := Payload.fits_iff
    by_cases h : payload.Fills shape <;> simp [shapeFaults, h, hfit]
  | _ => simp [shapeFaults]

theorem mem_ownFaults {key : String} {a : Attr} {f : Fault} :
    f ∈ a.ownFaults key ↔
      (key = symbolKey ∧ a.string? = none ∧ f = .symbolNotString) ∨
      ∃ shape elementType payload, a = .dense shape elementType payload ∧
        ¬ payload.Fills shape ∧ f = .shapeMismatch key shape := by
  rw [ownFaults, List.mem_append, mem_shapeFaults, symbolFaults]
  refine or_congr ?_ Iff.rfl
  split <;> simp_all

end Attr

theorem Operation.attrFaults_eq_nil_iff {op : Operation} :
    op.attrFaults = [] ↔ op.AttrsWellFormed := by
  have faultless : op.attrFaults = [] ↔
      ∀ key a, op.findAttr key = some a → ∀ b, a.Holds b → b.ownFaults key = [] := by
    simp only [attrFaults, List.flatMap_eq_nil_iff, Prod.forall, Dict.mem_toSortedList, findAttr]
    simp only [List.eq_nil_iff_forall_not_mem, Attr.mem_faults]
    grind
  rw [faultless]
  constructor
  · intro h
    constructor
    · intro key a ha shape t payload hold
      by_contra hfill
      have hf : Fault.shapeMismatch key shape ∈ (Attr.dense shape t payload).ownFaults key :=
        Attr.mem_ownFaults.2 (.inr ⟨shape, t, payload, rfl, hfill, rfl⟩)
      simp [h key a ha _ hold] at hf
    · intro a ha
      have hf : Fault.symbolNotString ∉ a.ownFaults symbolKey := by simp [h _ a ha a (.self a)]
      cases a <;> simp_all [Attr.mem_ownFaults, Attr.string?]
  · intro h key a ha b hold
    rw [List.eq_nil_iff_forall_not_mem]
    intro f hf
    rcases Attr.mem_ownFaults.1 hf with ⟨rfl, hs, -⟩ | ⟨shape, t, payload, rfl, hfill, -⟩
    · obtain ⟨name, rfl⟩ := h.symbol_string a ha
      cases hold
      simp [Attr.string?] at hs
    · exact hfill (h.literals_fill key a ha _ _ _ hold)

end GenericIR
