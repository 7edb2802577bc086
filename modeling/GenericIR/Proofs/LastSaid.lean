import Mathlib.Data.List.Basic

/-! Lists of which some items say something. What holds is what was said last. -/
namespace GenericIR

variable {α β : Type}

/-- `b` is said by the last of the items that say anything. -/
def SaidLast (Says : α → β → Prop) (items : List α) (b : β) : Prop :=
  ∃ before item after, items = before ++ item :: after ∧ Says item b ∧
    ∀ i ∈ after, ∀ c, ¬ Says i c

/-- No item says anything. -/
def NeverSaid (Says : α → β → Prop) (items : List α) : Prop :=
  ∀ item ∈ items, ∀ b, ¬ Says item b

theorem SaidLast.prepend {Says : α → β → Prop} {items : List α} {b : β}
    (h : SaidLast Says items b) (front : List α) : SaidLast Says (front ++ items) b := by
  obtain ⟨before, item, after, rfl, hitem, hafter⟩ := h
  exact ⟨front ++ before, item, after, (List.append_assoc ..).symm, hitem, hafter⟩

theorem SaidLast.not_neverSaid {Says : α → β → Prop} {items : List α} {b : β}
    (h : SaidLast Says items b) : ¬ NeverSaid Says items := by
  obtain ⟨before, item, after, rfl, hitem, -⟩ := h
  exact fun hnever => hnever item (by simp) b hitem

theorem findSomeRev?_cons (g : α → Option β) (item : α) (items : List α) :
    (item :: items).findSomeRev? g = (items.findSomeRev? g).or (g item) := by
  rw [List.findSomeRev?]
  cases items.findSomeRev? g <;> simp

section Finding

variable {Says : α → β → Prop} {g : α → Option β}
  (hg : ∀ item b, g item = some b ↔ Says item b)

include hg

theorem eq_none_iff_says_none {item : α} : g item = none ↔ ∀ b, ¬ Says item b := by
  simp only [Option.eq_none_iff_forall_ne_some, ne_eq, hg]

theorem findSomeRev?_eq_none_iff_neverSaid {items : List α} :
    items.findSomeRev? g = none ↔ NeverSaid Says items := by
  rw [List.findSomeRev?_eq_findSome?_reverse, List.findSome?_eq_none_iff]
  simp only [List.mem_reverse, eq_none_iff_says_none hg, NeverSaid]

theorem findSomeRev?_eq_some_iff_saidLast {items : List α} {b : β} :
    items.findSomeRev? g = some b ↔ SaidLast Says items b := by
  rw [List.findSomeRev?_eq_findSome?_reverse, List.findSome?_eq_some_iff]
  simp only [eq_none_iff_says_none hg, hg]
  constructor
  · rintro ⟨after, item, before, hitems, hitem, hafter⟩
    refine ⟨before.reverse, item, after.reverse, ?_, hitem, by simpa using hafter⟩
    simpa using congrArg List.reverse hitems
  · rintro ⟨before, item, after, rfl, hitem, hafter⟩
    exact ⟨after.reverse, item, before.reverse, by simp, hitem, by simpa using hafter⟩

theorem saidLast_or_neverSaid (items : List α) :
    (∃ b, SaidLast Says items b) ∨ NeverSaid Says items := by
  cases h : items.findSomeRev? g with
  | none => exact .inr ((findSomeRev?_eq_none_iff_neverSaid hg).1 h)
  | some b => exact .inl ⟨b, (findSomeRev?_eq_some_iff_saidLast hg).1 h⟩

end Finding

end GenericIR
