import Mathlib.Data.List.Perm.Basic
import Mathlib.Order.Bounds.Basic
import Mathlib.Order.MinMax
import GenericIR.Source

/-! Merged spans. Positions are linearly ordered, and a span covers another if it begins no later
and ends no earlier, whatever the files are called. Merging is the join of this order: a span covers
what two spans merge to just if it covers both. So neither the way in which several spans are merged
two by two nor their order matters, except that the first one gives the file. -/
namespace GenericIR

namespace Position

theorem lt_iff_toNat {p q : Position} :
    p < q ↔ p.row.toNat < q.row.toNat ∨
      p.row.toNat = q.row.toNat ∧ p.column.toNat < q.column.toNat := by
  change p.row < q.row ∨ p.row = q.row ∧ p.column < q.column ↔ _
  rw [UInt32.lt_iff_toNat_lt, UInt32.lt_iff_toNat_lt, UInt32.toNat_inj]

theorem eq_iff_toNat {p q : Position} :
    p = q ↔ p.row.toNat = q.row.toNat ∧ p.column.toNat = q.column.toNat := by
  rw [UInt32.toNat_inj, UInt32.toNat_inj]
  cases p
  cases q
  simp only [Position.mk.injEq]

theorem lt_irrefl (p : Position) : ¬ p < p := by
  rw [lt_iff_toNat]
  omega

theorem lt_trans {p q r : Position} (hpq : p < q) (hqr : q < r) : p < r := by
  rw [lt_iff_toNat] at hpq hqr ⊢
  omega

theorem lt_trichotomy (p q : Position) : p < q ∨ p = q ∨ q < p := by
  rw [lt_iff_toNat, lt_iff_toNat, eq_iff_toNat]
  omega

instance : LinearOrder Position where
  le p q := ¬ q < p
  le_refl := lt_irrefl
  le_trans p q r hpq hqr hrp := by
    rcases lt_trichotomy q p with h | rfl | h
    · exact hpq h
    · exact hqr hrp
    · exact hqr (lt_trans hrp h)
  lt_iff_le_not_ge p q := by
    refine ⟨fun h => ⟨fun h' => lt_irrefl p (lt_trans h h'), fun h' => h' h⟩, fun h => ?_⟩
    exact not_not.1 h.2
  le_antisymm p q hpq hqp := by
    rcases lt_trichotomy p q with h | h | h
    · exact absurd h hqp
    · exact h
    · exact absurd h hpq
  le_total p q := by
    by_cases h : q < p
    · exact .inr fun h' => lt_irrefl p (lt_trans h' h)
    · exact .inl h
  toDecidableLE := fun p q => inferInstanceAs (Decidable (¬ q < p))
  toDecidableEq := inferInstance
  toDecidableLT := inferInstance

end Position

namespace Span

variable {a b c : Span}

theorem eq_of_parts (hfile : a.file = b.file) (hstart : a.start = b.start)
    (hstop : a.stop = b.stop) : a = b := by
  cases a
  cases b
  cases hfile
  cases hstart
  cases hstop
  rfl

@[simp] theorem file_merge (a b : Span) : (a.merge b).file = a.file := rfl

@[simp] theorem start_merge (a b : Span) : (a.merge b).start = min a.start b.start := by
  rw [min_comm, min_def_lt]
  rfl

@[simp] theorem stop_merge (a b : Span) : (a.merge b).stop = max a.stop b.stop := by
  rw [max_def_lt]
  rfl

@[simp] theorem merge_self (a : Span) : a.merge a = a :=
  eq_of_parts rfl (by simp) (by simp)

theorem merge_assoc (a b c : Span) : (a.merge b).merge c = a.merge (b.merge c) :=
  eq_of_parts rfl (by simp [min_assoc]) (by simp [max_assoc])

theorem merge_right_comm (a b c : Span) : (a.merge b).merge c = (a.merge c).merge b :=
  eq_of_parts rfl (by simp [inf_right_comm]) (by simp [sup_right_comm])

instance : Std.Associative merge := ⟨merge_assoc⟩

instance : RightCommutative merge := ⟨merge_right_comm⟩

/-- Begins no later and ends no earlier, in whatever file. -/
def Covers (a b : Span) : Prop :=
  a.start ≤ b.start ∧ b.stop ≤ a.stop

theorem Covers.refl (a : Span) : a.Covers a :=
  ⟨le_rfl, le_rfl⟩

theorem Covers.antisymm (hab : a.Covers b) (hba : b.Covers a) (hfile : a.file = b.file) : a = b :=
  eq_of_parts hfile (le_antisymm hab.1 hba.1) (le_antisymm hba.2 hab.2)

theorem covers_merge_iff : c.Covers (a.merge b) ↔ c.Covers a ∧ c.Covers b := by
  unfold Covers
  rw [start_merge, stop_merge, le_min_iff, max_le_iff]
  exact and_and_and_comm

/-- The spans merged one after another, from the left. -/
def mergeAll (s : Span) (rest : List Span) : Span :=
  rest.foldl merge s

theorem merge_mergeAll (a s : Span) (rest : List Span) :
    a.merge (s.mergeAll rest) = a.mergeAll (s :: rest) :=
  List.foldl_assoc.symm

theorem mergeAll_append (s t : Span) (ss ts : List Span) :
    (s.mergeAll ss).merge (t.mergeAll ts) = s.mergeAll (ss ++ t :: ts) := by
  rw [merge_mergeAll]
  exact List.foldl_append.symm

theorem mergeAll_perm (s : Span) {rest rest' : List Span} (h : rest.Perm rest') :
    s.mergeAll rest = s.mergeAll rest' :=
  h.foldl_eq s

theorem file_mergeAll (s : Span) (rest : List Span) : (s.mergeAll rest).file = s.file := by
  induction rest generalizing s with
  | nil => rfl
  | cons t rest ih => exact ih (s.merge t)

theorem covers_mergeAll_iff {s : Span} {rest : List Span} :
    c.Covers (s.mergeAll rest) ↔ ∀ t ∈ s :: rest, c.Covers t := by
  induction rest generalizing s with
  | nil => simp [mergeAll]
  | cons t rest ih =>
    rw [mergeAll, List.foldl_cons, ← mergeAll, ih]
    simp only [List.forall_mem_cons, covers_merge_iff, and_assoc]

theorem mergeAll_covers {s t : Span} {rest : List Span} (ht : t ∈ s :: rest) :
    (s.mergeAll rest).Covers t :=
  covers_mergeAll_iff.1 (.refl _) t ht

/-- Neither end comes from anywhere but the spans themselves. -/
theorem ends_mergeAll_mem (s : Span) (rest : List Span) :
    (s.mergeAll rest).start ∈ (s :: rest).map start ∧
      (s.mergeAll rest).stop ∈ (s :: rest).map stop := by
  induction rest generalizing s with
  | nil => simp [mergeAll]
  | cons t rest ih =>
    obtain ⟨hstart, hstop⟩ := ih (s.merge t)
    rw [List.map_cons, List.mem_cons, start_merge] at hstart
    rw [List.map_cons, List.mem_cons, stop_merge] at hstop
    rw [mergeAll, List.foldl_cons, ← mergeAll]
    constructor
    · rcases hstart with hfirst | hlater
      · rcases min_choice s.start t.start with h | h <;> simp [hfirst, h]
      · simp [hlater]
    · rcases hstop with hfirst | hlater
      · rcases max_choice s.stop t.stop with h | h <;> simp [hfirst, h]
      · simp [hlater]

theorem isLeast_start_mergeAll (s : Span) (rest : List Span) :
    IsLeast {p | p ∈ (s :: rest).map start} (s.mergeAll rest).start := by
  refine ⟨(ends_mergeAll_mem s rest).1, fun p hp => ?_⟩
  obtain ⟨t, ht, rfl⟩ := List.mem_map.1 hp
  exact (mergeAll_covers ht).1

theorem isGreatest_stop_mergeAll (s : Span) (rest : List Span) :
    IsGreatest {p | p ∈ (s :: rest).map stop} (s.mergeAll rest).stop := by
  refine ⟨(ends_mergeAll_mem s rest).2, fun p hp => ?_⟩
  obtain ⟨t, ht, rfl⟩ := List.mem_map.1 hp
  exact (mergeAll_covers ht).2

end Span

/-- A way to merge spans two by two. -/
inductive Merging where
  | single (s : Span)
  | both (l r : Merging)

namespace Merging

/-- The span that stands leftmost. -/
def first : Merging → Span
  | single s => s
  | both l _ => l.first

/-- The spans behind the first, from left to right. -/
def rest : Merging → List Span
  | single _ => []
  | both l r => l.rest ++ r.first :: r.rest

def result : Merging → Span
  | single s => s
  | both l r => l.result.merge r.result

theorem result_eq (w : Merging) : w.result = w.first.mergeAll w.rest := by
  induction w with
  | single s => rfl
  | both l r ihl ihr => rw [result, ihl, ihr, Span.mergeAll_append, first, rest]

end Merging

/-- Positions are strictly and totally ordered. Spans merge to one span, however they are paired
and, behind the first, in whatever order they come: the least one that covers them all. -/
theorem Span.merging_is_join :
    (∀ p : Position, ¬ p < p) ∧
    (∀ p q r : Position, p < q → q < r → p < r) ∧
    (∀ p q : Position, p < q ∨ p = q ∨ q < p) ∧
    (∀ s : Span, s.merge s = s) ∧
    ∀ (s : Span) (rest : List Span), ∃ joined : Span,
      (∀ w : Merging, w.first = s → w.rest.Perm rest → w.result = joined) ∧
      joined.file = s.file ∧
      IsLeast {p | p ∈ (s :: rest).map start} joined.start ∧
      IsGreatest {p | p ∈ (s :: rest).map stop} joined.stop ∧
      (∀ t ∈ s :: rest, joined.Covers t) ∧
      ∀ c : Span, (∀ t ∈ s :: rest, c.Covers t) →
        c.Covers joined ∧ (c.file = s.file → joined.Covers c → c = joined) := by
  refine ⟨Position.lt_irrefl, fun _ _ _ => Position.lt_trans, Position.lt_trichotomy, merge_self,
    fun s rest => ⟨s.mergeAll rest, ?ways, file_mergeAll s rest, isLeast_start_mergeAll s rest,
      isGreatest_stop_mergeAll s rest, fun _ => mergeAll_covers, ?smallest⟩⟩
  case ways =>
    rintro w rfl hrest
    rw [w.result_eq, mergeAll_perm _ hrest]
  case smallest =>
    intro c hc
    have hcovers : c.Covers (s.mergeAll rest) := covers_mergeAll_iff.2 hc
    refine ⟨hcovers, fun hfile hback => hcovers.antisymm hback ?_⟩
    rw [hfile, file_mergeAll]

end GenericIR
