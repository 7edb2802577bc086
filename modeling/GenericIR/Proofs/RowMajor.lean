import Mathlib.Algebra.BigOperators.Group.List.Basic
import Mathlib.Algebra.GroupWithZero.Nat
import GenericIR.Proofs.AttrFaults

/-! Dense literals in row-major order. A payload fits a shape if it is one number for all elements,
or if its lists are as long as the extent at their depth says and its numbers stand below the last
extent. Such a payload is given by its numbers, of which there are as many as the extents
multiply to, also where an extent is zero. -/
namespace GenericIR.Payload

/-- `p.Holds depth q`: the part `q` of `p` stands inside that many lists. -/
inductive Holds : Payload → ℕ → Payload → Prop
  | self (p : Payload) : Holds p 0 p
  | element {elements : List Payload} {depth : ℕ} {p q : Payload}
      (mem : p ∈ elements) (holds : Holds p depth q) : Holds (list elements) (depth + 1) q

/-- Lists have the length of the extent at their depth, and numbers stand behind all extents. -/
structure Rectangular (shape : List UInt64) (p : Payload) : Prop where
  lists : ∀ depth elements, p.Holds depth (list elements) →
    ∃ extent, shape[depth]? = some extent ∧ elements.length = extent.toNat
  scalars : ∀ depth value, p.Holds depth (scalar value) → depth = shape.length

mutual

/-- The numbers of a payload, row after row. -/
def numbers : Payload → List Binary64
  | scalar value => [value]
  | list elements => allNumbers elements

def allNumbers : List Payload → List Binary64
  | [] => []
  | p :: ps => numbers p ++ allNumbers ps

end

@[simp] theorem allNumbers_eq_flatMap (ps : List Payload) : allNumbers ps = ps.flatMap numbers := by
  induction ps with
  | nil => rfl
  | cons p ps ih => simp [allNumbers, ih]

/-- The product of the extents: how many elements a literal of that shape has. -/
def volume (shape : List UInt64) : ℕ :=
  (shape.map UInt64.toNat).prod

variable {extent : UInt64} {shape : List UInt64} {p q : Payload} {elements : List Payload}

theorem volume_cons (extent : UInt64) (shape : List UInt64) :
    volume (extent :: shape) = extent.toNat * volume shape := by
  rw [volume, List.map_cons, List.prod_cons, volume]

theorem rectangular_list_iff : (list elements).Rectangular (extent :: shape) ↔
    elements.length = extent.toNat ∧ ∀ p ∈ elements, p.Rectangular shape := by
  constructor
  · intro h
    refine ⟨?_, fun p hp => ⟨fun depth inner hinner => ?_, fun depth value hvalue => ?_⟩⟩
    · obtain ⟨e, he, hlength⟩ := h.lists 0 elements (.self _)
      rw [List.getElem?_cons_zero, Option.some.injEq] at he
      rw [hlength, he]
    · exact h.lists (depth + 1) inner (.element hp hinner)
    · exact Nat.succ.inj (h.scalars (depth + 1) value (.element hp hvalue))
  · rintro ⟨hlength, hrows⟩
    constructor
    · rintro depth inner (_ | ⟨hp, hinner⟩)
      · exact ⟨extent, rfl, hlength⟩
      · exact (hrows _ hp).lists _ inner hinner
    · rintro depth value (_ | ⟨hp, hvalue⟩)
      exact congrArg Nat.succ ((hrows _ hp).scalars _ value hvalue)

theorem nested_iff_rectangular : Nested shape p ↔ p.Rectangular shape := by
  induction shape generalizing p with
  | nil =>
    cases p with
    | scalar value =>
      refine ⟨fun _ => ⟨fun _ _ h => (nomatch h), fun _ _ h => ?_⟩, fun _ => .scalar value⟩
      cases h
      rfl
    | list elements =>
      refine ⟨fun h => (nomatch h), fun h => ?_⟩
      obtain ⟨_, hnone, _⟩ := h.lists 0 elements (.self _)
      exact absurd hnone (by simp)
  | cons extent shape ih =>
    cases p with
    | scalar value =>
      refine ⟨fun h => (nomatch h), fun h => ?_⟩
      exact absurd (h.scalars 0 value (.self _)) (Nat.succ_ne_zero _).symm
    | list elements =>
      rw [rectangular_list_iff]
      constructor
      · rintro (_ | ⟨length, each⟩)
        exact ⟨length, fun p hp => ih.1 (each p hp)⟩
      · rintro ⟨length, each⟩
        exact .list length fun p hp => ih.2 (each p hp)

theorem fits_list_iff : (list elements).fits shape = true ↔ Nested shape (list elements) := by
  rw [fits_iff, Fills, or_iff_right]
  rintro ⟨value, h⟩
  cases h

theorem Nested.length_numbers (h : Nested shape p) : p.numbers.length = volume shape := by
  induction h with
  | scalar value => rfl
  | @list extent shape elements length each ih =>
    have hrows : elements.map (fun p => p.numbers.length) =
        List.replicate elements.length (volume shape) :=
      List.map_eq_replicate_iff.2 ih
    rw [numbers, allNumbers_eq_flatMap, List.length_flatMap, hrows, List.sum_replicate_nat, volume_cons,
      length]

/-- Rows of one length can be told apart in what they make together. -/
theorem eq_of_flatMap_eq {α β : Type} {f : α → List β} {n : ℕ} {as bs : List α}
    (has : ∀ a ∈ as, (f a).length = n) (hbs : ∀ b ∈ bs, (f b).length = n)
    (hlength : as.length = bs.length) (hinj : ∀ a ∈ as, ∀ b ∈ bs, f a = f b → a = b)
    (h : as.flatMap f = bs.flatMap f) : as = bs := by
  induction as generalizing bs with
  | nil => exact (List.length_eq_zero_iff.1 hlength.symm).symm
  | cons a as ih =>
    obtain ⟨b, bs, rfl⟩ := List.exists_cons_of_length_eq_add_one hlength.symm
    rw [List.forall_mem_cons] at has hbs
    obtain ⟨hfirst, hrest⟩ := List.append_inj h (has.1.trans hbs.1.symm)
    have hhead : a = b := hinj a List.mem_cons_self b List.mem_cons_self hfirst
    have htail : as = bs := by
      apply ih has.2 hbs.2 (Nat.succ.inj hlength) _ hrest
      intro a ha b hb
      exact hinj a (List.mem_cons_of_mem _ ha) b (List.mem_cons_of_mem _ hb)
    rw [hhead, htail]

/-- A nested payload is given by its numbers. -/
theorem Nested.eq_of_numbers_eq (hp : Nested shape p) (hq : Nested shape q)
    (h : p.numbers = q.numbers) : p = q := by
  induction hp generalizing q with
  | scalar value =>
    obtain ⟨value'⟩ := hq
    rw [List.singleton_inj.1 h]
  | @list extent shape elements length each ih =>
    obtain _ | ⟨length', each'⟩ := hq
    rw [numbers, numbers, allNumbers_eq_flatMap, allNumbers_eq_flatMap] at h
    congr 1
    apply eq_of_flatMap_eq (fun p hp => (each p hp).length_numbers)
      (fun p hp => (each' p hp).length_numbers) (length.trans length'.symm) _ h
    intro p hp q hq
    exact ih p hp (each' q hq)

/-- Numbers that can be arranged to rows can be arranged to any number of them. -/
theorem exists_rows (hrow : ∀ values : List Binary64, values.length = volume shape →
      ∃ p, Nested shape p ∧ p.numbers = values) (count : ℕ) {values : List Binary64}
    (h : values.length = count * volume shape) :
    ∃ elements : List Payload, elements.length = count ∧ (∀ p ∈ elements, Nested shape p) ∧
      elements.flatMap numbers = values := by
  induction count generalizing values with
  | zero =>
    rw [Nat.zero_mul, List.length_eq_zero_iff] at h
    exact ⟨[], rfl, by simp, h.symm⟩
  | succ count ih =>
    rw [Nat.succ_mul] at h
    obtain ⟨p, hp, hfirst⟩ := hrow (values.take (volume shape)) (by rw [List.length_take]; omega)
    obtain ⟨ps, hlength, hps, hrest⟩ := @ih (values.drop (volume shape))
      (by rw [List.length_drop]; omega)
    refine ⟨p :: ps, congrArg Nat.succ hlength, List.forall_mem_cons.2 ⟨hp, hps⟩, ?_⟩
    rw [List.flatMap_cons, hfirst, hrest, List.take_append_drop]

theorem exists_nested (shape : List UInt64) {values : List Binary64}
    (h : values.length = volume shape) : ∃ p, Nested shape p ∧ p.numbers = values := by
  induction shape generalizing values with
  | nil =>
    obtain ⟨value, rfl⟩ := List.length_eq_one_iff.1 h
    exact ⟨scalar value, .scalar value, rfl⟩
  | cons extent shape ih =>
    rw [volume_cons] at h
    obtain ⟨elements, hlength, hrows, hnumbers⟩ := exists_rows (fun _ => ih) extent.toNat h
    refine ⟨list elements, .list hlength hrows, ?_⟩
    rw [numbers, allNumbers_eq_flatMap, hnumbers]

/-- A payload fits a shape if and only if it is a single number or is nested by the extents. The
lists that fit correspond one to one to the rows of as many numbers as the extents multiply to. -/
theorem fits_row_major (shape : List UInt64) :
    (∀ p : Payload, p.fits shape = true ↔
      (∃ value, p = scalar value) ∨ (shape ≠ [] ∧ p.Rectangular shape)) ∧
    (∀ elements, (list elements).fits shape = true →
      (list elements).numbers.length = volume shape) ∧
    (shape ≠ [] → ∀ values : List Binary64, values.length = volume shape →
      ∃! p, (∃ elements, p = list elements) ∧ p.fits shape = true ∧ p.numbers = values) := by
  refine ⟨fun p => ?_, fun elements h => (fits_list_iff.1 h).length_numbers,
    fun hshape values h => ?_⟩
  · cases p with
    | scalar value => exact ⟨fun _ => .inl ⟨value, rfl⟩, fun _ => rfl⟩
    | list elements =>
      have hlist : ¬ ∃ value, list elements = scalar value := fun ⟨_, h⟩ => nomatch h
      have hshape : Nested shape (list elements) → shape ≠ [] := by
        rintro h rfl
        exact nomatch h
      rw [fits_list_iff, or_iff_right hlist, ← nested_iff_rectangular, iff_and_self]
      exact hshape
  · obtain ⟨p, hp, hnumbers⟩ := exists_nested shape h
    obtain ⟨elements, rfl⟩ : ∃ elements, p = list elements := by
      cases hp with
      | scalar value => exact absurd rfl hshape
      | list length each => exact ⟨_, rfl⟩
    refine ⟨list elements, ⟨⟨elements, rfl⟩, fits_list_iff.2 hp, hnumbers⟩, ?_⟩
    rintro _ ⟨⟨other, rfl⟩, hfits, hsame⟩
    exact (fits_list_iff.1 hfits).eq_of_numbers_eq hp (hsame.trans hnumbers.symm)

/-- Two rows without numbers are not the same as no rows. -/
theorem emptyRows_fits_row_major :
    (list [list [], list []]).fits [2, 0] = true ∧ (list []).fits [2, 0] = false ∧
      ∃! p : Payload, (∃ elements, p = list elements) ∧ p.fits [2, 0] = true ∧ p.numbers = [] :=
  ⟨by decide, by decide, (fits_row_major [2, 0]).2.2 (by decide) [] rfl⟩

end GenericIR.Payload
