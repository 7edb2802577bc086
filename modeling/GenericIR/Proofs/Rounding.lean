import Mathlib.Algebra.Order.Field.Power
import Mathlib.Algebra.Order.Field.Rat
import Mathlib.Tactic.FieldSimp
import Mathlib.Tactic.Linarith
import Mathlib.Tactic.Positivity
import Mathlib.Tactic.Ring
import GenericIR.Decimal.Binary64

/-! Exact values and rounding. A finite floating-point number has a rational value, by its sign,
exponent and fraction. Counted in millionths, the value is rounded to the nearest whole number, and
half way between two of them to the even one. -/
namespace GenericIR

/-- No whole number is nearer, and half way between two of them it is the even one. -/
structure RoundsTo (q : ℚ) (n : ℕ) : Prop where
  near : |q - n| ≤ 1 / 2
  even_of_tie : |q - n| = 1 / 2 → Even n

namespace RoundsTo

variable {q r : ℚ} {m n : ℕ}

theorem down {part : ℚ} (hlow : 0 ≤ part) (hhigh : part ≤ 1 / 2) (htie : part = 1 / 2 → Even n) :
    RoundsTo (n + part) n := by
  have hdistance : |(n : ℚ) + part - n| = part := by
    rw [add_sub_cancel_left, abs_of_nonneg hlow]
  constructor
  · rwa [hdistance]
  · rwa [hdistance]

theorem up {part : ℚ} (hlow : 1 / 2 ≤ part) (hhigh : part ≤ 1) (htie : part = 1 / 2 → Even (n + 1)) :
    RoundsTo (n + part) (n + 1) := by
  have hdistance : |(n : ℚ) + part - (n + 1 : ℕ)| = 1 - part := by
    push_cast
    rw [abs_of_nonpos (by linarith)]
    ring
  constructor
  · rw [hdistance]
    linarith
  · rw [hdistance]
    exact fun h => htie (by linarith)

/-- Rounding keeps the order. -/
theorem le (hm : RoundsTo q m) (hn : RoundsTo r n) (h : q ≤ r) : m ≤ n := by
  by_contra hlt
  have hstep : (n : ℚ) + 1 ≤ m := by exact_mod_cast not_le.1 hlt
  have hmnear := abs_le.1 hm.near
  have hnnear := abs_le.1 hn.near
  -- both lie half way between `n` and `n + 1`, of which only one is even
  have hmtie : q - m = -(1 / 2) := by linarith
  have hntie : r - n = 1 / 2 := by linarith
  have hcast : (m : ℚ) = (n + 1 : ℕ) := by
    push_cast
    linarith
  have hnext : m = n + 1 := by exact_mod_cast hcast
  have hmeven : Even m := hm.even_of_tie (by rw [hmtie, abs_neg, abs_of_pos one_half_pos])
  have hneven : Even n := hn.even_of_tie (by rw [hntie, abs_of_pos one_half_pos])
  rw [hnext, Nat.even_add_one] at hmeven
  exact hmeven hneven

theorem unique (hm : RoundsTo q m) (hn : RoundsTo q n) : m = n :=
  Nat.le_antisymm (hm.le hn le_rfl) (hn.le hm le_rfl)

end RoundsTo

theorem Decimal.roundsTo_roundDiv (num : ℕ) {den : ℕ} (h : 0 < den) :
    RoundsTo (num / den) (roundDiv num den) := by
  have hden : (0 : ℚ) < den := by exact_mod_cast h
  have hsplit : (num : ℚ) = den * (num / den : ℕ) + (num % den : ℕ) := by
    exact_mod_cast (Nat.div_add_mod num den).symm
  have hrest : num % den < den := Nat.mod_lt num h
  unfold roundDiv
  generalize num / den = quotient at hsplit ⊢
  generalize num % den = rest at hsplit hrest ⊢
  have hpart : (num : ℚ) / den = quotient + rest / den := by
    rw [hsplit, add_div, mul_div_cancel_left₀ _ hden.ne']
  have hlow : (0 : ℚ) ≤ rest / den := div_nonneg (Nat.cast_nonneg rest) hden.le
  have hhigh : (rest : ℚ) / den ≤ 1 := (div_le_one hden).2 (by exact_mod_cast hrest.le)
  have hbelow : 2 * rest < den ↔ (rest : ℚ) / den < 1 / 2 := by
    rw [div_lt_iff₀ hden, ← @Nat.cast_lt ℚ]
    push_cast
    constructor <;> intro h <;> linarith
  have habove : den < 2 * rest ↔ 1 / 2 < (rest : ℚ) / den := by
    rw [lt_div_iff₀ hden, ← @Nat.cast_lt ℚ]
    push_cast
    constructor <;> intro h <;> linarith
  rw [hpart]
  simp only [hbelow, habove]
  split_ifs with hdown hup heven
  · exact .down hlow hdown.le fun htie => absurd htie hdown.ne
  · exact .up hup.le hhigh fun htie => absurd htie hup.ne'
  · exact .down hlow (not_lt.1 hup) fun _ => Nat.even_iff.2 heven
  · refine .up (not_lt.1 hdown) hhigh fun _ => ?_
    rw [Nat.even_add_one, Nat.even_iff]
    exact heven

namespace Binary64

variable {x y : Binary64}

/-- Neither an infinity nor something that is no number. -/
def IsFinite (x : Binary64) : Prop :=
  x.exponent < 2047

instance (x : Binary64) : Decidable x.IsFinite :=
  inferInstanceAs (Decidable (_ < _))

/-- The absolute value of a finite number. With the exponent zero the fraction has no one in front. -/
def size (x : Binary64) : ℚ :=
  if x.exponent = 0 then x.fraction / 2 ^ 52 * (2 : ℚ) ^ (-1022 : ℤ)
  else (1 + x.fraction / 2 ^ 52) * (2 : ℚ) ^ ((x.exponent : ℤ) - 1023)

def value (x : Binary64) : ℚ :=
  if x.signBit then -x.size else x.size

/-- The number with the other sign: its first bit is the other one. -/
def neg (x : Binary64) : Binary64 :=
  ⟨x.bits + 0x8000000000000000⟩

theorem size_nonneg (x : Binary64) : 0 ≤ x.size := by
  unfold size
  split <;> positivity

theorem abs_value (x : Binary64) : |x.value| = x.size := by
  unfold value
  split
  · rw [abs_neg, abs_of_nonneg x.size_nonneg]
  · rw [abs_of_nonneg x.size_nonneg]

theorem value_lt_zero_iff : x.value < 0 ↔ x.signBit = true ∧ x.size ≠ 0 := by
  have hsize := x.size_nonneg
  unfold value
  split
  · rename_i hsign
    rw [neg_lt_zero, hsize.lt_iff_ne, ne_comm, and_iff_right hsign]
  · rename_i hsign
    exact ⟨fun h => absurd h hsize.not_gt, fun h => absurd h.1 hsign⟩

theorem toNat_bits_neg (x : Binary64) :
    x.neg.bits.toNat = (x.bits.toNat + 0x8000000000000000) % 0x10000000000000000 :=
  UInt64.toNat_add _ _

theorem signBit_neg (x : Binary64) : x.neg.signBit = !x.signBit := by
  have hbits := x.bits.toNat_lt
  rw [signBit, signBit, toNat_bits_neg, ← decide_not, decide_eq_decide]
  simp only [twoTo, Nat.pow_eq, Nat.reducePow] at hbits ⊢
  omega

theorem exponent_neg (x : Binary64) : x.neg.exponent = x.exponent := by
  rw [exponent, exponent, toNat_bits_neg]
  simp only [twoTo, Nat.pow_eq, Nat.reducePow]
  omega

theorem fraction_neg (x : Binary64) : x.neg.fraction = x.fraction := by
  rw [fraction, fraction, toNat_bits_neg]
  simp only [twoTo, Nat.pow_eq, Nat.reducePow]
  omega

theorem size_neg (x : Binary64) : x.neg.size = x.size := by
  rw [size, size, exponent_neg, fraction_neg]

theorem value_neg (x : Binary64) : x.neg.value = -x.value := by
  rw [value, value, signBit_neg, size_neg]
  cases x.signBit <;> simp

theorem IsFinite.neg (hx : x.IsFinite) : x.neg.IsFinite := by
  rwa [IsFinite, exponent_neg]

theorem twoTo_pos (n : ℕ) : 0 < twoTo n :=
  Nat.two_pow_pos n

theorem cast_twoTo (n : ℕ) : ((twoTo n : ℕ) : ℚ) = 2 ^ n :=
  Nat.cast_pow 2 n

/-- A finite number is a whole number of the smallest positive one. -/
theorem IsFinite.exists_units (hx : x.IsFinite) :
    ∃ units, x.magnitude = .finite units ∧ x.size = units / (twoTo 1074 : ℕ) := by
  rw [IsFinite] at hx
  by_cases hexponent : x.exponent = 0
  · refine ⟨x.fraction, by rw [magnitude, if_pos hexponent], ?_⟩
    rw [size, if_pos hexponent, cast_twoTo, zpow_neg, zpow_ofNat, ← div_eq_mul_inv, div_div,
      ← pow_add]
  · obtain ⟨e, he⟩ := Nat.exists_eq_succ_of_ne_zero hexponent
    refine ⟨_, by rw [magnitude, if_neg hexponent, if_pos hx], ?_⟩
    have hpower : (2 : ℚ) ^ ((x.exponent : ℤ) - 1023) = 2 ^ e / 2 ^ 1022 := by
      have hsplit : (x.exponent : ℤ) - 1023 = (e : ℤ) - (1022 : ℕ) := by omega
      rw [hsplit, zpow_sub₀ two_ne_zero, zpow_natCast, zpow_natCast]
    rw [size, if_neg hexponent, hpower, he, Nat.succ_sub_one]
    push_cast [cast_twoTo]
    field_simp

/-- Counted in millionths, the absolute value is rounded to the nearest whole number. -/
theorem IsFinite.roundsTo_millionths (hx : x.IsFinite) :
    ∃ units, x.magnitude = .finite units ∧ RoundsTo (|x.value| * 1000000) (millionths units) := by
  obtain ⟨units, hmagnitude, hsize⟩ := hx.exists_units
  refine ⟨units, hmagnitude, ?_⟩
  have hcount : x.size * 1000000 = (units * 1000000 : ℕ) / (twoTo 1074 : ℕ) := by
    rw [hsize, div_mul_eq_mul_div]
    push_cast
    rfl
  rw [abs_value, hcount]
  exact Decimal.roundsTo_roundDiv _ (twoTo_pos 1074)

/-- The sign is the one of the value, and zeros have none. -/
theorem IsFinite.isNegative_iff (hx : x.IsFinite) : x.isNegative = true ↔ x.value < 0 := by
  obtain ⟨units, hmagnitude, hsize⟩ := hx.exists_units
  have hzero : x.size = 0 ↔ units = 0 := by
    rw [hsize, div_eq_zero_iff, Nat.cast_eq_zero, cast_twoTo, or_iff_left (by positivity)]
  rw [isNegative, hmagnitude, value_lt_zero_iff]
  simp [hzero]

end Binary64

end GenericIR
