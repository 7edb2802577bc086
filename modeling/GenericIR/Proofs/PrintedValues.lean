import GenericIR.Proofs.Rounding

/-! The printed values of numbers. The text of a finite number shows its sign and the nearest whole
number of millionths, with a point before the last six digits. Read back as a decimal number, it
differs from the value by half a millionth at most, and keeps the order of values. -/
namespace GenericIR

/-- Digits that stand for a number. -/
structure IsNumeral (ds : Text) (n : ℕ) : Prop where
  isDigit : ∀ c ∈ ds, c.isDigit
  value : Nat.ofDigitChars 10 ds 0 = n

namespace Decimal

theorem isNumeral_digits (n : ℕ) : IsNumeral (digits n) n :=
  ⟨fun _ => isDigit_of_mem_digits, Nat.ofDigitChars_ten_toDigits⟩

/-- Only zero begins with a zero. -/
theorem eq_zero_of_head?_digits {n : ℕ} (h : (digits n).head? = some '0') : n = 0 := by
  induction n using Nat.strong_induction_on with
  | h n ih =>
    by_cases hn : n < 10
    · rw [digits, Nat.toDigits_of_lt_base hn, List.head?_singleton, Option.some.injEq] at h
      have hdigit := @Nat.ofDigitChars_cons_digitChar_of_lt_ten 10 n hn [] 0
      rw [h, Nat.ofDigitChars_nil, Nat.mul_zero, Nat.zero_add] at hdigit
      exact hdigit.symm
    · have hsmaller : n / 10 < n := Nat.div_lt_self (by omega) (by decide)
      rw [digits, Nat.toDigits_of_base_le (by decide) (not_lt.1 hn),
        List.head?_append_of_ne_nil _ Nat.toDigits_ne_nil] at h
      have hquotient : n / 10 = 0 := ih (n / 10) hsmaller h
      omega

theorem digits_eq_of_head?_digits {n : ℕ} (h : (digits n).head? = some '0') : digits n = ['0'] := by
  rw [eq_zero_of_head?_digits h]
  rfl

theorem isNumeral_padded (width n : ℕ) : IsNumeral (padded width n) n := by
  constructor
  · refine List.forall_mem_append.2 ⟨fun c hc => ?_, fun _ => isDigit_of_mem_digits⟩
    rw [List.eq_of_mem_replicate hc]
    decide
  · rw [padded, Nat.ofDigitChars_append, Nat.ofDigitChars_replicate_zero, Nat.mul_zero]
    exact Nat.ofDigitChars_ten_toDigits

theorem length_padded {width n : ℕ} (h : (digits n).length ≤ width) :
    (padded width n).length = width := by
  rw [padded, List.length_append, List.length_replicate]
  omega

end Decimal

namespace Text

/-- The number that digits, a point and more digits stand for. -/
def unsignedValue (t : Text) : ℚ :=
  let decimals := (t.dropWhile Char.isDigit).tail
  Nat.ofDigitChars 10 (t.takeWhile Char.isDigit) 0 +
    Nat.ofDigitChars 10 decimals 0 / 10 ^ decimals.length

/-- The number that a decimal text stands for, with or without a sign. -/
def decimalValue : Text → ℚ
  | '-' :: t => -unsignedValue t
  | t => unsignedValue t

theorem unsignedValue_append {whole decimals : Text} {m n : ℕ} (hwhole : IsNumeral whole m)
    (hdecimals : IsNumeral decimals n) :
    unsignedValue (whole ++ '.' :: decimals) = m + n / 10 ^ decimals.length := by
  have hpoint : ¬ ('.').isDigit := by decide
  have htake : (whole ++ '.' :: decimals).takeWhile Char.isDigit = whole := by
    rw [List.takeWhile_append_of_pos hwhole.isDigit, List.takeWhile_cons_of_neg hpoint,
      List.append_nil]
  have hdrop : (whole ++ '.' :: decimals).dropWhile Char.isDigit = '.' :: decimals := by
    rw [List.dropWhile_append_of_pos hwhole.isDigit, List.dropWhile_cons_of_neg hpoint]
  rw [unsignedValue, htake, hdrop, List.tail_cons, hwhole.value, hdecimals.value]

end Text

/-- A whole number of millionths, written with a point before the last six digits. -/
def millionthsText (n : ℕ) : Text :=
  Decimal.digits (n / 1000000) ++ '.' :: Decimal.padded 6 (n % 1000000)

theorem length_padded_mod (n : ℕ) : (Decimal.padded 6 (n % 1000000)).length = 6 := by
  have hbound : n % 1000000 < 10 ^ 6 := Nat.mod_lt n (by decide)
  exact Decimal.length_padded ((Nat.length_toDigits_le_iff (by decide) (by decide)).2 hbound)

theorem unsignedValue_millionthsText (n : ℕ) :
    Text.unsignedValue (millionthsText n) = n / 1000000 := by
  have hsplit : (n : ℚ) = 1000000 * (n / 1000000 : ℕ) + (n % 1000000 : ℕ) := by
    exact_mod_cast (Nat.div_add_mod n 1000000).symm
  rw [millionthsText, Text.unsignedValue_append (Decimal.isNumeral_digits _)
    (Decimal.isNumeral_padded 6 _), length_padded_mod, hsplit]
  ring

theorem Text.decimalValue_cons_of_isDigit {c : Char} (h : c.isDigit) (t : Text) :
    decimalValue (c :: t) = unsignedValue (c :: t) := by
  unfold decimalValue
  split
  · exact absurd h (by simp_all)
  · rfl

theorem decimalValue_millionthsText (n : ℕ) :
    Text.decimalValue (millionthsText n) = n / 1000000 := by
  obtain ⟨c, t, hdigits⟩ := List.exists_cons_of_ne_nil (Decimal.digits_ne_nil (n / 1000000))
  have hdigit : c.isDigit := Decimal.isDigit_of_mem_digits (hdigits ▸ List.mem_cons_self)
  have hvalue := unsignedValue_millionthsText n
  rw [millionthsText, hdigits, List.cons_append] at hvalue ⊢
  rw [Text.decimalValue_cons_of_isDigit hdigit, hvalue]

namespace Binary64

variable {x y : Binary64} {n : ℕ}

theorem IsFinite.exists_roundsTo (hx : x.IsFinite) : ∃ n, RoundsTo (|x.value| * 1000000) n :=
  have ⟨units, _, hn⟩ := hx.roundsTo_millionths
  ⟨millionths units, hn⟩

theorem IsFinite.print_eq (hx : x.IsFinite) (hn : RoundsTo (|x.value| * 1000000) n) :
    x.print = (if x.value < 0 then ['-'] else []) ++ millionthsText n := by
  obtain ⟨units, hmagnitude, hunits⟩ := hx.roundsTo_millionths
  have hsign : (if x.isNegative = true then ['-'] else []) = if x.value < 0 then ['-'] else [] :=
    if_congr hx.isNegative_iff rfl rfl
  rw [print, hsign, hmagnitude, hn.unique hunits]
  rfl

theorem IsFinite.decimalValue_print (hx : x.IsFinite) (hn : RoundsTo (|x.value| * 1000000) n) :
    Text.decimalValue x.print = if x.value < 0 then -(n / 1000000 : ℚ) else n / 1000000 := by
  rw [hx.print_eq hn]
  split
  · exact congrArg Neg.neg (unsignedValue_millionthsText n)
  · exact decimalValue_millionthsText n

/-- The printed number is off by half a millionth at most. -/
theorem IsFinite.abs_decimalValue_sub_le (hx : x.IsFinite) :
    |Text.decimalValue x.print - x.value| ≤ 1 / 2000000 := by
  obtain ⟨n, hn⟩ := hx.exists_roundsTo
  rw [hx.decimalValue_print hn]
  have hnear := abs_le.1 hn.near
  rw [abs_le]
  split
  · rename_i hneg
    rw [abs_of_neg hneg] at hnear
    constructor <;> linarith
  · rename_i hpos
    rw [abs_of_nonneg (not_lt.1 hpos)] at hnear
    constructor <;> linarith

/-- Printing keeps the order of values. -/
theorem IsFinite.decimalValue_mono (hx : x.IsFinite) (hy : y.IsFinite) (h : x.value ≤ y.value) :
    Text.decimalValue x.print ≤ Text.decimalValue y.print := by
  obtain ⟨m, hm⟩ := hx.exists_roundsTo
  obtain ⟨n, hn⟩ := hy.exists_roundsTo
  rw [hx.decimalValue_print hm, hy.decimalValue_print hn]
  have hm0 : (0 : ℚ) ≤ m / 1000000 := by positivity
  have hn0 : (0 : ℚ) ≤ n / 1000000 := by positivity
  split_ifs with hxneg hyneg hyneg
  · rw [abs_of_neg hxneg] at hm
    rw [abs_of_neg hyneg] at hn
    have hle : n ≤ m := hn.le hm (by linarith)
    have hcast : (n : ℚ) ≤ m := by exact_mod_cast hle
    linarith
  · linarith
  · exact absurd (h.trans_lt hyneg) hxneg
  · rw [abs_of_nonneg (not_lt.1 hxneg)] at hm
    rw [abs_of_nonneg (not_lt.1 hyneg)] at hn
    have hle : m ≤ n := hm.le hn (by linarith)
    have hcast : (m : ℚ) ≤ n := by exact_mod_cast hle
    linarith

theorem IsFinite.print_neg (hx : x.IsFinite) (h : 0 < x.value) : x.neg.print = '-' :: x.print := by
  obtain ⟨n, hn⟩ := hx.exists_roundsTo
  have hn' : RoundsTo (|x.neg.value| * 1000000) n := by
    rwa [value_neg, abs_neg]
  have hnegative : x.neg.value < 0 := by
    rw [value_neg]
    exact neg_neg_of_pos h
  rw [hx.print_eq hn, hx.neg.print_eq hn', if_pos hnegative, if_neg h.not_gt, List.nil_append,
    List.singleton_append]

/-- A finite number is printed with a minus sign if it is below zero, and with the nearest whole number
of millionths, of which the last six digits stand behind the point. So the printed number is off by
half a millionth at most, changes only its sign with the value, and keeps the order of values. -/
theorem print_correctly_rounded (x : Binary64) (hx : x.IsFinite) :
    (∃! n, RoundsTo (|x.value| * 1000000) n) ∧
    (∀ n, RoundsTo (|x.value| * 1000000) n → ∃ whole decimals : Text,
      x.print = (if x.value < 0 then ['-'] else []) ++ whole ++ '.' :: decimals ∧
      IsNumeral whole (n / 1000000) ∧ whole ≠ [] ∧ (whole.head? = some '0' → whole = ['0']) ∧
      IsNumeral decimals (n % 1000000) ∧ decimals.length = 6) ∧
    |Text.decimalValue x.print - x.value| ≤ 1 / 2000000 ∧
    (x.neg.IsFinite ∧ x.neg.value = -x.value ∧ (0 < x.value → x.neg.print = '-' :: x.print)) ∧
    ∀ y : Binary64, y.IsFinite → x.value ≤ y.value →
      Text.decimalValue x.print ≤ Text.decimalValue y.print := by
  refine ⟨?_, fun n hn => ?_, hx.abs_decimalValue_sub_le, ⟨hx.neg, x.value_neg, hx.print_neg⟩,
    fun y hy => hx.decimalValue_mono hy⟩
  · obtain ⟨n, hn⟩ := hx.exists_roundsTo
    exact ⟨n, hn, fun m hm => hm.unique hn⟩
  · refine ⟨Decimal.digits (n / 1000000), Decimal.padded 6 (n % 1000000), ?_,
      Decimal.isNumeral_digits _, Decimal.digits_ne_nil _, Decimal.digits_eq_of_head?_digits,
      Decimal.isNumeral_padded _ _, length_padded_mod n⟩
    rw [hx.print_eq hn, millionthsText, List.append_assoc]

/-- One 128th, which is half way between two whole numbers of millionths. -/
def halfWay : Binary64 :=
  ⟨0x3F80000000000000⟩

theorem value_halfWay : halfWay.value = 1 / 128 := by
  have hsign : halfWay.signBit = false := by decide
  have hexponent : halfWay.exponent = 1016 := by decide
  have hfraction : halfWay.fraction = 0 := by decide
  rw [value, size, hsign, hexponent, hfraction]
  norm_num

theorem halfWay_print_correctly_rounded :
    halfWay.IsFinite ∧ RoundsTo (|halfWay.value| * 1000000) 7812 ∧
      (∃ whole decimals : Text, halfWay.print = [] ++ whole ++ '.' :: decimals ∧
        IsNumeral whole 0 ∧ IsNumeral decimals 7812 ∧ decimals.length = 6) ∧
      halfWay.neg.print = '-' :: halfWay.print := by
  have hfinite : halfWay.IsFinite := by decide
  have hpositive : 0 < halfWay.value := by
    rw [value_halfWay]
    norm_num
  have hrounds : RoundsTo (|halfWay.value| * 1000000) 7812 := by
    rw [abs_of_pos hpositive, value_halfWay]
    have htie : |1 / 128 * 1000000 - ((7812 : ℕ) : ℚ)| = 1 / 2 := by norm_num
    exact ⟨htie.le, fun _ => by decide⟩
  obtain ⟨-, htext, -, ⟨-, -, hneg⟩, -⟩ := print_correctly_rounded halfWay hfinite
  obtain ⟨whole, decimals, hprint, hwhole, -, -, hdecimals, hlength⟩ := htext 7812 hrounds
  rw [if_neg hpositive.not_gt] at hprint
  exact ⟨hfinite, hrounds, ⟨whole, decimals, hprint, hwhole, hdecimals, hlength⟩, hneg hpositive⟩

/-- A number below zero keeps its sign where nothing else is left of it, but the negative zero has
none. -/
example : (print ⟨0xBE112E0BE826D695⟩ = "-0.000000".toList) ∧
    print ⟨0x8000000000000000⟩ = "0.000000".toList := by
  decide +kernel

end Binary64

end GenericIR
