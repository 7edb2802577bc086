import GenericIR.Text

/-! Decimal digits of whole numbers, and division to the nearest whole number. -/
namespace GenericIR.Decimal

def digits (n : Nat) : Text :=
  Nat.toDigits 10 n

theorem isDigit_of_mem_digits {n : Nat} {c : Char} (h : c ∈ digits n) : c.isDigit :=
  Nat.isDigit_of_mem_toDigits (by decide) (by decide) h

theorem digits_ne_nil (n : Nat) : digits n ≠ [] :=
  Nat.toDigits_ne_nil

theorem digits_inj {m n : Nat} : digits m = digits n ↔ m = n := by
  refine ⟨fun h => ?_, congrArg digits⟩
  have hvalue := congrArg (fun ds => Nat.ofDigitChars 10 ds 0) h
  simpa only [digits, Nat.ofDigitChars_ten_toDigits] using hvalue

/-- The digits as a string, for messages. -/
def string (n : Nat) : String :=
  String.ofList (digits n)

def signed (i : Int) : Text :=
  if i < 0 then '-' :: digits i.natAbs else digits i.natAbs

/-- The digits of `n`, filled up with zeros on the left to `width` places. -/
def padded (width n : Nat) : Text :=
  List.replicate (width - (digits n).length) '0' ++ digits n

/-- `num / den` to the nearest whole number; a value half way between two of them goes to
the even one. -/
def roundDiv (num den : Nat) : Nat :=
  let q := num / den
  let r := num % den
  if 2 * r < den then q
  else if den < 2 * r then q + 1
  else if q % 2 = 0 then q else q + 1

end GenericIR.Decimal
