import GenericIR.Text

/-! Quoted strings. A quote, a backslash and a line break are written with a backslash in
front, so that the written form has no bare quote and stays on one line; everything else is
written as it is. `readQuoted` is the other direction: it stops at the closing quote. -/
namespace GenericIR.Text

def escape : Text → Text
  | [] => []
  | '"' :: rest => '\\' :: '"' :: escape rest
  | '\\' :: rest => '\\' :: '\\' :: escape rest
  | '\n' :: rest => '\\' :: 'n' :: escape rest
  | c :: rest => c :: escape rest

def quoted (s : String) : Text :=
  '"' :: escape s.toList ++ ['"']

/-- What a backslash and the character after it stand for. -/
def unescape? : Char → Option Char
  | '"' => some '"'
  | '\\' => some '\\'
  | 'n' => some '\n'
  | _ => none

/-- Reads from behind an opening quote up to the closing one, and returns what was quoted and
what follows the closing quote. -/
def readQuoted : Text → Option (Text × Text)
  | [] => none
  | '"' :: rest => some ([], rest)
  | '\n' :: _ => none
  | ['\\'] => none
  | '\\' :: c :: rest => do
    let c ← unescape? c
    let (body, after) ← readQuoted rest
    return (c :: body, after)
  | c :: rest => do
    let (body, after) ← readQuoted rest
    return (c :: body, after)

theorem readQuoted_escape (s after : Text) :
    readQuoted (escape s ++ '"' :: after) = some (s, after) := by
  fun_induction escape s with
  | case1 => rfl
  | case2 rest ih | case3 rest ih | case4 rest ih => simp [readQuoted, unescape?, ih]
  | case5 c rest hq hb hn ih =>
    have plain (t : Text) : readQuoted (c :: t) =
        (readQuoted t).bind fun (body, after) => some (c :: body, after) := by
      rw [readQuoted.eq_def]
      split <;> simp_all
    simp [plain, ih]

theorem newline_not_mem_escape (s : Text) : '\n' ∉ escape s := by
  fun_induction escape s <;> simp_all [eq_comm]

end GenericIR.Text
