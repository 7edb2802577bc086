/-! Printed text. Text under construction is a list of characters; names, file names and
finished output are strings. -/
namespace GenericIR

abbrev Text := List Char

namespace Text

def commaSeparated (items : List Text) : Text :=
  ", ".toList.intercalate items

/-- The bytes of the text in UTF-8. -/
def encode (t : Text) : List UInt8 :=
  t.flatMap String.utf8EncodeChar

def surround (opening closing : String) (body : Text) : Text :=
  opening.toList ++ body ++ closing.toList

@[simp] theorem encode_append (t u : Text) : encode (t ++ u) = encode t ++ encode u := by
  simp [encode]

@[simp] theorem commaSeparated_nil : commaSeparated [] = [] := rfl

@[simp] theorem commaSeparated_singleton (t : Text) : commaSeparated [t] = t := by
  simp [commaSeparated, List.intercalate]

@[simp] theorem commaSeparated_cons_cons (t u : Text) (rest : List Text) :
    commaSeparated (t :: u :: rest) = t ++ ", ".toList ++ commaSeparated (u :: rest) := by
  simp [commaSeparated, List.intercalate]

end Text

end GenericIR
