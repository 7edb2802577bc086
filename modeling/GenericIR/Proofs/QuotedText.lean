import Mathlib.Data.List.Induction
import GenericIR.Operation.Printer

/-! Quoted text. A reader that starts behind an opening quote accepts just what escaping and a
closing quote make, so that it ends at that quote whatever was quoted and whatever follows. The
closing quote can also be told by counting: it is the first one behind an even number of
backslashes. The same holds of bytes, and escaping a text escapes its bytes. -/
namespace GenericIR.Text

/-- The characters that are not written as they are. -/
def Marked (c : Char) : Prop :=
  c = '"' ∨ c = '\\' ∨ c = '\n'

theorem not_marked_iff {c : Char} : ¬ Marked c ↔ c ≠ '"' ∧ c ≠ '\\' ∧ c ≠ '\n' := by
  simp only [Marked, not_or, ne_eq]

theorem escape_cons_of_not_marked {c : Char} (hc : ¬ Marked c) (s : Text) :
    escape (c :: s) = c :: escape s := by
  obtain ⟨hq, hb, hn⟩ := not_marked_iff.1 hc
  rw [escape.eq_def]
  split <;> simp_all

theorem escape_append (s t : Text) : escape (s ++ t) = escape s ++ escape t := by
  fun_induction escape s with
  | case1 => rfl
  | case2 rest ih | case3 rest ih | case4 rest ih => simp only [List.cons_append, escape, ih]
  | case5 c rest hq hb hn ih =>
    have hc : ¬ Marked c := not_marked_iff.2 ⟨hq, hb, hn⟩
    rw [List.cons_append, escape_cons_of_not_marked hc, ih, List.cons_append]

theorem escape_cons_of_unescape? {c d : Char} (h : unescape? c = some d) (s : Text) :
    escape (d :: s) = '\\' :: c :: escape s := by
  unfold unescape? at h
  split at h
  all_goals cases h
  all_goals rfl

theorem eq_escape_of_readQuoted {t s after : Text} (h : readQuoted t = some (s, after)) :
    t = escape s ++ '"' :: after := by
  fun_induction readQuoted t generalizing s after with
  | case1 => cases h
  | case2 rest =>
    cases h
    rfl
  | case3 => cases h
  | case4 => cases h
  | case5 c rest ih =>
    obtain ⟨d, hd, h⟩ := Option.bind_eq_some_iff.1 h
    obtain ⟨⟨body, after'⟩, hread, h⟩ := Option.bind_eq_some_iff.1 h
    cases h
    rw [escape_cons_of_unescape? hd, ih hread]
    rfl
  | case6 c rest hq hn hb hb' ih =>
    obtain ⟨⟨body, after'⟩, hread, h⟩ := Option.bind_eq_some_iff.1 h
    cases h
    have hslash : c ≠ '\\' := by
      rintro rfl
      cases rest with
      | nil => exact hb rfl rfl
      | cons d rest => exact hb' d rest rfl rfl
    have hc : ¬ Marked c := not_marked_iff.2 ⟨hq, hslash, hn⟩
    rw [escape_cons_of_not_marked hc, ih hread]
    rfl

/-- The reader accepts what escaping makes and nothing else. -/
theorem readQuoted_eq_some_iff {t s after : Text} :
    readQuoted t = some (s, after) ↔ t = escape s ++ '"' :: after :=
  ⟨eq_escape_of_readQuoted, fun h => h ▸ readQuoted_escape s after⟩

theorem escape_injective {s t : Text} (h : escape s = escape t) : s = t := by
  have hread := readQuoted_escape s []
  rw [h, readQuoted_escape] at hread
  exact (Prod.mk.inj (Option.some.inj hread)).1.symm

/-- The number of backslashes at the end. -/
def pending (t : Text) : Nat :=
  (t.reverse.takeWhile (· = '\\')).length

theorem pending_concat_backslash (t : Text) : pending (t ++ ['\\']) = pending t + 1 := by
  simp [pending]

theorem pending_concat_of_ne {c : Char} (hc : c ≠ '\\') (t : Text) : pending (t ++ [c]) = 0 := by
  simp [pending, hc]

/-- A last character is escaped by itself, or by a backslash and a character for it. -/
theorem escape_concat_cases (s : Text) (c : Char) :
    (c ≠ '"' ∧ c ≠ '\\' ∧ escape (s ++ [c]) = escape s ++ [c]) ∨
      ∃ d, escape (s ++ [c]) = escape s ++ ['\\'] ++ [d] := by
  rw [escape_append]
  by_cases hc : Marked c
  · rcases hc with rfl | rfl | rfl
    · exact .inr ⟨'"', (List.append_assoc _ ['\\'] ['"']).symm⟩
    · exact .inr ⟨'\\', (List.append_assoc _ ['\\'] ['\\']).symm⟩
    · exact .inr ⟨'n', (List.append_assoc _ ['\\'] ['n']).symm⟩
  · obtain ⟨hq, hb, -⟩ := not_marked_iff.1 hc
    rw [escape_cons_of_not_marked hc]
    exact .inl ⟨hq, hb, rfl⟩

/-- An escaped text leaves no backslash open. -/
theorem pending_escape (s : Text) : pending (escape s) % 2 = 0 := by
  induction s using List.reverseRecOn with
  | nil => rfl
  | append_singleton s c ih =>
    rcases escape_concat_cases s c with ⟨-, hb, h⟩ | ⟨d, h⟩
    · rw [h, pending_concat_of_ne hb]
    · rw [h]
      by_cases hd : d = '\\'
      · rw [hd, pending_concat_backslash, pending_concat_backslash]
        omega
      · rw [pending_concat_of_ne hd]

/-- A quote is the last character, or stands in front of it. -/
theorem quote_in_concat {t p q : Text} {c : Char} (h : t ++ [c] = p ++ '"' :: q) :
    t = p ∧ c = '"' ∨ ∃ q', t = p ++ '"' :: q' := by
  cases q using List.reverseRecOn with
  | nil =>
    obtain ⟨ht, hc⟩ := List.append_inj' h rfl
    exact .inl ⟨ht, (List.cons.inj hc).1⟩
  | append_singleton q' d =>
    rw [← List.cons_append, ← List.append_assoc] at h
    exact .inr ⟨q', (List.append_inj' h rfl).1⟩

/-- Every quote within an escaped text stands behind an odd number of backslashes. -/
theorem pending_of_escape_eq {s p q : Text} (h : escape s = p ++ '"' :: q) :
    pending p % 2 = 1 := by
  induction s using List.reverseRecOn generalizing q with
  | nil => cases p <;> cases h
  | append_singleton s c ih =>
    rcases escape_concat_cases s c with ⟨hq, -, hescape⟩ | ⟨d, hescape⟩ <;> rw [hescape] at h
    · rcases quote_in_concat h with ⟨-, rfl⟩ | ⟨q', hs⟩
      · exact absurd rfl hq
      · exact ih hs
    · rcases quote_in_concat h with ⟨rfl, -⟩ | ⟨q', hs⟩
      · have heven := pending_escape s
        rw [pending_concat_backslash]
        omega
      · rcases quote_in_concat hs with ⟨-, hd⟩ | ⟨q'', hs⟩
        · exact absurd hd (by decide)
        · exact ih hs

/-- The first quote of the text behind an even number of backslashes comes right after `body`. -/
structure ClosedAfter (body text : Text) : Prop where
  quote : body ++ ['"'] <+: text
  even : pending body % 2 = 0
  first : ∀ p q, body = p ++ '"' :: q → pending p % 2 = 1

theorem closedAfter_escape (s after : Text) :
    ClosedAfter (escape s) (escape s ++ '"' :: after) where
  quote := ⟨after, List.append_assoc ..⟩
  even := pending_escape s
  first _ _ := pending_of_escape_eq

/-- Every byte as the character of that number. -/
def ofBytes (bytes : List UInt8) : Text :=
  bytes.map Char.ofUInt8

def toBytes (t : Text) : List UInt8 :=
  t.map Char.toUInt8

/-- A quote, a backslash and a line feed get a backslash, whatever the bytes around them mean. -/
def escapeByte (b : UInt8) : List UInt8 :=
  if b = 0x22 then [0x5c, 0x22] else if b = 0x5c then [0x5c, 0x5c]
  else if b = 0x0a then [0x5c, 0x6e] else [b]

def escapeBytes (bytes : List UInt8) : List UInt8 :=
  bytes.flatMap escapeByte

def readQuotedBytes (bytes : List UInt8) : Option (List UInt8 × List UInt8) :=
  (readQuoted (ofBytes bytes)).map fun p => (toBytes p.1, toBytes p.2)

theorem toUInt8_ofUInt8 (b : UInt8) : (Char.ofUInt8 b).toUInt8 = b :=
  UInt8.toUInt8_toUInt32 b

theorem toBytes_ofBytes (bytes : List UInt8) : toBytes (ofBytes bytes) = bytes := by
  simp [toBytes, ofBytes, Function.comp_def, toUInt8_ofUInt8]

theorem ofUInt8_injective {b c : UInt8} (h : Char.ofUInt8 b = Char.ofUInt8 c) : b = c := by
  rw [← toUInt8_ofUInt8 b, h, toUInt8_ofUInt8]

theorem ofBytes_escapeByte (b : UInt8) : ofBytes (escapeByte b) = escape [Char.ofUInt8 b] := by
  by_cases hq : b = 0x22
  · subst hq
    rfl
  by_cases hb : b = 0x5c
  · subst hb
    rfl
  by_cases hn : b = 0x0a
  · subst hn
    rfl
  have hplain : ¬ Marked (Char.ofUInt8 b) := not_marked_iff.2
    ⟨fun h => hq (ofUInt8_injective h), fun h => hb (ofUInt8_injective h),
      fun h => hn (ofUInt8_injective h)⟩
  rw [escape_cons_of_not_marked hplain, escapeByte, if_neg hq, if_neg hb, if_neg hn]
  rfl

theorem ofBytes_escapeBytes (bytes : List UInt8) :
    ofBytes (escapeBytes bytes) = escape (ofBytes bytes) := by
  induction bytes with
  | nil => rfl
  | cons b bytes ih =>
    calc ofBytes (escapeBytes (b :: bytes))
        = ofBytes (escapeByte b) ++ ofBytes (escapeBytes bytes) := List.map_append
      _ = escape [Char.ofUInt8 b] ++ escape (ofBytes bytes) := by rw [ofBytes_escapeByte, ih]
      _ = escape (ofBytes (b :: bytes)) := (escape_append ..).symm

theorem readQuotedBytes_escapeBytes (bytes after : List UInt8) :
    readQuotedBytes (escapeBytes bytes ++ 0x22 :: after) = some (bytes, after) := by
  have hread : readQuoted (ofBytes (escapeBytes bytes ++ 0x22 :: after)) =
      some (ofBytes bytes, ofBytes after) := by
    rw [readQuoted_eq_some_iff, ← ofBytes_escapeBytes]
    exact List.map_append
  rw [readQuotedBytes, hread, Option.map_some, toBytes_ofBytes, toBytes_ofBytes]

theorem escapeBytes_injective {bytes bytes' : List UInt8}
    (h : escapeBytes bytes = escapeBytes bytes') : bytes = bytes' := by
  have hread := readQuotedBytes_escapeBytes bytes []
  rw [h, readQuotedBytes_escapeBytes] at hread
  exact (Prod.mk.inj (Option.some.inj hread)).1.symm

theorem newline_not_mem_escapeBytes (bytes : List UInt8) : 0x0a ∉ escapeBytes bytes := by
  intro hmem
  have hnewline : '\n' ∈ ofBytes (escapeBytes bytes) := List.mem_map_of_mem hmem
  rw [ofBytes_escapeBytes] at hnewline
  exact newline_not_mem_escape _ hnewline

/-- Only a character of one byte has a small one. -/
theorem eq_ofUInt8_of_mem_utf8EncodeChar {c : Char} {b : UInt8}
    (hmem : b ∈ String.utf8EncodeChar c) (hb : b < 0x80) : c = Char.ofUInt8 b := by
  have hsmall : b.toNat < 128 := hb
  rw [String.utf8EncodeChar.eq_1] at hmem
  by_cases hone : c.val.toNat ≤ 127
  · rw [if_pos hone, List.mem_singleton] at hmem
    have hvalue : b.toNat = c.val.toNat := by
      rw [hmem, UInt8.toNat_ofNat']
      omega
    exact Char.ext (UInt32.toNat_inj.1 hvalue.symm)
  · refine absurd hsmall ?_
    rw [if_neg hone] at hmem
    split_ifs at hmem <;>
      simp only [List.mem_cons, List.not_mem_nil, or_false, ← UInt8.toNat_inj,
        UInt8.toNat_ofNat'] at hmem <;>
      omega

theorem escapeBytes_of_forall {bytes : List UInt8} (h : ∀ b ∈ bytes, escapeByte b = [b]) :
    escapeBytes bytes = bytes := by
  induction bytes with
  | nil => rfl
  | cons b bytes ih =>
    rw [List.forall_mem_cons] at h
    rw [escapeBytes, List.flatMap_cons, h.1, ← escapeBytes, ih h.2]
    rfl

theorem encode_escape_singleton (c : Char) :
    encode (escape [c]) = escapeBytes (String.utf8EncodeChar c) := by
  by_cases hc : Marked c
  · rcases hc with rfl | rfl | rfl <;> rfl
  · rw [escape_cons_of_not_marked hc]
    have hbyte : ∀ b ∈ String.utf8EncodeChar c, escapeByte b = [b] := by
      intro b hmem
      have hne (d : UInt8) (hd : d < 0x80) (hmarked : Marked (Char.ofUInt8 d)) : b ≠ d := by
        rintro rfl
        exact hc (eq_ofUInt8_of_mem_utf8EncodeChar hmem hd ▸ hmarked)
      rw [escapeByte, if_neg (hne 0x22 (by decide) (.inl rfl)),
        if_neg (hne 0x5c (by decide) (.inr (.inl rfl))),
        if_neg (hne 0x0a (by decide) (.inr (.inr rfl)))]
    rw [escapeBytes_of_forall hbyte]
    exact List.append_nil _

/-- The bytes of an escaped text are the escaped bytes of the text. -/
theorem encode_escape (t : Text) : encode (escape t) = escapeBytes (encode t) := by
  induction t with
  | nil => rfl
  | cons c t ih =>
    calc encode (escape (c :: t))
        = encode (escape [c]) ++ encode (escape t) := by
          rw [← encode_append, ← escape_append]
          rfl
      _ = escapeBytes (String.utf8EncodeChar c) ++ escapeBytes (encode t) := by
          rw [encode_escape_singleton, ih]
      _ = escapeBytes (encode (c :: t)) := List.flatMap_append.symm

theorem quoted_append (s : String) (after : Text) :
    quoted s ++ after = '"' :: (escape s.toList ++ '"' :: after) := by
  simp [quoted]

end GenericIR.Text

namespace GenericIR

/-- A quoted attribute value and a quoted file name are read as they are, from behind their opening
quote, whatever follows. -/
theorem Attr.readQuoted_print (value : String) (after : Text) :
    ∃ t, (Attr.string value).print ++ after = '"' :: t ∧
      Text.readQuoted t = some (value.toList, after) :=
  ⟨_, Text.quoted_append value after, Text.readQuoted_escape _ _⟩

theorem Span.readQuoted_print {options : PrintOptions} {s : Span} (hwanted : options.locations = true)
    (hknown : s.isUnknown = false) (after : Text) :
    ∃ t, s.print options ++ after = " loc(\"".toList ++ t ∧
      Text.readQuoted t = some (s.file.toList, ':' :: Decimal.digits s.start.row.toNat ++
        ':' :: Decimal.digits s.start.column.toNat ++ ')' :: after) := by
  refine ⟨_, ?_, Text.readQuoted_escape _ _⟩
  rw [Span.print, hwanted, hknown]
  simp [Text.surround, Text.quoted]

/-- Quoted text is read back up to its own closing quote, as characters and as bytes. -/
theorem Text.quotation_decodes :
    (∀ t s after : Text, readQuoted t = some (s, after) ↔ t = escape s ++ '"' :: after) ∧
    (∀ s after : Text, ClosedAfter (escape s) (escape s ++ '"' :: after)) ∧
    (∀ bytes after : List UInt8,
      readQuotedBytes (escapeBytes bytes ++ 0x22 :: after) = some (bytes, after)) ∧
    (∀ t : Text, encode (escape t) = escapeBytes (encode t)) ∧
    Function.Injective escape ∧ Function.Injective escapeBytes ∧
    (∀ t : Text, '\n' ∉ escape t) ∧ (∀ bytes : List UInt8, 0x0a ∉ escapeBytes bytes) ∧
    (∀ (value : String) (after : Text), ∃ t, (Attr.string value).print ++ after = '"' :: t ∧
      readQuoted t = some (value.toList, after)) ∧
    ∀ (options : PrintOptions) (s : Span) (after : Text), options.locations = true →
      s.isUnknown = false → ∃ t, s.print options ++ after = " loc(\"".toList ++ t ∧
        readQuoted t = some (s.file.toList, ':' :: Decimal.digits s.start.row.toNat ++
          ':' :: Decimal.digits s.start.column.toNat ++ ')' :: after) :=
  ⟨fun _ _ _ => readQuoted_eq_some_iff, closedAfter_escape, readQuotedBytes_escapeBytes,
    encode_escape, fun _ _ => escape_injective, fun _ _ => escapeBytes_injective,
    newline_not_mem_escape, newline_not_mem_escapeBytes, Attr.readQuoted_print,
    fun _ _ after hwanted hknown => Span.readQuoted_print hwanted hknown after⟩

end GenericIR
