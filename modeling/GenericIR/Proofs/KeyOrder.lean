import Mathlib.Data.List.Sort
import Mathlib.Data.String.Basic
import Mathlib.Tactic.SplitIfs
import GenericIR.Attr.Printer

/-! Keys in order. The UTF-8 bytes of two texts are ordered as their characters are, so that the
listing of a dictionary goes up by the bytes of its keys. It holds, under each key that was ever
inserted, the value that was inserted last, and nothing else tells two dictionaries apart. -/
namespace GenericIR

namespace Text

/-- Of two characters the smaller one has the smaller bytes, whatever follows them. -/
theorem utf8EncodeChar_append_lt {c d : Char} (h : c < d) (x y : List UInt8) :
    String.utf8EncodeChar c ++ x < String.utf8EncodeChar d ++ y := by
  have hval : c.val.toNat < d.val.toNat := h
  have hbound : d.val.toNat < 0x110000 := by
    have hvalid := d.valid
    simp only [UInt32.isValidChar, Nat.isValidChar] at hvalid
    omega
  unfold String.utf8EncodeChar
  dsimp only
  generalize c.val.toNat = v at hval ⊢
  generalize d.val.toNat = w at hval hbound ⊢
  -- A longer code begins with a greater byte; codes of one length differ where the numbers do.
  split_ifs <;>
    simp only [List.cons_append, List.nil_append, List.cons_lt_cons_iff, UInt8.lt_iff_toNat_lt,
      ← UInt8.toNat_inj, UInt8.toNat_ofNat'] <;>
    simp (disch := omega) only [Nat.mod_eq_of_lt] <;>
    omega

theorem encode_cons (c : Char) (t : Text) : encode (c :: t) = String.utf8EncodeChar c ++ encode t :=
  rfl

theorem encode_lt_encode {s t : Text} (h : s < t) : encode s < encode t := by
  induction s generalizing t with
  | nil =>
    cases t with
    | nil => exact absurd h (List.not_lt_nil _)
    | cons d t =>
      obtain ⟨b, bs, hbytes⟩ := List.exists_cons_of_ne_nil (String.utf8EncodeChar_ne_nil (c := d))
      rw [encode_cons, hbytes]
      exact List.nil_lt_cons _ _
  | cons c s ih =>
    cases t with
    | nil => exact absurd h (List.not_lt_nil _)
    | cons d t =>
      rw [encode_cons, encode_cons]
      rcases List.cons_lt_cons_iff.1 h with hcd | ⟨rfl, hst⟩
      · exact utf8EncodeChar_append_lt hcd _ _
      · exact List.append_left_lt (ih hst)

theorem encode_lt_of_lt {k l : String} (h : k < l) : encode k.toList < encode l.toList :=
  encode_lt_encode (String.lt_iff_toList_lt.1 h)

end Text

namespace Dict

variable {α : Type} {d e : Dict α}

/-- The value was inserted under the key, and none after it was. -/
def LastInserted (d : Dict α) (key : String) (a : α) : Prop :=
  ∃ older newer, d.entries = older ++ (key, a) :: newer ∧ key ∉ newer.map Prod.fst

theorem find?_eq_some_iff {key : String} {a : α} : d.find? key = some a ↔ d.LastInserted key a := by
  rw [find?, List.findSomeRev?_eq_findSome?_reverse, List.findSome?_eq_some_iff]
  constructor
  · rintro ⟨newer, ⟨k, b⟩, older, hentries, hfound, hnewer⟩
    obtain ⟨rfl, rfl⟩ : k = key ∧ b = a := by simpa using hfound
    refine ⟨older.reverse, newer.reverse, by simpa using congrArg List.reverse hentries, ?_⟩
    intro hmem
    obtain ⟨p, hp, hkey⟩ := List.mem_map.1 hmem
    simpa [hkey] using hnewer p (List.mem_reverse.1 hp)
  · rintro ⟨older, newer, hentries, hnewer⟩
    refine ⟨newer.reverse, (key, a), older.reverse, by simp [hentries], by simp, ?_⟩
    intro p hp
    have hne : p.1 ≠ key := fun h => hnewer (h ▸ List.mem_map_of_mem (List.mem_reverse.1 hp))
    simp [hne]

theorem pairwise_insertKey {key : String} {ks : List String} (h : ks.Pairwise (· < ·)) :
    (insertKey key ks).Pairwise (· < ·) := by
  induction ks with
  | nil => exact List.pairwise_singleton _ _
  | cons k ks ih =>
    obtain ⟨hk, hks⟩ := List.pairwise_cons.1 h
    unfold insertKey
    split
    · rename_i hlt
      refine List.pairwise_cons.2 ⟨fun l hl => ?_, h⟩
      rcases List.mem_cons.1 hl with rfl | hl
      · exact hlt
      · exact lt_trans hlt (hk l hl)
    · split
      · exact h
      · rename_i hnot hne
        have hlt : k < key := lt_of_le_of_ne (not_lt.1 hnot) (Ne.symm hne)
        refine List.pairwise_cons.2 ⟨fun l hl => ?_, ih hks⟩
        rcases mem_insertKey.1 hl with rfl | hl
        · exact hlt
        · exact hk l hl

theorem pairwise_keys (d : Dict α) : d.keys.Pairwise (· < ·) := by
  unfold keys
  induction d.entries with
  | nil => exact .nil
  | cons e es ih => exact pairwise_insertKey ih

/-- Dictionaries with the same last values are listed alike. -/
theorem toSortedList_congr (h : ∀ key, d.find? key = e.find? key) :
    d.toSortedList = e.toSortedList := by
  have hkeys : d.keys = e.keys := by
    apply d.pairwise_keys.eq_of_mem_iff e.pairwise_keys
    intro key
    rw [mem_keys_iff, mem_keys_iff, h]
  simp only [toSortedList, hkeys, h]

theorem map_fst_toSortedList (d : Dict α) : d.toSortedList.map Prod.fst = d.keys := by
  unfold toSortedList
  rw [List.map_filterMap]
  conv_rhs => rw [← List.filterMap_some (l := d.keys)]
  apply List.filterMap_congr
  intro key hkey
  obtain ⟨a, ha⟩ := Option.isSome_iff_exists.1 (mem_keys_iff.1 hkey)
  rw [ha]
  rfl

/-- The listing goes up, by the bytes of the keys. -/
theorem pairwise_toSortedList (d : Dict α) :
    (d.toSortedList.map Prod.fst).Pairwise fun k l => Text.encode k.toList < Text.encode l.toList := by
  rw [map_fst_toSortedList]
  exact d.pairwise_keys.imp Text.encode_lt_of_lt

theorem contains_iff {key : String} : d.contains key = true ↔ key ∈ d.entries.map Prod.fst := by
  rw [contains, isSome_find?]
  simp

theorem isEmpty_iff : d.isEmpty = true ↔ ∀ key, d.find? key = none := by
  rw [isEmpty, List.isEmpty_iff]
  constructor
  · intro h key
    rw [find?, h]
    rfl
  · intro h
    rw [List.eq_nil_iff_forall_not_mem]
    rintro ⟨key, a⟩ hmem
    have hsome := isSome_find?.2 ⟨a, hmem⟩
    rw [h key] at hsome
    exact absurd hsome Bool.false_ne_true

end Dict

namespace AttrDict

def printPair (p : String × Attr) : Text :=
  p.1.toList ++ " = ".toList ++ p.2.print

/-- No key of the dictionary goes without its value. -/
theorem printEntries_keys (attrs : AttrDict) :
    attrs.printEntries attrs.keys = Text.commaSeparated (attrs.toSortedList.map printPair) := by
  unfold printEntries Dict.toSortedList
  rw [List.map_filterMap, ← List.filterMap_eq_map]
  apply congrArg
  apply List.filterMap_congr
  intro key hkey
  obtain ⟨a, ha⟩ := Option.isSome_iff_exists.1 (Dict.mem_keys_iff.1 hkey)
  simp only [Function.comp_apply, printEntry, ha, Option.map_some, printPair]
  rfl

theorem print_congr {attrs attrs' : AttrDict} (h : ∀ key, attrs.find? key = attrs'.find? key) :
    attrs.print = attrs'.print := by
  unfold print
  rw [printEntries_keys, printEntries_keys, Dict.toSortedList_congr h, Dict.contains, Dict.contains,
    h]

/-- What a dictionary prints as, read off its insertions. -/
theorem print_eq (attrs : AttrDict) :
    attrs.print =
      if "callee" ∈ attrs.entries.map Prod.fst then
        Text.surround "<\x7b" "\x7d>" (Text.commaSeparated (attrs.toSortedList.map printPair))
      else Text.surround "\x7b" "\x7d" (Text.commaSeparated (attrs.toSortedList.map printPair)) := by
  unfold print
  rw [printEntries_keys]
  simp only [Dict.contains_iff]

end AttrDict

end GenericIR
