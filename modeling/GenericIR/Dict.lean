/-! Dictionaries with string keys. A dictionary is the history of its insertions, oldest
first: the last insertion of a key is the one that counts, and the listing by key forgets the
order in which different keys came. -/
namespace GenericIR

structure Dict (α : Type) where
  entries : List (String × α) := []
  deriving Repr

namespace Dict

variable {α : Type}

instance : EmptyCollection (Dict α) := ⟨⟨[]⟩⟩

instance : Inhabited (Dict α) := ⟨∅⟩

def ofList (entries : List (String × α)) : Dict α :=
  ⟨entries⟩

def insert (d : Dict α) (key : String) (a : α) : Dict α :=
  ⟨d.entries ++ [(key, a)]⟩

/-- Inserts, and forgets what was there under the key before. -/
def replace (d : Dict α) (key : String) (a : α) : Dict α :=
  ⟨d.entries.filter (fun e => e.1 ≠ key) ++ [(key, a)]⟩

/-- Inserts all of `later` after what is there. -/
def update (d : Dict α) (later : List (String × α)) : Dict α :=
  ⟨d.entries ++ later⟩

def find? (d : Dict α) (key : String) : Option α :=
  d.entries.findSomeRev? fun (k, a) => if k = key then some a else none

def contains (d : Dict α) (key : String) : Bool :=
  (d.find? key).isSome

def isEmpty (d : Dict α) : Bool :=
  d.entries.isEmpty

/-- Puts `key` into an increasing list of keys, once. -/
def insertKey (key : String) : List String → List String
  | [] => [key]
  | k :: ks =>
    if key < k then key :: k :: ks
    else if key = k then k :: ks
    else k :: insertKey key ks

/-- The keys in increasing order, each once. -/
def keys (d : Dict α) : List String :=
  d.entries.foldr (fun (key, _) ks => insertKey key ks) []

/-- The entries that count, in increasing order of their keys. -/
def toSortedList (d : Dict α) : List (String × α) :=
  d.keys.filterMap fun key => (d.find? key).map (key, ·)

def values (d : Dict α) : List α :=
  d.toSortedList.map Prod.snd

def size (d : Dict α) : Nat :=
  d.keys.length

@[simp] theorem find?_empty (key : String) : (∅ : Dict α).find? key = none := rfl

@[simp] theorem find?_insert (d : Dict α) (key k : String) (a : α) :
    (d.insert key a).find? k = if key = k then some a else d.find? k := by
  by_cases h : key = k <;> simp [find?, insert, List.findSomeRev?_eq_findSome?_reverse, h]

@[simp] theorem find?_replace (d : Dict α) (key k : String) (a : α) :
    (d.replace key a).find? k = if key = k then some a else d.find? k := by
  by_cases h : key = k
  · simp [find?, replace, List.findSomeRev?_eq_findSome?_reverse, h]
  · simp only [find?, replace, List.findSomeRev?_eq_findSome?_reverse, List.reverse_append,
      ← List.filter_reverse, List.reverse_singleton, List.singleton_append,
      List.findSome?_cons, h, ↓reduceIte]
    induction d.entries.reverse with
    | nil => rfl
    | cons e es ih => by_cases he : e.1 = key <;> grind

theorem find?_update (d : Dict α) (later : List (String × α)) (k : String) :
    (d.update later).find? k = ((ofList later).find? k).or (d.find? k) := by
  simp [find?, update, ofList, List.findSomeRev?_eq_findSome?_reverse, List.findSome?_append]

theorem mem_insertKey {key k : String} {ks : List String} :
    k ∈ insertKey key ks ↔ k = key ∨ k ∈ ks := by
  induction ks with
  | nil => simp [insertKey]
  | cons x xs ih =>
    simp only [insertKey]
    split
    · simp
    · split
      · simp_all
      · simp [ih]; grind

theorem mem_keys {d : Dict α} {k : String} : k ∈ d.keys ↔ ∃ a, (k, a) ∈ d.entries := by
  obtain ⟨entries⟩ := d
  induction entries with
  | nil => simp [keys]
  | cons e es ih =>
    simp only [keys, List.foldr_cons, mem_insertKey] at ih ⊢
    grind

theorem mem_entries_of_find? {d : Dict α} {key : String} {a : α} (h : d.find? key = some a) :
    (key, a) ∈ d.entries := by
  rw [find?, List.findSomeRev?_eq_findSome?_reverse] at h
  obtain ⟨⟨k, b⟩, hmem, hk⟩ := List.exists_of_findSome?_eq_some h
  obtain ⟨rfl, rfl⟩ : k = key ∧ b = a := by simpa using hk
  exact List.mem_reverse.1 hmem

theorem isSome_find? {d : Dict α} {key : String} :
    (d.find? key).isSome ↔ ∃ a, (key, a) ∈ d.entries := by
  constructor
  · intro h
    obtain ⟨a, ha⟩ := Option.isSome_iff_exists.1 h
    exact ⟨a, mem_entries_of_find? ha⟩
  · rintro ⟨a, h⟩
    simp only [find?, List.findSomeRev?_eq_findSome?_reverse, List.findSome?_isSome_iff,
      List.mem_reverse]
    exact ⟨(key, a), h, by simp⟩

theorem mem_keys_iff {d : Dict α} {k : String} : k ∈ d.keys ↔ (d.find? k).isSome := by
  rw [mem_keys, isSome_find?]

theorem mem_toSortedList {d : Dict α} {key : String} {a : α} :
    (key, a) ∈ d.toSortedList ↔ d.find? key = some a := by
  simp only [toSortedList, List.mem_filterMap, Option.map_eq_some_iff, Prod.mk.injEq]
  constructor
  · rintro ⟨k, -, b, hb, rfl, rfl⟩
    exact hb
  · intro h
    exact ⟨key, mem_keys_iff.2 (by simp [h]), a, h, rfl, rfl⟩

end Dict

end GenericIR
