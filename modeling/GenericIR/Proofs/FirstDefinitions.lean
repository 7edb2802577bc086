import Mathlib.Data.Finset.Card
import GenericIR.Proofs.KeyOrder
import GenericIR.Proofs.Sites
import GenericIR.Proofs.SymbolTable

/-! What the collected symbols are, said of the module alone. The table has each symbol once, with
the operation that comes first among those that define it: an operation comes before those inside
it, and otherwise regions, blocks and operations come as they stand. Operations that define no
symbol leave no trace in the table. -/
namespace GenericIR

open Log

/-- The operation defines the symbol. -/
def Site.Defines (s : Site) (name : String) : Prop :=
  s.op.findAttr symbolKey = some (.string name)

section Ordered

variable {α : Type} {R : α → α → Prop} (asymm : ∀ {a b}, R a b → ¬ R b a) {l : List α} {b : α}
  (ordered : l.Pairwise R)

include asymm ordered

theorem head?_eq_some_iff_first : l.head? = some b ↔ b ∈ l ∧ ∀ c ∈ l, c = b ∨ R b c := by
  cases ordered with
  | nil => simp
  | @cons a l ha _ =>
    rw [List.head?_cons, Option.some.injEq]
    constructor
    · rintro rfl
      exact ⟨List.mem_cons_self, List.forall_mem_cons.2 ⟨.inl rfl, fun c hc => .inr (ha c hc)⟩⟩
    · rintro ⟨hb, hfirst⟩
      rcases List.mem_cons.1 hb with rfl | hb
      · rfl
      · exact (hfirst a List.mem_cons_self).elim id fun h => absurd h (asymm (ha b hb))

theorem mem_tail_iff_after : b ∈ l.tail ↔ b ∈ l ∧ ∃ a ∈ l, R a b := by
  cases ordered with
  | nil => simp
  | @cons a l ha hl =>
    rw [List.tail_cons]
    constructor
    · exact fun hb => ⟨List.mem_cons_of_mem a hb, a, List.mem_cons_self, ha b hb⟩
    · rintro ⟨hb, c, hc, hcb⟩
      rcases List.mem_cons.1 hb with rfl | hb
      · rcases List.mem_cons.1 hc with rfl | hc
        · exact absurd hcb (asymm hcb)
        · exact absurd hcb (asymm (ha c hc))
      · exact hb

theorem getElem?_one_eq_some_iff_second :
    l[1]? = some b ↔ b ∈ l ∧ ∃ a ∈ l, R a b ∧ ∀ c ∈ l, c = a ∨ c = b ∨ R b c := by
  cases ordered with
  | nil => simp
  | @cons a l ha hl =>
    have hsecond := head?_eq_some_iff_first asymm hl (b := b)
    rw [List.getElem?_cons_succ, ← List.head?_eq_getElem?, hsecond]
    constructor
    · rintro ⟨hb, hfirst⟩
      refine ⟨List.mem_cons_of_mem a hb, a, List.mem_cons_self, ha b hb, ?_⟩
      exact List.forall_mem_cons.2 ⟨.inl rfl, fun c hc => .inr (hfirst c hc)⟩
    · rintro ⟨hb, c, hc, hcb, hrest⟩
      -- What comes before `b` is the head.
      obtain rfl : c = a := by
        rcases List.mem_cons.1 hc with rfl | hc
        · rfl
        rcases hrest a List.mem_cons_self with rfl | rfl | hba
        · rfl
        · exact absurd hcb (asymm (ha c hc))
        · rcases List.mem_cons.1 hb with rfl | hb
          · exact absurd hba (asymm hba)
          · exact absurd hba (asymm (ha b hb))
      have hne (d : α) (hd : d ∈ l) : d ≠ c := by
        rintro rfl
        exact absurd (ha d hd) (asymm (ha d hd))
      rcases List.mem_cons.1 hb with rfl | hb
      · exact absurd hcb (asymm hcb)
      · refine ⟨hb, fun d hd => ?_⟩
        exact (hrest d (List.mem_cons_of_mem c hd)).resolve_left (hne d hd)

end Ordered

namespace Module

theorem collectRow_filter (table : SymbolTable Definition) (row : List (Operation × ℕ)) :
    (collectRow table (row.filter fun p => p.1.symbol?.isSome)).value =
      (collectRow table row).value := by
  induction row generalizing table with
  | nil => rfl
  | cons p row ih =>
    obtain ⟨op, position⟩ := p
    rw [collectRow_cons, Noted.value_bind, ← ih]
    cases h : op.symbol? with
    | none => rw [(collectStep_of_none h table position).1, List.filter_cons_of_neg (by simp [h])]
    | some name =>
      rw [List.filter_cons_of_pos (by simp [h]), collectRow_cons, Noted.value_bind]

variable {m : Module} {name : String} {d e : Definition} {s t : Site}

/-- The definition is the operation of that site, and its position counts the sites before. -/
def DefinedAt (m : Module) (d : Definition) (s : Site) : Prop :=
  (m.sites outerFirst)[d.position]? = some s ∧ s.op = d.operation

theorem DefinedAt.mem_sites (h : m.DefinedAt d s) : s ∈ m.sites outerFirst :=
  List.mem_of_getElem? h.1

theorem exists_definedAt (hs : s ∈ m.sites outerFirst) : ∃ d, m.DefinedAt d s := by
  obtain ⟨i, hi⟩ := List.mem_iff_getElem?.1 hs
  exact ⟨⟨i, s.op⟩, hi, rfl⟩

theorem DefinedAt.before (hd : m.DefinedAt d s) (he : m.DefinedAt e t)
    (h : d.position < e.position) : s.path.Before t.path := by
  obtain ⟨hi, rfl⟩ := List.getElem?_eq_some_iff.1 hd.1
  obtain ⟨hj, rfl⟩ := List.getElem?_eq_some_iff.1 he.1
  exact List.pairwise_iff_getElem.1 m.pairwise_sites _ _ hi hj h

theorem DefinedAt.eq_iff (hd : m.DefinedAt d s) (he : m.DefinedAt e t) : d = e ↔ s = t := by
  constructor
  · rintro rfl
    exact Option.some.inj (hd.1.symm.trans he.1)
  · rintro rfl
    have hposition : d.position = e.position := by
      rcases Nat.lt_trichotomy d.position e.position with h | h | h
      · exact absurd (hd.before he h) (hd.before he h).asymm
      · exact h
      · exact absurd (he.before hd h) (he.before hd h).asymm
    cases d
    cases e
    rw [Definition.mk.injEq]
    exact ⟨hposition, hd.2.symm.trans he.2⟩

/-- Positions are in the order of the paths. -/
theorem DefinedAt.lt_iff (hd : m.DefinedAt d s) (he : m.DefinedAt e t) :
    d.position < e.position ↔ s.path.Before t.path := by
  refine ⟨hd.before he, fun h => ?_⟩
  rcases Nat.lt_trichotomy d.position e.position with hlt | heq | hlt
  · exact hlt
  · have hsame : s = t := by
      have hd' := hd.1
      rw [heq, he.1] at hd'
      exact (Option.some.inj hd').symm
    rw [hsame] at h
    exact absurd h h.asymm
  · exact absurd (he.before hd hlt) h.asymm

/-- Definitions are the sites that define the symbol. -/
theorem DefinedAt.mem_definitionsOf_iff (h : m.DefinedAt d s) :
    d ∈ m.definitionsOf name ↔ s.Defines name := by
  rw [mem_definitionsOf, Operation.symbol?_eq_some_iff, ← h.2, ← m.map_op_sites,
    List.getElem?_map, h.1]
  exact and_iff_right rfl

theorem exists_definedAt_of_mem (h : d ∈ m.definitionsOf name) : ∃ s, m.DefinedAt d s := by
  obtain ⟨hop, -⟩ := mem_definitionsOf.1 h
  rwa [← m.map_op_sites, List.getElem?_map, Option.map_eq_some_iff] at hop

theorem mem_definitionsOf_iff_site :
    d ∈ m.definitionsOf name ↔ ∃ s, m.DefinedAt d s ∧ s.Defines name := by
  constructor
  · intro h
    obtain ⟨s, hs⟩ := exists_definedAt_of_mem h
    exact ⟨s, hs, hs.mem_definitionsOf_iff.1 h⟩
  · rintro ⟨s, hs, hname⟩
    exact hs.mem_definitionsOf_iff.2 hname

/-- What holds of a definition is said of its site. -/
theorem mem_definitionsOf_and_iff {P : Prop} {Q : Site → Prop}
    (hPQ : ∀ s, m.DefinedAt d s → (P ↔ Q s)) :
    d ∈ m.definitionsOf name ∧ P ↔ ∃ s, m.DefinedAt d s ∧ s.Defines name ∧ Q s := by
  rw [mem_definitionsOf_iff_site, ← exists_and_right]
  refine exists_congr fun s => ?_
  rw [and_assoc]
  exact and_congr_right fun hs => and_congr_right fun _ => hPQ s hs

section Transport

variable {P : Definition → Prop} {Q : Site → Prop} (hPQ : ∀ d s, m.DefinedAt d s → (P d ↔ Q s))

include hPQ

theorem forall_definitionsOf_iff :
    (∀ d ∈ m.definitionsOf name, P d) ↔ ∀ s ∈ m.sites outerFirst, s.Defines name → Q s := by
  constructor
  · intro h s hs hname
    obtain ⟨d, hd⟩ := exists_definedAt hs
    exact (hPQ d s hd).1 (h d (hd.mem_definitionsOf_iff.2 hname))
  · intro h d hd
    obtain ⟨s, hs, hname⟩ := mem_definitionsOf_iff_site.1 hd
    exact (hPQ d s hs).2 (h s hs.mem_sites hname)

theorem exists_definitionsOf_iff :
    (∃ d ∈ m.definitionsOf name, P d) ↔ ∃ s ∈ m.sites outerFirst, s.Defines name ∧ Q s := by
  constructor
  · rintro ⟨d, hd, hP⟩
    obtain ⟨s, hs, hname⟩ := mem_definitionsOf_iff_site.1 hd
    exact ⟨s, hs.mem_sites, hname, (hPQ d s hs).1 hP⟩
  · rintro ⟨s, hs, hname, hQ⟩
    obtain ⟨d, hd⟩ := exists_definedAt hs
    exact ⟨d, hd.mem_definitionsOf_iff.2 hname, (hPQ d s hd).2 hQ⟩

end Transport

theorem pairwise_definitionsOf (m : Module) (name : String) :
    (m.definitionsOf name).Pairwise fun d e => d.position < e.position :=
  List.pairwise_map.2 ((pairwise_zipIdx m.walk).filter _)

theorem lookup_eq_none_iff_sites :
    m.collectSymbols.value.lookup name = none ↔ ∀ s ∈ m.sites outerFirst, ¬ s.Defines name := by
  rw [lookup_collectSymbols, List.head?_eq_none_iff, List.eq_nil_iff_forall_not_mem,
    ← forall_definitionsOf_iff (P := fun _ => False) fun _ _ _ => Iff.rfl]

/-- A symbol that is found is the one of a site, before all other sites that define it. -/
theorem lookup_eq_some_iff_site :
    m.collectSymbols.value.lookup name = some d ↔
      ∃ s, m.DefinedAt d s ∧ s.Defines name ∧
        ∀ t ∈ m.sites outerFirst, t.Defines name → t = s ∨ s.path.Before t.path := by
  rw [lookup_collectSymbols, head?_eq_some_iff_first Nat.lt_asymm (m.pairwise_definitionsOf name)]
  refine mem_definitionsOf_and_iff fun s hs => forall_definitionsOf_iff fun e t ht => ?_
  exact or_congr (ht.eq_iff hs) (hs.lt_iff ht)

/-- The table has as many entries as there are symbols in the module. -/
theorem size_collectSymbols (m : Module) :
    m.collectSymbols.value.size = (m.walk.filterMap Operation.symbol?).toFinset.card := by
  have hkeys := m.collectSymbols.value.definitions.pairwise_keys
  have hnodup : m.collectSymbols.value.definitions.keys.Nodup := hkeys.imp ne_of_lt
  rw [SymbolTable.size, Dict.size, ← List.toFinset_card_of_nodup hnodup]
  congr 1
  ext name
  rw [List.mem_toFinset, List.mem_toFinset, Dict.mem_keys_iff, ← SymbolTable.lookup,
    Option.isSome_iff_ne_none, Ne, lookup_eq_none_iff_sites, List.mem_filterMap, ← m.map_op_sites]
  simp [Site.Defines, Operation.symbol?_eq_some_iff]

/-- The first definition of each symbol is found, in the order of the paths, and nothing else. -/
theorem symbols_first_in_order (m : Module) :
    (m.sites outerFirst).map Site.op = m.walk ∧
    (m.sites outerFirst).Pairwise (fun s t => s.path.Before t.path) ∧
    (∀ name, m.collectSymbols.value.lookup name = none ↔
      ∀ s ∈ m.sites outerFirst, ¬ s.Defines name) ∧
    (∀ name d, m.collectSymbols.value.lookup name = some d ↔
      ∃ s, (m.sites outerFirst)[d.position]? = some s ∧ s.op = d.operation ∧ s.Defines name ∧
        ∀ t ∈ m.sites outerFirst, t.Defines name → t = s ∨ s.path.Before t.path) ∧
    m.collectSymbols.value.size = (m.walk.filterMap Operation.symbol?).toFinset.card ∧
    ((m.collectSymbols.value.toList.map Prod.fst).Pairwise
      fun k l => Text.encode k.toList < Text.encode l.toList) ∧
    (∀ name d, (name, d) ∈ m.collectSymbols.value.toList ↔
      m.collectSymbols.value.lookup name = some d) ∧
    (collectRow ∅ (m.positioned.filter fun p => p.1.symbol?.isSome)).value =
      m.collectSymbols.value := by
  refine ⟨m.map_op_sites, m.pairwise_sites, fun _ => lookup_eq_none_iff_sites, fun name d => ?_,
    m.size_collectSymbols, Dict.pairwise_toSortedList _, fun _ _ => Dict.mem_toSortedList, ?_⟩
  · simp only [lookup_eq_some_iff_site, DefinedAt, and_assoc]
  · rw [collectRow_filter, m.collectSymbols_eq.1]

end Module

end GenericIR
