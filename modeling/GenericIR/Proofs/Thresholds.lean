import Mathlib.Data.Fintype.EquivFin
import Mathlib.Order.Lattice
import GenericIR.Log.Logger

/-! Thresholds of modules. Levels are linearly ordered. The lowest threshold of a filter is the
threshold of some module, since there are more names than overrides. -/
namespace GenericIR

theorem Dict.exists_find?_eq_none {α : Type} (d : Dict α) : ∃ key, d.find? key = none := by
  obtain ⟨key, hkey⟩ := Infinite.exists_notMem_finset (d.entries.map Prod.fst).toFinset
  refine ⟨key, ?_⟩
  by_contra hsome
  obtain ⟨a, ha⟩ := Dict.isSome_find?.1 (Option.isSome_iff_ne_none.2 hsome)
  exact hkey (List.mem_toFinset.2 (List.mem_map_of_mem ha))

theorem Dict.mem_values {α : Type} {d : Dict α} {a : α} :
    a ∈ d.values ↔ ∃ key, d.find? key = some a := by
  simp only [values, List.mem_map, Prod.exists, exists_eq_right, mem_toSortedList]

namespace Log

namespace Level

theorem rank_inj {a b : Level} (h : a.rank = b.rank) : a = b := by
  cases a <;> cases b <;> first | rfl | cases h

instance : LinearOrder Level where
  le_refl a := Nat.le_refl a.rank
  le_trans _ _ _ := Nat.le_trans
  lt_iff_le_not_ge a b := Nat.lt_iff_le_and_not_ge
  le_antisymm _ _ h h' := rank_inj (Nat.le_antisymm h h')
  le_total a b := Nat.le_total a.rank b.rank
  toDecidableLE := inferInstance
  toDecidableEq := inferInstance
  toDecidableLT := inferInstance
  min_def a b := by
    change (if b.rank < a.rank then b else a) = if a.rank ≤ b.rank then a else b
    split <;> split <;> first | rfl | omega

end Level

namespace Filter

variable {f : Filter} {level : Level}

theorem threshold_of_find? {module : String} (h : f.overrides.find? module = some level) :
    f.threshold module = level := by
  rw [threshold, h]
  rfl

theorem threshold_of_find?_eq_none {module : String} (h : f.overrides.find? module = none) :
    f.threshold module = f.fallback := by
  rw [threshold, h]
  rfl

theorem allows_iff {module : String} :
    f.allows level module = true ↔ f.threshold module ≤ level :=
  decide_eq_true_iff

theorem foldl_min_le_iff {fallback : Level} {ls : List Level} :
    ls.foldl min fallback ≤ level ↔ fallback ≤ level ∨ ∃ l ∈ ls, l ≤ level := by
  induction ls generalizing fallback with
  | nil => simp
  | cons l ls ih =>
    rw [List.foldl_cons, ih]
    simp [or_assoc]

theorem minLevel_le_fallback (f : Filter) : f.minLevel ≤ f.fallback :=
  foldl_min_le_iff.2 (.inl le_rfl)

/-- Some module has the lowest threshold: one with an override, or any of those without. -/
theorem minLevel_le_iff : f.minLevel ≤ level ↔ ∃ module, f.threshold module ≤ level := by
  rw [minLevel, foldl_min_le_iff]
  constructor
  · rintro (hfallback | ⟨l, hl, hle⟩)
    · obtain ⟨module, hmodule⟩ := f.overrides.exists_find?_eq_none
      exact ⟨module, by rwa [threshold_of_find?_eq_none hmodule]⟩
    · obtain ⟨module, hmodule⟩ := Dict.mem_values.1 hl
      exact ⟨module, by rwa [threshold_of_find? hmodule]⟩
  · rintro ⟨module, hle⟩
    cases h : f.overrides.find? module with
    | none => exact .inl (by rwa [threshold_of_find?_eq_none h] at hle)
    | some l => exact .inr ⟨l, Dict.mem_values.2 ⟨module, h⟩, by rwa [threshold_of_find? h] at hle⟩

theorem minLevel_le_threshold (f : Filter) (module : String) : f.minLevel ≤ f.threshold module :=
  minLevel_le_iff.2 ⟨module, le_rfl⟩

end Filter

namespace Logger

variable {σ : Type} {l : Logger σ} {level : Level} {module : String}

theorem shouldLog_iff :
    l.shouldLog level module = true ↔ l.floor ≤ level ∧ l.filter.threshold module ≤ level := by
  rw [shouldLog, Bool.and_eq_true, decide_eq_true_iff, Filter.allows_iff]

/-- Rules or none, a new configuration puts the floor at the lowest threshold. -/
theorem floor_configured (config : Config) (sinks : List σ) :
    (configured config sinks).floor = (configured config sinks).filter.minLevel := by
  unfold configured
  split <;> rfl

/-- A floor at the lowest threshold lets through what the filter lets through. -/
theorem shouldLog_of_floor (h : l.floor = l.filter.minLevel) :
    l.shouldLog level module = true ↔ l.filter.threshold module ≤ level := by
  rw [shouldLog_iff, h, and_iff_right_iff_imp]
  exact (l.filter.minLevel_le_threshold module).trans

theorem shouldLog_eq_allows (h : l.floor = l.filter.minLevel) :
    l.shouldLog level module = l.filter.allows level module :=
  Bool.eq_iff_iff.2 ((shouldLog_of_floor h).trans Filter.allows_iff.symm)

/-- A floor at the lowest threshold is no lower than it has to be. -/
theorem exists_shouldLog_iff (h : l.floor = l.filter.minLevel) :
    (∃ module, l.shouldLog level module = true) ↔ l.floor ≤ level := by
  rw [h, Filter.minLevel_le_iff]
  exact exists_congr fun _ => shouldLog_of_floor h

end Logger

end Log

end GenericIR
