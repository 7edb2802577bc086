import Mathlib.Data.List.Induction
import GenericIR.Proofs.Thresholds

/-! Thresholds over whole runs of a logger. Three commands set thresholds, and the latest of them
in a run says how the floor stands to the filter. After a configuration or a filter, or before any
of the three, the floor is the lowest threshold, so that it never hides what the filter lets
through. After a level has been set it is that level, and so is the fallback. -/
namespace GenericIR.Log

variable {σ : Type}

def Command.setsThresholds : Command σ → Bool
  | configure .. | setLevel _ | setFilter _ => true
  | _ => false

/-- The latest command of a run that sets thresholds. -/
def latestSetter? (cs : List (Command σ)) : Option (Command σ) :=
  cs.findRev? Command.setsThresholds

theorem latestSetter?_concat (cs : List (Command σ)) (c : Command σ) :
    latestSetter? (cs ++ [c]) = if c.setsThresholds then some c else latestSetter? cs := by
  simp only [latestSetter?, List.findRev?_eq_find?_reverse, List.reverse_append,
    List.reverse_singleton, List.singleton_append, List.find?_cons]
  cases c.setsThresholds <;> rfl

namespace Logger

/-- The logger after a run of commands. -/
def after (l : Logger σ) (cs : List (Command σ)) : Logger σ :=
  cs.foldl (fun l c => (l.step c).1) l

theorem after_concat (l : Logger σ) (cs : List (Command σ)) (c : Command σ) :
    l.after (cs ++ [c]) = ((l.after cs).step c).1 := by
  simp [after]

/-- How the floor stands to the filter when `latest` was the latest command to set thresholds. -/
def Tuned (l : Logger σ) (latest : Option (Command σ)) : Prop :=
  match latest with
  | some (.setLevel level) => l.floor = level ∧ l.filter.fallback = level
  | _ => l.floor = l.filter.minLevel

theorem Tuned.step {l : Logger σ} {latest : Option (Command σ)} (h : l.Tuned latest)
    (c : Command σ) : (l.step c).1.Tuned (if c.setsThresholds then some c else latest) := by
  cases c with
  | configure config sinks => exact floor_configured config sinks
  | setLevel level => exact ⟨rfl, rfl⟩
  | setFilter spec => exact rfl
  | addSink | clearSinks | log | note | flush => exact h

theorem tuned_after (cs : List (Command σ)) :
    (after {} cs : Logger σ).Tuned (latestSetter? cs) := by
  induction cs using List.reverseRecOn with
  | nil => exact rfl
  | append_singleton cs c ih =>
    rw [after_concat, latestSetter?_concat]
    exact ih.step c

section Tuned

variable {l : Logger σ} {latest : Option (Command σ)}

theorem Tuned.floor_eq (h : l.Tuned latest) (hlatest : ∀ level, latest ≠ some (.setLevel level)) :
    l.floor = l.filter.minLevel := by
  unfold Tuned at h
  split at h
  · exact absurd rfl (hlatest _)
  · exact h

theorem Tuned.floor_le_fallback (h : l.Tuned latest) : l.floor ≤ l.filter.fallback := by
  unfold Tuned at h
  split at h
  · rw [h.1, h.2]
  · exact h ▸ l.filter.minLevel_le_fallback

end Tuned

/-- The floor hides nothing that the filter lets through, and is no lower than it has to be, unless
a level was set after the last configuration and the last filter; then it cuts off all thresholds
at that level. -/
theorem after_thresholds (cs : List (Command σ)) :
    let l : Logger σ := after {} cs
    l.floor ≤ l.filter.fallback ∧
      ((∀ chosen, latestSetter? cs ≠ some (.setLevel chosen)) →
        l.floor = l.filter.minLevel ∧
        (∀ level module, l.shouldLog level module = l.filter.allows level module) ∧
        (∀ level module, l.shouldLog level module = true ↔ l.filter.threshold module ≤ level) ∧
        ∀ level, (∃ module, l.shouldLog level module = true) ↔ l.floor ≤ level) ∧
      ∀ chosen, latestSetter? cs = some (.setLevel chosen) →
        (∀ level module, l.shouldLog level module = true ↔
          max chosen (l.filter.threshold module) ≤ level) ∧
        ∀ module, l.filter.overrides.find? module = none → l.filter.threshold module = chosen := by
  intro l
  have htuned : l.Tuned (latestSetter? cs) := tuned_after cs
  refine ⟨htuned.floor_le_fallback, fun hlatest => ?_, fun chosen hlatest => ?_⟩
  · have hfloor := htuned.floor_eq hlatest
    exact ⟨hfloor, fun _ _ => shouldLog_eq_allows hfloor, fun _ _ => shouldLog_of_floor hfloor,
      fun _ => exists_shouldLog_iff hfloor⟩
  · rw [hlatest] at htuned
    obtain ⟨hfloor, hfallback⟩ := htuned
    refine ⟨fun level module => ?_, fun module hnone => ?_⟩
    · rw [shouldLog_iff, hfloor, max_le_iff]
    · rw [Filter.threshold_of_find?_eq_none hnone, hfallback]

/-- A filter that is followed by a level. -/
def quietedRun : List (Command Unit) :=
  [.addSink (), .setFilter "builder=trace,*=warn", .setLevel .error, .clearSinks]

theorem quietedRun_thresholds :
    latestSetter? quietedRun = some (.setLevel .error) ∧
      (∀ level module, (after {} quietedRun).shouldLog level module = true ↔
        max .error ((after {} quietedRun).filter.threshold module) ≤ level) ∧
      (∀ chosen, latestSetter? (quietedRun.take 2) ≠ some (.setLevel chosen)) ∧
      ∀ level, (∃ module, (after {} (quietedRun.take 2)).shouldLog level module = true) ↔
        (after {} (quietedRun.take 2)).floor ≤ level := by
  have hset : latestSetter? quietedRun = some (.setLevel .error) := rfl
  have hfilter : ∀ chosen, latestSetter? (quietedRun.take 2) ≠ some (.setLevel chosen) :=
    fun _ h => nomatch h
  exact ⟨hset, ((after_thresholds quietedRun).2.2 .error hset).1, hfilter,
    ((after_thresholds (quietedRun.take 2)).2.1 hfilter).2.2.2⟩

end Logger

end GenericIR.Log
