import GenericIR.Proofs.FilterRules
import GenericIR.Proofs.Thresholds

/-! The thresholds of a new configuration with filter rules. The rules ask for one threshold of
every module. A module that they name has it; any other is also let through from the configured
level on, so that a rule for the other modules can lower that level but not raise it. -/
namespace GenericIR.Log

/-- The threshold that a configuration with filter rules asks for that module. -/
inductive Config.Asks (c : Config) (module : String) : Level → Prop
  | own {level : Level} (given : LastGiven (GivesModule module) (fields c.filterSpec) level) :
      Asks c module level
  | others {level : Level} (unnamed : NoneGiven (GivesModule module) (fields c.filterSpec))
      (given : LastGiven GivesOthers (fields c.filterSpec) level) : Asks c module level
  | configured (unnamed : NoneGiven (GivesModule module) (fields c.filterSpec))
      (silent : NoneGiven GivesOthers (fields c.filterSpec)) : Asks c module c.level

namespace Config

variable {c : Config} {module : String}

/-- A filter with the configured level as its first fallback has the thresholds asked for. -/
theorem asks_iff (hm : module ≠ "*") {level : Level} :
    c.Asks module level ↔
      level = (Filter.parse { fallback := c.level } c.filterSpec).threshold module := by
  constructor
  · rintro (given | ⟨unnamed, given⟩ | ⟨unnamed, silent⟩)
    · rw [Filter.threshold_of_find? ((Filter.find?_parse_eq_some_iff hm).2 given)]
    · rw [Filter.threshold_of_find?_eq_none ((Filter.find?_parse_eq_none_iff hm).2 unnamed),
        Filter.fallback_parse_of_lastGiven given]
    · rw [Filter.threshold_of_find?_eq_none ((Filter.find?_parse_eq_none_iff hm).2 unnamed),
        Filter.fallback_parse_of_noneGiven silent]
  · rintro rfl
    cases h : (Filter.parse { fallback := c.level } c.filterSpec).overrides.find? module with
    | some l =>
      rw [Filter.threshold_of_find? h]
      exact .own ((Filter.find?_parse_eq_some_iff hm).1 h)
    | none =>
      have unnamed := (Filter.find?_parse_eq_none_iff hm).1 h
      rw [Filter.threshold_of_find?_eq_none h]
      rcases lastGiven_or_noneGiven Filter.bind_othersLevel?_eq_some_iff (fields c.filterSpec) with
        ⟨l, given⟩ | silent
      · rw [Filter.fallback_parse_of_lastGiven given]
        exact .others unnamed given
      · rw [Filter.fallback_parse_of_noneGiven silent]
        exact .configured unnamed silent

end Config

/-- A cap on the fallback is a second threshold for the modules without an override. -/
theorem Filter.threshold_capped_le_iff {f : Filter} {cap level : Level} {module : String} :
    ({ f with fallback := min f.fallback cap } : Filter).threshold module ≤ level ↔
      f.threshold module ≤ level ∨ f.overrides.find? module = none ∧ cap ≤ level := by
  cases h : f.overrides.find? module with
  | some l => simp [threshold, h]
  | none => simp [threshold, h]

namespace Logger

variable {σ : Type} {c : Config}

theorem filter_configured (hspec : c.filterSpec ≠ "") (sinks : List σ) :
    (configured c sinks).filter =
      let parsed := Filter.parse { fallback := c.level } c.filterSpec
      { parsed with fallback := min parsed.fallback c.level } := by
  have hrules : c.filterSpec.isEmpty = false := by simpa using hspec
  simp only [configured, hrules]
  rfl

/-- The threshold that the rules ask for lets a module through, and so does the configured level
if they do not name the module. -/
theorem shouldLog_configured_iff (hspec : c.filterSpec ≠ "") (sinks : List σ) {module : String}
    (hm : module ≠ "*") :
    ∃ threshold, (∀ level, c.Asks module level ↔ level = threshold) ∧
      ∀ level, (configured c sinks).shouldLog level module = true ↔
        threshold ≤ level ∨
          NoneGiven (GivesModule module) (fields c.filterSpec) ∧ c.level ≤ level := by
  refine ⟨_, fun level => c.asks_iff hm, fun level => ?_⟩
  rw [shouldLog_of_floor (floor_configured c sinks), filter_configured hspec,
    Filter.threshold_capped_le_iff, Filter.find?_parse_eq_none_iff hm]

/-- Warnings are configured, and the rules ask for errors only. -/
def cappedConfig : Config where
  level := .warn
  filterSpec := "builder=trace,*=error"

theorem cappedConfig_shouldLog_iff :
    cappedConfig.filterSpec ≠ "" ∧ "printer" ≠ "*" ∧
      ∃ threshold, (∀ level, cappedConfig.Asks "printer" level ↔ level = threshold) ∧
        ∀ level, (configured cappedConfig [()]).shouldLog level "printer" = true ↔
          threshold ≤ level ∨
            NoneGiven (GivesModule "printer") (fields cappedConfig.filterSpec) ∧
              cappedConfig.level ≤ level :=
  ⟨by decide, by decide, shouldLog_configured_iff (by decide) [()] (by decide)⟩

/-- A rule for the other modules does not silence what the configured level lets through. -/
theorem not_forall_shouldLog_configured :
    ¬ ∀ (c : Config) (sinks : List Unit) (module : String) (asked level : Level),
      c.filterSpec ≠ "" → module ≠ "*" → c.Asks module asked →
        ((configured c sinks).shouldLog level module = true ↔ asked ≤ level) := by
  intro hall
  have hasks : cappedConfig.Asks "printer" .error := (Config.asks_iff (by decide)).2 (by decide)
  have hiff := hall cappedConfig [()] "printer" .error .warn (by decide) (by decide) hasks
  have hlog : (configured cappedConfig [()]).shouldLog .warn "printer" = true := by decide
  exact absurd (hiff.1 hlog) (by decide)

end Logger

end GenericIR.Log
