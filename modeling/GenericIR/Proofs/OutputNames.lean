import GenericIR.Proofs.CommandLine
import GenericIR.Proofs.LogPrecedence

/-! File names of the output that look like options of the log. The log is set up from all arguments,
so that such a name is read a second time. -/
namespace GenericIR

namespace Log.Config

variable {args : List String} {level : Level} {spec path : String}

theorem ofArgs_of_saidLast (hlevel : SaidLast SetsLevel args level)
    (hfilter : SaidLast SetsFilter args spec) (hfile : SaidLast SetsFile args path)
    (environment : Option String) :
    ofArgs args environment = { level := level, filterSpec := spec, file := path } := by
  rw [ofArgs_of_set fun _ => hfilter.not_neverSaid, ofFlags, chosenLevel?_of_saidLast hlevel,
    (Flag.getLast?_eq_some_iff Flag.filter?_eq_some_iff).2 hfilter,
    (Flag.getLast?_eq_some_iff Flag.file?_eq_some_iff).2 hfile]
  rfl

end Log.Config

namespace Tool

open Log

section Unaffected

variable {β : Type} {Sets : String → β → Prop} {before after : List String} {path : String}
  {environment : Option String}

/-- A name that is followed by no argument of that kind could be one itself, and then decides. -/
theorem exists_set_of_unaffected {part : Config → β}
    (hpart : ∀ args b, SaidLast Sets args b → part (Config.ofArgs args environment) = b)
    {name name' : String} {b b' : β} (hname : Sets name b) (hname' : Sets name' b') (hne : b ≠ b')
    (hall : ∀ path', Config.ofArgs (before ++ "-o" :: path' :: after) environment =
      Config.ofArgs (before ++ "-o" :: path :: after) environment) :
    ∃ arg ∈ after, ∃ c, Sets arg c := by
  by_contra hnone
  have hnever : NeverSaid Sets after := fun arg harg c hc => hnone ⟨arg, harg, c, hc⟩
  have hlast {n : String} {c : β} (hn : Sets n c) :
      part (Config.ofArgs (before ++ "-o" :: path :: after) environment) = c := by
    rw [← hall n]
    exact hpart _ _ ⟨before ++ ["-o"], n, after, by simp, hn, hnever⟩
  exact hne ((hlast hname).symm.trans (hlast hname'))

end Unaffected

/-- File names that are no options of the log make no difference to it. All names make no difference
just if a level, a filter and a log file are given later on. -/
theorem config_of_outputName (before after : List String) (path : String)
    (environment : Option String) :
    (¬ isLogOption path → ∀ path', ¬ isLogOption path' →
      Config.ofArgs (before ++ "-o" :: path' :: after) environment =
        Config.ofArgs (before ++ "-o" :: path :: after) environment) ∧
      ((∀ path', Config.ofArgs (before ++ "-o" :: path' :: after) environment =
          Config.ofArgs (before ++ "-o" :: path :: after) environment) ↔
        (∃ arg ∈ after, ∃ level, SetsLevel arg level) ∧
          (∃ arg ∈ after, ∃ spec, SetsFilter arg spec) ∧
          ∃ arg ∈ after, ∃ file, SetsFile arg file) := by
  refine ⟨fun hpath path' hpath' => ?_, fun hall => ⟨?_, ?_, ?_⟩, ?_⟩
  · refine Config.ofArgs_congr ?_ environment
    simp [List.filterMap_cons, not_isLogOption_iff.1 hpath, not_isLogOption_iff.1 hpath']
  · exact exists_set_of_unaffected (fun _ _ last => (Config.LevelFollows.named last).level_eq)
      (.level "trace") (.level "debug") (by decide) hall
  · exact exists_set_of_unaffected (fun _ _ last => (Config.FilterFollows.given last).filterSpec_eq)
      (.filter "") (.filter "a") (by decide) hall
  · exact exists_set_of_unaffected (fun _ _ last => (Config.FileFollows.given last).file_eq _)
      (.file "") (.file "a") (by decide) hall
  · rintro ⟨hlevel, hfilter, hfile⟩ path'
    obtain ⟨level, hlevel⟩ := Flag.exists_saidLast Flag.level?_eq_some_iff hlevel
    obtain ⟨spec, hfilter⟩ := Flag.exists_saidLast Flag.filter?_eq_some_iff hfilter
    obtain ⟨file, hfile⟩ := Flag.exists_saidLast Flag.file?_eq_some_iff hfile
    have hconfig (name : String) :
        Config.ofArgs (before ++ "-o" :: name :: after) environment =
          { level := level, filterSpec := spec, file := file } := by
      rw [List.append_cons, List.append_cons]
      exact Config.ofArgs_of_saidLast (hlevel.prepend _) (hfilter.prepend _) (hfile.prepend _) _
    rw [hconfig, hconfig]

/-- With all three given later, even a verbosity option may be the file name. -/
theorem verboseName_config :
    (¬ isLogOption "out.mlir" ∧ ¬ isLogOption "-x" ∧
      Config.ofArgs ["sample", "-o", "-x"] none = Config.ofArgs ["sample", "-o", "out.mlir"] none) ∧
      ∀ path', Config.ofArgs ["-o", path', "-q", "--log-filter=", "--log-file="] none =
        Config.ofArgs ["-o", "-v", "-q", "--log-filter=", "--log-file="] none := by
  have hout : ¬ isLogOption "out.mlir" := by decide
  have hx : ¬ isLogOption "-x" := by decide
  refine ⟨⟨hout, hx, (config_of_outputName ["sample"] [] "out.mlir" none).1 hout "-x" hx⟩, ?_⟩
  refine (config_of_outputName [] ["-q", "--log-filter=", "--log-file="] "-v" none).2.2 ⟨?_, ?_, ?_⟩
  · exact ⟨"-q", by simp, .error, .quiet⟩
  · exact ⟨"--log-filter=", by simp, "", .filter ""⟩
  · exact ⟨"--log-file=", by simp, "", .file ""⟩

/-- A verbosity option as the file name is accepted, and also raises the verbosity. -/
theorem not_forall_config_unaffected :
    ¬ ∀ (args : List String) (o : Options) (items : List Item) (path : String)
      (after : List String), Options.ofArgs args = .ok o →
      Reads args items ("-o" :: path :: after) → ∀ (environment : Option String) (path' : String),
        Config.ofArgs (items.flatMap Item.args ++ "-o" :: path' :: after) environment =
          Config.ofArgs args environment := by
  intro hall
  have hreads : Reads ["sample", "-o", "-v"] [.positional "sample"] ["-o", "-v"] :=
    ⟨by simp [Item.Valid], rfl⟩
  have hconfig := hall ["sample", "-o", "-v"] { command := "sample", output := "-v" } _ "-v" []
    (by decide) hreads none "out.mlir"
  exact absurd hconfig (by decide)

end Tool

end GenericIR
