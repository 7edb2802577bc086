import GenericIR.Proofs.Acceptance
import GenericIR.Proofs.CommandLine
import GenericIR.Proofs.OutputFile
import GenericIR.Proofs.QuietLog

/-! What a run of the tool comes to. The exit code, the standard output and the output file can be
told from the arguments and from where the paths lead. What is logged, and where, does not
matter, unless the log goes to the output file. -/
namespace GenericIR

open Log Machine

theorem Module.print_ne_nil (m : Module) (options : PrintOptions) : m.print options ≠ [] := by
  have hfirst : (Page.line "module \x7b".toList).print 0 ≠ [] := by decide
  rw [print, page, Page.print_append, Page.print_append]
  exact List.append_ne_nil_of_left_ne_nil (List.append_ne_nil_of_left_ne_nil hfirst _) _

namespace Tool

variable {written : String → Prop} {s t : Machine} {sinks : List (Sink ℕ)}
  {locate : String → Location}

/-- The end of a run, but for the log. -/
structure Outcome where
  code : UInt32
  /-- What is written to the standard output. -/
  shown : Text := []
  /-- The key of the output file with its text, if one is written. -/
  stored : Option (String × Text) := none

namespace Outcome

/-- The bytes of a file afterwards. -/
def bytes (o : Outcome) (disk : Disk) (key : String) : Option ByteArray :=
  match o.stored with
  | some (k, text) => if k = key then some (Piece.text text).bytes else disk.files.find? key
  | none => disk.files.find? key

/-- The run began on the machine `s` and came to this, whatever became of the files `written`. -/
structure IsOf (o : Outcome) (written : String → Prop) (s : Machine) (r : UInt32 × Machine) :
    Prop where
  code : r.1 = o.code
  out : r.2.out = s.out ++ o.shown
  keys : s.keys <+: r.2.keys
  files : ∀ key, ¬ written key → r.2.disk.files.find? key = o.bytes s.disk key

/-- Logging before makes no difference. -/
theorem IsOf.of_altersOnly {o : Outcome} {r : UInt32 × Machine} (hst : AltersOnly written s t)
    (h : o.IsOf written t r) : o.IsOf written s r where
  code := h.code
  out := by rw [h.out, hst.out]
  keys := hst.keys.trans h.keys
  files key hkey := by rw [h.files key hkey, bytes, bytes, hst.files key hkey]

/-- Logging after makes no difference. -/
theorem IsOf.altersOnly {o : Outcome} {code : UInt32} {u : Machine}
    (h : o.IsOf written s (code, t)) (htu : AltersOnly written t u) :
    o.IsOf written s (code, u) where
  code := h.code
  out := by rw [htu.out, h.out]
  keys := h.keys.trans htu.keys
  files key hkey := by rw [htu.files key hkey, h.files key hkey]

theorem isOf_code (code : UInt32) (hst : AltersOnly written s t) :
    IsOf { code } written s (code, t) :=
  ⟨rfl, hst.out.trans (List.append_nil _).symm, hst.keys, hst.files⟩

theorem isOf_stored {key : String} {text : Text} (written : String → Prop) (code : UInt32)
    (hst : AltersOnly (key = ·) s t)
    (hkey : t.disk.files.find? key = some (Piece.text text).bytes) :
    IsOf { code, stored := some (key, text) } written s (code, t) := by
  refine ⟨rfl, hst.out.trans (List.append_nil _).symm, hst.keys, fun k _ => ?_⟩
  by_cases hk : key = k
  · subst hk
    exact hkey.trans (if_pos rfl).symm
  · exact (hst.files k hk).trans (if_neg hk).symm

end Outcome

/-- On every machine where the paths lead there, the computation comes to this outcome. -/
def ComesTo (sinks : List (Sink ℕ)) (locate : String → Location) (x : StateM Machine UInt32)
    (o : Outcome) : Prop :=
  ∀ (written : String → Prop) (s : Machine), WriteOnly written sinks s → s.disk.locate = locate →
    o.IsOf written s (x.run s).run

theorem ComesTo.of_tells {α : Type} {x : StateM Machine α} {f : α → StateM Machine UInt32} {a : α}
    {o : Outcome} (hx : Tells sinks x a) (hf : ComesTo sinks locate (f a) o) :
    ComesTo sinks locate (x >>= f) o := by
  intro written s hs hlocate
  obtain ⟨rfl, halters⟩ := hx written s hs
  have hend := hf written _ (hs.later halters.keys) (halters.locate.trans hlocate)
  exact hend.of_altersOnly halters

theorem tells_tell (logger : Logger (Sink ℕ)) (level : Level) (message : String) :
    Tells logger.sinks (tell host logger level message) () :=
  tells_report logger _

/-- The sample as the options want it printed. -/
def Options.sampleText (o : Options) : Text :=
  Sample.build.value.print { locations := o.locations }

namespace Options

/-- A text is shown, or it is stored if there is a file at the other end of the path. -/
def emitted (o : Options) (locate : String → Location) (text : Text) : Outcome :=
  if o.output = "" then { code := 0, shown := text }
  else match locate o.output with
    | .file key => { code := 0, stored := some (key, text) }
    | _ => { code := 1 }

theorem emitted_of_file {o : Options} (hnamed : o.output ≠ "") {key : String}
    (h : locate o.output = .file key) (text : Text) :
    o.emitted locate text = { code := 0, stored := some (key, text) } := by
  rw [emitted, if_neg hnamed, h]

theorem emitted_of_no_file {o : Options} (hnamed : o.output ≠ "")
    (h : ∀ key, locate o.output ≠ .file key) (text : Text) :
    o.emitted locate text = { code := 1 } := by
  rw [emitted, if_neg hnamed]
  split
  · exact absurd ‹_› (h _)
  · rfl

/-- What the options ask for. -/
def outcome (o : Options) (locate : String → Location) : Outcome :=
  if o.command ∈ ["", "-h", "--help"] then { code := 0, shown := usage.toList }
  else if o.command ∈ ["-V", "--version"] then
    { code := 0, shown := ("irt " ++ version ++ "\n").toList }
  else if o.command = "sample" then o.emitted locate o.sampleText
  else { code := 1 }

end Options

/-- What a command line asks for. -/
def outcomeOf (args : List String) (locate : String → Location) : Outcome :=
  match Options.ofArgs args with
  | .error _ => { code := 1 }
  | .ok o => o.outcome locate

section Runs

variable (logger : Logger (Sink ℕ)) (o : Options)

theorem comesTo_writeOut (sinks : List (Sink ℕ)) (locate : String → Location) (text : Text) :
    ComesTo sinks locate (host.writeOut text >>= fun _ => pure 0) { code := 0, shown := text } :=
  fun _ _ _ _ => ⟨rfl, rfl, List.prefix_rfl, fun _ _ => rfl⟩

theorem comesTo_emitText {text : Text} (htext : text ≠ []) (locate : String → Location) :
    ComesTo logger.sinks locate (emitText host logger o text) (o.emitted locate text) := by
  unfold emitText
  by_cases houtput : o.output = ""
  · rw [Options.emitted, if_pos houtput, if_pos (by simpa using houtput)]
    exact comesTo_writeOut _ locate text
  · rw [if_neg (by simpa using houtput)]
    rintro written s hs rfl
    have halters := altersOnly_writeOutput o.output text s
    have hlater := hs.later halters.keys
    rw [StateT.run_bind, Id.run_bind]
    by_cases hfile : ∃ key, s.disk.locate o.output = .file key
    · obtain ⟨key, hlocate⟩ := hfile
      obtain ⟨hok, hbytes⟩ := writeOutput_of_file hlocate text
      have hkey (k : String) (hk : s.disk.locate o.output = .file k) : key = k :=
        Location.file.inj (hlocate.symm.trans hk)
      rw [hok, Options.emitted_of_file houtput hlocate]
      have hstored := Outcome.isOf_stored written 0 (halters.mono hkey) hbytes
      exact hstored.altersOnly (tells_tell logger .info _ written _ hlater).2
    · have hnone : ∀ key, s.disk.locate o.output ≠ .file key := not_exists.1 hfile
      obtain ⟨e, he⟩ := writeOutput_of_no_file htext hnone
      rw [he, Options.emitted_of_no_file houtput hnone]
      have hunchanged : AltersOnly written s ((writeOutput host o.output text).run s).run.2 :=
        halters.mono fun key hkey => absurd hkey (hnone key)
      exact (Outcome.isOf_code 1 hunchanged).altersOnly
        (tells_tell logger .error _ written _ hlater).2

theorem sample_accepted : Sample.build.value.Accepted :=
  Module.accepted_iff.2 (by decide +kernel)

/-- The sample passes verification, so that only writing it out can go wrong. -/
theorem comesTo_runSample (locate : String → Location) :
    ComesTo logger.sinks locate (runSample host logger o) (o.emitted locate o.sampleText) := by
  have htext : o.sampleText ≠ [] := Module.print_ne_nil _ _
  have hemit := comesTo_emitText logger o htext locate
  have hwrite : ComesTo logger.sinks locate
      (logger.report host (Sample.build.value.write { locations := o.locations }) >>= fun text =>
        emitText host logger o text) (o.emitted locate o.sampleText) :=
    .of_tells (tells_report logger _) hemit
  unfold runSample
  refine .of_tells (tells_report logger _) ?_
  dsimp only
  split
  · refine .of_tells (tells_report logger _) ?_
    obtain ⟨table, htable⟩ := sample_accepted
    rw [htable]
    exact .of_tells (tells_tell logger _ _) hwrite
  · exact hwrite

theorem comesTo_runCommand (locate : String → Location) :
    ComesTo logger.sinks locate (runCommand host logger o) (o.outcome locate) := by
  unfold runCommand Options.outcome
  split
  · exact comesTo_writeOut _ locate _
  · split
    · exact comesTo_writeOut _ locate _
    · split
      · exact comesTo_runSample logger o locate
      · exact .of_tells (tells_writeErr _ _) fun _ s _ _ => Outcome.isOf_code 1 (.refl _ s)

end Runs

/-- A run of the tool on a machine: the exit code, and the machine afterwards. -/
def runOn (s : Machine) (environment : Environment) (args : List String) : UInt32 × Machine :=
  ((run host environment args).run s).run

/-- What the log is to be. -/
def logConfig (environment : Environment) (args : List String) : Config :=
  .ofArgs args environment.logText

/-- The exit code, the output and the files are as the arguments ask for. Only the log file is
left open. -/
theorem run_isOf (s : Machine) (environment : Environment) (args : List String) :
    (outcomeOf args s.disk.locate).IsOf
      (fun key => ¬ (logConfig environment args).Spares s.disk key) s
      (runOn s environment args) := by
  obtain ⟨halters, hsinks⟩ := ofConfig_spec environment.terminal (logConfig environment args) s
  refine .of_altersOnly halters ?_
  have hconfig : Config.ofArgs args environment.logText = logConfig environment args := rfl
  unfold runOn run
  rw [StateT.run_bind, Id.run_bind, hconfig]
  generalize ((Sink.ofConfig host environment.terminal (logConfig environment args)).run s).run = r
    at halters hsinks
  unfold outcomeOf
  dsimp only
  cases Options.ofArgs args with
  | error e => exact Outcome.isOf_code 1 (tells_writeErr [] _ _ _ nofun).2
  | ok o =>
    rw [← Logger.sinks_configured (logConfig environment args) r.1] at hsinks
    have hend := comesTo_runCommand _ o s.disk.locate _ r.2 hsinks halters.locate
    exact hend.altersOnly (tells_dispatch _ .flush _ _ (hsinks.later hend.keys)).2

/-- The arguments without those that concern the log. What follows `-o` is a file name, whatever it
looks like. -/
def withoutLogOptions : List String → List String
  | [] => []
  | arg :: rest =>
    if isLogOption arg then withoutLogOptions rest
    else if arg = "-o" then
      match rest with
      | [] => [arg]
      | path :: rest => arg :: path :: withoutLogOptions rest
    else arg :: withoutLogOptions rest

theorem withoutLogOptions_of_isLogOption {arg : String} (h : isLogOption arg)
    (rest : List String) : withoutLogOptions (arg :: rest) = withoutLogOptions rest := by
  conv_lhs => unfold withoutLogOptions
  exact if_pos h

theorem withoutLogOptions_output (path : String) (rest : List String) :
    withoutLogOptions ("-o" :: path :: rest) = "-o" :: path :: withoutLogOptions rest := rfl

theorem withoutLogOptions_of_not_isLogOption {arg : String} (hlog : ¬ isLogOption arg)
    (hdash : arg ≠ "-o") (rest : List String) :
    withoutLogOptions (arg :: rest) = arg :: withoutLogOptions rest := by
  conv_lhs => unfold withoutLogOptions
  rw [if_neg hlog, if_neg hdash]

/-- Log options are not read. -/
theorem Options.read_withoutLogOptions (o : Options) (args : List String) :
    o.read (withoutLogOptions args) = o.read args := by
  induction args using withoutLogOptions.induct generalizing o with
  | case1 => rfl
  | case2 arg rest hlog ih =>
    rw [withoutLogOptions_of_isLogOption hlog rest, ih, read_of_isLogOption hlog]
  | case3 hdash => rfl
  | case4 path rest hdash ih =>
    rw [withoutLogOptions_output, read_output, read_output, ih]
  | case5 arg rest hlog hdash ih =>
    rw [withoutLogOptions_of_not_isLogOption hlog hdash rest]
    unfold read
    rw [if_neg hlog, if_neg hlog, if_neg hdash, if_neg hdash]
    simp only [ih]

theorem outcomeOf_eq_of_withoutLogOptions_eq {args args' : List String}
    (h : withoutLogOptions args' = withoutLogOptions args) (locate : String → Location) :
    outcomeOf args' locate = outcomeOf args locate := by
  unfold outcomeOf Options.ofArgs
  rw [← Options.read_withoutLogOptions {} args, ← h, Options.read_withoutLogOptions]

/-- Why a run fails. -/
inductive Fails (s : Machine) (args : List String) : Prop
  | usage (e : UsageError) (of : Options.ofArgs args = .error e)
  | command (o : Options) (of : Options.ofArgs args = .ok o)
      (unknown : o.command ∉ ["", "-h", "--help", "-V", "--version", "sample"])
  | output (o : Options) (of : Options.ofArgs args = .ok o) (sample : o.command = "sample")
      (named : o.output ≠ "") (e : OutputError)
      (refused : ((writeOutput host o.output o.sampleText).run s).run.1 = .error e)

/-- What a run leaves behind that does not fail, with the log of that configuration. -/
inductive Delivers (s : Machine) (o : Options) (config : Config) (t : Machine) : Prop
  | usage (asked : o.command ∈ ["", "-h", "--help"]) (out : t.out = s.out ++ usage.toList)
  | version (asked : o.command ∈ ["-V", "--version"])
      (out : t.out = s.out ++ ("irt " ++ version ++ "\n").toList)
  | shown (asked : o.command = "sample") (unnamed : o.output = "")
      (out : t.out = s.out ++ o.sampleText)
  | stored (asked : o.command = "sample") (named : o.output ≠ "") (out : t.out = s.out)
      (key : String) (file : s.disk.locate o.output = .file key)
      (bytes : config.Spares s.disk key →
        t.disk.files.find? key = some (Piece.text o.sampleText).bytes)

section Ends

variable {args : List String} {o : Options} {config : Config} {r : UInt32 × Machine}

theorem Options.sampleText_ne_nil (o : Options) : o.sampleText ≠ [] :=
  Module.print_ne_nil _ _

theorem Fails.outcomeOf_eq (h : Fails s args) : outcomeOf args s.disk.locate = { code := 1 } := by
  unfold outcomeOf
  cases h with
  | usage e of => rw [of]
  | command o of unknown =>
    rw [of]
    simp only [List.mem_cons, not_or] at unknown
    simp [Options.outcome, unknown]
  | output o of sample named e refused =>
    rw [of]
    have hno (key : String) : s.disk.locate o.output ≠ .file key := by
      intro hfile
      rw [(writeOutput_of_file hfile _).1] at refused
      exact absurd refused nofun
    simp only [Options.outcome, sample]
    exact Options.emitted_of_no_file named hno _

/-- A run that does not fail has one of the commands, and delivers what it asks for. -/
theorem exists_delivers (h : ¬ Fails s args)
    (hr : (outcomeOf args s.disk.locate).IsOf (fun key => ¬ config.Spares s.disk key) s r) :
    r.1 = 0 ∧ ∃ o, Options.ofArgs args = .ok o ∧ Delivers s o config r.2 := by
  cases hargs : Options.ofArgs args with
  | error e => exact absurd (.usage e hargs) h
  | ok o =>
    have houtcome : outcomeOf args s.disk.locate = o.outcome s.disk.locate := by
      rw [outcomeOf, hargs]
    rw [houtcome] at hr
    have hknown : o.command ∈ ["", "-h", "--help", "-V", "--version", "sample"] :=
      by_contra fun hunknown => h (.command o hargs hunknown)
    by_cases husage : o.command ∈ ["", "-h", "--help"]
    · rw [Options.outcome, if_pos husage] at hr
      have hout := hr.out
      dsimp only at hout
      exact ⟨hr.code, o, rfl, .usage husage hout⟩
    by_cases hversion : o.command ∈ ["-V", "--version"]
    · rw [Options.outcome, if_neg husage, if_pos hversion] at hr
      have hout := hr.out
      dsimp only at hout
      exact ⟨hr.code, o, rfl, .version hversion hout⟩
    have hsample : o.command = "sample" := by
      simp only [List.mem_cons, List.not_mem_nil, or_false, not_or] at hknown husage hversion
      tauto
    rw [Options.outcome, if_neg husage, if_neg hversion, if_pos hsample] at hr
    by_cases hnamed : o.output = ""
    · rw [Options.emitted, if_pos hnamed] at hr
      exact ⟨hr.code, o, rfl, .shown hsample hnamed hr.out⟩
    obtain ⟨key, hfile⟩ : ∃ key, s.disk.locate o.output = .file key := by
      by_contra hno
      obtain ⟨e, he⟩ := writeOutput_of_no_file o.sampleText_ne_nil (not_exists.1 hno)
      exact h (.output o hargs hsample hnamed e he)
    rw [Options.emitted_of_file hnamed hfile] at hr
    refine ⟨hr.code, o, rfl, .stored hsample hnamed ?_ key hfile fun hspares => ?_⟩
    · exact hr.out.trans (List.append_nil _)
    · exact (hr.files key (not_not.2 hspares)).trans (if_pos rfl)

end Ends

/-- A run of the tool gives 1 if it fails, and then shows nothing, and else 0, and then delivers what
it was asked for. Log options and the surroundings of the log do not matter to the exit code, the
standard output, and any file that the log is not written to. -/
theorem run_outcome (s : Machine) (environment : Environment) (args : List String) :
    ((runOn s environment args).1 = 1 ↔ Fails s args) ∧
      ((runOn s environment args).1 = 1 → (runOn s environment args).2.out = s.out) ∧
      ((runOn s environment args).1 ≠ 1 →
        (runOn s environment args).1 = 0 ∧ ∃ o, Options.ofArgs args = .ok o ∧
          Delivers s o (logConfig environment args) (runOn s environment args).2) ∧
      ∀ environment' args', withoutLogOptions args' = withoutLogOptions args →
        (runOn s environment' args').1 = (runOn s environment args).1 ∧
          (runOn s environment' args').2.out = (runOn s environment args).2.out ∧
          ∀ key, (logConfig environment args).Spares s.disk key →
            (logConfig environment' args').Spares s.disk key →
              (runOn s environment' args').2.disk.files.find? key =
                (runOn s environment args).2.disk.files.find? key := by
  have hr := run_isOf s environment args
  have hfails (h : Fails s args) : (runOn s environment args).1 = 1 ∧
      (runOn s environment args).2.out = s.out := by
    rw [h.outcomeOf_eq] at hr
    exact ⟨hr.code, hr.out.trans (List.append_nil _)⟩
  have hcode : (runOn s environment args).1 = 1 ↔ Fails s args := by
    refine ⟨fun hone => by_contra fun h => ?_, fun h => (hfails h).1⟩
    rw [(exists_delivers h hr).1] at hone
    exact absurd hone (by decide)
  refine ⟨hcode, fun hone => (hfails (hcode.1 hone)).2,
    fun hne => exists_delivers (fun h => hne (hcode.2 h)) hr, fun environment' args' hargs => ?_⟩
  have hr' := run_isOf s environment' args'
  rw [outcomeOf_eq_of_withoutLogOptions_eq hargs] at hr'
  refine ⟨hr'.code.trans hr.code.symm, hr'.out.trans hr.out.symm, fun key hkey hkey' => ?_⟩
  rw [hr'.files key (not_not.2 hkey'), hr.files key (not_not.2 hkey)]

/-- Every path leads to a file of its own, but for a full device. -/
def plainMachine : Machine where
  disk := { locate := fun path => if path = "/dev/full" then .full else .file path }

/-- The same output file with and without a log, and no output on a full device. -/
theorem plainMachine_outcome :
    (runOn plainMachine {} ["sample", "-o", "out.mlir"]).1 = 0 ∧
      (runOn plainMachine { logText := some "debug" }
          ["-v", "sample", "--log-file=run.log", "-o", "out.mlir"]).2.disk.files.find? "out.mlir" =
        (runOn plainMachine {} ["sample", "-o", "out.mlir"]).2.disk.files.find? "out.mlir" ∧
      (runOn plainMachine {} ["sample", "-o", "/dev/full"]).1 = 1 := by
  have hfile := run_outcome plainMachine {} ["sample", "-o", "out.mlir"]
  have hfull := run_outcome plainMachine {} ["sample", "-o", "/dev/full"]
  have hcode : (runOn plainMachine {} ["sample", "-o", "out.mlir"]).1 = 0 :=
    (run_isOf plainMachine {} _).code.trans (by decide)
  have hlogged := hfile.2.2.2 { logText := some "debug" }
    ["-v", "sample", "--log-file=run.log", "-o", "out.mlir"] (by decide)
  have hnone (key : String) : plainMachine.disk.locate "/dev/full" ≠ .file key := nofun
  let o : Options := { command := "sample", output := "/dev/full" }
  obtain ⟨e, he⟩ := writeOutput_of_no_file o.sampleText_ne_nil hnone
  refine ⟨(hfile.2.2.1 (hcode ▸ by decide)).1, ?_, ?_⟩
  · exact hlogged.2.2 "out.mlir" (.inl (by decide)) (.inr (by decide))
  · exact hfull.1.2 (.output o (by decide) rfl (by decide) e he)

end Tool

end GenericIR
