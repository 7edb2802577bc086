import GenericIR.Log.Sink
import GenericIR.Proofs.WrittenFiles

/-! What logging leaves alone. On the machine a computation that reports to a logger gives the value
that it gives without, shows nothing on the output stream, and writes to no file but those behind
the sinks of the logger. -/
namespace GenericIR.Log

open Machine

variable {α β : Type} {written : String → Prop} {s t : Machine} {sinks : List (Sink ℕ)}

/-- The file sinks are open, and all files behind them are among these. -/
def WriteOnly (written : String → Prop) (sinks : List (Sink ℕ)) (s : Machine) : Prop :=
  ∀ handle, Sink.file handle ∈ sinks → Opened written s handle

theorem WriteOnly.later (h : WriteOnly written sinks s) (hkeys : s.keys <+: t.keys) :
    WriteOnly written sinks t :=
  fun handle hsink => (h handle hsink).later hkeys

/-- The computation gives this value, and besides that it only writes to the log. -/
def Tells (sinks : List (Sink ℕ)) (x : StateM Machine α) (a : α) : Prop :=
  ∀ (written : String → Prop) (s : Machine), WriteOnly written sinks s →
    (x.run s).run.1 = a ∧ AltersOnly written s (x.run s).run.2

namespace Tells

theorem pure (sinks : List (Sink ℕ)) (a : α) : Tells sinks (Pure.pure a : StateM Machine α) a :=
  fun written s _ => ⟨rfl, .refl written s⟩

theorem bind {x : StateM Machine α} {f : α → StateM Machine β} {a : α} {b : β}
    (hx : Tells sinks x a) (hf : Tells sinks (f a) b) : Tells sinks (x >>= f) b := by
  intro written s hs
  obtain ⟨rfl, halters⟩ := hx written s hs
  obtain ⟨hb, halters'⟩ := hf written _ (hs.later halters.keys)
  exact ⟨hb, halters.trans halters'⟩

theorem forM {f : β → StateM Machine PUnit} {bs : List β} (h : ∀ b ∈ bs, Tells sinks (f b) ⟨⟩) :
    Tells sinks (bs.forM f) ⟨⟩ := by
  induction bs with
  | nil => exact .pure sinks _
  | cons b bs ih =>
    rw [List.forall_mem_cons] at h
    exact h.1.bind (ih h.2)

end Tells

theorem tells_write {handle : ℕ} (h : Sink.file handle ∈ sinks) (piece : Piece) :
    Tells sinks (host.write handle piece) () :=
  fun _ _ hs => ⟨rfl, (hs handle h).altersOnly_write piece⟩

theorem tells_flush {handle : ℕ} (h : Sink.file handle ∈ sinks) :
    Tells sinks (discard (host.flush handle)) () :=
  fun _ _ hs => ⟨rfl, (hs handle h).altersOnly_flush⟩

theorem tells_writeErr (sinks : List (Sink ℕ)) (text : Text) :
    Tells sinks (host.writeErr text) () :=
  fun _ _ _ => ⟨rfl, ⟨rfl, rfl, List.prefix_rfl, fun _ _ => rfl⟩⟩

/-- Whatever the time is. -/
theorem tells_stamp_bind {f : Text → StateM Machine β} {b : β} (h : ∀ stamp, Tells sinks (f stamp) b) :
    Tells sinks (host.stamp >>= f) b :=
  fun written s hs => h s.clock written s hs

theorem tells_accept {sink : Sink ℕ} (h : sink ∈ sinks) (event : Event) :
    Tells sinks (sink.accept host event) () := by
  cases sink with
  | console colored =>
    cases event with
    | record r => exact tells_stamp_bind fun stamp => tells_writeErr sinks _
    | flush => exact .pure sinks _
  | file handle =>
    cases event with
    | record r =>
      refine tells_stamp_bind fun stamp => ?_
      refine (Tells.forM fun piece _ => tells_write h piece).bind ?_
      split
      · exact tells_flush h
      · exact .pure sinks _
    | flush => exact tells_flush h
  | null => exact .pure sinks _

/-- Wherever the note is made. -/
theorem tells_callSite_bind {n : Note} {f : CallSite → StateM Machine β} {b : β}
    (h : ∀ site, Tells sinks (f site) b) : Tells sinks (host.callSite n >>= f) b :=
  fun written s hs => h (s.callSites n) written s hs

variable (logger : Logger (Sink ℕ))

theorem tells_dispatch (event : Event) :
    Tells logger.sinks (Logger.deliver host (logger.dispatch event)) () :=
  .forM <| List.forall_mem_map.2 fun _ hsink => tells_accept hsink event

/-- The notes are told, and the value is what it is without. -/
theorem tells_report (x : Noted α) : Tells logger.sinks (logger.report host x) x.value := by
  refine (Tells.forM fun n _ => tells_callSite_bind fun site => ?_).bind (.pure _ _)
  unfold Logger.deliveries
  split
  · exact tells_dispatch logger _
  · exact .pure _ _

/-- The log file, if there is one, is not the file of that key. -/
def Config.Spares (config : Config) (disk : Disk) (key : String) : Prop :=
  config.file = "" ∨ disk.locate config.file ≠ .file key

/-- The sinks that are there without a log file. -/
def consoleSinks (terminal : Terminal) (config : Config) : List (Sink ℕ) :=
  if config.console then [.ofTerminal terminal config.colors] else []

theorem file_notMem_consoleSinks {terminal : Terminal} {config : Config} {handle : ℕ} :
    Sink.file handle ∉ consoleSinks terminal config := by
  unfold consoleSinks
  split
  · exact fun h => nomatch List.mem_singleton.1 h
  · exact List.not_mem_nil

/-- Setting up the log opens its file, if it has one, and makes a sink of it, or else warns. -/
theorem run_ofConfig (terminal : Terminal) (config : Config) (s : Machine) :
    ((Sink.ofConfig host terminal config).run s).run =
      if config.file = "" then (consoleSinks terminal config, s)
      else match s.openFile config.file .append with
        | (some handle, t) => (consoleSinks terminal config ++ [.file handle], t)
        | (none, t) => (consoleSinks terminal config, ((host.writeErr
            ("warning: could not open log file: " ++ config.file ++ "\n").toList).run t).run.2) := by
  unfold Sink.ofConfig
  by_cases h : config.file = ""
  · rw [if_pos h, if_pos (by simpa using h)]
    rfl
  · rw [if_neg h, if_neg (by simpa using h)]
    have hopen : ((host.openFile config.file .append).run s).run =
        s.openFile config.file .append := rfl
    simp only [Sink.ofFile, StateT.run_bind, Id.run_bind, bind_assoc]
    rw [hopen]
    rcases s.openFile config.file .append with ⟨_ | handle, t⟩ <;> rfl

/-- Setting up the log may create its file, and all sinks write to that file only. -/
theorem ofConfig_spec (terminal : Terminal) (config : Config) (s : Machine) :
    AltersOnly (fun key => ¬ config.Spares s.disk key) s
        ((Sink.ofConfig host terminal config).run s).run.2 ∧
      WriteOnly (fun key => ¬ config.Spares s.disk key)
        ((Sink.ofConfig host terminal config).run s).run.1
        ((Sink.ofConfig host terminal config).run s).run.2 := by
  rw [run_ofConfig]
  by_cases h : config.file = ""
  · rw [if_pos h]
    exact ⟨.refl _ s, fun _ hmem => absurd hmem file_notMem_consoleSinks⟩
  · rw [if_neg h]
    have hwritten (key : String) (hkey : s.disk.locate config.file = .file key) :
        ¬ config.Spares s.disk key :=
      fun hspares => hspares.elim h fun hne => hne hkey
    obtain ⟨halters, hopened⟩ := s.openFile_spec config.file .append
    generalize s.openFile config.file .append = r at halters hopened
    rcases r with ⟨_ | handle, t⟩
    · refine ⟨(halters.mono hwritten).trans ⟨rfl, rfl, List.prefix_rfl, fun _ _ => rfl⟩, ?_⟩
      exact fun _ hmem => absurd hmem file_notMem_consoleSinks
    · refine ⟨halters.mono hwritten, fun handle' hmem => ?_⟩
      rcases List.mem_append.1 hmem with hmem | hmem
      · exact absurd hmem file_notMem_consoleSinks
      · obtain ⟨rfl⟩ := List.mem_singleton.1 hmem
        exact (hopened _ rfl).mono hwritten

end GenericIR.Log
