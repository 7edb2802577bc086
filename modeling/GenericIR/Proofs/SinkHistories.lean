import GenericIR.Proofs.RunThresholds

/-! What the sinks of a logger hear over whole runs. A command issues at most one event, as the
thresholds of its moment decide, and the event goes to all sinks that are there, in the order in
which they came. So a sink hears what is issued from the moment it comes until all sinks are taken
away, and nothing else. To tell equal sinks apart, each is marked with the command that brought
it; nothing else in the run depends on the marks. -/
namespace GenericIR.Log

variable {σ τ : Type}

namespace Command

/-- The event that the command issues: a note may be held back, a record never is. -/
def event? (l : Logger σ) : Command σ → Option Event
  | log r => some (.record r)
  | note n site =>
    if l.shouldLog n.level n.module then some (.record (.ofNote n site)) else none
  | flush => some .flush
  | _ => none

/-- The sinks that are there are taken away. -/
def clears : Command σ → Bool
  | configure .. | clearSinks => true
  | _ => false

def newSinks : Command σ → List σ
  | configure _ sinks => sinks
  | addSink sink => [sink]
  | _ => []

/-- The same command with other sinks, made from the new ones and their numbers. -/
def mapSinks (f : ℕ → σ → τ) : Command σ → Command τ
  | configure config sinks => configure config (sinks.zipIdx.map fun p => f p.2 p.1)
  | setLevel level => setLevel level
  | setFilter spec => setFilter spec
  | addSink sink => addSink (f 0 sink)
  | clearSinks => clearSinks
  | log r => log r
  | note n site => note n site
  | flush => flush

theorem newSinks_mapSinks (f : ℕ → σ → τ) (c : Command σ) :
    (c.mapSinks f).newSinks = c.newSinks.zipIdx.map fun p => f p.2 p.1 := by
  cases c <;> rfl

@[simp] theorem clears_mapSinks (f : ℕ → σ → τ) (c : Command σ) :
    (c.mapSinks f).clears = c.clears := by
  cases c <;> rfl

end Command

/-- The sinks that a run brings and does not take away later, in the order in which they come. -/
def remaining : List (Command σ) → List σ
  | [] => []
  | c :: cs => (if cs.any Command.clears then [] else c.newSinks) ++ remaining cs

namespace Logger

/-- All that sinks are told in a run. -/
def told (l : Logger σ) : List (Command σ) → List (σ × Event)
  | [] => []
  | c :: cs => (l.step c).2 ++ (l.step c).1.told cs

/-- All events that are issued in a run. -/
def issued (l : Logger σ) : List (Command σ) → List Event
  | [] => []
  | c :: cs => (c.event? l).toList ++ (l.step c).1.issued cs

def map (f : σ → τ) (l : Logger σ) : Logger τ where
  floor := l.floor
  filter := l.filter
  sinks := l.sinks.map f

theorem told_append (l : Logger σ) (as bs : List (Command σ)) :
    l.told (as ++ bs) = l.told as ++ (l.after as).told bs := by
  induction as generalizing l with
  | nil => rfl
  | cons a as ih =>
    rw [List.cons_append, told, told, ih, List.append_assoc, after, after, List.foldl_cons]

theorem issued_append (l : Logger σ) (as bs : List (Command σ)) :
    l.issued (as ++ bs) = l.issued as ++ (l.after as).issued bs := by
  induction as generalizing l with
  | nil => rfl
  | cons a as ih =>
    rw [List.cons_append, issued, issued, ih, List.append_assoc, after, after, List.foldl_cons]

/-- A command tells all sinks the event that it issues. -/
theorem step_told (l : Logger σ) (c : Command σ) :
    (l.step c).2 = (c.event? l).toList.flatMap l.dispatch := by
  cases c with
  | note n site =>
    by_cases h : l.shouldLog n.level n.module <;> simp [step, deliveries, Command.event?, h]
  | _ => simp [step, Command.event?]

theorem sinks_step (l : Logger σ) (c : Command σ) :
    (l.step c).1.sinks = (if c.clears then [] else l.sinks) ++ c.newSinks := by
  cases c <;>
    simp [step, Command.clears, Command.newSinks, setLevel, setFilter, addSink, clearSinks]

theorem event?_of_clears {l : Logger σ} {c : Command σ} (h : c.clears = true) :
    c.event? l = none := by
  cases c <;> first | rfl | cases h

theorem sinks_after (l : Logger σ) (cs : List (Command σ)) :
    (l.after cs).sinks = (if cs.any Command.clears then [] else l.sinks) ++ remaining cs := by
  induction cs generalizing l with
  | nil => simp [after, remaining]
  | cons c cs ih =>
    rw [after, List.foldl_cons, ← after, ih, sinks_step, remaining, List.any_cons]
    cases cs.any Command.clears <;> simp

section Heard

variable {p : σ → Bool}

/-- What those sinks are told. -/
def heard (p : σ → Bool) (ds : List (σ × Event)) : List Event :=
  (ds.filter fun d => p d.1).map Prod.snd

theorem heard_append (p : σ → Bool) (ds es : List (σ × Event)) :
    heard p (ds ++ es) = heard p ds ++ heard p es := by
  simp [heard]

theorem countP_sinks_step (p : σ → Bool) (l : Logger σ) (c : Command σ) :
    (l.step c).1.sinks.countP p =
      (if c.clears then 0 else l.sinks.countP p) + c.newSinks.countP p := by
  rw [sinks_step, List.countP_append]
  split <;> rfl

theorem heard_step (p : σ → Bool) (l : Logger σ) (c : Command σ) :
    heard p (l.step c).2 =
      (c.event? l).toList.flatMap fun event => List.replicate (l.sinks.countP p) event := by
  have hdispatch (event : Event) :
      heard p (l.dispatch event) = List.replicate (l.sinks.countP p) event := by
    simp [heard, dispatch, List.filter_map, Function.comp_def, List.countP_eq_length_filter]
  rw [step_told]
  cases c.event? l with
  | none => rfl
  | some event => simpa using hdispatch event

/-- Sinks that are not there and do not come hear nothing. -/
theorem heard_told_of_absent {l : Logger σ} {cs : List (Command σ)}
    (hnow : l.sinks.countP p = 0) (hlater : ∀ c ∈ cs, c.newSinks.countP p = 0) :
    heard p (l.told cs) = [] := by
  induction cs generalizing l with
  | nil => rfl
  | cons c cs ih =>
    rw [List.forall_mem_cons] at hlater
    have hstep : (l.step c).1.sinks.countP p = 0 := by
      rw [countP_sinks_step, hlater.1, hnow, ite_self]
    rw [told, heard_append, ih hstep hlater.2, heard_step, hnow]
    simp

/-- A sink that is there hears all that is issued until the sinks are taken away. -/
theorem heard_told_of_present {l : Logger σ} {cs : List (Command σ)}
    (hnow : l.sinks.countP p = 1) (hlater : ∀ c ∈ cs, c.newSinks.countP p = 0) :
    heard p (l.told cs) = l.issued (cs.takeWhile fun c => !c.clears) := by
  induction cs generalizing l with
  | nil => rfl
  | cons c cs ih =>
    rw [List.forall_mem_cons] at hlater
    have hstep : (l.step c).1.sinks.countP p = if c.clears then 0 else 1 := by
      rw [countP_sinks_step, hlater.1, hnow, Nat.add_zero]
    rw [told, heard_append, heard_step, hnow]
    cases hclears : c.clears with
    | true =>
      rw [hclears, if_pos rfl] at hstep
      rw [heard_told_of_absent hstep hlater.2, event?_of_clears hclears]
      simp [hclears, issued]
    | false =>
      rw [hclears] at hstep
      rw [ih hstep hlater.2]
      simp [hclears, issued]

theorem countP_sinks_after_of_absent {l : Logger σ} {cs : List (Command σ)}
    (hnow : l.sinks.countP p = 0) (hcs : ∀ c ∈ cs, c.newSinks.countP p = 0) :
    (l.after cs).sinks.countP p = 0 := by
  induction cs using List.reverseRecOn with
  | nil => exact hnow
  | append_singleton cs c ih =>
    rw [List.forall_mem_append, List.forall_mem_singleton] at hcs
    rw [after_concat, countP_sinks_step, hcs.2, ih hcs.1, ite_self]

/-- From the command that brings it, if no other brings it. -/
theorem heard_told_arrival {l : Logger σ} {before rest : List (Command σ)} {c : Command σ}
    (hnow : l.sinks.countP p = 0) (hbefore : ∀ c ∈ before, c.newSinks.countP p = 0)
    (hc : c.newSinks.countP p = 1) (hrest : ∀ c ∈ rest, c.newSinks.countP p = 0) :
    heard p (l.told (before ++ c :: rest)) =
      ((l.after before).step c).1.issued (rest.takeWhile fun c => !c.clears) := by
  have habsent := countP_sinks_after_of_absent hnow hbefore
  have hthere : ((l.after before).step c).1.sinks.countP p = 1 := by
    rw [countP_sinks_step, hc, habsent, ite_self]
  rw [told_append, heard_append, heard_told_of_absent hnow hbefore, told, heard_append,
    heard_step, habsent, heard_told_of_present hthere hrest]
  simp

end Heard

section Marks

variable {f : τ → σ} {g : ℕ → σ → τ}

theorem event?_mapSinks (f : τ → σ) (g : ℕ → σ → τ) (l : Logger τ) (c : Command σ) :
    (c.mapSinks g).event? l = c.event? (l.map f) := by
  cases c <;> rfl

theorem map_step_mapSinks (hfg : ∀ i sink, f (g i sink) = sink) (l : Logger τ) (c : Command σ) :
    (l.step (c.mapSinks g)).1.map f = ((l.map f).step c).1 := by
  have hsinks (sinks : List σ) : (sinks.zipIdx.map fun p => g p.2 p.1).map f = sinks := by
    simp [Function.comp_def, hfg]
  cases c with
  | configure config sinks =>
    unfold step Command.mapSinks configured map
    dsimp only
    split <;> simp only [hsinks]
  | addSink sink => simp [step, Command.mapSinks, addSink, map, hfg]
  | _ => rfl

/-- Sinks that stand for others are told what those are told. -/
theorem map_told_mapSinks (f : τ → σ) (g : ℕ → σ → τ) (l : Logger τ) (c : Command σ) :
    ((l.step (c.mapSinks g)).2.map fun d => (f d.1, d.2)) = ((l.map f).step c).2 := by
  rw [step_told, step_told, event?_mapSinks f]
  cases c.event? (l.map f) with
  | none => rfl
  | some event => simp [dispatch, map]

end Marks

end Logger

/-- A sink with the number of the command that brings it and its own among the new sinks. -/
structure Arrival (σ : Type) where
  command : ℕ
  index : ℕ
  sink : σ

def Arrival.isAt (i j : ℕ) (a : Arrival σ) : Bool :=
  a.command = i ∧ a.index = j

theorem Arrival.countP_newSinks_of_ne {i k : ℕ} (h : k ≠ i) (j : ℕ) (c : Command σ) :
    (c.mapSinks (mk k)).newSinks.countP (isAt i j) = 0 := by
  simp [Command.newSinks_mapSinks, List.countP_eq_zero, isAt, h]

theorem Arrival.countP_newSinks {i j : ℕ} {c : Command σ} (hj : j < c.newSinks.length) :
    (c.mapSinks (mk i)).newSinks.countP (isAt i j) = 1 := by
  have hcount : (c.newSinks.zipIdx.map Prod.snd).count j = 1 := by
    rw [List.zipIdx_map_snd]
    exact List.count_eq_one_of_mem List.nodup_range' (by simpa [List.mem_range'])
  rw [Command.newSinks_mapSinks, List.countP_map, ← hcount, List.count, List.countP_map]
  exact List.countP_congr fun p _ => by simp [isAt]

/-- A run with all sinks marked, the first command being number `start`. -/
def markedFrom (start : ℕ) : List (Command σ) → List (Command (Arrival σ))
  | [] => []
  | c :: cs => c.mapSinks (Arrival.mk start) :: markedFrom (start + 1) cs

theorem markedFrom_append (start : ℕ) (as bs : List (Command σ)) :
    markedFrom start (as ++ bs) = markedFrom start as ++ markedFrom (start + as.length) bs := by
  induction as generalizing start with
  | nil => rfl
  | cons a as ih => simp [markedFrom, ih, Nat.add_assoc, Nat.add_comm 1]

theorem countP_newSinks_markedFrom {i start : ℕ} (j : ℕ) {cs : List (Command σ)}
    (h : i < start ∨ start + cs.length ≤ i) :
    ∀ c ∈ markedFrom start cs, c.newSinks.countP (Arrival.isAt i j) = 0 := by
  induction cs generalizing start with
  | nil => exact fun c hc => absurd hc List.not_mem_nil
  | cons c cs ih =>
    rw [List.length_cons] at h
    exact List.forall_mem_cons.2
      ⟨Arrival.countP_newSinks_of_ne (by omega) j c, ih (by omega)⟩

theorem takeWhile_markedFrom (start : ℕ) (cs : List (Command σ)) :
    ((markedFrom start cs).takeWhile fun c => !c.clears) =
      markedFrom start (cs.takeWhile fun c => !c.clears) := by
  induction cs generalizing start with
  | nil => rfl
  | cons c cs ih =>
    simp only [markedFrom, List.takeWhile_cons, Command.clears_mapSinks, ih]
    split <;> rfl

namespace Logger

theorem map_step_mark (l : Logger (Arrival σ)) (i : ℕ) (c : Command σ) :
    (l.step (c.mapSinks (Arrival.mk i))).1.map Arrival.sink = ((l.map Arrival.sink).step c).1 :=
  map_step_mapSinks (fun _ _ => rfl) l c

theorem map_after_markedFrom (l : Logger (Arrival σ)) (start : ℕ) (cs : List (Command σ)) :
    (l.after (markedFrom start cs)).map Arrival.sink = (l.map Arrival.sink).after cs := by
  induction cs generalizing l start with
  | nil => rfl
  | cons c cs ih =>
    rw [markedFrom, after, after, List.foldl_cons, List.foldl_cons, ← after, ← after, ih,
      map_step_mark]

theorem map_told_markedFrom (l : Logger (Arrival σ)) (start : ℕ) (cs : List (Command σ)) :
    ((l.told (markedFrom start cs)).map fun d => (d.1.sink, d.2)) =
      (l.map Arrival.sink).told cs := by
  induction cs generalizing l start with
  | nil => rfl
  | cons c cs ih =>
    rw [markedFrom, told, told, List.map_append, ih, map_step_mark]
    exact congrArg (· ++ _) (map_told_mapSinks Arrival.sink (Arrival.mk start) l c)

theorem issued_markedFrom (l : Logger (Arrival σ)) (start : ℕ) (cs : List (Command σ)) :
    l.issued (markedFrom start cs) = (l.map Arrival.sink).issued cs := by
  induction cs generalizing l start with
  | nil => rfl
  | cons c cs ih => rw [markedFrom, issued, issued, ih, map_step_mark, event?_mapSinks]

/-- What a sink is told in a run from the beginning, the sink being the new one of number `j` that
the command of number `i` brings. -/
def heardAt (cs : List (Command σ)) (i j : ℕ) : List Event :=
  heard (Arrival.isAt i j) (told {} (markedFrom 0 cs))

/-- A sink hears what is issued between the command that brings it and the next that takes the
sinks away. -/
theorem heardAt_eq {cs : List (Command σ)} {i j : ℕ} {c : Command σ} (hi : cs[i]? = some c)
    (hj : j < c.newSinks.length) :
    heardAt cs i j = (after {} (cs.take (i + 1)) : Logger σ).issued
      ((cs.drop (i + 1)).takeWhile fun c => !c.clears) := by
  obtain ⟨hlt, rfl⟩ := List.getElem?_eq_some_iff.1 hi
  have hsplit : cs = cs.take i ++ cs[i] :: cs.drop (i + 1) := by
    rw [← List.drop_eq_getElem_cons hlt, List.take_append_drop]
  have hlength : (cs.take i).length = i := List.length_take_of_le hlt.le
  have hmarked : markedFrom 0 cs = markedFrom 0 (cs.take i) ++
      cs[i].mapSinks (Arrival.mk i) :: markedFrom (i + 1) (cs.drop (i + 1)) := by
    conv_lhs => rw [hsplit, markedFrom_append, hlength, Nat.zero_add, markedFrom]
  rw [heardAt, hmarked, heard_told_arrival rfl (countP_newSinks_markedFrom j (by omega))
    (Arrival.countP_newSinks hj) (countP_newSinks_markedFrom j (by omega)), takeWhile_markedFrom,
    issued_markedFrom, map_step_mark, map_after_markedFrom]
  have htake : cs.take (i + 1) = cs.take i ++ [cs[i]] := List.take_succ_eq_append_getElem hlt
  rw [htake, after_concat]
  rfl

/-- Of two sinks that are there together the later one hears what the earlier one hears from then
on. -/
theorem heardAt_eq_append {cs : List (Command σ)} {i k j m : ℕ} {c d : Command σ}
    (hi : cs[i]? = some c) (hj : j < c.newSinks.length) (hk : cs[k]? = some d)
    (hm : m < d.newSinks.length) (hik : i ≤ k)
    (hkeep : ∀ b ∈ (cs.drop (i + 1)).take (k - i), b.clears = false) :
    heardAt cs i j = (after {} (cs.take (i + 1)) : Logger σ).issued
      ((cs.drop (i + 1)).take (k - i)) ++ heardAt cs k m := by
  have hlater : i + 1 + (k - i) = k + 1 := by omega
  have hkept : ∀ b ∈ (cs.drop (i + 1)).take (k - i), (!b.clears) = true :=
    fun b hb => by rw [hkeep b hb, Bool.not_false]
  have hsplit : ((cs.drop (i + 1)).takeWhile fun c => !c.clears) =
      (cs.drop (i + 1)).take (k - i) ++ (cs.drop (k + 1)).takeWhile fun c => !c.clears := by
    conv_lhs => rw [← List.take_append_drop (k - i) (cs.drop (i + 1))]
    rw [List.takeWhile_append_of_pos hkept, List.drop_drop, hlater]
  have htake : cs.take (k + 1) = cs.take (i + 1) ++ (cs.drop (i + 1)).take (k - i) := by
    rw [← hlater]
    exact List.take_add
  have hafter : (after {} (cs.take (i + 1)) : Logger σ).after ((cs.drop (i + 1)).take (k - i)) =
      after {} (cs.take (k + 1)) := by
    rw [htake, after, after, after, List.foldl_append]
  rw [heardAt_eq hi hj, heardAt_eq hk hm, hsplit, issued_append, hafter]

/-- No record is lost, doubled or moved. Every command tells its event to the sinks that came before
it and were not taken away, in the order in which they came; a sink hears exactly the events issued
from the moment it comes until sinks are taken away; and two that are there together hear the same.
-/
theorem sinks_hear_events (cs : List (Command σ)) :
    ((told {} (markedFrom 0 cs)).map fun d => (d.1.sink, d.2)) = told {} cs ∧
    (∀ i c, cs[i]? = some c → (step (after {} (cs.take i)) c).2 =
      (c.event? (after {} (cs.take i))).toList.flatMap fun event =>
        (remaining (cs.take i)).map fun sink => (sink, event)) ∧
    (∀ i c j, cs[i]? = some c → j < c.newSinks.length →
      heardAt cs i j = (after {} (cs.take (i + 1)) : Logger σ).issued
        ((cs.drop (i + 1)).takeWhile fun c => !c.clears)) ∧
    ∀ i c j k d m, cs[i]? = some c → j < c.newSinks.length → cs[k]? = some d →
      m < d.newSinks.length → i ≤ k →
      (∀ b ∈ (cs.drop (i + 1)).take (k - i), b.clears = false) →
      heardAt cs i j = (after {} (cs.take (i + 1)) : Logger σ).issued
        ((cs.drop (i + 1)).take (k - i)) ++ heardAt cs k m := by
  refine ⟨map_told_markedFrom {} 0 cs, fun i c _ => ?_, fun i c j => heardAt_eq,
    fun i c j k d m => heardAt_eq_append⟩
  have hsinks : (after {} (cs.take i) : Logger σ).sinks = remaining (cs.take i) := by
    rw [sinks_after]
    split <;> rfl
  rw [step_told]
  unfold dispatch
  rw [hsinks]

/-- Two equal sinks, of which one comes later, and a level that holds notes back in between. -/
def crowdedRun : List (Command Unit) :=
  [.addSink (), .log ⟨⟨.debug, "cli", "a"⟩, none⟩, .addSink (), .setLevel .error,
    .note ⟨.warn, "cli", "b"⟩ ⟨"Run", 1⟩, .note ⟨.fatal, "cli", "c"⟩ ⟨"Run", 2⟩, .flush,
    .clearSinks, .log ⟨⟨.fatal, "cli", "d"⟩, none⟩]

theorem crowdedRun_heard :
    heardAt crowdedRun 2 0 = [.record ⟨⟨.fatal, "cli", "c"⟩, some ⟨"Run", 2⟩⟩, .flush] ∧
      heardAt crowdedRun 0 0 =
        [.record ⟨⟨.debug, "cli", "a"⟩, none⟩] ++ heardAt crowdedRun 2 0 := by
  obtain ⟨-, -, heard, together⟩ := sinks_hear_events crowdedRun
  constructor
  · rw [heard 2 (.addSink ()) 0 rfl Nat.one_pos]
    decide
  · rw [together 0 (.addSink ()) 0 2 (.addSink ()) 0 rfl Nat.one_pos rfl Nat.one_pos (by decide)
      (by decide)]
    rfl

end Logger

end GenericIR.Log
