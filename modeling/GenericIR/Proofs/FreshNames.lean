import Mathlib.Data.List.Nodup
import GenericIR.Builder
import GenericIR.Proofs.Reading

/-! Fresh names. Counted ids are a stem and a number, and result names go on behind the id with a
character that is no digit. So every name of a chain of drafts says by itself which number was
drawn for it, however the stem ends, and no number is drawn twice until the counter has gone all
the way round. -/
namespace GenericIR

/-- A stem, a number, and a rest in which the number does not go on. -/
def Numbered (stem : String) (n : UInt64) (name : String) : Prop :=
  ∃ rest : Text, ¬ Begins (fun c => c.isDigit = true) rest ∧
    name.toList = stem.toList ++ (Decimal.digits n.toNat ++ rest)

theorem Numbered.unique {stem name : String} {m n : UInt64} (hm : Numbered stem m name)
    (hn : Numbered stem n name) : m = n := by
  obtain ⟨r, hr, hmr⟩ := hm
  obtain ⟨s, hs, hns⟩ := hn
  have hnumbers : Decimal.digits m.toNat ++ r = Decimal.digits n.toNat ++ s :=
    List.append_cancel_left (hmr.symm.trans hns)
  exact UInt64.toNat_inj.1 (Decimal.digits_readApart m.toNat n.toNat hr hs hnumbers).1

theorem numbered_id (stem : String) (n : UInt64) :
    Numbered stem n (stem ++ Decimal.string n.toNat) :=
  ⟨[], not_begins_nil, by simp [Decimal.string]⟩

theorem countedId_inj {stem : String} {m n : UInt64}
    (h : stem ++ Decimal.string m.toNat = stem ++ Decimal.string n.toNat) : m = n :=
  (numbered_id stem m).unique (h ▸ numbered_id stem n)

theorem numbered_result (stem : String) (n : UInt64) (i : Nat) :
    Numbered stem n (stem ++ Decimal.string n.toNat ++ "_" ++ Decimal.string i) :=
  ⟨'_' :: Decimal.digits i, by simp, by simp [Decimal.string]⟩

namespace ResultPlan

/-- A single typed result is called like the operation, several have their positions behind its
id. -/
theorem names_typed (id : String) (types : List Ty) :
    ((typed types).values id).map Value.name =
      if types.length = 1 then [id]
      else (List.range types.length).map fun i => id ++ "_" ++ Decimal.string i := by
  match types with
  | [] => rfl
  | [_] => rfl
  | first :: second :: rest =>
    rw [if_neg (by simp), List.range_eq_range', ← List.zipIdx_map_snd 0 (first :: second :: rest),
      List.map_map, values, List.map_map]
    · rfl
    · rintro _ h
      cases h

theorem nodup_names (id : String) (types : List Ty) :
    (((typed types).values id).map Value.name).Nodup := by
  rw [names_typed]
  split
  · exact List.nodup_singleton id
  · refine List.nodup_range.map fun i j hij => ?_
    have hdigits := congrArg String.toList hij
    simp only [Decimal.string, String.toList_append, String.toList_ofList] at hdigits
    exact Decimal.digits_inj.1 (List.append_cancel_left hdigits)

theorem numbered_of_mem_names {stem : String} {n : UInt64} {types : List Ty} {name : String}
    (h : name ∈ ((typed types).values (stem ++ Decimal.string n.toNat)).map Value.name) :
    Numbered stem n name := by
  rw [names_typed] at h
  split at h
  · obtain rfl := List.mem_singleton.1 h
    exact numbered_id stem n
  · obtain ⟨i, -, rfl⟩ := List.mem_map.1 h
    exact numbered_result stem n i

end ResultPlan

namespace Draft

variable {d : Draft} {types : List Ty}

theorem nodup_resultNames_finish (htypes : d.results = .typed types) (id : String) :
    (d.finish id).resultNames.Nodup := by
  rw [Operation.resultNames, finish, htypes]
  exact ResultPlan.nodup_names id types

theorem numbered_of_mem_resultNames (htypes : d.results = .typed types) {stem name : String}
    {n : UInt64} (h : name ∈ (d.finish (stem ++ Decimal.string n.toNat)).resultNames) :
    Numbered stem n name := by
  rw [Operation.resultNames, finish, htypes] at h
  exact ResultPlan.numbered_of_mem_names h

/-- Builds the drafts one after another, each from the state that the one before it returned. -/
def buildAll {m : Type → Type} [Monad m] {ε : Type} (generate : ε → m (ε × String)) :
    List Draft → ε → m (ε × List Operation)
  | [], state => return (state, [])
  | d :: ds, state => do
    let (state, op) ← d.build generate state
    let (state, ops) ← buildAll generate ds state
    return (state, op :: ops)

theorem build_counterIds (d : Draft) (stem : String) (n : UInt64) :
    (d.build (counterIds stem) n).value =
      (n + 1, d.finish (stem ++ Decimal.string n.toNat)) :=
  rfl

/-- The draft at position `i` gets the number `i` places behind the first. -/
theorem buildAll_counterIds (stem : String) (ds : List Draft) (start : UInt64) :
    (buildAll (counterIds stem) ds start).value =
      (start + .ofNat ds.length, ds.zipIdx.map fun p =>
        p.1.finish (stem ++ Decimal.string (start + .ofNat p.2).toNat)) := by
  induction ds generalizing start with
  | nil => simp [buildAll]
  | cons d ds ih =>
    have hnext (i : Nat) : start + 1 + .ofNat i = start + .ofNat (i + 1) := by
      rw [UInt64.ofNat_add, UInt64.add_assoc, UInt64.add_comm 1]
      rfl
    rw [buildAll, Log.Noted.value_bind, build_counterIds, Log.Noted.value_bind, ih,
      Log.Noted.value_pure, List.length_cons, hnext, List.zipIdx_cons', List.map_cons,
      List.map_map]
    simp only [hnext, Function.comp_def, Prod.map, id]
    rw [show UInt64.ofNat 0 = 0 from rfl, UInt64.add_zero]

/-- The counter is not back at its start within the chain, so that no number is drawn twice. -/
theorem pairwise_numbers {ds : List Draft} (start : UInt64) (h : ds.length ≤ UInt64.size) :
    ds.zipIdx.Pairwise fun p q => start + .ofNat p.2 ≠ start + .ofNat q.2 := by
  have hpositions : (ds.zipIdx.map Prod.snd).Nodup := by
    rw [List.zipIdx_map_snd]
    exact List.nodup_range'
  have hbound {p : Draft × Nat} (hp : p ∈ ds.zipIdx) : p.2 < UInt64.size :=
    Nat.lt_of_lt_of_le (List.snd_lt_of_mem_zipIdx hp) h
  refine (List.pairwise_map.1 hpositions).imp_of_mem fun {p q} hp hq hpq hnumbers => hpq ?_
  have hoffsets : UInt64.ofNat p.2 = .ofNat q.2 := (UInt64.add_right_inj start).1 hnumbers
  rw [← UInt64.toNat_ofNat_of_lt' (hbound hp), hoffsets, UInt64.toNat_ofNat_of_lt' (hbound hq)]

/-- The operations of a chain have ids of their own, no two of their results share a name, and
the counter is as many places on as operations were built. -/
theorem buildAll_counterIds_fresh (stem : String) (start : UInt64) {ds : List Draft}
    (htyped : ∀ d ∈ ds, ∃ types, d.results = .typed types) (hlength : ds.length ≤ UInt64.size) :
    let built := (buildAll (counterIds stem) ds start).value
    built.2.length = ds.length ∧ (built.2.map Operation.id).Nodup ∧
      (built.2.flatMap Operation.resultNames).Nodup ∧
      built.1.toNat = (start.toNat + ds.length) % UInt64.size := by
  intro built
  rw [show built = _ from buildAll_counterIds stem ds start]
  have hnumbers := pairwise_numbers start hlength
  refine ⟨by simp, ?ids, ?names, by simp⟩
  case ids =>
    rw [List.map_map]
    exact List.pairwise_map.2 (hnumbers.imp fun hpq hids => hpq (countedId_inj hids))
  case names =>
    rw [List.flatMap_map, List.nodup_flatMap]
    refine ⟨fun p hp => ?_, hnumbers.imp_of_mem fun {p q} hp hq hpq name hnp hnq => hpq ?_⟩
    · obtain ⟨types, htypes⟩ := htyped p.1 (List.fst_mem_of_mem_zipIdx hp)
      exact nodup_resultNames_finish htypes _
    · obtain ⟨_, htp⟩ := htyped p.1 (List.fst_mem_of_mem_zipIdx hp)
      obtain ⟨_, htq⟩ := htyped q.1 (List.fst_mem_of_mem_zipIdx hq)
      exact (numbered_of_mem_resultNames htp hnp).unique (numbered_of_mem_resultNames htq hnq)

/-- Drafts of one result, of two and of none. -/
def oneTwoNone : List Draft :=
  [{ name := "arith.constant", results := .typed [.i32] },
    { name := "arith.divmod", operands := ["%_118446744073709551615"],
      results := .typed [.i32, .i32] },
    { name := "func.return", results := .typed [], isTerminator := true }]

/-- The stem ends like a numbered result, and the counter starts at its last value. -/
theorem oneTwoNone_fresh :
    let built := (buildAll (counterIds "%_1") oneTwoNone 0xffffffffffffffff).value
    built.2.length = 3 ∧ (built.2.map Operation.id).Nodup ∧
      (built.2.flatMap Operation.resultNames).Nodup ∧ built.1.toNat = 2 := by
  have htyped : ∀ d ∈ oneTwoNone, ∃ types, d.results = .typed types := by
    simp [oneTwoNone]
  obtain ⟨hlength, hids, hnames, hlast⟩ :=
    buildAll_counterIds_fresh "%_1" 0xffffffffffffffff htyped (by decide)
  exact ⟨hlength, hids, hnames, hlast⟩

end Draft

end GenericIR
