import GenericIR.Proofs.Alignment
import GenericIR.Proofs.DuplicateSymbols
import GenericIR.Proofs.KeyOrder

/-! The order of insertions. Modules whose dictionaries came about differently, but answer alike,
print alike and define the same symbols. Verification finds the same faults in them, in whatever
order the attributes of an operation are visited in the one and in the other. -/
namespace GenericIR

variable {α β : Type}

/-- But for what is inside, the two differ at most in how their dictionaries came about. -/
def Operation.SameEntries (a b : Operation) : Prop :=
  b = { a with attrs := b.attrs, regions := b.regions } ∧
    ∀ key, a.findAttr key = b.findAttr key

/-- An order in which to visit dictionaries, which passes every entry that counts once. -/
def VisitsEntries (order : AttrDict → List (String × Attr)) : Prop :=
  ∀ attrs, (order attrs).Perm attrs.toSortedList

section Visiting

variable (order : AttrDict → List (String × Attr))

/-- The faults of an operation, its attributes being visited in the given order. -/
def Operation.faultsIn (op : Operation) (place : Place) : List Fault :=
  op.operandFaults place.scope ++ op.markFaults place.isLast ++
    op.successorFaults place.labels ++ (order op.attrs).flatMap fun (key, a) => a.faults key

def Operation.checkIn (op : Operation) : Checked :=
  op.fold fun op regions place =>
    (op.faultsIn order place).map op.diagnose ++ regions.flatMap Checked.region

theorem Operation.checkIn_eq (op : Operation) (place : Place) :
    op.checkIn order place = (op.faultsIn order place).map op.diagnose ++
      op.regions.flatMap fun r => Checked.region (r.map fun o => (o, o.checkIn order)) := by
  rw [checkIn, fold_eq, List.flatMap_map]
  rfl

/-- The diagnostics of a module, the attributes of each operation being visited in that order. -/
def Module.diagnosticsIn (m : Module) : List Diagnostic :=
  (Checked.sequence none ∅ (m.ops.map fun op => (op, op.checkIn order)) fun _ => []) ++
    m.symbolDiagnostics

end Visiting

/-- Verification itself visits the attributes by their keys. -/
theorem Module.diagnosticsIn_toSortedList (m : Module) :
    m.diagnosticsIn Dict.toSortedList = m.diagnostics := rfl

theorem visitsEntries_toSortedList : VisitsEntries Dict.toSortedList :=
  fun _ => .refl _

namespace Checked

/-- Both bind the same, are named the same in diagnostics, and have the same faults. -/
structure Like (p q : Operation × Checked) : Prop where
  results : p.1.results = q.1.results
  diagnose : p.1.diagnose = q.1.diagnose
  checked : ∀ place, (p.2 place).Perm (q.2 place)

variable {f g : α → Operation × Checked}

theorem sequence_perm {ps qs : List (Operation × Checked)} (h : List.Forall₂ Like ps qs)
    {last last' : Scope → List Diagnostic} (hlast : ∀ scope, (last scope).Perm (last' scope))
    (labels : Option (List String)) (scope : Scope) :
    (sequence labels scope ps last).Perm (sequence labels scope qs last') := by
  induction h generalizing scope with
  | nil => exact hlast scope
  | @cons p q _ _ hpq _ ih =>
    have hredefinitions : p.1.redefinitions scope = q.1.redefinitions scope := by
      rw [Operation.redefinitions, Operation.redefinitions, hpq.results, hpq.diagnose]
    rw [sequence, sequence, hredefinitions, hpq.results]
    exact ((hpq.checked _).append_right _).append (ih _)

theorem block_perm {b : BlockOf α} (h : ∀ a ∈ b.operations, Like (f a) (g a))
    (labels : List String) : (block labels (b.map f)).Perm (block labels (b.map g)) := by
  have hlast := h b.terminator (by simp [BlockOf.operations])
  have hargs : (repeats Value.name [] b.args).map
      (fun v => (f b.terminator).1.diagnose (.duplicateArgument v.name)) =
        (repeats Value.name [] b.args).map fun v =>
          (g b.terminator).1.diagnose (.duplicateArgument v.name) := by
    rw [hlast.diagnose]
  have hbody : List.Forall₂ Like (b.body.map f) (b.body.map g) :=
    forall₂_map_map fun a ha => h a (List.mem_append_left _ ha)
  have hrow := sequence_perm hbody (fun scope => hlast.checked ⟨scope, some labels, true⟩)
    (some labels) b.entryScope
  exact (List.Perm.of_eq hargs).append hrow

/-- Labels are found repeated whatever comes with the operations of the blocks. -/
theorem map_repeats_labels (r : RegionOf α) (f : α → Operation × Checked) :
    ((repeats Prod.fst [RegionOf.entryLabel] (r.map f).blocks).map fun p =>
        p.2.terminator.1.diagnose (.duplicateLabel p.1)) =
      (repeats Prod.fst [RegionOf.entryLabel] r.blocks).map fun p =>
        (f p.2.terminator).1.diagnose (.duplicateLabel p.1) := by
  rw [RegionOf.map, repeats_map, List.map_map]
  rfl

theorem region_perm {r : RegionOf α} (h : ∀ a ∈ r.operations, Like (f a) (g a)) :
    (region (r.map f)).Perm (region (r.map g)) := by
  have hblock (p : String × BlockOf α) (hp : p ∈ r.labelled) :
      ∀ a ∈ p.2.operations, Like (f a) (g a) :=
    fun a ha => h a (List.mem_flatMap.2 ⟨p, hp, ha⟩)
  have hlabels : (repeats Prod.fst [RegionOf.entryLabel] (r.map f).blocks).map
      (fun p => p.2.terminator.1.diagnose (.duplicateLabel p.1)) =
        (repeats Prod.fst [RegionOf.entryLabel] (r.map g).blocks).map fun p =>
          p.2.terminator.1.diagnose (.duplicateLabel p.1) := by
    rw [map_repeats_labels, map_repeats_labels]
    refine List.map_congr_left fun p hp => ?_
    have hp : p ∈ r.labelled := List.mem_cons_of_mem _ (mem_of_mem_repeats hp)
    have hlast := hblock p hp p.2.terminator (by simp [BlockOf.operations])
    exact congrFun hlast.diagnose _
  refine (List.Perm.of_eq hlabels).append ?_
  rw [RegionOf.labelled_map, RegionOf.labelled_map, List.flatMap_map, List.flatMap_map,
    RegionOf.labels_map, RegionOf.labels_map]
  exact .flatMap_left _ fun p hp => block_perm (hblock p hp) _

end Checked

namespace Operation

variable {a b : Operation}

namespace SameEntries

theorem results_eq (h : a.SameEntries b) : a.results = b.results := by
  rw [h.1]

theorem diagnose_eq (h : a.SameEntries b) : a.diagnose = b.diagnose := by
  rw [h.1]
  rfl

theorem symbol?_eq (h : a.SameEntries b) : a.symbol? = b.symbol? := by
  rw [symbol?, symbol?, h.2]

theorem printsLike (h : a.SameEntries b) (options : PrintOptions) :
    a.PrintsLike options options b := by
  have hempty : a.attrs.isEmpty = b.attrs.isEmpty := by
    rw [Bool.eq_iff_iff, Dict.isEmpty_iff, Dict.isEmpty_iff]
    exact forall_congr' fun key => by rw [← findAttr, ← findAttr, h.2]
  have hprint : a.attrs.print = b.attrs.print := AttrDict.print_congr h.2
  refine ⟨h.results_eq, fun scope regions => ?_⟩
  have hclosing : a.closing options scope = b.closing options scope := by
    unfold closing
    rw [hempty, hprint, h.1]
    rfl
  unfold frame
  rw [hclosing, h.1]
  rfl

/-- The faults are the same, whatever the orders in which the attributes are visited. -/
theorem faultsIn_perm (h : a.SameEntries b) {order order' : AttrDict → List (String × Attr)}
    (horder : VisitsEntries order) (horder' : VisitsEntries order') (place : Place) :
    (a.faultsIn order place).Perm (b.faultsIn order' place) := by
  have hentries : (order a.attrs).Perm (order' b.attrs) := by
    have hsame : a.attrs.toSortedList = b.attrs.toSortedList := Dict.toSortedList_congr h.2
    exact (horder a.attrs).trans (hsame ▸ (horder' b.attrs).symm)
  have hrest : a.operandFaults place.scope ++ a.markFaults place.isLast ++
      a.successorFaults place.labels = b.operandFaults place.scope ++ b.markFaults place.isLast ++
        b.successorFaults place.labels := by
    rw [h.1]
    rfl
  exact (List.Perm.of_eq hrest).append (hentries.flatMap_right _)

end SameEntries

theorem Aligned.checkIn_perm (h : a.Aligned SameEntries b)
    {order order' : AttrDict → List (String × Attr)} (horder : VisitsEntries order)
    (horder' : VisitsEntries order') (place : Place) :
    (a.checkIn order place).Perm (b.checkIn order' place) := by
  induction h generalizing place with
  | @node a b pairs own left right inside ih =>
    rw [checkIn_eq, checkIn_eq, left, right, List.flatMap_map, List.flatMap_map, own.diagnose_eq]
    simp only [RegionOf.map_map]
    refine ((own.faultsIn_perm horder horder' place).map _).append (.flatMap_left _ fun r hr => ?_)
    refine Checked.region_perm fun p hp => ?_
    have hown := (inside r hr p hp).own
    exact ⟨hown.results_eq, hown.diagnose_eq, ih r hr p hp⟩

end Operation

/-- Definitions at one position, by operations that differ at most in how the dictionaries in them
came about. -/
structure Definition.SameEntries (d e : Definition) : Prop where
  position : d.position = e.position
  operation : d.operation.Aligned Operation.SameEntries e.operation

/-- Two rows with the same entries define each symbol at the same positions. -/
theorem definitionsIn_sameEntries (name : String) {as bs : List Operation} (start : ℕ)
    (h : List.Forall₂ (Operation.Aligned Operation.SameEntries) as bs) :
    List.Forall₂ Definition.SameEntries (definitionsIn name (as.zipIdx start))
      (definitionsIn name (bs.zipIdx start)) := by
  induction h generalizing start with
  | nil => exact .nil
  | cons hab _ ih =>
    rw [List.zipIdx_cons, List.zipIdx_cons, definitionsIn_cons, definitionsIn_cons,
      hab.own.symbol?_eq]
    refine List.rel_append ?_ (ih (start + 1))
    split
    · exact .cons ⟨rfl, hab⟩ .nil
    · exact .nil

theorem rel_head? {R : α → β → Prop} {as : List α} {bs : List β} (h : List.Forall₂ R as bs) :
    Option.Rel R as.head? bs.head? := by
  cases h with
  | nil => exact .none
  | cons hab _ => exact .some hab

namespace Module

variable {m n : Module} {order order' : AttrDict → List (String × Attr)}

theorem structure_perm {as bs : List Operation}
    (h : List.Forall₂ (Operation.Aligned Operation.SameEntries) as bs)
    (horder : VisitsEntries order) (horder' : VisitsEntries order') :
    (Checked.sequence none ∅ (as.map fun op => (op, op.checkIn order)) fun _ => []).Perm
      (Checked.sequence none ∅ (bs.map fun op => (op, op.checkIn order')) fun _ => []) := by
  refine Checked.sequence_perm ?_ (fun _ => .refl _) none ∅
  rw [List.forall₂_map_left_iff, List.forall₂_map_right_iff]
  exact h.imp fun a b hab =>
    ⟨hab.own.results_eq, hab.own.diagnose_eq, hab.checkIn_perm horder horder'⟩

/-- The second definitions are found in the same places, and named the same. -/
theorem secondDefinitions_eq {as bs : List Operation}
    (h : List.Forall₂ (Operation.Aligned Operation.SameEntries) as bs) (seen : List String) :
    secondDefinitions seen as = secondDefinitions seen bs := by
  induction h generalizing seen with
  | nil => rfl
  | cons hab _ ih =>
    rw [secondDefinitions, secondDefinitions, hab.own.symbol?_eq, hab.own.diagnose_eq]
    split
    · exact ih seen
    · rw [ih]

theorem Aligned.walk {R : Operation → Operation → Prop} (h : m.Aligned R n) :
    List.Forall₂ (Operation.Aligned R) m.walk n.walk :=
  forall₂_flatMap h.ops fun _ _ _ hab => hab.walk

theorem Aligned.diagnosticsIn_perm (h : m.Aligned Operation.SameEntries n)
    (horder : VisitsEntries order) (horder' : VisitsEntries order') :
    (m.diagnosticsIn order).Perm (n.diagnosticsIn order') := by
  have hsymbols : m.symbolDiagnostics = n.symbolDiagnostics := secondDefinitions_eq h.walk []
  rw [diagnosticsIn, diagnosticsIn, hsymbols]
  exact (structure_perm h.ops horder horder').append_right _

theorem Aligned.accepted_iff (h : m.Aligned Operation.SameEntries n) : m.Accepted ↔ n.Accepted := by
  have hperm := h.diagnosticsIn_perm visitsEntries_toSortedList visitsEntries_toSortedList
  rw [diagnosticsIn_toSortedList, diagnosticsIn_toSortedList] at hperm
  rw [Module.accepted_iff, Module.accepted_iff]
  exact ⟨fun hm => (hm ▸ hperm).symm.eq_nil, fun hn => (hn ▸ hperm).eq_nil⟩

theorem Aligned.lookup_rel (h : m.Aligned Operation.SameEntries n) (name : String) :
    Option.Rel Definition.SameEntries (m.collectSymbols.value.lookup name)
      (n.collectSymbols.value.lookup name) := by
  rw [lookup_collectSymbols, lookup_collectSymbols]
  exact rel_head? (definitionsIn_sameEntries name 0 h.walk)

/-- How dictionaries came about does not show: not in the text, not in what verification finds, and
not in the symbols. A dictionary is listed by increasing keys, every inserted key with its last
value, in brackets that depend on the key `callee` alone. -/
theorem insertion_order_unseen :
    (∀ m n : Module, m.Aligned Operation.SameEntries n →
      (∀ options, m.print options = n.print options) ∧
      (m.Accepted ↔ n.Accepted) ∧
      (∀ order order', VisitsEntries order → VisitsEntries order' →
        (m.diagnosticsIn order).Perm (n.diagnosticsIn order')) ∧
      ∀ name, Option.Rel Definition.SameEntries (m.collectSymbols.value.lookup name)
        (n.collectSymbols.value.lookup name)) ∧
    (∀ m : Module, m.errors = m.diagnosticsIn Dict.toSortedList) ∧
    VisitsEntries Dict.toSortedList ∧
    ∀ attrs : AttrDict,
      (attrs.print =
        if "callee" ∈ attrs.entries.map Prod.fst then
          Text.surround "<\x7b" "\x7d>"
            (Text.commaSeparated (attrs.toSortedList.map AttrDict.printPair))
        else
          Text.surround "\x7b" "\x7d"
            (Text.commaSeparated (attrs.toSortedList.map AttrDict.printPair))) ∧
      ((attrs.toSortedList.map Prod.fst).Pairwise
        fun k l => Text.encode k.toList < Text.encode l.toList) ∧
      (∀ key, key ∈ attrs.toSortedList.map Prod.fst ↔ key ∈ attrs.entries.map Prod.fst) ∧
      ∀ key a, (key, a) ∈ attrs.toSortedList ↔ attrs.LastInserted key a := by
  refine ⟨fun m n h => ⟨fun options => ?_, h.accepted_iff, ?_, h.lookup_rel⟩, errors_eq,
    visitsEntries_toSortedList, fun attrs => ⟨attrs.print_eq, attrs.pairwise_toSortedList, ?_, ?_⟩⟩
  · apply print_eq_of_aligned
    · exact h.ops.imp fun a b hab => hab.imp fun _ _ hsame => hsame.printsLike options
    · rw [h.loc]
  · exact fun order order' => h.diagnosticsIn_perm
  · intro key
    rw [Dict.map_fst_toSortedList, Dict.mem_keys_iff, ← Dict.contains_iff]
    rfl
  · intro key a
    rw [Dict.mem_toSortedList, Dict.find?_eq_some_iff]

end Module

/-- A function that ends in a call, both with symbols, under the given attributes. -/
def calledModule (outer inner : AttrDict) : Module where
  ops := [{
    name := "test.func"
    id := "1"
    attrs := outer
    regions := [{ entry := { terminator :=
      { name := "test.call", id := "2", attrs := inner, isTerminator := true } } }] }]

theorem calledModule_order_unseen :
    let early : AttrDict := (Dict.insert ∅ "callee" (.symbolRef "f")).insert "sym_name" (.string "g")
    let late : AttrDict := ((Dict.insert ∅ "sym_name" .unit).insert "sym_name"
      (.string "g")).insert "callee" (.symbolRef "f")
    (calledModule early late).Aligned Operation.SameEntries (calledModule late early) ∧
      (calledModule early late).print = (calledModule late early).print ∧
      (calledModule early late).diagnostics.Perm (calledModule late early).diagnostics ∧
      (calledModule early late).diagnostics ≠ [] := by
  intro early late
  have hsame (key : String) : early.find? key = late.find? key := by
    simp only [early, late, Dict.find?_insert, Dict.find?_empty]
    by_cases hkey : "callee" = key
    · subst hkey
      rfl
    · rw [if_neg hkey, if_neg hkey]
      split <;> rfl
  have haligned :
      (calledModule early late).Aligned Operation.SameEntries (calledModule late early) := by
    let call (attrs : AttrDict) : Operation :=
      { name := "test.call", id := "2", attrs, isTerminator := true }
    have hcall : (call late).Aligned Operation.SameEntries (call early) :=
      @Operation.Aligned.node _ _ _ [] ⟨rfl, fun key => (hsame key).symm⟩ rfl rfl
        fun _ h => absurd h List.not_mem_nil
    refine ⟨.cons ?_ .nil, rfl⟩
    refine @Operation.Aligned.node _ _ _ [{ entry := { terminator := (call late, call early) } }]
      ⟨rfl, hsame⟩ rfl rfl ?_
    exact List.forall_mem_singleton.2 (List.forall_mem_singleton.2 hcall)
  have hunseen := Module.insertion_order_unseen.1 _ _ haligned
  refine ⟨haligned, funext hunseen.1, ?_, by decide +kernel⟩
  exact hunseen.2.2.1 _ _ visitsEntries_toSortedList visitsEntries_toSortedList

end GenericIR
