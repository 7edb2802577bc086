import Mathlib.Data.List.Forall2
import GenericIR.Operation.Printer
import GenericIR.Operation.Walk

/-! Aligned trees: trees of one shape that differ at most in what their operations say of
themselves. Operations in the same places are related by a relation of one's choice, and printing
and walking follow from what that relation says of two operations without their regions. -/
namespace GenericIR

/-- The trees have the same blocks, with the same labels and arguments, and `R` holds between the
operations in the same places. The regions of both are found in one list of regions of pairs. -/
inductive Operation.Aligned (R : Operation → Operation → Prop) : Operation → Operation → Prop
  | node {a b : Operation} {pairs : List (RegionOf (Operation × Operation))} (own : R a b)
      (left : a.regions = pairs.map (·.map Prod.fst))
      (right : b.regions = pairs.map (·.map Prod.snd))
      (inside : ∀ r ∈ pairs, ∀ p ∈ r.operations, Aligned R p.1 p.2) : Aligned R a b

/-- Operation by operation; the place of a module has to be the same. -/
structure Module.Aligned (R : Operation → Operation → Prop) (m n : Module) : Prop where
  ops : List.Forall₂ (Operation.Aligned R) m.ops n.ops
  loc : m.loc = n.loc

variable {α β γ : Type}

theorem forall₂_flatMap {R : α → β → Prop} {S : γ → γ → Prop} {f : α → List γ} {g : β → List γ}
    {as : List α} {bs : List β} (h : List.Forall₂ R as bs)
    (hfg : ∀ a ∈ as, ∀ b, R a b → List.Forall₂ S (f a) (g b)) :
    List.Forall₂ S (as.flatMap f) (bs.flatMap g) := by
  induction h with
  | nil => exact .nil
  | cons hab _ ih =>
    rw [List.forall_mem_cons] at hfg
    rw [List.flatMap_cons, List.flatMap_cons]
    exact List.rel_append (hfg.1 _ hab) (ih hfg.2)

theorem forall₂_map_map {R : β → γ → Prop} {f : α → β} {g : α → γ} {as : List α}
    (h : ∀ a ∈ as, R (f a) (g a)) : List.Forall₂ R (as.map f) (as.map g) := by
  rw [List.forall₂_map_left_iff, List.forall₂_map_right_iff, List.forall₂_same]
  exact h

namespace Operation

variable {R : Operation → Operation → Prop} {a b : Operation}

theorem Aligned.own (h : a.Aligned R b) : R a b := by
  cases h
  assumption

theorem Aligned.imp {S : Operation → Operation → Prop} (hRS : ∀ a b, R a b → S a b)
    (h : a.Aligned R b) : a.Aligned S b := by
  induction h with
  | node own left right _ ih => exact .node (hRS _ _ own) left right ih

/-- A change made to every operation of a tree is aligned with what it was made from. -/
theorem aligned_fold {f : Operation → Operation} (hregions : ∀ op, (f op).regions =
      op.regions.map (·.map f)) (hR : ∀ op, R op (f op)) (op : Operation) : op.Aligned R (f op) := by
  induction op using Operation.induction with
  | step op ih =>
    refine @Aligned.node _ _ _ (op.regions.map (·.map fun o => (o, f o))) (hR op) ?_ ?_ ?_
    · simp only [List.map_map, Function.comp_def, RegionOf.map_map, RegionOf.map_id, List.map_id_fun',
        id_eq]
    · rw [hregions]
      simp only [List.map_map, Function.comp_def, RegionOf.map_map]
    · simp only [List.forall_mem_map, RegionOf.operations_map]
      intro r hr o ho
      exact ih o (List.mem_flatMap.2 ⟨r, hr, ho⟩)

/-- Aligned trees are walked in step. -/
theorem Aligned.walk (h : a.Aligned R b) : List.Forall₂ (Aligned R) a.walk b.walk := by
  induction h with
  | @node a b pairs own left right inside ih =>
    have hchildren {f : Operation × Operation → Operation} {o : Operation}
        (ho : o.regions = pairs.map (·.map f)) :
        o.children = (pairs.flatMap RegionOf.operations).map f := by
      simp only [children, ho, List.flatMap_map, RegionOf.operations_map, List.map_flatMap]
    rw [walk_eq, walk_eq, hchildren left, hchildren right]
    refine .cons (.node own left right inside) ?_
    let InStep (o o' : Operation) : Prop := List.Forall₂ (Aligned R) o.walk o'.walk
    refine forall₂_flatMap (R := InStep) (forall₂_map_map fun p hp => ?_) fun _ _ _ h => h
    obtain ⟨r, hr, hp⟩ := List.mem_flatMap.1 hp
    exact ih r hr p hp

end Operation

/-- Both bind the same and print the same. -/
def Printed.Like (p q : Operation × Printed) : Prop :=
  p.1.results = q.1.results ∧ p.2 = q.2

theorem Printed.sequence_congr {ps qs : List (Operation × Printed)} (h : List.Forall₂ Like ps qs)
    {last last' : Printed} (hlast : last = last') (scope : Scope) :
    sequence scope ps last = sequence scope qs last' := by
  induction h generalizing scope with
  | nil => rw [hlast]
  | @cons p q _ _ hpq _ ih =>
    obtain ⟨hresults, hprinted⟩ := hpq
    rw [sequence, sequence, hresults, hprinted, ih]

theorem Printed.region_congr {f g : α → Operation × Printed} {r : RegionOf α}
    (h : ∀ a ∈ r.operations, Like (f a) (g a)) : region (r.map f) = region (r.map g) := by
  have hblock (p : String × BlockOf α) (hp : p ∈ r.labelled) :
      block p.1 (p.2.map f) = block p.1 (p.2.map g) := by
    have hop (a : α) (ha : a ∈ p.2.operations) := h a (List.mem_flatMap.2 ⟨p, hp, ha⟩)
    have hbody : List.Forall₂ Like (p.2.body.map f) (p.2.body.map g) :=
      forall₂_map_map fun a ha => hop a (List.mem_append_left _ ha)
    have hlast := (hop p.2.terminator (by simp [BlockOf.operations])).2
    exact congrArg (_ ++ ·) (sequence_congr hbody hlast _)
  rw [region, region, RegionOf.labelled_map, RegionOf.labelled_map, List.map_map, List.map_map]
  exact congrArg Page.concat (List.map_congr_left hblock)

/-- What an operation adds around its printed regions, and what it binds, is the same for both. -/
def Operation.PrintsLike (options options' : PrintOptions) (a b : Operation) : Prop :=
  a.results = b.results ∧
    ∀ scope regions, a.frame options scope regions = b.frame options' scope regions

variable {options options' : PrintOptions}

theorem Operation.Aligned.page_eq {a b : Operation}
    (h : a.Aligned (PrintsLike options options') b) : a.page options = b.page options' := by
  induction h with
  | @node a b pairs own left right inside ih =>
    have hregion (r : RegionOf (Operation × Operation)) (hr : r ∈ pairs) :
        Region.page options (r.map Prod.fst) = Region.page options' (r.map Prod.snd) := by
      rw [Region.page, Region.page, RegionOf.map_map, RegionOf.map_map]
      exact Printed.region_congr fun p hp => ⟨(inside r hr p hp).own.1, ih r hr p hp⟩
    funext scope
    rw [Operation.page_eq, Operation.page_eq, left, right, List.map_map, List.map_map, own.2]
    exact congrArg _ (List.map_congr_left hregion)

theorem Module.body_eq_of_aligned {m n : Module}
    (h : List.Forall₂ (Operation.Aligned (Operation.PrintsLike options options')) m.ops n.ops) :
    m.body options = n.body options' := by
  refine Printed.sequence_congr ?_ rfl ∅
  rw [List.forall₂_map_left_iff, List.forall₂_map_right_iff]
  exact h.imp fun a b hab => ⟨hab.own.1, hab.page_eq⟩

theorem Module.print_eq_of_aligned {m n : Module}
    (h : List.Forall₂ (Operation.Aligned (Operation.PrintsLike options options')) m.ops n.ops)
    (hloc : m.loc.print options = n.loc.print options') : m.print options = n.print options' := by
  rw [print, print, page, page, body_eq_of_aligned h, hloc]

end GenericIR
