import Mathlib.Data.List.Nodup
import Mathlib.Data.List.Perm.Basic
import GenericIR.Proofs.Rows

/-! Sites: the operations of a module with the places where they stand, each told apart from
all others by the path that leads to it. A place is said by what comes before it in its own
block. The sites are listed with an operation before those inside it or after them; in the first
of these orders the paths go up. -/
namespace GenericIR

/-- Regions in order, in a region block after block, in a block operation after operation. -/
def Step.Before (s t : Step) : Prop :=
  s.region < t.region ∨
    s.region = t.region ∧ (s.block < t.block ∨ s.block = t.block ∧ s.index < t.index)

/-- A path comes before those that go on from its end; others part at some step, and there the
order of the steps decides. -/
def Path.Before (p q : Path) : Prop :=
  List.Lex Step.Before p q

namespace Path

theorem before_append (path : Path) (step : Step) (rest : Path) :
    path.Before (path ++ step :: rest) := by
  induction path with
  | nil => exact .nil
  | cons s path ih => exact .cons ih

theorem before_of_step {s t : Step} (h : s.Before t) (path p q : Path) :
    Before (path ++ s :: p) (path ++ t :: q) := by
  induction path with
  | nil => exact .rel h
  | cons s path ih => exact .cons ih

theorem Before.asymm {p q : Path} (h : p.Before q) : ¬ q.Before p := by
  have hstep {s t : Step} (h : s.Before t) : ¬ t.Before s := by
    unfold Step.Before at *
    omega
  induction h with
  | nil => exact nofun
  | rel h =>
    rintro (_ | h' | -)
    · exact hstep h h'
    · exact hstep h h
  | cons h ih =>
    rintro (_ | h' | h')
    · exact hstep h' h'
    · exact ih h'

end Path

structure Site where
  path : Path
  op : Operation
  place : Place

/-- The place at index `i` of a block in a region with the given labels. -/
def Block.placeAt (labels : List String) (b : Block) (i : Nat) : Place :=
  ⟨.ofValues (b.boundBefore i), some labels, i == b.body.length⟩

theorem Block.placeAt_eq (labels : List String) (b : Block) (i : Nat) :
    b.placeAt labels i =
      ⟨b.entryScope.bind (earlierResults b.body i), some labels, i == b.body.length⟩ := by
  simp [placeAt, boundBefore, BlockOf.entryScope, Scope.ofValues, Scope.bind_append]

def Module.placeAt (m : Module) (i : Nat) : Place :=
  ⟨.ofValues (earlierResults m.ops i), none, false⟩

/-- An operation before those inside it, or after them. -/
def outerFirst (s : Site) (inside : List Site) : List Site :=
  s :: inside

def innerFirst (s : Site) (inside : List Site) : List Site :=
  inside ++ [s]

section Visits

variable {γ δ : Type}

/-- What `visit` finds at the operations directly inside, from place to place. -/
def Operation.visitInside (op : Operation) (visit : Operation → Path → Place → List γ)
    (path : Path) : List γ :=
  op.regions.zipIdx.flatMap fun (r, j) => r.labelled.zipIdx.flatMap fun (p, k) =>
    p.2.operations.zipIdx.flatMap fun (o, i) =>
      visit o (path ++ [⟨j, k, i⟩]) (Block.placeAt r.labels p.2 i)

/-- The same where each operation comes with its own visit. -/
def visitRegions (regions : List (RegionOf (Operation × (Path → Place → List γ))))
    (path : Path) : List γ :=
  regions.zipIdx.flatMap fun (r, j) => r.labelled.zipIdx.flatMap fun (p, k) =>
    p.2.operations.zipIdx.flatMap fun (a, i) =>
      a.2 (path ++ [⟨j, k, i⟩]) (Block.placeAt r.labels (p.2.map Prod.fst) i)

theorem visitRegions_map (op : Operation) (visit : Operation → Path → Place → List γ)
    (path : Path) :
    visitRegions (op.regions.map (·.map fun o => (o, visit o))) path =
      op.visitInside visit path := by
  simp only [visitRegions, Operation.visitInside, List.zipIdx_map, List.flatMap_map,
    RegionOf.labelled_map, BlockOf.operations_map, RegionOf.labels_map, BlockOf.map_map,
    Prod.map_fst, Prod.map_snd, id_eq, BlockOf.map_id]

theorem Operation.mem_children_of_mem_zipIdx {op : Operation} {r : Region × Nat}
    {p : (String × Block) × Nat} {o : Operation × Nat} (hr : r ∈ op.regions.zipIdx)
    (hp : p ∈ r.1.labelled.zipIdx) (ho : o ∈ p.1.2.operations.zipIdx) : o.1 ∈ op.children := by
  have hr := List.fst_mem_of_mem_zipIdx hr
  have hp := List.fst_mem_of_mem_zipIdx hp
  have ho := List.fst_mem_of_mem_zipIdx ho
  exact mem_children hr hp ho

/-- A visit depends only on what is found at the operations directly inside. -/
theorem Operation.visitInside_congr {op : Operation}
    {visit visit' : Operation → Path → Place → List γ} {path : Path}
    (h : ∀ o ∈ op.children, ∀ path place, visit o path place = visit' o path place) :
    op.visitInside visit path = op.visitInside visit' path := by
  unfold visitInside
  refine List.flatMap_congr fun r hr => List.flatMap_congr fun p hp => ?_
  exact List.flatMap_congr fun o ho => h o.1 (mem_children_of_mem_zipIdx hr hp ho) _ _

theorem Operation.visitInside_perm {op : Operation}
    {visit visit' : Operation → Path → Place → List γ} {path : Path}
    (h : ∀ o ∈ op.children, ∀ path place, (visit o path place).Perm (visit' o path place)) :
    (op.visitInside visit path).Perm (op.visitInside visit' path) := by
  unfold visitInside
  refine .flatMap_left _ fun r hr => .flatMap_left _ fun p hp => ?_
  exact .flatMap_left _ fun o ho => h o.1 (mem_children_of_mem_zipIdx hr hp ho) _ _

theorem Operation.flatMap_visitInside (f : γ → List δ) (op : Operation)
    (visit : Operation → Path → Place → List γ) (path : Path) :
    (op.visitInside visit path).flatMap f =
      op.visitInside (fun o path place => (visit o path place).flatMap f) path := by
  simp only [visitInside, List.flatMap_assoc]

theorem Operation.map_visitInside (f : γ → δ) (op : Operation)
    (visit : Operation → Path → Place → List γ) (path : Path) :
    (op.visitInside visit path).map f =
      op.visitInside (fun o path place => (visit o path place).map f) path := by
  simp only [visitInside, List.map_flatMap]

theorem flatMap_zipIdx {α : Type} (l : List α) (f : α → List γ) :
    (l.zipIdx.flatMap fun p => f p.1) = l.flatMap f := by
  conv_rhs => rw [← List.zipIdx_map_fst 0 l, List.flatMap_map]

theorem pairwise_zipIdx {α : Type} (l : List α) : l.zipIdx.Pairwise fun p q => p.2 < q.2 := by
  rw [← List.pairwise_map (f := Prod.snd), List.zipIdx_map_snd]
  exact List.pairwise_lt_range' 1

/-- What is found in one place stands before what is found in a later one. -/
theorem Operation.pairwise_visitInside {op : Operation}
    {visit : Operation → Path → Place → List γ} {path : Path} {R : γ → γ → Prop}
    (own : ∀ o ∈ op.children, ∀ path place, (visit o path place).Pairwise R)
    (apart : ∀ (o o' : Operation) (s t : Step) (place place' : Place), s.Before t →
      ∀ x ∈ visit o (path ++ [s]) place, ∀ y ∈ visit o' (path ++ [t]) place', R x y) :
    (op.visitInside visit path).Pairwise R := by
  refine List.pairwise_flatMap.2 ⟨fun r hr => List.pairwise_flatMap.2 ⟨fun p hp =>
    List.pairwise_flatMap.2 ⟨fun o ho => ?_, ?_⟩, ?_⟩, ?_⟩
  · exact own o.1 (mem_children_of_mem_zipIdx hr hp ho) _ _
  · refine (pairwise_zipIdx _).imp fun {o o'} hindex => ?_
    have hstep : Step.Before ⟨r.2, p.2, o.2⟩ ⟨r.2, p.2, o'.2⟩ := .inr ⟨rfl, .inr ⟨rfl, hindex⟩⟩
    exact apart _ _ _ _ _ _ hstep
  · refine (pairwise_zipIdx _).imp fun {p q} hblock x hx y hy => ?_
    obtain ⟨o, -, hx⟩ := List.mem_flatMap.1 hx
    obtain ⟨o', -, hy⟩ := List.mem_flatMap.1 hy
    have hstep : Step.Before ⟨r.2, p.2, o.2⟩ ⟨r.2, q.2, o'.2⟩ := .inr ⟨rfl, .inl hblock⟩
    exact apart _ _ _ _ _ _ hstep x hx y hy
  · refine (pairwise_zipIdx _).imp fun {r r'} hregion x hx y hy => ?_
    obtain ⟨p, -, hx⟩ := List.mem_flatMap.1 hx
    obtain ⟨o, -, hx⟩ := List.mem_flatMap.1 hx
    obtain ⟨q, -, hy⟩ := List.mem_flatMap.1 hy
    obtain ⟨o', -, hy⟩ := List.mem_flatMap.1 hy
    have hstep : Step.Before ⟨r.2, p.2, o.2⟩ ⟨r'.2, q.2, o'.2⟩ := .inl hregion
    exact apart _ _ _ _ _ _ hstep x hx y hy

/-- A visit that looks neither at paths nor at places. -/
theorem Operation.visitInside_const (op : Operation) (f : Operation → List γ) (path : Path) :
    op.visitInside (fun o _ _ => f o) path = op.children.flatMap f := by
  simp only [visitInside, children, RegionOf.operations, List.flatMap_assoc]
  rw [← flatMap_zipIdx op.regions]
  refine List.flatMap_congr fun r _ => ?_
  rw [← flatMap_zipIdx r.1.labelled]
  exact List.flatMap_congr fun p _ => flatMap_zipIdx p.1.2.operations f

end Visits

namespace Operation

/-- The sites of an operation at the given place and of those inside it. -/
def sites (order : Site → List Site → List Site) (op : Operation) : Path → Place → List Site :=
  op.fold fun op regions path place =>
    order ⟨path, op, place⟩ (visitRegions regions path)

/-- The sites inside stand between an operation and the next, before it or after it. -/
theorem sites_eq (order : Site → List Site → List Site) (op : Operation) (path : Path)
    (place : Place) :
    op.sites order path place = order ⟨path, op, place⟩ (op.visitInside (sites order) path) := by
  rw [sites, fold_eq, visitRegions_map]
  rfl

/-- Every operation of the tree has its site. -/
theorem map_op_sites (op : Operation) (path : Path) (place : Place) :
    (op.sites outerFirst path place).map Site.op = op.walk := by
  induction op using Operation.induction generalizing path place with
  | step op ih =>
    rw [sites_eq, walk_eq, outerFirst, List.map_cons, map_visitInside,
      ← visitInside_const op walk path]
    exact congrArg (op :: ·) (visitInside_congr fun o ho path place => ih o ho path place)

theorem sites_perm (op : Operation) (path : Path) (place : Place) :
    (op.sites innerFirst path place).Perm (op.sites outerFirst path place) := by
  induction op using Operation.induction generalizing path place with
  | step op ih =>
    rw [sites_eq, sites_eq]
    refine (List.perm_append_singleton _ _).trans (.cons _ ?_)
    exact visitInside_perm fun o ho path place => ih o ho path place

theorem prefix_of_mem_sites {op : Operation} {path : Path} {place : Place} {s : Site}
    (hs : s ∈ op.sites outerFirst path place) : path <+: s.path := by
  induction op using Operation.induction generalizing path place with
  | step op ih =>
    rw [sites_eq, outerFirst, List.mem_cons] at hs
    rcases hs with rfl | hs
    · exact List.prefix_refl path
    · simp only [visitInside, List.mem_flatMap] at hs
      obtain ⟨r, hr, p, hp, o, ho, hs⟩ := hs
      exact (List.prefix_append path _).trans (ih o.1 (mem_children_of_mem_zipIdx hr hp ho) hs)

/-- Sites below different steps of one path are in the order of the steps. -/
theorem before_of_mem_sites {o o' : Operation} {s t : Step} {place place' : Place}
    (h : s.Before t) (path : Path) {x y : Site} (hx : x ∈ o.sites outerFirst (path ++ [s]) place)
    (hy : y ∈ o'.sites outerFirst (path ++ [t]) place') : x.path.Before y.path := by
  obtain ⟨p, hp⟩ := prefix_of_mem_sites hx
  obtain ⟨q, hq⟩ := prefix_of_mem_sites hy
  rw [← hp, ← hq, List.append_assoc, List.append_assoc]
  exact Path.before_of_step h path p q

/-- The sites of a tree are listed in the order of their paths. -/
theorem pairwise_sites (op : Operation) (path : Path) (place : Place) :
    (op.sites outerFirst path place).Pairwise fun s t => s.path.Before t.path := by
  induction op using Operation.induction generalizing path place with
  | step op ih =>
    rw [sites_eq, outerFirst, List.pairwise_cons]
    constructor
    · intro s hs
      simp only [visitInside, List.mem_flatMap] at hs
      obtain ⟨r, -, p, -, o, -, hs⟩ := hs
      obtain ⟨rest, hrest⟩ := prefix_of_mem_sites hs
      rw [← hrest, List.append_assoc]
      exact Path.before_append path _ rest
    · refine pairwise_visitInside (fun o ho path place => ih o ho path place) ?_
      exact fun o o' s t place place' h x hx y hy => before_of_mem_sites h path hx hy

theorem mem_sites_self (op : Operation) (path : Path) (place : Place) :
    ⟨path, op, place⟩ ∈ op.sites outerFirst path place := by
  rw [sites_eq]
  exact List.mem_cons_self

/-- Sites directly inside a site are listed with it. -/
theorem mem_sites_inside {op o : Operation} {path : Path} {place : Place} {s : Site} {r : Region}
    {p : String × Block} {j k i : Nat} (hs : s ∈ op.sites outerFirst path place)
    (hr : s.op.regions[j]? = some r) (hp : r.labelled[k]? = some p)
    (ho : p.2.operations[i]? = some o) :
    ⟨s.path ++ [⟨j, k, i⟩], o, Block.placeAt r.labels p.2 i⟩ ∈ op.sites outerFirst path place := by
  induction op using Operation.induction generalizing path place with
  | step op ih =>
    rw [sites_eq, outerFirst, List.mem_cons] at hs ⊢
    right
    simp only [visitInside, List.mem_flatMap] at hs ⊢
    rcases hs with rfl | ⟨r', hr', p', hp', c, hc, hs⟩
    · exact ⟨(r, j), List.mem_zipIdx_iff_getElem?.2 hr, (p, k), List.mem_zipIdx_iff_getElem?.2 hp,
        (o, i), List.mem_zipIdx_iff_getElem?.2 ho, mem_sites_self o _ _⟩
    · exact ⟨r', hr', p', hp', c, hc, ih c.1 (mem_children_of_mem_zipIdx hr' hp' hc) hs⟩

/-- From an operation at its place the listing goes on to operations at theirs. -/
theorem stands_of_mem_sites {m : Module} {op : Operation} {path : Path} {bound : List Value}
    {place : Place} {s : Site} (h : m.Stands path op bound) (hplace : place.scope = .ofValues bound)
    (hs : s ∈ op.sites outerFirst path place) :
    ∃ bound, m.Stands s.path s.op bound ∧ s.place.scope = .ofValues bound := by
  induction op using Operation.induction generalizing path bound place with
  | step op ih =>
    rw [sites_eq, outerFirst, List.mem_cons] at hs
    rcases hs with rfl | hs
    · exact ⟨bound, h, hplace⟩
    · simp only [visitInside, List.mem_flatMap] at hs
      obtain ⟨r, hr, p, hp, o, ho, hs⟩ := hs
      have hblock : Region.block? r.1 p.2 = some p.1.2 := by
        rw [← Region.map_getElem?_labelled, List.mem_zipIdx_iff_getElem?.1 hp, Option.map_some]
      have hinside : m.Stands (path ++ [⟨r.2, p.2, o.2⟩]) o.1 (Block.boundBefore p.1.2 o.2) :=
        .inside h (List.mem_zipIdx_iff_getElem?.1 hr) hblock (List.mem_zipIdx_iff_getElem?.1 ho)
      exact ih o.1 (mem_children_of_mem_zipIdx hr hp ho) hinside rfl hs

end Operation

namespace Module

def sites (order : Site → List Site → List Site) (m : Module) : List Site :=
  m.ops.zipIdx.flatMap fun (op, i) => op.sites order [⟨0, 0, i⟩] (m.placeAt i)

theorem map_op_sites (m : Module) : (m.sites outerFirst).map Site.op = m.walk := by
  simp only [sites, List.map_flatMap, Operation.map_op_sites]
  exact flatMap_zipIdx m.ops Operation.walk

theorem sites_perm (m : Module) : (m.sites innerFirst).Perm (m.sites outerFirst) :=
  .flatMap_left _ fun op _ => op.1.sites_perm _ _

/-- The sites are listed in the order of their paths. -/
theorem pairwise_sites (m : Module) :
    (m.sites outerFirst).Pairwise fun s t => s.path.Before t.path := by
  refine List.pairwise_flatMap.2 ⟨fun op _ => op.1.pairwise_sites _ _, ?_⟩
  refine (pairwise_zipIdx m.ops).imp fun {op op'} hindex x hx y hy => ?_
  have hstep : Step.Before ⟨0, 0, op.2⟩ ⟨0, 0, op'.2⟩ := .inr ⟨rfl, .inr ⟨rfl, hindex⟩⟩
  exact Operation.before_of_mem_sites hstep [] hx hy

/-- No two sites have the same path. -/
theorem nodup_path_sites (m : Module) : ((m.sites outerFirst).map Site.path).Nodup := by
  refine List.pairwise_map.2 (m.pairwise_sites.imp fun {s t} h heq => ?_)
  rw [heq] at h
  exact h.asymm h

theorem eq_of_path_eq {m : Module} {s t : Site} (hs : s ∈ m.sites outerFirst)
    (ht : t ∈ m.sites outerFirst) (h : s.path = t.path) : s = t :=
  List.inj_on_of_nodup_map m.nodup_path_sites hs ht h

/-- Every site is of an operation that stands there, in the scope of what is bound before it. -/
theorem stands_of_mem_sites {m : Module} {s : Site} (hs : s ∈ m.sites outerFirst) :
    ∃ bound, m.Stands s.path s.op bound ∧ s.place.scope = .ofValues bound := by
  obtain ⟨op, hop, hs⟩ := List.mem_flatMap.1 hs
  exact Operation.stands_of_mem_sites (.top (List.mem_zipIdx_iff_getElem?.1 hop)) rfl hs

/-- Every operation has its site where it stands. -/
theorem Stands.exists_site {m : Module} {path : Path} {op : Operation} {bound : List Value}
    (h : m.Stands path op bound) :
    ∃ s ∈ m.sites outerFirst, s.path = path ∧ s.op = op ∧ s.place.scope = .ofValues bound := by
  induction h with
  | @top i op hop =>
    refine ⟨⟨[⟨0, 0, i⟩], op, m.placeAt i⟩, ?_, rfl, rfl, rfl⟩
    refine List.mem_flatMap.2 ⟨(op, i), List.mem_zipIdx_iff_getElem?.2 hop, ?_⟩
    exact Operation.mem_sites_self op _ _
  | @inside path outer op bound r b j k i _ hr hb ho ih =>
    obtain ⟨s, hs, rfl, rfl, -⟩ := ih
    rw [← Region.map_getElem?_labelled] at hb
    obtain ⟨p, hp, rfl⟩ := Option.map_eq_some_iff.1 hb
    refine ⟨⟨s.path ++ [⟨j, k, i⟩], op, Block.placeAt r.labels p.2 i⟩, ?_, rfl, rfl, rfl⟩
    obtain ⟨top, htop, hs⟩ := List.mem_flatMap.1 hs
    exact List.mem_flatMap.2 ⟨top, htop, Operation.mem_sites_inside hs hr hp ho⟩

/-- The walk comes to every operation that stands somewhere, and to nothing else. -/
theorem mem_walk_iff {m : Module} {op : Operation} :
    op ∈ m.walk ↔ ∃ path bound, m.Stands path op bound := by
  rw [← m.map_op_sites, List.mem_map]
  constructor
  · rintro ⟨s, hs, rfl⟩
    obtain ⟨bound, h, -⟩ := stands_of_mem_sites hs
    exact ⟨s.path, bound, h⟩
  · rintro ⟨path, bound, h⟩
    obtain ⟨s, hs, -, hop, -⟩ := h.exists_site
    exact ⟨s, hs, hop⟩

theorem forall_mem_walk_iff {m : Module} {P : Operation → Prop} :
    (∀ op ∈ m.walk, P op) ↔ ∀ path op bound, m.Stands path op bound → P op := by
  simp only [mem_walk_iff, forall_exists_index]
  exact ⟨fun h path op bound => h op path bound, fun h op path bound => h path op bound⟩

end Module

end GenericIR
