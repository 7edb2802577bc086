import GenericIR.Proofs.Acceptance

/-! Collected symbols. Going on from a table, the walk adds the first definition of every symbol
that the table lacks and rejects every other definition, with a warning each. What one operation
does to a table is said once; rows of operations follow by induction, from any table. -/
namespace GenericIR

open Log

theorem Operation.symbol?_eq_some_iff {op : Operation} {name : String} :
    op.symbol? = some name ↔ op.findAttr symbolKey = some (.string name) := by
  rw [symbol?, Option.bind_eq_some_iff]
  constructor
  · rintro ⟨a, ha, hname⟩
    cases a with
    | string value => rw [ha, Option.some.inj hname]
    | _ => exact absurd hname nofun
  · intro h
    exact ⟨.string name, h, rfl⟩

namespace SymbolTable

variable {α : Type}

theorem insert_of_isSome {table : SymbolTable α} {name : String} (a : α)
    (h : (table.lookup name).isSome) : table.insert name a = (false, table) :=
  if_pos h

theorem insert_of_eq_none {table : SymbolTable α} {name : String} (a : α)
    (h : table.lookup name = none) :
    table.insert name a = (true, ⟨table.definitions.insert name a⟩) := by
  refine if_neg ?_
  rw [Dict.contains, ← lookup, h]
  simp

/-- A symbol that is defined already keeps its definition. -/
theorem lookup_insert (table : SymbolTable α) (key name : String) (a : α) :
    (table.insert key a).2.lookup name =
      (table.lookup name).or (if key = name then some a else none) := by
  cases hkey : table.lookup key with
  | none =>
    rw [insert_of_eq_none a hkey, lookup, Dict.find?_insert, ← lookup]
    split
    · rename_i hname
      rw [← hname, hkey, Option.none_or]
    · rw [Option.or_none]
  | some b =>
    rw [insert_of_isSome a (by rw [hkey]; rfl)]
    split
    · rename_i hname
      rw [← hname, hkey, Option.some_or]
    · rw [Option.or_none]

end SymbolTable

/-- The definitions of a symbol among operations with their positions, in the same order. -/
def definitionsIn (name : String) (row : List (Operation × Nat)) : List Definition :=
  (row.filter fun p => p.1.symbol? = some name).map fun p => ⟨p.2, p.1⟩

theorem definitionsIn_cons (name : String) (p : Operation × Nat) (row : List (Operation × Nat)) :
    definitionsIn name (p :: row) =
      (if p.1.symbol? = some name then [⟨p.2, p.1⟩] else []) ++ definitionsIn name row := by
  by_cases h : p.1.symbol? = some name <;> simp [definitionsIn, h]

/-- What is said of a definition that comes after another one of its symbol. -/
def Definition.duplicateNote (name : String) (d : Definition) : Note where
  level := .warn
  module := "symbols"
  message := "Duplicate symbol @" ++ name ++ " defined by " ++ d.operation.name ++
    " (" ++ d.operation.id ++ ")"

def isWarning (n : Note) : Bool :=
  n.level = .warn

namespace Module

/-- The insertion that the operation asks for, if the table turns it down. -/
def rejection (table : SymbolTable Definition) (op : Operation) (position : Nat) :
    List (String × Definition) :=
  match op.symbol? with
  | none => []
  | some name =>
    if (table.insert name ⟨position, op⟩).1 then [] else [(name, ⟨position, op⟩)]

/-- All insertions that are turned down while a row of operations is added to a table. -/
def rejections (table : SymbolTable Definition) :
    List (Operation × Nat) → List (String × Definition)
  | [] => []
  | (op, position) :: row =>
    rejection table op position ++ rejections (collectStep table op position).value row

theorem collectStep_of_symbol {op : Operation} {name : String} (h : op.symbol? = some name)
    (table : SymbolTable Definition) (position : Nat) :
    (collectStep table op position).value = (table.insert name ⟨position, op⟩).2 ∧
      (collectStep table op position).notes =
        if (table.insert name ⟨position, op⟩).1 then []
        else [Definition.duplicateNote name ⟨position, op⟩] := by
  rw [collectStep, Operation.symbol?_eq_some_iff.1 h]
  rcases hinsert : table.insert name ⟨position, op⟩ with ⟨isNew, later⟩
  simp only [hinsert]
  cases isNew <;> exact ⟨rfl, rfl⟩

/-- An operation without a symbol leaves the table as it is, and no warning. -/
theorem collectStep_of_none {op : Operation} (h : op.symbol? = none)
    (table : SymbolTable Definition) (position : Nat) :
    (collectStep table op position).value = table ∧
      (collectStep table op position).notes.filter isWarning = [] := by
  unfold collectStep
  split
  · exact ⟨rfl, rfl⟩
  · rename_i name hname
    rw [Operation.symbol?_eq_some_iff.2 hname] at h
    exact absurd h nofun
  · exact ⟨rfl, rfl⟩

theorem lookup_collectStep (table : SymbolTable Definition) (op : Operation) (position : Nat)
    (name : String) :
    (collectStep table op position).value.lookup name =
      (table.lookup name).or (if op.symbol? = some name then some ⟨position, op⟩ else none) := by
  cases h : op.symbol? with
  | none => rw [(collectStep_of_none h table position).1, if_neg nofun, Option.or_none]
  | some key =>
    rw [(collectStep_of_symbol h table position).1, SymbolTable.lookup_insert]
    simp only [Option.some.injEq]

theorem warnings_collectStep (table : SymbolTable Definition) (op : Operation) (position : Nat) :
    (collectStep table op position).notes.filter isWarning =
      (rejection table op position).map fun p => p.2.duplicateNote p.1 := by
  cases h : op.symbol? with
  | none => rw [(collectStep_of_none h table position).2, rejection, h, List.map_nil]
  | some name =>
    rw [(collectStep_of_symbol h table position).2, rejection, h]
    split <;> simp_all [isWarning, Definition.duplicateNote]

/-- A definition is turned down exactly where the table has its symbol. -/
theorem rejection_filter (table : SymbolTable Definition) (op : Operation) (position : Nat)
    (name : String) :
    ((rejection table op position).filter fun p => p.1 = name).map Prod.snd =
      if op.symbol? = some name ∧ (table.lookup name).isSome then [⟨position, op⟩] else [] := by
  cases h : op.symbol? with
  | none => simp [rejection, h]
  | some key =>
    by_cases hkey : key = name
    · subst hkey
      cases hlookup : table.lookup key with
      | none => simp [rejection, h, SymbolTable.insert_of_eq_none _ hlookup]
      | some d =>
        have hsome := Option.isSome_of_eq_some hlookup
        simp [rejection, h, SymbolTable.insert_of_isSome _ hsome]
    · unfold rejection
      rw [h]
      split <;> simp_all

/-- The walk over a row, from any table. -/
def collectRow (table : SymbolTable Definition) (row : List (Operation × Nat)) :
    Noted (SymbolTable Definition) :=
  row.foldlM (fun table (op, position) => collectStep table op position) table

theorem collectRow_cons (table : SymbolTable Definition) (op : Operation) (position : Nat)
    (row : List (Operation × Nat)) :
    collectRow table ((op, position) :: row) =
      collectStep table op position >>= fun later => collectRow later row := by
  rw [collectRow, List.foldlM_cons]
  rfl

/-- The first definition of the row counts where the table has none. -/
theorem lookup_collectRow (table : SymbolTable Definition) (row : List (Operation × Nat))
    (name : String) :
    (collectRow table row).value.lookup name =
      (table.lookup name).or (definitionsIn name row).head? := by
  induction row generalizing table with
  | nil => simp [collectRow, definitionsIn]
  | cons p row ih =>
    obtain ⟨op, position⟩ := p
    rw [collectRow_cons, Noted.value_bind, ih, lookup_collectStep, definitionsIn_cons]
    by_cases h : op.symbol? = some name <;> simp [h]

theorem warnings_collectRow (table : SymbolTable Definition) (row : List (Operation × Nat)) :
    (collectRow table row).notes.filter isWarning =
      (rejections table row).map fun p => p.2.duplicateNote p.1 := by
  induction row generalizing table with
  | nil => rfl
  | cons p row ih =>
    obtain ⟨op, position⟩ := p
    rw [collectRow_cons, Noted.notes_bind, List.filter_append, ih, warnings_collectStep,
      rejections, List.map_append]

/-- All definitions of a symbol are turned down but the first, and that one too where the table
has another already. -/
theorem rejections_filter (table : SymbolTable Definition) (row : List (Operation × Nat))
    (name : String) :
    ((rejections table row).filter fun p => p.1 = name).map Prod.snd =
      if (table.lookup name).isSome then definitionsIn name row
      else (definitionsIn name row).tail := by
  induction row generalizing table with
  | nil => simp [rejections, definitionsIn]
  | cons p row ih =>
    obtain ⟨op, position⟩ := p
    rw [rejections, List.filter_append, List.map_append, ih, rejection_filter, definitionsIn_cons,
      lookup_collectStep]
    by_cases h : op.symbol? = some name <;> by_cases htable : (table.lookup name).isSome <;>
      simp [h, htable]

/-- The operations in walking order, each with its position. -/
def positioned (m : Module) : List (Operation × Nat) :=
  m.walk.zipIdx

/-- The definitions of a symbol, in walking order. -/
def definitionsOf (m : Module) (name : String) : List Definition :=
  definitionsIn name m.positioned

/-- The insertions that collecting the symbols turns down. -/
def rejectedInsertions (m : Module) : List (String × Definition) :=
  rejections ∅ m.positioned

theorem collectSymbols_eq (m : Module) :
    m.collectSymbols.value = (collectRow ∅ m.positioned).value ∧
      m.collectSymbols.notes.filter isWarning =
        (collectRow ∅ m.positioned).notes.filter isWarning := by
  refine ⟨rfl, ?_⟩
  rw [collectSymbols, Noted.notes_bind, List.filter_append]
  exact List.append_nil _

/-- The first definition of a symbol is the one that is found. -/
theorem lookup_collectSymbols (m : Module) (name : String) :
    m.collectSymbols.value.lookup name = (m.definitionsOf name).head? := by
  rw [m.collectSymbols_eq.1, lookup_collectRow]
  rfl

theorem mem_definitionsOf {m : Module} {name : String} {d : Definition} :
    d ∈ m.definitionsOf name ↔
      m.walk[d.position]? = some d.operation ∧ d.operation.symbol? = some name := by
  obtain ⟨position, op⟩ := d
  simp [definitionsOf, definitionsIn, positioned, List.mem_zipIdx_iff_getElem?]

end Module

end GenericIR
