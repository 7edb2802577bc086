import Mathlib.Data.List.Induction
import GenericIR.Proofs.LogFlags
import GenericIR.Tool.Options

/-! The command line as a sequence of items. The reader takes one item after the other, until
nothing is left or what follows is refused. -/
namespace GenericIR.Tool

open Log

/-- The flags that name a command. -/
def commandFlags : List String :=
  ["-h", "--help", "-V", "--version"]

/-- The options that do not concern the log. -/
def optionNames : List String :=
  ["-o", "--emit-locations", "--verify"]

/-- A unit of the command line. -/
inductive Item where
  | log (arg : String)
  | output (path : String)
  | locations
  | verify
  /-- Says what to do. -/
  | positional (arg : String)
  deriving DecidableEq, Repr

namespace Item

/-- The arguments that make up the item. -/
def args : Item → List String
  | log arg => [arg]
  | output path => ["-o", path]
  | locations => ["--emit-locations"]
  | verify => ["--verify"]
  | positional arg => [arg]

/-- Any argument is good for a file name. -/
def Valid : Item → Prop
  | log arg => isLogOption arg
  | positional arg => arg ∈ commandFlags ∨ arg.toList.head? ≠ some '-'
  | _ => True

def output? : Item → Option String
  | output path => some path
  | _ => none

def positional? : Item → Option String
  | positional arg => some arg
  | _ => none

end Item

/-- Read from left to right, the arguments are these items and then the rest. -/
structure Reads (args : List String) (items : List Item) (rest : List String) : Prop where
  valid : ∀ item ∈ items, item.Valid
  args_eq : args = items.flatMap Item.args ++ rest

def outputs (items : List Item) : List String :=
  items.filterMap Item.output?

def positionals (items : List Item) : List String :=
  items.filterMap Item.positional?

@[simp] theorem positionals_concat (items : List Item) (item : Item) :
    positionals (items ++ [item]) = positionals items ++ item.positional?.toList := by
  cases item <;> simp [positionals, Item.positional?]

@[simp] theorem outputs_concat (items : List Item) (item : Item) :
    outputs (items ++ [item]) = outputs items ++ item.output?.toList := by
  cases item <;> simp [outputs, Item.output?]

/-- The argument looks like an option but is none. -/
structure IsUnknown (arg : String) : Prop where
  dash : arg.toList.head? = some '-'
  noLogOption : ¬ isLogOption arg
  noOption : arg ∉ optionNames
  noCommand : arg ∉ commandFlags

namespace Options

/-- The options that the items give: the last file name, the last positional, and a flag for each
of the others. -/
structure GivenBy (o : Options) (items : List Item) : Prop where
  command : o.command = (positionals items).getLast?.getD ""
  output : o.output = (outputs items).getLast?.getD ""
  locations : o.locations = true ↔ .locations ∈ items
  verify : o.verify = true ↔ .verify ∈ items

/-- After these options, the arguments cannot be read on. -/
inductive Refuses (o : Options) : List String → UsageError → Prop
  | missing : o.Refuses ["-o"] .missingFileName
  | unknown {arg : String} {rest : List String} (unknown : IsUnknown arg) :
      o.Refuses (arg :: rest) (.unknownOption arg)
  | unexpected {arg : String} {rest : List String} (valid : (Item.positional arg).Valid)
      (taken : o.command ≠ "") : o.Refuses (arg :: rest) (.unexpectedArgument arg)

/-- The options after one more item. -/
def take (o : Options) : Item → Options
  | .log _ => o
  | .output path => { o with output := path }
  | .locations => { o with locations := true }
  | .verify => { o with verify := true }
  | .positional arg => { o with command := arg }

def ofItems (items : List Item) : Options :=
  items.foldl take {}

end Options

section Args

variable {arg : String} {item : Item}

theorem isCommandFlag_eq_false_iff : isCommandFlag arg = false ↔ arg ∉ commandFlags := by
  simp [isCommandFlag, commandFlags, and_assoc]

theorem not_isLogOption_of_mem_commandFlags (h : arg ∈ commandFlags) : ¬ isLogOption arg := by
  simp only [commandFlags, List.mem_cons, List.not_mem_nil, or_false] at h
  rcases h with rfl | rfl | rfl | rfl <;> decide

namespace Item

theorem Valid.not_isLogOption (h : (positional arg).Valid) : ¬ isLogOption arg :=
  h.elim not_isLogOption_of_mem_commandFlags fun hdash hlog => hdash (head?_of_isLogOption hlog)

theorem Valid.notMem_optionNames (h : (positional arg).Valid) : arg ∉ optionNames := by
  intro hmem
  simp only [optionNames, List.mem_cons, List.not_mem_nil, or_false] at hmem
  rcases hmem with rfl | rfl | rfl <;> exact h.elim (by decide) (absurd (by decide))

theorem Valid.not_unknown (h : (positional arg).Valid) :
    ¬ (arg.toList.head? = some '-' ∧ isCommandFlag arg = false) := by
  rintro ⟨hdash, hflag⟩
  exact h.elim (isCommandFlag_eq_false_iff.1 hflag) fun hne => hne hdash

end Item

end Args

namespace Options

variable {o : Options} {item : Item} {items : List Item} {arg : String} {args rest : List String}

theorem read_of_isLogOption {arg : String} (h : isLogOption arg) (o : Options)
    (rest : List String) : o.read (arg :: rest) = o.read rest := by
  conv_lhs => unfold read
  exact if_pos h

theorem read_output (o : Options) (path : String) (rest : List String) :
    o.read ("-o" :: path :: rest) = { o with output := path }.read rest := rfl

theorem read_locations (o : Options) (rest : List String) :
    o.read ("--emit-locations" :: rest) = { o with locations := true }.read rest := by
  have hlog : ¬ isLogOption "--emit-locations" := by decide
  conv_lhs => unfold read
  simp [hlog]

theorem read_verify (o : Options) (rest : List String) :
    o.read ("--verify" :: rest) = { o with verify := true }.read rest := by
  have hlog : ¬ isLogOption "--verify" := by decide
  conv_lhs => unfold read
  simp [hlog]

theorem read_of_no_option (hlog : ¬ isLogOption arg) (hoption : arg ∉ optionNames)
    (o : Options) (rest : List String) :
    o.read (arg :: rest) =
      if arg.toList.head? = some '-' ∧ isCommandFlag arg = false then .error (.unknownOption arg)
      else if o.command = "" then { o with command := arg }.read rest
      else .error (.unexpectedArgument arg) := by
  simp only [optionNames, List.mem_cons, List.not_mem_nil, or_false, not_or] at hoption
  conv_lhs => unfold read
  simp [hlog, hoption]

/-- One item is read at a time. -/
theorem read_item (h : item.Valid) (hfree : item.positional? = none ∨ o.command = "")
    (rest : List String) : o.read (item.args ++ rest) = (o.take item).read rest := by
  cases item with
  | log arg => exact read_of_isLogOption h o rest
  | output path => exact read_output o path rest
  | locations => exact read_locations o rest
  | verify => exact read_verify o rest
  | positional arg =>
    have hcommand : o.command = "" := hfree.resolve_left nofun
    have hread := read_of_no_option h.not_isLogOption h.notMem_optionNames o rest
    rwa [if_neg h.not_unknown, if_pos hcommand] at hread

theorem Refuses.read_eq {e : UsageError} (h : o.Refuses args e) : o.read args = .error e := by
  cases h with
  | missing => rfl
  | @unknown arg rest h =>
    have hflag : isCommandFlag arg = false := isCommandFlag_eq_false_iff.2 h.noCommand
    rw [read_of_no_option h.noLogOption h.noOption, if_pos ⟨h.dash, hflag⟩]
  | unexpected h taken =>
    rw [read_of_no_option h.not_isLogOption h.notMem_optionNames, if_neg h.not_unknown, if_neg taken]

/-- Arguments are at their end, or refused, or begin with an item that can be read. -/
theorem args_cases (o : Options) (args : List String) :
    args = [] ∨ (∃ e, o.Refuses args e) ∨
      ∃ (item : Item) (rest : List String), args = item.args ++ rest ∧ item.Valid ∧
        (item.positional? = none ∨ o.command = "") := by
  cases args with
  | nil => exact .inl rfl
  | cons arg rest =>
    refine .inr ?_
    by_cases hlog : isLogOption arg
    · exact .inr ⟨.log arg, rest, rfl, hlog, .inl rfl⟩
    by_cases hoption : arg ∈ optionNames
    · simp only [optionNames, List.mem_cons, List.not_mem_nil, or_false] at hoption
      rcases hoption with rfl | rfl | rfl
      · cases rest with
        | nil => exact .inl ⟨_, .missing⟩
        | cons path rest => exact .inr ⟨.output path, rest, rfl, trivial, .inl rfl⟩
      · exact .inr ⟨.locations, rest, rfl, trivial, .inl rfl⟩
      · exact .inr ⟨.verify, rest, rfl, trivial, .inl rfl⟩
    by_cases hvalid : (Item.positional arg).Valid
    · by_cases hcommand : o.command = ""
      · exact .inr ⟨.positional arg, rest, rfl, hvalid, .inr hcommand⟩
      · exact .inl ⟨_, .unexpected hvalid hcommand⟩
    · simp only [Item.Valid, not_or, not_not] at hvalid
      exact .inl ⟨_, .unknown ⟨hvalid.2, hlog, hoption, hvalid.1⟩⟩

section Items

variable (items : List Item) (item : Item)

theorem ofItems_concat : ofItems (items ++ [item]) = (ofItems items).take item := by
  rw [ofItems, List.foldl_append]
  rfl

theorem givenBy_ofItems : (ofItems items).GivenBy items := by
  induction items using List.reverseRecOn with
  | nil => exact ⟨rfl, rfl, by simp [ofItems], by simp [ofItems]⟩
  | append_singleton items item ih =>
    rw [ofItems_concat]
    obtain ⟨hcommand, houtput, hlocations, hverify⟩ := ih
    constructor <;> cases item <;>
      simp [take, Item.positional?, Item.output?, hcommand, houtput, hlocations, hverify]

end Items

theorem GivenBy.unique {o' : Options} (h : o.GivenBy items) (h' : o'.GivenBy items) : o = o' := by
  have hcommand : o.command = o'.command := h.command.trans h'.command.symm
  have houtput : o.output = o'.output := h.output.trans h'.output.symm
  have hlocations : o.locations = o'.locations :=
    Bool.eq_iff_iff.2 (h.locations.trans h'.locations.symm)
  have hverify : o.verify = o'.verify := Bool.eq_iff_iff.2 (h.verify.trans h'.verify.symm)
  calc o = ⟨o.command, o.output, o.locations, o.verify⟩ := rfl
    _ = ⟨o'.command, o'.output, o'.locations, o'.verify⟩ := by
      rw [hcommand, houtput, hlocations, hverify]

end Options

/-- An empty command is as good as none: only the last positional may be anything else. -/
def OneCommand (items : List Item) : Prop :=
  ∀ arg ∈ (positionals items).dropLast, arg = ""

section OneCommand

variable {items : List Item} {item : Item} {args rest : List String}

theorem forall_eq_empty_iff {words : List String} :
    (∀ word ∈ words, word = "") ↔
      (∀ word ∈ words.dropLast, word = "") ∧ words.getLast?.getD "" = "" := by
  rcases List.eq_nil_or_concat words with rfl | ⟨front, last, rfl⟩
  · simp
  · simp [or_imp, forall_and]

/-- A positional can follow as long as there is no command. -/
theorem oneCommand_concat_iff : OneCommand (items ++ [item]) ↔
    OneCommand items ∧ (item.positional? = none ∨ (Options.ofItems items).command = "") := by
  rw [(Options.givenBy_ofItems items).command, OneCommand, OneCommand, positionals_concat]
  cases item.positional? with
  | none => simp
  | some arg =>
    rw [Option.toList_some, List.dropLast_concat, forall_eq_empty_iff]
    simp

/-- Whole items are read as long as there is one command. -/
theorem Reads.ofArgs_eq (h : Reads args items rest) (hone : OneCommand items) :
    Options.ofArgs args = (Options.ofItems items).read rest := by
  obtain ⟨hvalid, rfl⟩ := h
  induction items using List.reverseRecOn generalizing rest with
  | nil => rfl
  | append_singleton items item ih =>
    obtain ⟨hitems, hfree⟩ := oneCommand_concat_iff.1 hone
    have hitem : item.Valid := hvalid item (by simp)
    -- The earlier items leave the last one to be read before the rest.
    have hread : Options.ofArgs (items.flatMap Item.args ++ (item.args ++ rest)) =
        (Options.ofItems items).read (item.args ++ rest) :=
      ih hitems fun i hi => hvalid i (by simp [hi])
    rw [Options.read_item hitem hfree] at hread
    rw [Options.ofItems_concat, ← hread]
    simp

theorem Reads.concat (h : Reads args items (item.args ++ rest)) (hitem : item.Valid) :
    Reads args (items ++ [item]) rest where
  valid := by
    intro i hi
    rcases List.mem_append.1 hi with hi | hi
    · exact h.valid i hi
    · rwa [List.mem_singleton.1 hi]
  args_eq := by simp [h.args_eq]

/-- Reading goes on until nothing is left or what follows is refused. -/
theorem Reads.exists_end (h : Reads args items rest) (hone : OneCommand items) :
    ∃ items' rest', Reads args items' rest' ∧ OneCommand items' ∧
      (rest' = [] ∨ ∃ e, (Options.ofItems items').Refuses rest' e) := by
  induction hlength : rest.length using Nat.strongRecOn generalizing items rest with
  | ind n ih =>
    rcases (Options.ofItems items).args_cases rest with hend | hrefused |
      ⟨item, rest', rfl, hvalid, hfree⟩
    · exact ⟨items, rest, h, hone, .inl hend⟩
    · exact ⟨items, rest, h, hone, .inr hrefused⟩
    · -- An item takes at least one argument, so that less is left.
      refine ih rest'.length ?_ (h.concat hvalid) (oneCommand_concat_iff.2 ⟨hone, hfree⟩) rfl
      rw [← hlength, List.length_append]
      have hpos : 0 < item.args.length := by cases item <;> simp [Item.args]
      omega

theorem exists_end (args : List String) : ∃ items rest, Reads args items rest ∧ OneCommand items ∧
    (rest = [] ∨ ∃ e, (Options.ofItems items).Refuses rest e) :=
  Reads.exists_end ⟨List.forall_mem_nil _, rfl⟩ (List.forall_mem_nil _)

end OneCommand

section Outcome

variable {args : List String}

theorem Options.ofArgs_eq_ok_iff {o : Options} : ofArgs args = .ok o ↔
    ∃ items, Reads args items [] ∧ OneCommand items ∧ o.GivenBy items := by
  constructor
  · intro hok
    obtain ⟨items, rest, hreads, hone, hend⟩ := exists_end args
    rw [hreads.ofArgs_eq hone] at hok
    rcases hend with rfl | ⟨e, hrefuses⟩
    · obtain rfl := Except.ok.inj hok
      exact ⟨items, hreads, hone, givenBy_ofItems items⟩
    · rw [hrefuses.read_eq] at hok
      cases hok
  · rintro ⟨items, hreads, hone, hgiven⟩
    rw [hgiven.unique (givenBy_ofItems items)]
    exact hreads.ofArgs_eq hone

theorem Options.ofArgs_eq_error_iff {e : UsageError} : ofArgs args = .error e ↔
    ∃ items rest, Reads args items rest ∧ OneCommand items ∧ (ofItems items).Refuses rest e := by
  constructor
  · intro herror
    obtain ⟨items, rest, hreads, hone, hend⟩ := exists_end args
    rw [hreads.ofArgs_eq hone] at herror
    rcases hend with rfl | ⟨e', hrefuses⟩
    · cases herror
    · rw [hrefuses.read_eq] at herror
      obtain rfl := Except.error.inj herror
      exact ⟨items, rest, hreads, hone, hrefuses⟩
  · rintro ⟨items, rest, hreads, hone, hrefuses⟩
    exact (hreads.ofArgs_eq hone).trans hrefuses.read_eq

end Outcome

end GenericIR.Tool
