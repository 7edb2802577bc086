import GenericIR.Proofs.CommandLine

/-! The grammar of the command line. Items are read while they last, with one command at most, and
the first place where this fails is what an error is about. -/
namespace GenericIR.Tool

open Log

/-- The arguments up to the rest have been read, with one positional at most. -/
structure Reaches (args : List String) (items : List Item) (rest : List String) : Prop extends
    Reads args items rest where
  single : (positionals items).length ≤ 1

/-- After these items reading stops, with that message. -/
inductive Stops (items : List Item) : List String → String → Prop
  | missing : Stops items ["-o"] "-o requires a file name"
  | unknown {arg : String} {rest : List String} (unknown : IsUnknown arg) :
      Stops items (arg :: rest) ("unknown option: " ++ arg)
  | unexpected {arg : String} {rest : List String} (valid : (Item.positional arg).Valid)
      (second : positionals items ≠ []) :
      Stops items (arg :: rest) ("unexpected argument: " ++ arg)

/-- The arguments in option position, which are all but the file names. -/
def optionArgs : List String → List String
  | [] => []
  | arg :: rest =>
    if arg = "-o" then
      match rest with
      | [] => [arg]
      | _ :: rest => arg :: optionArgs rest
    else arg :: optionArgs rest

/-- The argument is the flag of a command, or else no option at all. -/
def isPositional (arg : String) : Bool :=
  isCommandFlag arg || !isLogOption arg && decide (arg ∉ optionNames)

def positionalArgs (args : List String) : List String :=
  (optionArgs args).filter isPositional

section OptionArgs

variable {args rest : List String} {items : List Item} {item : Item}

theorem optionArgs_cons_of_ne {arg : String} (h : arg ≠ "-o") (rest : List String) :
    optionArgs (arg :: rest) = arg :: optionArgs rest := by
  conv_lhs => unfold optionArgs
  rw [if_neg h]

theorem optionArgs_item (h : item.Valid) (rest : List String) :
    optionArgs (item.args ++ rest) = item.args.take 1 ++ optionArgs rest := by
  cases item with
  | log arg =>
    have hlog : ¬ isLogOption "-o" := by decide
    refine optionArgs_cons_of_ne ?_ rest
    rintro rfl
    exact hlog h
  | output path => rfl
  | locations => exact optionArgs_cons_of_ne (by decide) rest
  | verify => exact optionArgs_cons_of_ne (by decide) rest
  | positional arg =>
    refine optionArgs_cons_of_ne ?_ rest
    rintro rfl
    exact h.notMem_optionNames (by decide)

theorem filter_isPositional_item (h : item.Valid) :
    (item.args.take 1).filter isPositional = item.positional?.toList := by
  cases item with
  | log arg =>
    have hflag : isCommandFlag arg = false :=
      isCommandFlag_eq_false_iff.2 fun hflag => not_isLogOption_of_mem_commandFlags hflag h
    have hlog : isLogOption arg = true := h
    simp [Item.args, Item.positional?, isPositional, hflag, hlog]
  | output path => rfl
  | locations => decide
  | verify => decide
  | positional arg =>
    simp [Item.args, Item.positional?, isPositional, h.not_isLogOption, h.notMem_optionNames]

theorem Reads.optionArgs_eq (h : Reads args items rest) :
    optionArgs args = items.flatMap (fun item => item.args.take 1) ++ optionArgs rest := by
  obtain ⟨hvalid, rfl⟩ := h
  induction items with
  | nil => rfl
  | cons item items ih =>
    obtain ⟨hitem, hitems⟩ := List.forall_mem_cons.1 hvalid
    rw [List.flatMap_cons, List.flatMap_cons, List.append_assoc, optionArgs_item hitem, ih hitems,
      List.append_assoc]

theorem mem_optionArgs_cons (arg : String) (rest : List String) :
    arg ∈ optionArgs (arg :: rest) := by
  unfold optionArgs
  split
  · split <;> exact List.mem_cons_self
  · exact List.mem_cons_self

/-- What reading arrives at is in option position. -/
theorem Reads.mem_optionArgs {arg : String} (h : Reads args items (arg :: rest)) :
    arg ∈ optionArgs args := by
  rw [h.optionArgs_eq]
  exact List.mem_append_right _ (mem_optionArgs_cons arg rest)

theorem Reads.positionalArgs_eq (h : Reads args items []) :
    positionalArgs args = positionals items := by
  have hwords : ∀ item ∈ items,
      (item.args.take 1).filter isPositional = item.positional?.toList :=
    fun item hitem => filter_isPositional_item (h.valid item hitem)
  rw [positionalArgs, h.optionArgs_eq, optionArgs, List.append_nil, List.filter_flatMap,
    List.flatMap_congr hwords, positionals, List.filterMap_eq_flatMap_toList]

end OptionArgs

section Reaches

variable {args rest : List String} {items : List Item}

theorem Reaches.oneCommand (h : Reaches args items rest) : OneCommand items := by
  have hlength : (positionals items).dropLast.length = 0 := by
    rw [List.length_dropLast]
    have hsingle := h.single
    omega
  rw [OneCommand, List.eq_nil_of_length_eq_zero hlength]
  exact List.forall_mem_nil _

/-- The first positional was reached before it was read. -/
theorem Reads.reaches_positional {arg : String} {words : List String} (h : Reads args items rest)
    (hfirst : positionals items = arg :: words) :
    ∃ before after, Reaches args before (arg :: after) := by
  obtain ⟨before, item, after, rfl, hbefore, hitem, -⟩ := List.filterMap_eq_cons_iff.1 hfirst
  have hnone : positionals before = [] := List.filterMap_eq_nil_iff.2 hbefore
  cases item with
  | positional arg' =>
    obtain rfl := Option.some.inj hitem
    refine ⟨before, after.flatMap Item.args ++ rest, ⟨fun i hi => ?_, ?_⟩, by simp [hnone]⟩
    · exact h.valid i (List.mem_append_left _ hi)
    · simp [h.args_eq, Item.args]
  | _ => cases hitem

section Nonempty

variable (hnonempty : ∀ items rest, ¬ Reaches args items ("" :: rest))

include hnonempty

theorem reaches_iff : Reaches args items rest ↔ Reads args items rest ∧ OneCommand items := by
  refine ⟨fun h => ⟨h.toReads, h.oneCommand⟩, fun ⟨h, hone⟩ => ⟨h, ?_⟩⟩
  match hwords : positionals items with
  | [] | [_] => simp
  | arg :: arg' :: words =>
    -- The first of several is empty, and so could not be reached.
    obtain rfl : arg = "" := hone arg (by simp [hwords])
    obtain ⟨before, after, hbefore⟩ := h.reaches_positional hwords
    exact absurd hbefore (hnonempty before after)

theorem Reaches.command_eq_empty_iff (h : Reaches args items rest) :
    (Options.ofItems items).command = "" ↔ positionals items = [] := by
  rw [(Options.givenBy_ofItems items).command]
  match hwords : positionals items, h.single with
  | [], _ => simp
  | [arg], _ =>
    obtain ⟨before, after, hbefore⟩ := h.reaches_positional hwords
    have harg : arg ≠ "" := by
      rintro rfl
      exact hnonempty before after hbefore
    simp [harg]

theorem Reaches.stops_iff (h : Reaches args items rest) {message : String} :
    Stops items rest message ↔
      ∃ e, (Options.ofItems items).Refuses rest e ∧ e.message = message := by
  have hcommand := h.command_eq_empty_iff hnonempty
  constructor
  · intro hstops
    cases hstops with
    | missing => exact ⟨_, .missing, rfl⟩
    | unknown unknown => exact ⟨_, .unknown unknown, rfl⟩
    | unexpected valid second => exact ⟨_, .unexpected valid (mt hcommand.1 second), rfl⟩
  · rintro ⟨e, hrefuses, rfl⟩
    cases hrefuses with
    | missing => exact .missing
    | unknown unknown => exact .unknown unknown
    | unexpected valid taken => exact .unexpected valid (mt hcommand.2 taken)

end Nonempty

end Reaches

/-- Unless an empty argument is met where an option could be, the arguments are accepted just if they
are items with one positional at most, and an error is about the first place where this fails. -/
theorem ofArgs_follows_grammar {args : List String}
    (hnonempty : ∀ items rest, ¬ Reaches args items ("" :: rest)) :
    (∀ o, Options.ofArgs args = .ok o ↔ ∃ items, Reaches args items [] ∧ o.GivenBy items) ∧
      ∀ message, (∃ e, Options.ofArgs args = .error e ∧ e.message = message) ↔
        ∃ items rest, Reaches args items rest ∧ Stops items rest message := by
  constructor
  · intro o
    simp only [Options.ofArgs_eq_ok_iff, reaches_iff hnonempty, and_assoc]
  · intro message
    constructor
    · rintro ⟨e, herror, hmessage⟩
      obtain ⟨items, rest, hreads, hone, hrefuses⟩ := Options.ofArgs_eq_error_iff.1 herror
      have hreaches := (reaches_iff hnonempty).2 ⟨hreads, hone⟩
      exact ⟨items, rest, hreaches, (hreaches.stops_iff hnonempty).2 ⟨e, hrefuses, hmessage⟩⟩
    · rintro ⟨items, rest, hreaches, hstops⟩
      obtain ⟨e, hrefuses, hmessage⟩ := (hreaches.stops_iff hnonempty).1 hstops
      refine ⟨e, Options.ofArgs_eq_error_iff.2 ?_, hmessage⟩
      exact ⟨items, rest, hreaches.toReads, hreaches.oneCommand, hrefuses⟩

/-- An empty file name is no obstacle, and the second command is refused. -/
theorem secondCommand_follows_grammar :
    (∀ items rest, ¬ Reaches ["-o", "", "sample", "-V", "--bogus"] items ("" :: rest)) ∧
      ∃ e, Options.ofArgs ["-o", "", "sample", "-V", "--bogus"] = .error e ∧
        e.message = "unexpected argument: -V" := by
  have hnonempty : ∀ items rest,
      ¬ Reaches ["-o", "", "sample", "-V", "--bogus"] items ("" :: rest) :=
    fun _ _ h => absurd h.toReads.mem_optionArgs (by decide)
  refine ⟨hnonempty, ((ofArgs_follows_grammar hnonempty).2 _).2 ?_⟩
  refine ⟨[.output "", .positional "sample"], ["-V", "--bogus"], ⟨⟨?_, rfl⟩, by decide⟩, ?_⟩
  · simp [Item.Valid]
  · exact .unexpected (.inl (by decide)) (by decide)

/-- Only the last positional of an accepted command line can be anything but empty, and it is the
command. There is one positional at most just if none but the last is empty. -/
theorem positionals_of_accepted {args : List String} {o : Options}
    (haccepted : Options.ofArgs args = .ok o) :
    (∀ arg ∈ (positionalArgs args).dropLast, arg = "") ∧
      o.command = (positionalArgs args).getLast?.getD "" ∧
      ((positionalArgs args).length ≤ 1 ∧ (∀ arg ∈ positionalArgs args, o.command = arg) ↔
        "" ∉ (positionalArgs args).dropLast) := by
  obtain ⟨items, hreads, hone, hgiven⟩ := Options.ofArgs_eq_ok_iff.1 haccepted
  rw [hreads.positionalArgs_eq, hgiven.command]
  refine ⟨hone, rfl, ?_⟩
  match hwords : positionals items with
  | [] | [_] => simp
  | arg :: arg' :: words =>
    obtain rfl : arg = "" := hone arg (by simp [hwords])
    simp

/-- A file name that looks like a command is no positional, an empty argument is. -/
theorem emptyThenVersion_positionals :
    Options.ofArgs ["", "-o", "-h", "-V"] = .ok { command := "-V", output := "-h" } ∧
      (positionalArgs ["", "-o", "-h", "-V"]).getLast?.getD "" = "-V" ∧
      ¬ ((positionalArgs ["", "-o", "-h", "-V"]).length ≤ 1 ∧
        ∀ arg ∈ positionalArgs ["", "-o", "-h", "-V"], "-V" = arg) := by
  have haccepted : Options.ofArgs ["", "-o", "-h", "-V"] =
      .ok { command := "-V", output := "-h" } := by decide
  obtain ⟨-, hcommand, hsingle⟩ := positionals_of_accepted haccepted
  exact ⟨haccepted, hcommand.symm, fun h => absurd (hsingle.1 h) (by decide)⟩

/-- After an empty argument a command is accepted as if it were the first positional. -/
theorem not_forall_positionals_single :
    ¬ ∀ (args : List String) (o : Options), Options.ofArgs args = .ok o →
      (positionalArgs args).length ≤ 1 ∧ ∀ arg ∈ positionalArgs args, o.command = arg := by
  intro hall
  have hsingle := hall ["", "sample"] { command := "sample" } (by decide)
  exact absurd hsingle.1 (by decide)

end GenericIR.Tool
