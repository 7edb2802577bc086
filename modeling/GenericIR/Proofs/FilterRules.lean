import Mathlib.Data.List.TakeWhile
import GenericIR.Log.Filter
import GenericIR.Proofs.LastSaid

/-! What a filter text says, field by field. The text is cut at its commas, and a field at its
first equality sign. After parsing, a module has the threshold that the last field gives it which
gives it any, and the fallback is what the last field says of the other modules. -/
namespace GenericIR.Log

/-- The parts of a filter text between its commas. -/
def fields (spec : String) : List (List Char) :=
  spec.toList.splitOn ','

/-- The field gives that module a threshold of its own. A bare name stands for `trace`; nothing
at all is no name. -/
inductive GivesModule (module : String) : List Char → Level → Prop
  | named (text : List Char) (uncut : '=' ∉ module.toList) :
      GivesModule module (module.toList ++ '=' :: text) (Level.ofName text)
  | bare (nonempty : module ≠ "") (uncut : '=' ∉ module.toList) :
      GivesModule module module.toList .trace

/-- The field gives a threshold to the modules without one of their own. -/
inductive GivesOthers : List Char → Level → Prop
  | star (text : List Char) : GivesOthers ('*' :: '=' :: text) (Level.ofName text)

/-- `level` is given by the last of the fields that give any level. -/
def LastGiven (Gives : List Char → Level → Prop) (fs : List (List Char)) (level : Level) : Prop :=
  ∃ before field after, fs = before ++ field :: after ∧ Gives field level ∧
    ∀ f ∈ after, ∀ l, ¬ Gives f l

/-- No field gives a level. -/
def NoneGiven (Gives : List Char → Level → Prop) (fs : List (List Char)) : Prop :=
  ∀ f ∈ fs, ∀ l, ¬ Gives f l

section LastGiven

variable {Gives : List Char → Level → Prop} {g : List Char → Option Level}

theorem findSomeRev?_eq_none_iff (hg : ∀ field level, g field = some level ↔ Gives field level)
    {fs : List (List Char)} : fs.findSomeRev? g = none ↔ NoneGiven Gives fs :=
  findSomeRev?_eq_none_iff_neverSaid hg

theorem findSomeRev?_eq_some_iff (hg : ∀ field level, g field = some level ↔ Gives field level)
    {fs : List (List Char)} {level : Level} :
    fs.findSomeRev? g = some level ↔ LastGiven Gives fs level :=
  findSomeRev?_eq_some_iff_saidLast hg

theorem lastGiven_or_noneGiven
    (hg : ∀ field level, g field = some level ↔ Gives field level) (fs : List (List Char)) :
    (∃ level, LastGiven Gives fs level) ∨ NoneGiven Gives fs :=
  saidLast_or_neverSaid hg fs

end LastGiven

/-- A text with that character is cut at the first one, any other is not cut at all. -/
theorem cut_or_uncut (c : Char) (text : List Char) :
    c ∉ text ∨ ∃ front rest, c ∉ front ∧ text = front ++ c :: rest := by
  by_cases h : c ∈ text
  · obtain ⟨front, rest, htext, hfront⟩ := List.eq_append_cons_of_mem h
    exact .inr ⟨front, rest, hfront, htext⟩
  · exact .inl h

section Cut

variable {c : Char} {front : List Char} (h : c ∉ front)

include h

theorem decide_ne_of_mem_front : ∀ d ∈ front, decide (d ≠ c) = true :=
  fun _ hd => decide_eq_true fun heq => h (heq ▸ hd)

theorem takeWhile_of_uncut : front.takeWhile (· ≠ c) = front :=
  List.takeWhile_eq_self_iff.2 (decide_ne_of_mem_front h)

theorem dropWhile_of_uncut : front.dropWhile (· ≠ c) = [] :=
  List.dropWhile_eq_nil_iff.2 (decide_ne_of_mem_front h)

theorem takeWhile_of_cut (rest : List Char) : (front ++ c :: rest).takeWhile (· ≠ c) = front := by
  rw [List.takeWhile_append_of_pos (decide_ne_of_mem_front h)]
  simp

theorem dropWhile_of_cut (rest : List Char) :
    (front ++ c :: rest).dropWhile (· ≠ c) = c :: rest := by
  rw [List.dropWhile_append_of_pos (decide_ne_of_mem_front h)]
  simp

end Cut

namespace Rule

section Cut

variable {name : List Char} (h : '=' ∉ name)

include h

theorem ofText?_of_cut (text : List Char) :
    ofText? (name ++ '=' :: text) =
      some (if name = ['*'] then others (Level.ofName text)
        else only (String.ofList name) (Level.ofName text)) := by
  simp only [ofText?, takeWhile_of_cut h, dropWhile_of_cut h]
  split <;> rfl

theorem ofText?_of_uncut :
    ofText? name = if name = [] then none else some (only (String.ofList name) .trace) := by
  simp only [ofText?, takeWhile_of_uncut h, dropWhile_of_uncut h]

end Cut

theorem ofText?_eq_only_iff {module : String} (hm : module ≠ "*") {field : List Char}
    {level : Level} :
    ofText? field = some (only module level) ↔ GivesModule module field level := by
  constructor
  · intro h
    rcases cut_or_uncut '=' field with huncut | ⟨name, text, hname, rfl⟩
    · rw [ofText?_of_uncut huncut] at h
      split at h
      · cases h
      · rename_i hne
        obtain ⟨rfl, rfl⟩ := Rule.only.inj (Option.some.inj h)
        have hbare : GivesModule (String.ofList field) (String.ofList field).toList .trace :=
          .bare (by simpa using hne) (by simpa using huncut)
        rwa [String.toList_ofList] at hbare
    · rw [ofText?_of_cut hname] at h
      split at h
      · cases h
      · obtain ⟨rfl, rfl⟩ := Rule.only.inj (Option.some.inj h)
        have hnamed : GivesModule (String.ofList name) ((String.ofList name).toList ++ '=' :: text)
            (Level.ofName text) := .named text (by simpa using hname)
        rwa [String.toList_ofList] at hnamed
  · rintro (⟨text, huncut⟩ | ⟨hne, huncut⟩)
    · rw [ofText?_of_cut huncut, if_neg (by simpa [String.ext_iff] using hm), String.ofList_toList]
    · rw [ofText?_of_uncut huncut, if_neg (by simpa using hne), String.ofList_toList]

theorem ofText?_eq_others_iff {field : List Char} {level : Level} :
    ofText? field = some (others level) ↔ GivesOthers field level := by
  constructor
  · intro h
    rcases cut_or_uncut '=' field with huncut | ⟨name, text, hname, rfl⟩
    · rw [ofText?_of_uncut huncut] at h
      split at h <;> cases h
    · rw [ofText?_of_cut hname] at h
      split at h
      · rename_i hstar
        obtain rfl := Rule.others.inj (Option.some.inj h)
        subst hstar
        exact .star text
      · cases h
  · rintro ⟨text⟩
    have hname : '=' ∉ ['*'] := by decide
    exact ofText?_of_cut hname text

/-- The level that a rule gives that module. -/
def level? (module : String) : Rule → Option Level
  | only name level => if name = module then some level else none
  | others _ => none

/-- The level that a rule gives all other modules. -/
def othersLevel? : Rule → Option Level
  | only .. => none
  | others level => some level

theorem level?_eq_some_iff {module : String} {rule : Rule} {level : Level} :
    rule.level? module = some level ↔ rule = only module level := by
  cases rule with
  | only name l => simp [level?]
  | others l => simp [level?]

theorem othersLevel?_eq_some_iff {rule : Rule} {level : Level} :
    rule.othersLevel? = some level ↔ rule = others level := by
  cases rule <;> simp [othersLevel?]

theorem ofText?_bind_eq_some_iff {g : Rule → Option Level} {rule : Level → Rule}
    (hg : ∀ r level, g r = some level ↔ r = rule level) {field : List Char} {level : Level} :
    (ofText? field).bind g = some level ↔ ofText? field = some (rule level) := by
  simp [Option.bind_eq_some_iff, hg]

end Rule

theorem findSomeRev?_listOfText (g : Rule → Option Level) (spec : String) :
    (Rule.listOfText spec.toList).findSomeRev? g =
      (fields spec).findSomeRev? fun field => (Rule.ofText? field).bind g := by
  rw [Rule.listOfText, fields]
  induction spec.toList.splitOn ',' with
  | nil => rfl
  | cons field fs ih =>
    rw [findSomeRev?_cons, ← ih]
    cases h : Rule.ofText? field <;> simp [h]

namespace Filter

theorem find?_foldl_apply (rules : List Rule) (f : Filter) (module : String) :
    (rules.foldl apply f).overrides.find? module =
      (rules.findSomeRev? (Rule.level? module)).or (f.overrides.find? module) := by
  induction rules generalizing f with
  | nil => rfl
  | cons rule rules ih =>
    rw [List.foldl_cons, ih, findSomeRev?_cons]
    cases rule with
    | others level => simp [apply, Rule.level?]
    | only name level => by_cases h : name = module <;> simp [apply, Rule.level?, h]

theorem fallback_foldl_apply (rules : List Rule) (f : Filter) :
    (rules.foldl apply f).fallback = (rules.findSomeRev? Rule.othersLevel?).getD f.fallback := by
  induction rules generalizing f with
  | nil => rfl
  | cons rule rules ih =>
    rw [List.foldl_cons, ih, findSomeRev?_cons]
    cases rule <;> simp [apply, Rule.othersLevel?]

section Parse

variable {f : Filter} {spec : String} {level : Level}

theorem find?_parse (f : Filter) (spec module : String) :
    (f.parse spec).overrides.find? module =
      (fields spec).findSomeRev? fun field => (Rule.ofText? field).bind (Rule.level? module) := by
  rw [parse, find?_foldl_apply, findSomeRev?_listOfText]
  exact Option.or_none

theorem fallback_parse (f : Filter) (spec : String) :
    (f.parse spec).fallback = ((fields spec).findSomeRev? fun field =>
      (Rule.ofText? field).bind Rule.othersLevel?).getD f.fallback := by
  rw [parse, fallback_foldl_apply, findSomeRev?_listOfText]

theorem bind_level?_eq_some_iff {module : String} (hm : module ≠ "*") (field : List Char)
    (level : Level) :
    (Rule.ofText? field).bind (Rule.level? module) = some level ↔
      GivesModule module field level :=
  (Rule.ofText?_bind_eq_some_iff fun _ _ => Rule.level?_eq_some_iff).trans
    (Rule.ofText?_eq_only_iff hm)

theorem bind_othersLevel?_eq_some_iff (field : List Char) (level : Level) :
    (Rule.ofText? field).bind Rule.othersLevel? = some level ↔ GivesOthers field level :=
  (Rule.ofText?_bind_eq_some_iff fun _ _ => Rule.othersLevel?_eq_some_iff).trans
    Rule.ofText?_eq_others_iff

/-- Earlier overrides are forgotten, and the last field for the module counts. -/
theorem find?_parse_eq_some_iff {module : String} (hm : module ≠ "*") :
    (f.parse spec).overrides.find? module = some level ↔
      LastGiven (GivesModule module) (fields spec) level := by
  rw [find?_parse, findSomeRev?_eq_some_iff (bind_level?_eq_some_iff hm)]

theorem find?_parse_eq_none_iff {module : String} (hm : module ≠ "*") :
    (f.parse spec).overrides.find? module = none ↔
      NoneGiven (GivesModule module) (fields spec) := by
  rw [find?_parse, findSomeRev?_eq_none_iff (bind_level?_eq_some_iff hm)]

theorem fallback_parse_of_lastGiven (h : LastGiven GivesOthers (fields spec) level) :
    (f.parse spec).fallback = level := by
  rw [fallback_parse, (findSomeRev?_eq_some_iff bind_othersLevel?_eq_some_iff).2 h]
  rfl

theorem fallback_parse_of_noneGiven (h : NoneGiven GivesOthers (fields spec)) :
    (f.parse spec).fallback = f.fallback := by
  rw [fallback_parse, (findSomeRev?_eq_none_iff bind_othersLevel?_eq_some_iff).2 h]
  rfl

end Parse

end Filter

end GenericIR.Log
