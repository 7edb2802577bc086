import Mathlib.Order.Bounds.Basic
import GenericIR.Proofs.LogFlags

/-! Who decides what the log is to be. A level that the arguments name comes before one that they
only raise, both come before the environment, and of several of a kind the last one counts. -/
namespace GenericIR.Log

/-- The argument names a level. -/
def SetsLevel (arg : String) (level : Level) : Prop :=
  Flag.Says arg (.level level)

/-- The argument raises the verbosity to `n`. -/
def Raises (arg : String) (n : ℕ) : Prop :=
  Flag.Says arg (.verbosity n)

def SetsFilter (arg spec : String) : Prop :=
  Flag.Says arg (.filter spec)

def SetsFile (arg path : String) : Prop :=
  Flag.Says arg (.file path)

/-- The greatest verbosity that an argument asks for. -/
def MostRaised (args : List String) (n : ℕ) : Prop :=
  IsGreatest {k | ∃ arg ∈ args, Raises arg k} n

/-- Neither by name nor by verbosity do the arguments ask for a level. -/
structure Unleveled (args : List String) : Prop where
  unnamed : NeverSaid SetsLevel args
  unraised : NeverSaid Raises args

/-- The environment holds the name of a level. -/
structure NamesLevel (environment : Option String) (text : String) : Prop where
  set : environment = some text
  nonempty : text ≠ ""
  uncut : '=' ∉ text.toList ∧ ',' ∉ text.toList

/-- The environment holds filter rules. -/
structure HoldsRules (environment : Option String) (text : String) : Prop where
  set : environment = some text
  cut : '=' ∈ text.toList ∨ ',' ∈ text.toList

namespace Config

/-- The level that follows from the arguments and the environment. -/
inductive LevelFollows (args : List String) (environment : Option String) : Level → Prop
  | named {level : Level} (last : SaidLast SetsLevel args level) :
      LevelFollows args environment level
  | info (unnamed : NeverSaid SetsLevel args) (most : MostRaised args 1) :
      LevelFollows args environment .info
  | debug (unnamed : NeverSaid SetsLevel args) (most : MostRaised args 2) :
      LevelFollows args environment .debug
  | trace {n : ℕ} (unnamed : NeverSaid SetsLevel args) (most : MostRaised args n) (three : 3 ≤ n) :
      LevelFollows args environment .trace
  | environment {text : String} (unleveled : Unleveled args)
      (unfiltered : NeverSaid SetsFilter args) (names : NamesLevel environment text) :
      LevelFollows args environment (Level.ofName text.toList)
  | otherwise (unleveled : Unleveled args)
      (unset : NeverSaid SetsFilter args → ∀ text, ¬ NamesLevel environment text) :
      LevelFollows args environment .warn

/-- The filter rules that follow from the arguments and the environment. -/
inductive FilterFollows (args : List String) (environment : Option String) : String → Prop
  | given {spec : String} (last : SaidLast SetsFilter args spec) :
      FilterFollows args environment spec
  | environment {text : String} (unfiltered : NeverSaid SetsFilter args)
      (unleveled : Unleveled args) (rules : HoldsRules environment text) :
      FilterFollows args environment text
  | otherwise (unfiltered : NeverSaid SetsFilter args)
      (unset : Unleveled args → ∀ text, ¬ HoldsRules environment text) :
      FilterFollows args environment ""

/-- The log file that follows from the arguments. -/
inductive FileFollows (args : List String) : String → Prop
  | given {path : String} (last : SaidLast SetsFile args path) : FileFollows args path
  | otherwise (unset : NeverSaid SetsFile args) : FileFollows args ""

end Config

namespace Flag

variable {β : Type} {g : Flag → Option β} {flag : β → Flag}

theorem level?_eq_some_iff (f : Flag) (level : Level) :
    f.level? = some level ↔ f = .level level := by
  cases f <;> simp [level?]

theorem filter?_eq_some_iff (f : Flag) (spec : String) :
    f.filter? = some spec ↔ f = .filter spec := by
  cases f <;> simp [filter?]

theorem file?_eq_some_iff (f : Flag) (path : String) : f.file? = some path ↔ f = .file path := by
  cases f <;> simp [file?]

theorem bind_ofArg?_eq_some_iff (hg : ∀ f b, g f = some b ↔ f = flag b) (arg : String) (b : β) :
    (ofArg? arg).bind g = some b ↔ Says arg (flag b) := by
  simp [Option.bind_eq_some_iff, hg, ofArg?_eq_some_iff]

theorem getLast?_filterMap_ofArg? (g : Flag → Option β) (args : List String) :
    ((args.filterMap ofArg?).filterMap g).getLast? =
      args.findSomeRev? fun arg => (ofArg? arg).bind g := by
  rw [List.filterMap_filterMap, List.getLast?_filterMap, List.findSomeRev?_eq_findSome?_reverse]

section Given

variable (hg : ∀ f b, g f = some b ↔ f = flag b) {args : List String}

include hg

/-- Of several arguments of a kind the last one counts. -/
theorem getLast?_eq_some_iff {b : β} :
    ((args.filterMap ofArg?).filterMap g).getLast? = some b ↔
      SaidLast (fun arg b => Says arg (flag b)) args b := by
  rw [getLast?_filterMap_ofArg?, findSomeRev?_eq_some_iff_saidLast (bind_ofArg?_eq_some_iff hg)]

theorem getLast?_eq_none_iff :
    ((args.filterMap ofArg?).filterMap g).getLast? = none ↔
      NeverSaid (fun arg b => Says arg (flag b)) args := by
  rw [getLast?_filterMap_ofArg?, findSomeRev?_eq_none_iff_neverSaid (bind_ofArg?_eq_some_iff hg)]

theorem given_or_neverSaid (args : List String) :
    (∃ b, SaidLast (fun arg b => Says arg (flag b)) args b) ∨
      NeverSaid (fun arg b => Says arg (flag b)) args :=
  saidLast_or_neverSaid (bind_ofArg?_eq_some_iff hg) args

theorem exists_saidLast (h : ∃ arg ∈ args, ∃ b, Says arg (flag b)) :
    ∃ b, SaidLast (fun arg b => Says arg (flag b)) args b := by
  obtain ⟨arg, harg, b, hb⟩ := h
  exact (given_or_neverSaid hg args).resolve_right fun hnever => hnever arg harg b hb

end Given

theorem count_eq_iff {f : Flag} {n : ℕ} (hn : n ≠ 0) : f.count = n ↔ f = .verbosity n := by
  cases f <;> simp [count, hn.symm]

end Flag

section Verbosity

variable {args : List String} {n : ℕ}

/-- The greatest verbosity of the flags, where none is 0. -/
def verbosityOf (args : List String) : ℕ :=
  ((args.filterMap Flag.ofArg?).map Flag.count).foldl max 0

theorem Raises.pos {arg : String} (h : Raises arg n) : 0 < n := by
  cases h <;> omega

theorem foldl_max_le_iff {a : ℕ} {ns : List ℕ} : ns.foldl max a ≤ n ↔ a ≤ n ∧ ∀ k ∈ ns, k ≤ n := by
  induction ns generalizing a with
  | nil => simp
  | cons k ns ih => simp [ih, and_assoc]

theorem mem_counts_iff (hn : n ≠ 0) :
    n ∈ (args.filterMap Flag.ofArg?).map Flag.count ↔ ∃ arg ∈ args, Raises arg n := by
  simp only [List.mem_map, List.mem_filterMap, Flag.count_eq_iff hn, exists_eq_right,
    Flag.ofArg?_eq_some_iff, Raises]

theorem verbosityOf_le_iff : verbosityOf args ≤ n ↔ ∀ arg ∈ args, ∀ k, Raises arg k → k ≤ n := by
  rw [verbosityOf, foldl_max_le_iff]
  constructor
  · rintro ⟨-, hcounts⟩ arg harg k hk
    exact hcounts k ((mem_counts_iff hk.pos.ne').2 ⟨arg, harg, hk⟩)
  · refine fun h => ⟨n.zero_le, fun k hk => ?_⟩
    rcases Nat.eq_zero_or_pos k with rfl | hpos
    · exact n.zero_le
    · obtain ⟨arg, harg, hraises⟩ := (mem_counts_iff hpos.ne').1 hk
      exact h arg harg k hraises

theorem verbosityOf_eq_zero_iff : verbosityOf args = 0 ↔ NeverSaid Raises args := by
  rw [← Nat.le_zero, verbosityOf_le_iff]
  exact forall₂_congr fun arg _ => forall_congr' fun k =>
    ⟨fun h hk => absurd hk.pos (h hk).not_gt, fun h hk => absurd hk h⟩

theorem mostRaised_verbosityOf (h : verbosityOf args ≠ 0) : MostRaised args (verbosityOf args) := by
  refine ⟨?_, fun k ⟨arg, harg, hk⟩ => verbosityOf_le_iff.1 le_rfl arg harg k hk⟩
  by_contra hnone
  -- Otherwise all stay below, and then so does the greatest.
  have hbelow : verbosityOf args ≤ verbosityOf args - 1 := by
    refine verbosityOf_le_iff.2 fun arg harg k hk => ?_
    have hle : k ≤ verbosityOf args := verbosityOf_le_iff.1 le_rfl arg harg k hk
    have hne : k ≠ verbosityOf args := by
      rintro rfl
      exact hnone ⟨arg, harg, hk⟩
    omega
  omega

theorem MostRaised.verbosityOf_eq (h : MostRaised args n) : verbosityOf args = n := by
  obtain ⟨⟨arg, harg, hraises⟩, hbound⟩ := h
  refine le_antisymm (verbosityOf_le_iff.2 fun a ha k hk => hbound ⟨a, ha, hk⟩) ?_
  exact verbosityOf_le_iff.1 le_rfl arg harg n hraises

end Verbosity

section Choice

variable {args : List String} {level : Level}

theorem chosenLevel?_of_saidLast (h : SaidLast SetsLevel args level) :
    chosenLevel? (args.filterMap Flag.ofArg?) = some level := by
  rw [chosenLevel?, (Flag.getLast?_eq_some_iff Flag.level?_eq_some_iff).2 h]
  rfl

theorem chosenLevel?_of_neverSaid (h : NeverSaid SetsLevel args) :
    chosenLevel? (args.filterMap Flag.ofArg?) = verboseLevel? (verbosityOf args) := by
  rw [chosenLevel?, (Flag.getLast?_eq_none_iff Flag.level?_eq_some_iff).2 h]
  rfl

theorem chosenLevel?_eq_none_iff :
    chosenLevel? (args.filterMap Flag.ofArg?) = none ↔ Unleveled args := by
  constructor
  · intro h
    rcases Flag.given_or_neverSaid Flag.level?_eq_some_iff args with
      ⟨level, last⟩ | unnamed
    · rw [chosenLevel?_of_saidLast last] at h
      cases h
    · refine ⟨unnamed, verbosityOf_eq_zero_iff.1 ?_⟩
      rw [chosenLevel?_of_neverSaid unnamed] at h
      generalize verbosityOf args = n at h
      match n with
      | 0 => rfl
      | 1 | 2 | _ + 3 => cases h
  · intro h
    rw [chosenLevel?_of_neverSaid h.unnamed, verbosityOf_eq_zero_iff.2 h.unraised]
    rfl

end Choice

/-- The environment names a level, or holds filter rules, or says nothing. -/
theorem environment_cases (environment : Option String) :
    (∃ text, NamesLevel environment text) ∨ (∃ text, HoldsRules environment text) ∨
      environment.getD "" = "" := by
  cases environment with
  | none => exact .inr (.inr rfl)
  | some text =>
    by_cases hcut : '=' ∈ text.toList ∨ ',' ∈ text.toList
    · exact .inr (.inl ⟨text, rfl, hcut⟩)
    · by_cases hempty : text = ""
      · exact .inr (.inr hempty)
      · exact .inl ⟨text, rfl, hempty, not_or.1 hcut⟩

namespace Config

variable {args : List String} {environment : Option String} {c : Config} {text : String}

/-- What the environment adds to a configuration. -/
def consult (c : Config) (environment : Option String) : Config :=
  environment.elim c c.withText

theorem consult_of_namesLevel (h : NamesLevel environment text) :
    c.consult environment = { c with level := Level.ofName text.toList } := by
  have hcut : (text.toList.any fun ch => ch == '=' || ch == ',') = false := by
    simp only [List.any_eq_false, Bool.or_eq_true, beq_iff_eq, not_or]
    exact fun ch hch => ⟨fun heq => h.uncut.1 (heq ▸ hch), fun heq => h.uncut.2 (heq ▸ hch)⟩
  have hempty : text.isEmpty = false := by simpa using h.nonempty
  rw [h.set]
  simp [consult, withText, hempty, hcut]

theorem consult_of_holdsRules (h : HoldsRules environment text) :
    c.consult environment = { c with filterSpec := text } := by
  have hcut : (text.toList.any fun ch => ch == '=' || ch == ',') = true := by
    simp only [List.any_eq_true, Bool.or_eq_true, beq_iff_eq]
    exact h.cut.elim (fun hch => ⟨_, hch, .inl rfl⟩) fun hch => ⟨_, hch, .inr rfl⟩
  have hempty : text.isEmpty = false := by
    rw [← Bool.not_eq_true, String.isEmpty_iff]
    rintro rfl
    exact h.cut.elim List.not_mem_nil List.not_mem_nil
  rw [h.set]
  simp [consult, withText, hempty, hcut]

theorem consult_of_silent (h : environment.getD "" = "") : c.consult environment = c := by
  cases environment with
  | none => rfl
  | some text =>
    obtain rfl : text = "" := h
    rfl

theorem file_consult (c : Config) (environment : Option String) :
    (c.consult environment).file = c.file := by
  rcases environment_cases environment with ⟨text, hnames⟩ | ⟨text, hrules⟩ | hsilent
  · rw [consult_of_namesLevel hnames]
  · rw [consult_of_holdsRules hrules]
  · rw [consult_of_silent hsilent]

/-- The environment is asked only if the arguments ask for no level and set no filter. -/
theorem ofArgs_of_unset (unleveled : Unleveled args) (unfiltered : NeverSaid SetsFilter args)
    (environment : Option String) :
    ofArgs args environment = (ofFlags (args.filterMap Flag.ofArg?)).consult environment := by
  have hlevel := chosenLevel?_eq_none_iff.2 unleveled
  have hfilter := (Flag.getLast?_eq_none_iff Flag.filter?_eq_some_iff).2 unfiltered
  unfold ofArgs
  simp only [hlevel, hfilter]
  rfl

theorem ofArgs_of_set (h : Unleveled args → ¬ NeverSaid SetsFilter args)
    (environment : Option String) :
    ofArgs args environment = ofFlags (args.filterMap Flag.ofArg?) := by
  refine if_pos (by_contra fun hnone => ?_)
  simp only [Bool.or_eq_true, Option.isSome_iff_ne_none, ne_eq, not_or, not_not] at hnone
  exact h (chosenLevel?_eq_none_iff.1 hnone.1)
    ((Flag.getLast?_eq_none_iff Flag.filter?_eq_some_iff).1 hnone.2)

theorem ofArgs_congr {args' : List String}
    (h : args.filterMap Flag.ofArg? = args'.filterMap Flag.ofArg?) (environment : Option String) :
    ofArgs args environment = ofArgs args' environment := by
  unfold ofArgs
  rw [h]

theorem ofArgs_filter (args : List String) (environment : Option String) :
    ofArgs (args.filter isLogOption) environment = ofArgs args environment := by
  refine ofArgs_congr ?_ environment
  rw [List.filterMap_filter]
  refine List.filterMap_congr fun arg _ => ?_
  split
  · rfl
  · exact (not_isLogOption_iff.1 ‹_›).symm

section Level

variable {level : Level}

theorem level_ofArgs_of_chosenLevel?
    (h : chosenLevel? (args.filterMap Flag.ofArg?) = some level) (environment : Option String) :
    (ofArgs args environment).level = level := by
  have hset : Unleveled args → ¬ NeverSaid SetsFilter args := by
    intro unleveled
    rw [chosenLevel?_eq_none_iff.2 unleveled] at h
    cases h
  rw [ofArgs_of_set hset, ofFlags, h]
  rfl

theorem level_ofArgs_of_mostRaised {n : ℕ} (unnamed : NeverSaid SetsLevel args)
    (most : MostRaised args n) (h : verboseLevel? n = some level) (environment : Option String) :
    (ofArgs args environment).level = level := by
  refine level_ofArgs_of_chosenLevel? ?_ environment
  rw [chosenLevel?_of_neverSaid unnamed, most.verbosityOf_eq, h]

theorem level_ofFlags_of_unleveled (h : Unleveled args) :
    (ofFlags (args.filterMap Flag.ofArg?)).level = .warn := by
  rw [ofFlags, chosenLevel?_eq_none_iff.2 h]
  rfl

theorem LevelFollows.level_eq (h : LevelFollows args environment level) :
    (ofArgs args environment).level = level := by
  cases h with
  | named last => exact level_ofArgs_of_chosenLevel? (chosenLevel?_of_saidLast last) _
  | info unnamed most => exact level_ofArgs_of_mostRaised unnamed most rfl _
  | debug unnamed most => exact level_ofArgs_of_mostRaised unnamed most rfl _
  | @trace n unnamed most three =>
    obtain ⟨k, rfl⟩ := Nat.exists_eq_add_of_le' three
    exact level_ofArgs_of_mostRaised unnamed most rfl _
  | environment unleveled unfiltered names =>
    rw [ofArgs_of_unset unleveled unfiltered, consult_of_namesLevel names]
  | otherwise unleveled unset =>
    have hwarn := level_ofFlags_of_unleveled unleveled
    by_cases unfiltered : NeverSaid SetsFilter args
    · rw [ofArgs_of_unset unleveled unfiltered]
      rcases environment_cases environment with ⟨text, hnames⟩ | ⟨text, hrules⟩ | hsilent
      · exact absurd hnames (unset unfiltered text)
      · rw [consult_of_holdsRules hrules, hwarn]
      · rw [consult_of_silent hsilent, hwarn]
    · rw [ofArgs_of_set fun _ => unfiltered, hwarn]

theorem exists_levelFollows (args : List String) (environment : Option String) :
    ∃ level, LevelFollows args environment level := by
  rcases Flag.given_or_neverSaid Flag.level?_eq_some_iff args with
    ⟨level, last⟩ | unnamed
  · exact ⟨level, .named last⟩
  by_cases unraised : verbosityOf args = 0
  · have unleveled : Unleveled args := ⟨unnamed, verbosityOf_eq_zero_iff.1 unraised⟩
    by_cases h : NeverSaid SetsFilter args ∧ ∃ text, NamesLevel environment text
    · obtain ⟨unfiltered, text, names⟩ := h
      exact ⟨_, .environment unleveled unfiltered names⟩
    · exact ⟨_, .otherwise unleveled fun hf text hn => h ⟨hf, text, hn⟩⟩
  · have most := mostRaised_verbosityOf unraised
    generalize verbosityOf args = n at unraised most
    match n with
    | 0 => exact absurd rfl unraised
    | 1 => exact ⟨_, .info unnamed most⟩
    | 2 => exact ⟨_, .debug unnamed most⟩
    | k + 3 => exact ⟨_, .trace unnamed most (by omega)⟩

end Level

section Filter

variable {spec : String}

theorem filterSpec_ofFlags_of_neverSaid (h : NeverSaid SetsFilter args) :
    (ofFlags (args.filterMap Flag.ofArg?)).filterSpec = "" := by
  rw [ofFlags, (Flag.getLast?_eq_none_iff Flag.filter?_eq_some_iff).2 h]
  rfl

theorem FilterFollows.filterSpec_eq (h : FilterFollows args environment spec) :
    (ofArgs args environment).filterSpec = spec := by
  cases h with
  | given last =>
    rw [ofArgs_of_set fun _ => last.not_neverSaid, ofFlags,
      (Flag.getLast?_eq_some_iff Flag.filter?_eq_some_iff).2 last]
    rfl
  | environment unfiltered unleveled rules =>
    rw [ofArgs_of_unset unleveled unfiltered, consult_of_holdsRules rules]
  | otherwise unfiltered unset =>
    have hempty := filterSpec_ofFlags_of_neverSaid unfiltered
    by_cases unleveled : Unleveled args
    · rw [ofArgs_of_unset unleveled unfiltered]
      rcases environment_cases environment with ⟨text, hnames⟩ | ⟨text, hrules⟩ | hsilent
      · rw [consult_of_namesLevel hnames, hempty]
      · exact absurd hrules (unset unleveled text)
      · rw [consult_of_silent hsilent, hempty]
    · rw [ofArgs_of_set fun h => absurd h unleveled, hempty]

theorem exists_filterFollows (args : List String) (environment : Option String) :
    ∃ spec, FilterFollows args environment spec := by
  rcases Flag.given_or_neverSaid Flag.filter?_eq_some_iff args with
    ⟨spec, last⟩ | unfiltered
  · exact ⟨spec, .given last⟩
  by_cases h : Unleveled args ∧ ∃ text, HoldsRules environment text
  · obtain ⟨unleveled, text, rules⟩ := h
    exact ⟨text, .environment unfiltered unleveled rules⟩
  · exact ⟨_, .otherwise unfiltered fun hu text hr => h ⟨hu, text, hr⟩⟩

end Filter

theorem file_ofArgs (args : List String) (environment : Option String) :
    (ofArgs args environment).file = (ofFlags (args.filterMap Flag.ofArg?)).file := by
  by_cases h : Unleveled args ∧ NeverSaid SetsFilter args
  · rw [ofArgs_of_unset h.1 h.2, file_consult]
  · rw [ofArgs_of_set fun hu hf => h ⟨hu, hf⟩]

theorem FileFollows.file_eq {path : String} (h : FileFollows args path)
    (environment : Option String) : (ofArgs args environment).file = path := by
  rw [file_ofArgs, ofFlags]
  cases h with
  | given last =>
    rw [(Flag.getLast?_eq_some_iff Flag.file?_eq_some_iff).2 last]
    rfl
  | otherwise unset =>
    rw [(Flag.getLast?_eq_none_iff Flag.file?_eq_some_iff).2 unset]
    rfl

theorem exists_fileFollows (args : List String) : ∃ path, FileFollows args path := by
  rcases Flag.given_or_neverSaid Flag.file?_eq_some_iff args with
    ⟨path, last⟩ | unset
  · exact ⟨path, .given last⟩
  · exact ⟨_, .otherwise unset⟩

/-- The configuration depends only on the options of the log, and its parts are those that follow
from them and the environment. -/
theorem ofArgs_precedence (args : List String) (environment : Option String) :
    ofArgs args environment = ofArgs (args.filter isLogOption) environment ∧
      (∀ level, (ofArgs args environment).level = level ↔ LevelFollows args environment level) ∧
      (∀ spec, (ofArgs args environment).filterSpec = spec ↔
        FilterFollows args environment spec) ∧
      ∀ path, (ofArgs args environment).file = path ↔ FileFollows args path := by
  obtain ⟨level, hlevel⟩ := exists_levelFollows args environment
  obtain ⟨spec, hspec⟩ := exists_filterFollows args environment
  obtain ⟨path, hpath⟩ := exists_fileFollows args
  refine ⟨(ofArgs_filter args environment).symm, fun l => ⟨?_, fun h => h.level_eq⟩,
    fun s => ⟨?_, fun h => h.filterSpec_eq⟩, fun p => ⟨?_, fun h => h.file_eq environment⟩⟩
  · rintro rfl
    rwa [hlevel.level_eq]
  · rintro rfl
    rwa [hspec.filterSpec_eq]
  · rintro rfl
    rwa [hpath.file_eq]

end Config
end GenericIR.Log
