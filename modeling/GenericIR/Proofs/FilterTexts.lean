import GenericIR.Proofs.FilterRules

/-! Filter texts as a whole. A text is read field by field from its beginning, and this comes to an
end, as every field is read further on. What it comes to is a fold over the fields, in which the empty
ones count for nothing. So of two texts with a comma between them the second has the last word, and
what holds after a text follows from the last fields that say anything. -/
namespace GenericIR.Log

namespace Level

theorem ofName?_eq_some_iff {text : List Char} {level : Level} :
    ofName? text = some level ↔ text.map Char.toUpper = level.name.toList := by
  constructor
  · intro h
    simpa using List.find?_some h
  · intro h
    rw [ofName?, h]
    cases level <;> decide

/-- Names count in any mixture of capital and small letters, and what is no name means `info`. -/
theorem ofName_eq_iff {text : List Char} {level : Level} :
    ofName text = level ↔ text.map Char.toUpper = level.name.toList ∨
      level = .info ∧ ∀ l : Level, text.map Char.toUpper ≠ l.name.toList := by
  simp only [ofName, ne_eq, ← ofName?_eq_some_iff]
  cases ofName? text with
  | none => simp [eq_comm]
  | some l => simp

end Level

/-- A text is one field, or a field, a comma and a text. -/
theorem text_by_fields {motive : List Char → Prop} (last : ∀ field, ',' ∉ field → motive field)
    (more : ∀ field after, ',' ∉ field → motive after → motive (field ++ ',' :: after))
    (text : List Char) : motive text := by
  induction hn : text.length using Nat.strongRecOn generalizing text with
  | ind n ih =>
    rcases cut_or_uncut ',' text with huncut | ⟨field, after, hfield, rfl⟩
    · exact last text huncut
    · refine more field after hfield (ih after.length ?_ after rfl)
      simp at hn
      omega

theorem comma_not_mem_of_mem_splitOn {text : List Char} :
    ∀ field ∈ text.splitOn ',', ',' ∉ field := by
  induction text using text_by_fields with
  | last field hfield => simpa [List.splitOn_eq_singleton hfield]
  | more field after hfield ih =>
    rw [List.splitOn_append_cons_self_of_not_mem hfield, List.forall_mem_cons]
    exact ⟨hfield, ih⟩

/-- The fields are the parts without commas that make up the text with commas between them. -/
theorem fields_eq_iff {spec : String} {fs : List (List Char)} :
    fields spec = fs ↔
      fs ≠ [] ∧ (∀ field ∈ fs, ',' ∉ field) ∧ [','].intercalate fs = spec.toList := by
  constructor
  · rintro rfl
    exact ⟨List.splitOn_ne_nil ',' spec.toList, comma_not_mem_of_mem_splitOn,
      List.intercalate_splitOn ','⟩
  · rintro ⟨hne, hcomma, hspec⟩
    rw [fields, ← hspec, List.splitOn_intercalate ',' hcomma hne]

theorem fields_append (a b : String) : fields (a ++ "," ++ b) = fields a ++ fields b := by
  rw [fields, String.toList_append, String.toList_append, List.append_assoc]
  exact List.splitOn_append_cons_self ..

namespace Filter

/-- The filter after one more field, which may hold a rule or not. -/
def follow (f : Filter) (field : List Char) : Filter :=
  (Rule.ofText? field).elim f f.apply

@[simp] theorem follow_nil (f : Filter) : f.follow [] = f := rfl

theorem foldl_follow (fs : List (List Char)) (f : Filter) :
    fs.foldl follow f = (fs.filterMap Rule.ofText?).foldl apply f := by
  induction fs generalizing f with
  | nil => rfl
  | cons field fs ih =>
    rw [List.foldl_cons, ih]
    cases h : Rule.ofText? field <;> simp [follow, h]

/-- The filter without its overrides. -/
def cleared (f : Filter) : Filter :=
  { f with overrides := ∅ }

theorem parse_eq_foldl (f : Filter) (spec : String) :
    f.parse spec = (fields spec).foldl follow f.cleared := by
  rw [foldl_follow]
  rfl

theorem foldl_follow_nonempty (fs : List (List Char)) (f : Filter) :
    (fs.filter (· ≠ [])).foldl follow f = fs.foldl follow f := by
  induction fs generalizing f with
  | nil => rfl
  | cons field fs ih =>
    by_cases h : field = []
    · rw [List.filter_cons_of_neg (by simpa using h), ih, List.foldl_cons, h, follow_nil]
    · rw [List.filter_cons_of_pos (by simpa using h), List.foldl_cons, ih, List.foldl_cons]

end Filter

/-- A filter text that is being read: where the next field begins, and what the filter is so far. -/
structure Scan where
  place : Nat
  filter : Filter

namespace Scan

/-- Reads the field up to the next comma, or to the end of the text if there is none. -/
def next? (text : List Char) (s : Scan) : Option Scan :=
  if s.place < text.length then
    let field := (text.drop s.place).takeWhile (· ≠ ',')
    some { place := s.place + field.length + 1, filter := s.filter.follow field }
  else none

/-- `Ends text s rounds f`: after that many rounds the text is read, and the filter is `f`. -/
inductive Ends (text : List Char) : Scan → Nat → Filter → Prop
  | stop {s : Scan} (h : s.next? text = none) : Ends text s 0 s.filter
  | round {s t : Scan} {rounds : Nat} {f : Filter} (h : s.next? text = some t)
    (h' : Ends text t rounds f) : Ends text s (rounds + 1) f

theorem Ends.unique {text : List Char} {s : Scan} {rounds rounds' : Nat} {f g : Filter}
    (h : Ends text s rounds f) (h' : Ends text s rounds' g) : f = g := by
  induction h generalizing rounds' with
  | stop h =>
    cases h' with
    | stop _ => rfl
    | round hnext _ => rw [h] at hnext; cases hnext
  | round h _ ih =>
    cases h' with
    | stop hnone => rw [h] at hnone; cases hnone
    | round hnext hends =>
      rw [h] at hnext
      cases hnext
      exact ih hends

theorem next?_of_drop_eq {text rest : List Char} {s : Scan} (hdrop : text.drop s.place = rest)
    (hrest : rest ≠ []) :
    s.next? text = some {
      place := s.place + (rest.takeWhile (· ≠ ',')).length + 1
      filter := s.filter.follow (rest.takeWhile (· ≠ ',')) } := by
  subst hdrop
  have hplace : s.place < text.length := by
    by_contra h
    exact hrest (List.drop_eq_nil_of_le (Nat.le_of_not_lt h))
  rw [next?, if_pos hplace]

theorem Ends.of_le {text : List Char} {s : Scan} (h : text.length ≤ s.place) :
    Ends text s 0 s.filter :=
  .stop (if_neg (Nat.not_lt.2 h))

/-- Wherever the reading is, it ends, and the fields of the rest are followed. -/
theorem exists_ends {text rest : List Char} {s : Scan} (hdrop : text.drop s.place = rest) :
    ∃ rounds ≤ rest.length,
      Ends text s rounds ((rest.splitOn ',').foldl Filter.follow s.filter) := by
  induction rest using text_by_fields generalizing s with
  | last field hfield =>
    rw [List.splitOn_eq_singleton hfield, List.foldl_cons, List.foldl_nil]
    by_cases hnil : field = []
    · subst hnil
      exact ⟨0, le_rfl, .of_le (List.drop_eq_nil_iff.1 hdrop)⟩
    · have hnext := next?_of_drop_eq hdrop hnil
      rw [takeWhile_of_uncut hfield] at hnext
      refine ⟨1, List.length_pos_iff.2 hnil, .round hnext (.of_le ?_)⟩
      have hlength := congrArg List.length hdrop
      rw [List.length_drop] at hlength
      dsimp only
      omega
  | more field after hfield ih =>
    have hnext := next?_of_drop_eq hdrop (by simp)
    rw [takeWhile_of_cut hfield] at hnext
    have hafter : text.drop (s.place + field.length + 1) = after := by
      rw [Nat.add_assoc, ← List.drop_drop, hdrop, List.drop_length_add_append]
      rfl
    obtain ⟨rounds, hrounds, hends⟩ := ih (s := ⟨_, s.filter.follow field⟩) hafter
    rw [List.splitOn_append_cons_self_of_not_mem hfield, List.foldl_cons]
    refine ⟨rounds + 1, ?_, .round hnext hends⟩
    rw [List.length_append, List.length_cons]
    omega

end Scan

namespace Filter

variable {f g : Filter} {spec : String} {level : Level}

/-- The reading of a text from its beginning ends, and only at the filter that is parsed. -/
theorem ends_parse (f : Filter) (spec : String) :
    (∃ rounds ≤ spec.length, Scan.Ends spec.toList ⟨0, f.cleared⟩ rounds (f.parse spec)) ∧
      ∀ rounds g, Scan.Ends spec.toList ⟨0, f.cleared⟩ rounds g → g = f.parse spec := by
  obtain ⟨rounds, hrounds, hends⟩ : ∃ rounds ≤ spec.toList.length,
      Scan.Ends spec.toList ⟨0, f.cleared⟩ rounds (f.parse spec) := by
    rw [parse_eq_foldl]
    exact Scan.exists_ends List.drop_zero
  rw [String.length_toList] at hrounds
  exact ⟨⟨rounds, hrounds, hends⟩, fun _ _ h => h.unique hends⟩

theorem find?_foldl_follow (fs : List (List Char)) (f g : Filter) (module : String) :
    (fs.foldl follow f).overrides.find? module =
      ((fs.foldl follow g.cleared).overrides.find? module).or (f.overrides.find? module) := by
  simp only [foldl_follow, find?_foldl_apply, cleared, Dict.find?_empty, Option.or_none]

theorem fallback_foldl_follow (fs : List (List Char)) (f : Filter) :
    (fs.foldl follow f.cleared).fallback = (fs.foldl follow f).fallback := by
  simp only [foldl_follow, fallback_foldl_apply, cleared]

theorem overrides_foldl_apply (rules : List Rule) (h : f.overrides = g.overrides) :
    (rules.foldl apply f).overrides = (rules.foldl apply g).overrides := by
  induction rules generalizing f g with
  | nil => exact h
  | cons rule rules ih =>
    refine ih ?_
    cases rule with
    | others l => exact h
    | only name l => simp only [apply, h]

/-- What a text overrides does not hang on the filter before it. -/
theorem overrides_parse (f g : Filter) (spec : String) :
    (f.parse spec).overrides = (g.parse spec).overrides :=
  overrides_foldl_apply _ rfl

theorem parse_append (f : Filter) (a b : String) :
    f.parse (a ++ "," ++ b) = (fields b).foldl follow (f.parse a) := by
  rw [parse_eq_foldl, fields_append, List.foldl_append, ← parse_eq_foldl]

theorem fallback_parse_append (f : Filter) (a b : String) :
    (f.parse (a ++ "," ++ b)).fallback = ((f.parse a).parse b).fallback := by
  rw [parse_append, parse_eq_foldl _ b, fallback_foldl_follow]

theorem find?_parse_append (f g h : Filter) (a b module : String) :
    (f.parse (a ++ "," ++ b)).overrides.find? module =
      ((h.parse b).overrides.find? module).or ((g.parse a).overrides.find? module) := by
  rw [parse_append, find?_foldl_follow _ _ h, ← parse_eq_foldl, overrides_parse f g]

theorem ofList_eq_star_iff {name : List Char} : String.ofList name = "*" ↔ name = ['*'] := by
  rw [String.ext_iff, String.toList_ofList]
  rfl

/-- Behind an equality sign the name would stand for the other modules. -/
theorem bind_level?_star_eq_some_iff (field : List Char) (level : Level) :
    (Rule.ofText? field).bind (Rule.level? "*") = some level ↔ field = ['*'] ∧ level = .trace := by
  rw [Rule.ofText?_bind_eq_some_iff fun _ _ => Rule.level?_eq_some_iff]
  rcases cut_or_uncut '=' field with huncut | ⟨name, text, hname, rfl⟩
  · rw [Rule.ofText?_of_uncut huncut]
    by_cases hnil : field = []
    · simp [hnil]
    · simp [hnil, ofList_eq_star_iff, eq_comm (a := level)]
  · rw [Rule.ofText?_of_cut hname]
    have hfield : name ++ '=' :: text ≠ ['*'] := fun h => by
      have hmem : '=' ∈ ['*'] := h ▸ by simp
      exact absurd hmem (by decide)
    by_cases hstar : name = ['*']
    · simp [hstar]
    · simp [hstar, hfield, ofList_eq_star_iff]

theorem find?_parse_star_iff :
    (f.parse spec).overrides.find? "*" = some level ↔ level = .trace ∧ ['*'] ∈ fields spec := by
  rw [find?_parse]
  cases h : (fields spec).findSomeRev? fun field =>
      (Rule.ofText? field).bind (Rule.level? "*") with
  | none =>
    have hnever := (findSomeRev?_eq_none_iff_neverSaid bind_level?_star_eq_some_iff).1 h
    simpa using fun _ hmem => hnever _ hmem .trace ⟨rfl, rfl⟩
  | some l =>
    obtain ⟨before, field, after, hfields, ⟨rfl, rfl⟩, -⟩ :=
      (findSomeRev?_eq_some_iff_saidLast bind_level?_star_eq_some_iff).1 h
    simp [hfields, eq_comm]

theorem fallback_parse_iff :
    (f.parse spec).fallback = level ↔ LastGiven GivesOthers (fields spec) level ∨
      NoneGiven GivesOthers (fields spec) ∧ level = f.fallback := by
  constructor
  · rintro rfl
    rcases lastGiven_or_noneGiven bind_othersLevel?_eq_some_iff (fields spec) with
      ⟨l, given⟩ | silent
    · rw [fallback_parse_of_lastGiven given]
      exact .inl given
    · exact .inr ⟨silent, fallback_parse_of_noneGiven silent⟩
  · rintro (given | ⟨silent, rfl⟩)
    · exact fallback_parse_of_lastGiven given
    · exact fallback_parse_of_noneGiven silent

/-- What a filter is after a text of those fields, as the last fields say that say anything. -/
structure Follows (f : Filter) (fs : List (List Char)) (after : Filter) : Prop where
  override : ∀ module level, module ≠ "*" →
    (after.overrides.find? module = some level ↔ LastGiven (GivesModule module) fs level)
  no_override : ∀ module, module ≠ "*" →
    (after.overrides.find? module = none ↔ NoneGiven (GivesModule module) fs)
  star : ∀ level, after.overrides.find? "*" = some level ↔ level = .trace ∧ ['*'] ∈ fs
  fallback : ∀ level, after.fallback = level ↔
    LastGiven GivesOthers fs level ∨ NoneGiven GivesOthers fs ∧ level = f.fallback

theorem follows_parse (f : Filter) (spec : String) : f.Follows (fields spec) (f.parse spec) where
  override _ _ hm := find?_parse_eq_some_iff hm
  no_override _ hm := find?_parse_eq_none_iff hm
  star _ := find?_parse_star_iff
  fallback _ := fallback_parse_iff

/-- Every text is read to its end. It comes to a fold over its fields but the empty ones, which
forgets earlier overrides; a second text behind a comma has the last word; and what holds after a
text is what its last fields say. -/
theorem parse_reads_fields :
    (∀ spec fs, fields spec = fs ↔
      fs ≠ [] ∧ (∀ field ∈ fs, ',' ∉ field) ∧ [','].intercalate fs = spec.toList) ∧
    (∀ text level, Level.ofName text = level ↔ text.map Char.toUpper = level.name.toList ∨
      level = .info ∧ ∀ l : Level, text.map Char.toUpper ≠ l.name.toList) ∧
    (∀ (f : Filter) (spec : String),
      (∃ rounds ≤ spec.length, Scan.Ends spec.toList ⟨0, f.cleared⟩ rounds (f.parse spec)) ∧
        ∀ rounds g, Scan.Ends spec.toList ⟨0, f.cleared⟩ rounds g → g = f.parse spec) ∧
    (∀ (f : Filter) (spec : String),
      f.parse spec = ((fields spec).filter (· ≠ [])).foldl follow f.cleared) ∧
    (∀ (f g : Filter) (spec : String), (f.parse spec).overrides = (g.parse spec).overrides) ∧
    (∀ (f : Filter) (a b : String),
      (f.parse (a ++ "," ++ b)).fallback = ((f.parse a).parse b).fallback) ∧
    (∀ (f g h : Filter) (a b module : String),
      (f.parse (a ++ "," ++ b)).overrides.find? module =
        ((h.parse b).overrides.find? module).or ((g.parse a).overrides.find? module)) ∧
    ∀ (f : Filter) (spec : String), f.Follows (fields spec) (f.parse spec) := by
  refine ⟨fun _ _ => fields_eq_iff, fun _ _ => Level.ofName_eq_iff, ends_parse,
    fun f spec => ?fold, overrides_parse, fallback_parse_append, find?_parse_append, follows_parse⟩
  case fold => rw [foldl_follow_nonempty, parse_eq_foldl]

end Filter

end GenericIR.Log
