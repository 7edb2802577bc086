import GenericIR.Log.Config
import GenericIR.Proofs.LastSaid

/-! What each argument says about the log, read off its text, and what the arguments say together.
The options of the log are just the arguments that say something. -/
namespace GenericIR.Log

namespace Flag

/-- The argument says that about the log. -/
inductive Says : String → Flag → Prop
  | level (name : String) : Says ("--log-level=" ++ name) (.level (Level.ofName name.toList))
  | quiet : Says "-q" (.level .error)
  | quietInFull : Says "--quiet" (.level .error)
  | filter (spec : String) : Says ("--log-filter=" ++ spec) (.filter spec)
  | file (path : String) : Says ("--log-file=" ++ path) (.file path)
  | verbose : Says "--verbose" (.verbosity 1)
  | letters (n : Nat) :
      Says ("-" ++ String.ofList (List.replicate (n + 1) 'v')) (.verbosity (n + 1))

theorem isSome_value? (start arg : String) : (value? start arg).isSome = begins start arg := by
  unfold value?
  split <;> simp_all

theorem value?_eq_some_iff {start arg : String} {s : List Char} :
    value? start arg = some s ↔ arg = start ++ String.ofList s := by
  unfold value? begins
  rw [String.ext_iff, String.toList_append, String.toList_ofList]
  split
  · rename_i hstart
    obtain ⟨t, ht⟩ := List.isPrefixOf_iff_prefix.1 hstart
    rw [← ht, Option.some.injEq, List.append_cancel_left_eq, ← String.length_toList, List.drop_left]
  · rename_i hstart
    exact ⟨nofun, fun h => absurd (List.isPrefixOf_iff_prefix.2 ⟨s, h.symm⟩) hstart⟩

theorem value?_append (start rest : String) : value? start (start ++ rest) = some rest.toList :=
  value?_eq_some_iff.2 (by rw [String.ofList_toList])

theorem verbosity?_eq_some_iff {s : List Char} {n : Nat} :
    verbosity? s = some n ↔ ∃ k, n = k + 1 ∧ s = '-' :: List.replicate (k + 1) 'v' := by
  constructor
  · intro h
    unfold verbosity? at h
    split at h
    · rename_i vs
      split at h
      · rename_i hall
        have hvs : vs = List.replicate vs.length 'v' := by
          simpa [List.eq_replicate_iff] using hall
        exact ⟨vs.length, (Option.some.inj h).symm, by rw [List.replicate_succ, ← hvs]⟩
      · cases h
    · cases h
  · rintro ⟨k, rfl, rfl⟩
    simp [verbosity?, List.replicate_succ]

/-- No argument says two things, though some forms begin alike. -/
theorem ofArg?_eq_some_of_says {arg : String} {flag : Flag} (h : Says arg flag) :
    ofArg? arg = some flag := by
  cases h with
  | level name => simp [ofArg?, value?_append]
  | quiet => decide
  | quietInFull => decide
  | filter spec =>
    have hlevel : value? "--log-level=" ("--log-filter=" ++ spec) = none := by simp [value?, begins]
    simp [ofArg?, hlevel, value?_append]
  | file path =>
    have hlevel : value? "--log-level=" ("--log-file=" ++ path) = none := by simp [value?, begins]
    have hfilter : value? "--log-filter=" ("--log-file=" ++ path) = none := by simp [value?, begins]
    simp [ofArg?, hlevel, hfilter, value?_append]
  | verbose => decide
  | letters n => simp [ofArg?, value?, begins, List.replicate_succ, String.ext_iff, verbosity?]

theorem says_of_ofArg?_eq_some {arg : String} {flag : Flag} (h : ofArg? arg = some flag) :
    Says arg flag := by
  -- The forms are tried one after the other.
  unfold ofArg? at h
  split at h
  · rename_i s hs
    obtain rfl := Option.some.inj h
    obtain rfl := value?_eq_some_iff.1 hs
    simpa using Says.level (String.ofList s)
  split at h
  · rename_i s hs
    obtain rfl := Option.some.inj h
    obtain rfl := value?_eq_some_iff.1 hs
    exact .filter _
  split at h
  · rename_i s hs
    obtain rfl := Option.some.inj h
    obtain rfl := value?_eq_some_iff.1 hs
    exact .file _
  split at h
  · rename_i hquiet
    obtain rfl := Option.some.inj h
    rcases hquiet with rfl | rfl
    · exact .quiet
    · exact .quietInFull
  split at h
  · rename_i hverbose
    obtain rfl := Option.some.inj h
    subst hverbose
    exact .verbose
  · obtain ⟨n, hn, rfl⟩ := Option.map_eq_some_iff.1 h
    obtain ⟨k, rfl, hk⟩ := verbosity?_eq_some_iff.1 hn
    have harg : arg = "-" ++ String.ofList (List.replicate (k + 1) 'v') := by
      simpa [String.ext_iff] using hk
    exact harg ▸ .letters k

theorem ofArg?_eq_some_iff {arg : String} {flag : Flag} : ofArg? arg = some flag ↔ Says arg flag :=
  ⟨says_of_ofArg?_eq_some, ofArg?_eq_some_of_says⟩

end Flag

/-- The options of the log are the arguments that the log is configured by. -/
theorem isLogOption_eq_isSome (arg : String) : isLogOption arg = (Flag.ofArg? arg).isSome := by
  unfold isLogOption Flag.ofArg?
  simp only [← Flag.isSome_value?]
  cases Flag.value? "--log-level=" arg with
  | some name => rfl
  | none =>
    cases Flag.value? "--log-filter=" arg with
    | some spec => rfl
    | none =>
      cases Flag.value? "--log-file=" arg with
      | some path => rfl
      | none =>
        by_cases hquiet : arg = "-q" ∨ arg = "--quiet"
        · rcases hquiet with rfl | rfl <;> rfl
        · by_cases hverbose : arg = "--verbose"
          · simp [hverbose]
          · simp_all

theorem isLogOption_iff {arg : String} : isLogOption arg ↔ ∃ flag, Flag.Says arg flag := by
  rw [isLogOption_eq_isSome, Option.isSome_iff_exists]
  simp only [Flag.ofArg?_eq_some_iff]

theorem not_isLogOption_iff {arg : String} : ¬ isLogOption arg ↔ Flag.ofArg? arg = none := by
  rw [isLogOption_eq_isSome, Bool.not_eq_true, Option.isSome_eq_false_iff,
    Option.isNone_iff_eq_none]

theorem head?_of_isLogOption {arg : String} (h : isLogOption arg) : arg.toList.head? = some '-' := by
  obtain ⟨flag, hflag⟩ := isLogOption_iff.1 h
  cases hflag with
  | quiet => decide
  | quietInFull => decide
  | verbose => decide
  | _ => simp [String.toList_append]

end GenericIR.Log
