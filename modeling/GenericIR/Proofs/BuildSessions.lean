import GenericIR.Proofs.FreshNames
import GenericIR.Proofs.LastSaid

/-! Sessions. A draft that is filled in by settings holds, on every topic, what the last setting on
that topic says; the two ways to give results are one topic. So settings which end alike on every
topic lead to the same draft. Building it asks the generator once, and the operation is the draft with
the id that came back. -/
namespace GenericIR

/-- What a setting is about. -/
inductive Topic where
  | operands | results | attrs | regions | isTerminator | loc | successors
  deriving DecidableEq, Repr

namespace Setting

def topic : Setting → Topic
  | operands _ => .operands
  | results _ => .results
  | resultTypes _ => .results
  | attrs _ => .attrs
  | regions _ => .regions
  | isTerminator _ => .isTerminator
  | loc _ => .loc
  | successors _ => .successors

/-- The settings on that topic. -/
def HasForm (s : Setting) : Topic → Prop
  | .operands => ∃ names, s = operands names
  | .results => (∃ values, s = results values) ∨ ∃ types, s = resultTypes types
  | .attrs => ∃ dict, s = attrs dict
  | .regions => ∃ rs, s = regions rs
  | .isTerminator => ∃ flag, s = isTerminator flag
  | .loc => ∃ place, s = loc place
  | .successors => ∃ labels, s = successors labels

theorem hasForm_topic (s : Setting) : s.HasForm s.topic := by
  cases s with
  | results values => exact .inl ⟨values, rfl⟩
  | resultTypes types => exact .inr ⟨types, rfl⟩
  | _ => exact ⟨_, rfl⟩

/-- A setting on a topic says itself. -/
def Says (topic : Topic) (s t : Setting) : Prop :=
  s.topic = topic ∧ s = t

def said? (topic : Topic) (s : Setting) : Option Setting :=
  if s.topic = topic then some s else none

theorem said?_eq_some_iff {topic : Topic} (s t : Setting) :
    s.said? topic = some t ↔ s.Says topic t := by
  simp [said?, Says]

end Setting

/-- `s` is the last of the settings on that topic. -/
abbrev LastOn (topic : Topic) (settings : List Setting) (s : Setting) : Prop :=
  SaidLast (Setting.Says topic) settings s

/-- None of the settings is on that topic. -/
abbrev NoneOn (topic : Topic) (settings : List Setting) : Prop :=
  NeverSaid (Setting.Says topic) settings

theorem lastOn_or_noneOn (topic : Topic) (settings : List Setting) :
    (∃ s, LastOn topic settings s) ∨ NoneOn topic settings :=
  saidLast_or_neverSaid Setting.said?_eq_some_iff settings

theorem LastOn.hasForm {topic : Topic} {settings : List Setting} {s : Setting}
    (h : LastOn topic settings s) : s.HasForm topic := by
  obtain ⟨before, item, after, -, ⟨rfl, rfl⟩, -⟩ := h
  exact item.hasForm_topic

namespace Draft

variable {topic : Topic} {d d' d'' : Draft} {s : Setting} {settings settings' : List Setting}

/-- The drafts hold the same on that topic. -/
def SameOn : Topic → Draft → Draft → Prop
  | .operands, d, d' => d.operands = d'.operands
  | .results, d, d' => d.results = d'.results
  | .attrs, d, d' => d.attrs = d'.attrs
  | .regions, d, d' => d.regions = d'.regions
  | .isTerminator, d, d' => d.isTerminator = d'.isTerminator
  | .loc, d, d' => d.loc = d'.loc
  | .successors, d, d' => d.successors = d'.successors

theorem SameOn.refl (topic : Topic) (d : Draft) : SameOn topic d d := by
  cases topic <;> rfl

theorem SameOn.symm (h : SameOn topic d d') : SameOn topic d' d := by
  cases topic <;> exact Eq.symm h

theorem SameOn.trans (h : SameOn topic d d') (h' : SameOn topic d' d'') : SameOn topic d d'' := by
  cases topic <;> exact Eq.trans h h'

theorem eq_of_sameOn (hname : d.name = d'.name) (h : ∀ topic, SameOn topic d d') : d = d' := by
  cases d
  cases d'
  cases hname
  cases h .operands
  cases h .results
  cases h .attrs
  cases h .regions
  cases h .isTerminator
  cases h .loc
  cases h .successors
  rfl

/-- A setting leaves the other topics alone. -/
theorem sameOn_set_of_ne (h : s.topic ≠ topic) (d : Draft) : SameOn topic (d.set s) d := by
  cases s <;> cases topic <;> first | rfl | exact absurd rfl h

/-- What a draft held before on its topic is forgotten. -/
theorem sameOn_set (s : Setting) (d d' : Draft) : SameOn s.topic (d.set s) (d'.set s) := by
  cases s <;> rfl

@[simp] theorem name_set (d : Draft) (s : Setting) : (d.set s).name = d.name := by
  cases s <;> rfl

theorem setAll_cons (d : Draft) (s : Setting) (settings : List Setting) :
    d.setAll (s :: settings) = (d.set s).setAll settings := rfl

theorem setAll_append (d : Draft) (settings settings' : List Setting) :
    d.setAll (settings ++ settings') = (d.setAll settings).setAll settings' :=
  List.foldl_append

theorem name_setAll (d : Draft) (settings : List Setting) : (d.setAll settings).name = d.name := by
  induction settings generalizing d with
  | nil => rfl
  | cons s settings ih => rw [setAll_cons, ih, name_set]

theorem sameOn_setAll_of_noneOn (h : NoneOn topic settings) (d : Draft) :
    SameOn topic (d.setAll settings) d := by
  induction settings generalizing d with
  | nil => exact .refl topic d
  | cons s settings ih =>
    obtain ⟨hs, hsettings⟩ := List.forall_mem_cons.1 h
    have htopic : s.topic ≠ topic := fun heq => hs s ⟨heq, rfl⟩
    exact (ih hsettings (d.set s)).trans (sameOn_set_of_ne htopic d)

theorem sameOn_setAll_of_lastOn (h : LastOn topic settings s) (d d' : Draft) :
    SameOn topic (d.setAll settings) (d'.set s) := by
  obtain ⟨before, item, after, rfl, ⟨rfl, rfl⟩, hafter⟩ := h
  rw [setAll_append, setAll_cons]
  exact (sameOn_setAll_of_noneOn hafter _).trans (sameOn_set item _ d')

/-- Settings that end alike on every topic lead to the same draft. -/
theorem setAll_congr (h : ∀ topic s, LastOn topic settings s ↔ LastOn topic settings' s)
    (d : Draft) : d.setAll settings = d.setAll settings' := by
  refine eq_of_sameOn (by rw [name_setAll, name_setAll]) fun topic => ?_
  rcases lastOn_or_noneOn topic settings with ⟨s, hlast⟩ | hnone
  · exact (sameOn_setAll_of_lastOn hlast d d).trans
      (sameOn_setAll_of_lastOn ((h topic s).1 hlast) d d).symm
  · rcases lastOn_or_noneOn topic settings' with ⟨s, hlast⟩ | hnone'
    · exact absurd hnone ((h topic s).2 hlast).not_neverSaid
    · exact (sameOn_setAll_of_noneOn hnone d).trans (sameOn_setAll_of_noneOn hnone' d).symm

end Draft

/-- `value` is what the last setting on that topic sets, or the default if there is none. -/
def IsSet {β : Type} (topic : Topic) (setting : β → Setting) (settings : List Setting)
    (default value : β) : Prop :=
  LastOn topic settings (setting value) ∨ NoneOn topic settings ∧ value = default

/-- Results of those types, named after the operation of that id. -/
structure NamedAfter (id : String) (types : List Ty) (values : List Value) : Prop where
  types_eq : values.map Value.type = types
  names_eq : values.map Value.name =
    if types.length = 1 then [id]
    else (List.range types.length).map fun i => id ++ "_" ++ Decimal.string i

/-- The results of an operation of that id after those settings. -/
inductive HasResults (id : String) (settings : List Setting) : List Value → Prop
  | given {values : List Value} (last : LastOn .results settings (.results values)) :
    HasResults id settings values
  | typed {types : List Ty} {values : List Value}
    (last : LastOn .results settings (.resultTypes types)) (named : NamedAfter id types values) :
    HasResults id settings values
  | unset (none : NoneOn .results settings) : HasResults id settings []

/-- The operation of that name and id, with all else as the settings say. -/
structure BuiltFrom (name : String) (settings : List Setting) (id : String) (op : Operation) :
    Prop where
  name_eq : op.name = name
  id_eq : op.id = id
  operands : IsSet .operands .operands settings [] op.operands
  results : HasResults id settings op.results
  attrs : IsSet .attrs .attrs settings ∅ op.attrs
  regions : IsSet .regions .regions settings [] op.regions
  isTerminator : IsSet .isTerminator .isTerminator settings false op.isTerminator
  loc : IsSet .loc .loc settings .unknown op.loc
  successors : IsSet .successors .successors settings [] op.successors

theorem ResultPlan.namedAfter (id : String) (types : List Ty) :
    NamedAfter id types ((typed types).values id) where
  types_eq := by
    match types with
    | [] => rfl
    | [_] => rfl
    | first :: second :: rest =>
      rw [values, List.map_map]
      · exact List.zipIdx_map_fst 0 _
      · rintro _ h
        cases h
  names_eq := names_typed id types

namespace Draft

variable {topic : Topic} {d d' : Draft} {settings settings' : List Setting}

/-- A part of a draft that hangs on one topic is what the last setting of its form sets it to. -/
theorem isSet_setAll {β : Type} (topic : Topic) (part : Draft → β) (setting : β → Setting)
    (hpart : ∀ {d d' : Draft}, SameOn topic d d' → part d = part d')
    (hset : ∀ (d : Draft) (b : β), part (d.set (setting b)) = b)
    (hform : ∀ {s : Setting}, s.HasForm topic → ∃ b, s = setting b) (d : Draft)
    (settings : List Setting) :
    IsSet topic setting settings (part d) (part (d.setAll settings)) := by
  rcases lastOn_or_noneOn topic settings with ⟨s, hlast⟩ | hnone
  · obtain ⟨b, rfl⟩ := hform hlast.hasForm
    rw [hpart (sameOn_setAll_of_lastOn hlast d d), hset]
    exact .inl hlast
  · exact .inr ⟨hnone, hpart (sameOn_setAll_of_noneOn hnone d)⟩

theorem hasResults_setAll (hempty : d.results = .given []) (id : String)
    (settings : List Setting) :
    HasResults id settings ((d.setAll settings).results.values id) := by
  rcases lastOn_or_noneOn .results settings with ⟨s, hlast⟩ | hnone
  · have hsame : (d.setAll settings).results = (d.set s).results :=
      sameOn_setAll_of_lastOn hlast d d
    rw [hsame]
    rcases hlast.hasForm with ⟨values, rfl⟩ | ⟨types, rfl⟩
    · exact .given hlast
    · exact .typed hlast (ResultPlan.namedAfter id types)
  · have hsame : (d.setAll settings).results = d.results := sameOn_setAll_of_noneOn hnone d
    rw [hsame, hempty]
    exact .unset hnone

/-- A draft of that name, and all else as the settings say. -/
def session (name : String) (settings : List Setting) : Draft :=
  setAll { name } settings

theorem builtFrom_session (name : String) (settings : List Setting) (id : String) :
    BuiltFrom name settings id ((session name settings).finish id) where
  name_eq := name_setAll _ settings
  id_eq := rfl
  operands :=
    isSet_setAll .operands operands .operands (fun h => h) (fun _ _ => rfl) (fun h => h) _ settings
  results := hasResults_setAll rfl id settings
  attrs := isSet_setAll .attrs attrs .attrs (fun h => h) (fun _ _ => rfl) (fun h => h) _ settings
  regions :=
    isSet_setAll .regions regions .regions (fun h => h) (fun _ _ => rfl) (fun h => h) _ settings
  isTerminator := isSet_setAll .isTerminator isTerminator .isTerminator (fun h => h)
    (fun _ _ => rfl) (fun h => h) _ settings
  loc := isSet_setAll .loc loc .loc (fun h => h) (fun _ _ => rfl) (fun h => h) _ settings
  successors := isSet_setAll .successors successors .successors (fun h => h) (fun _ _ => rfl)
    (fun h => h) _ settings

section Generators

variable {ε : Type}

/-- A generator that also writes down the states it is asked in. -/
def recorded (generate : ε → ε × String) (state : ε) : StateM (List ε) (ε × String) := do
  modify (· ++ [state])
  return generate state

theorem build_eq {m : Type → Type} [Monad m] (d : Draft) (generate : ε → m (ε × String))
    (state : ε) : d.build generate state = generate state >>= fun r => pure (r.1, d.finish r.2) :=
  rfl

theorem build_recorded (d : Draft) (generate : ε → ε × String) (state : ε) (asked : List ε) :
    (d.build (recorded generate) state).run asked =
      (((generate state).1, d.finish (generate state).2), asked ++ [state]) :=
  rfl

/-- Building asks the generator once, in the state that it is given, returns the state that comes
back, and gives the operation of the id that comes back; all else is as the settings say that come
last on their topics. What the generator does besides is done once. -/
theorem session_builds (name : String) (settings : List Setting) :
    (∀ (generate : ε → ε × String) (state : ε), ∃ op,
      ((session name settings).build (recorded generate) state).run [] =
        (((generate state).1, op), [state]) ∧
      BuiltFrom name settings (generate state).2 op) ∧
    (∀ {m : Type → Type} [Monad m] (generate : ε → m (ε × String)) (state : ε),
      ∃ op : String → Operation,
        (session name settings).build generate state =
          (generate state >>= fun r => pure (r.1, op r.2)) ∧
        ∀ id, BuiltFrom name settings id (op id)) ∧
    ∀ settings' : List Setting,
      (∀ topic s, LastOn topic settings s ↔ LastOn topic settings' s) →
        ∀ {m : Type → Type} [Monad m] (generate : ε → m (ε × String)) (state : ε),
          (session name settings).build generate state =
            (session name settings').build generate state := by
  refine ⟨fun generate state => ?once, fun {m} _ generate state => ?effects,
    fun settings' h {m} _ generate state => ?same⟩
  case once =>
    exact ⟨_, build_recorded _ generate state [], builtFrom_session name settings _⟩
  case effects =>
    exact ⟨_, build_eq _ generate state, builtFrom_session name settings⟩
  case same => rw [session, session, setAll_congr h]

end Generators

end Draft

end GenericIR
