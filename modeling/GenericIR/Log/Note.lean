import GenericIR.Log.Level

/-! Notes: what a computation has to say about itself while it runs. The computation collects
them with its value; whether anybody reads them is decided elsewhere. -/
namespace GenericIR.Log

/-- Where in the program something is said. -/
structure CallSite where
  file : String := ""
  line : Int := 0
  deriving DecidableEq, Repr

structure Note where
  level : Level
  /-- The part of the program that speaks. -/
  module : String
  message : String
  deriving DecidableEq, Repr

/-- A value and the notes made on the way to it, in order. -/
structure Noted (α : Type) where
  value : α
  notes : List Note := []

namespace Noted

instance : Monad Noted where
  pure a := ⟨a, []⟩
  bind x f := ⟨(f x.value).value, x.notes ++ (f x.value).notes⟩

def note (level : Level) (module message : String) : Noted Unit :=
  ⟨(), [⟨level, module, message⟩]⟩

variable {α β : Type}

@[simp] theorem value_pure (a : α) : (pure a : Noted α).value = a := rfl

@[simp] theorem notes_pure (a : α) : (pure a : Noted α).notes = [] := rfl

@[simp] theorem value_bind (x : Noted α) (f : α → Noted β) :
    (x >>= f).value = (f x.value).value := rfl

@[simp] theorem notes_bind (x : Noted α) (f : α → Noted β) :
    (x >>= f).notes = x.notes ++ (f x.value).notes := rfl

instance : LawfulMonad Noted :=
  LawfulMonad.mk' Noted (fun x => by simp [Functor.map])
    (fun _ _ => by simp [bind, pure])
    (fun _ _ _ => by simp [bind, List.append_assoc])

end Noted

end GenericIR.Log
