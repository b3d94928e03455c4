import CssValues.Number.Basic
import CssValues.Text.Basic

/-!
# Notes

Readers of style values do not complain about what they cannot read: they give no value, and leave a
note that says what was wrong. A note names the component that it comes from.
-/

namespace CssValues

/-- A remark for whoever looks into why a value was not read. -/
structure Note where
  component : Text
  message : Text
  deriving DecidableEq

/-- A result with the notes left on the way to it, first one first. A fault ends the computation but
keeps the notes that were left before. -/
structure Noted (α : Type) where
  notes : List Note
  result : Except Fault α

namespace Noted

variable {α β : Type}

instance : Monad Noted where
  pure a := ⟨[], .ok a⟩
  bind x f :=
    match x.result with
    | .ok a => ⟨x.notes ++ (f a).notes, (f a).result⟩
    | .error fault => ⟨x.notes, .error fault⟩

def leave (component message : Text) : Noted Unit := ⟨[⟨component, message⟩], .ok ()⟩

def ofResult (result : Except Fault α) : Noted α := ⟨[], result⟩

@[simp] theorem notes_pure (a : α) : (pure a : Noted α).notes = [] := rfl

@[simp] theorem result_pure (a : α) : (pure a : Noted α).result = .ok a := rfl

theorem result_bind (x : Noted α) (f : α → Noted β) :
    (x >>= f).result = x.result.bind fun a => (f a).result := by
  show (match x.result with
    | .ok a => (⟨x.notes ++ (f a).notes, (f a).result⟩ : Noted β)
    | .error fault => ⟨x.notes, .error fault⟩).result = _
  cases x.result <;> rfl

end Noted

end CssValues
