import CssValues.Note

/-!
# Computations that return

A computation with notes either returns or ends with a fault. One that goes through a list returns
if every step on the way does (`Noted.returns_foldlM`).
-/

namespace CssValues.Noted

variable {α β : Type}

/-- The computation ends without a fault. -/
def Returns (x : Noted α) : Prop := ∃ a, x.result = .ok a

theorem returns_pure (a : α) : (pure a : Noted α).Returns := ⟨a, rfl⟩

theorem returns_ofResult {r : Except Fault α} : (ofResult r).Returns ↔ ∃ a, r = .ok a := Iff.rfl

theorem returns_bind {x : Noted α} {f : α → Noted β} :
    (x >>= f).Returns ↔ ∃ a, x.result = .ok a ∧ (f a).Returns := by
  unfold Returns
  rw [result_bind]
  cases x.result with
  | ok a => exact ⟨fun h => ⟨a, rfl, h⟩, by rintro ⟨_, ⟨⟩, h⟩; exact h⟩
  | error fault => exact ⟨by rintro ⟨_, ⟨⟩⟩, by rintro ⟨_, ⟨⟩, _⟩⟩

/-- What goes on without a fault returns if its start does. -/
theorem returns_bind_of {x : Noted α} {f : α → Noted β} (h : ∀ a, (f a).Returns) :
    (x >>= f).Returns ↔ x.Returns := by
  rw [returns_bind]
  exact ⟨fun ⟨a, ha, _⟩ => ⟨a, ha⟩, fun ⟨a, ha⟩ => ⟨a, ha, h a⟩⟩

/-- A fold returns if its steps do, when that does not depend on what was folded before. -/
theorem returns_foldlM {f : β → α → Noted β} {p : α → Prop}
    (h : ∀ b a, (f b a).Returns ↔ p a) (as : List α) (b : β) :
    (as.foldlM f b).Returns ↔ ∀ a ∈ as, p a := by
  induction as generalizing b with
  | nil => exact ⟨fun _ => nofun, fun _ => returns_pure b⟩
  | cons a as ih =>
    rw [List.foldlM_cons, returns_bind, List.forall_mem_cons, ← h b a]
    constructor
    · rintro ⟨b', hb', hrest⟩
      exact ⟨⟨b', hb'⟩, (ih b').mp hrest⟩
    · rintro ⟨⟨b', hb'⟩, hrest⟩
      exact ⟨b', hb', (ih b').mpr hrest⟩

end CssValues.Noted
