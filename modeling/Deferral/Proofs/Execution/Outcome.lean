import Deferral.Diagnostic
import Mathlib

/-!
# Outcomes

What it takes for an outcome made in steps to be a value, and what it is for a fault not to be internal.
-/

namespace Deferral

variable {ε ε' α β : Type}

theorem bind_eq_ok_iff {x : Except ε α} {f : α → Except ε β} {b : β} :
    (x >>= f) = .ok b ↔ ∃ a, x = .ok a ∧ f a = .ok b := by
  cases x with
  | error e => simp [bind, Except.bind]
  | ok a => simp [bind, Except.bind]

theorem mapError_eq_ok_iff {x : Except ε α} {f : ε → ε'} {a : α} :
    x.mapError f = .ok a ↔ x = .ok a := by
  cases x with
  | error e => simp [Except.mapError]
  | ok b => simp [Except.mapError]

theorem map_eq_ok_iff {x : Except ε α} {f : α → β} {b : β} :
    x.map f = .ok b ↔ ∃ a, x = .ok a ∧ f a = b := by
  cases x with
  | error e => simp [Except.map]
  | ok a => simp [Except.map]

theorem toOption_eq_some_iff {x : Except ε α} {a : α} : x.toOption = some a ↔ x = .ok a := by
  cases x with
  | error e => simp [Except.toOption]
  | ok b => simp [Except.toOption]

theorem map_toOption_eq_some_iff {x : Except ε α} {f : α → β} {b : β} :
    x.toOption.map f = some b ↔ ∃ a, x = .ok a ∧ f a = b := by
  simp [toOption_eq_some_iff]

/-! ## Faults that are not internal -/

/-- Whether a cause is a broken assumption about the table. -/
def Cause.isInternal : Cause → Bool
  | .internal _ => true
  | _ => false

/-- An outcome is of a kind, or else a fault that is not internal. -/
def Sane {α : Type} (P : α → Prop) : Except Diagnostic α → Prop
  | .ok a => P a
  | .error d => d.cause.isInternal = false

theorem Sane.mono {α : Type} {P Q : α → Prop} {x : Except Diagnostic α} (h : Sane P x)
    (h' : ∀ a, P a → Q a) : Sane Q x := by
  cases x with
  | error d => exact h
  | ok a => exact h' a h

end Deferral
