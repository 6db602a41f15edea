import Deferral.Conversion.Standard

/-!
# The common type of two operands

Two operands of arithmetic type meet in a common type: the wider of two floats, the float of a float
and an integer, the wider of two integers of one signedness. Of integers that differ in signedness
the unsigned one wins if it is at least as wide; failing that both become the unsigned integer of
the signed one's width.
-/

namespace Deferral

namespace Expr

/-- Two integer operands in their common type. -/
def commonInteger (e₁ e₂ : Expr) (p₁ : Nat) (s₁ : Bool) (p₂ : Nat) (s₂ : Bool) : Expr × Expr :=
  let t₁ := Ty.integer p₁ s₁
  let t₂ := Ty.integer p₂ s₂
  if s₁ = s₂ then
    if p₁ < p₂ then (e₁.toInteger t₂, e₂)
    else if p₂ < p₁ then (e₁, e₂.toInteger t₁)
    else (e₁, e₂)
  else if !s₁ ∧ p₂ ≤ p₁ then (e₁, e₂.toInteger t₁)
  else if !s₂ ∧ p₁ ≤ p₂ then (e₁.toInteger t₂, e₂)
  else
    let unsigned := Ty.uint (if s₁ then p₁ else p₂)
    (e₁.toInteger unsigned, e₂.toInteger unsigned)

/-- Two operands in their common type, in their own order. Operands of equivalent types stay as they
are, whatever the type. -/
def common (e₁ e₂ : Expr) : Except Diagnostic (Expr × Expr) :=
  if e₁.type.equivalent e₂.type then .ok (e₁, e₂)
  else match e₁.type.unqualified, e₂.type.unqualified with
    | .float p₁, .float p₂ =>
      if p₁ < p₂ then .ok (e₁.toWiderFloat (.float p₂), e₂)
      else if p₂ < p₁ then .ok (e₁, e₂.toWiderFloat (.float p₁))
      else .ok (e₁, e₂)
    | .integer _ _, .float p => .ok (e₁.integerToFloat (.float p), e₂)
    | .float p, .integer _ _ => .ok (e₁, e₂.integerToFloat (.float p))
    | .integer p₁ s₁, .integer p₂ s₂ => .ok (commonInteger e₁ e₂ p₁ s₁ p₂ s₂)
    | _, _ => .error {
        cause := .noCommonType e₁.type.shown e₂.type.shown
        position := e₁.start }

end Expr

end Deferral
