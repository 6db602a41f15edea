import Deferral.Proofs.Execution.Outcome
import Deferral.Typing.Operation

/-!
# What conversions add

However an expression is converted, it stays what it is inside some conversions, and where it cannot
be converted the types are at fault.
-/

namespace Deferral

/-- What can be wrong with the parts of a phrase: its numbers, its names, and the types of both. -/
def Cause.isOfMeaning : Cause → Bool
  | .badNumber _ | .undeclared _ | .notAValue _ _ | .typeMismatch _ _ | .tooManyArguments _ _
  | .tooFewArguments _ _ | .noConversion _ _ | .noCommonType _ _ => true
  | _ => false

/-- An outcome is of a kind, or else numbers, names or types are at fault. -/
def Meant {α : Type} (P : α → Prop) : Except Diagnostic α → Prop
  | .ok a => P a
  | .error d => d.cause.isOfMeaning = true

theorem Meant.bind {α β : Type} {P : α → Prop} {Q : β → Prop} {x : Except Diagnostic α}
    {f : α → Except Diagnostic β} (h : Meant P x) (h' : ∀ a, P a → Meant Q (f a)) :
    Meant Q (x >>= f) := by
  cases x with
  | error d => exact h
  | ok a => exact h' a h

theorem Meant.mono {α : Type} {P Q : α → Prop} {x : Except Diagnostic α} (h : Meant P x)
    (h' : ∀ a, P a → Q a) : Meant Q x := by
  cases x with
  | error d => exact h
  | ok a => exact h' a h

theorem Meant.of_ok {α : Type} {P : α → Prop} {x : Except Diagnostic α} {a : α} (h : Meant P x)
    (ok : x = .ok a) : P a := by
  rw [ok] at h
  exact h

namespace Expr

/-- An expression stands inside some conversions, or none. -/
inductive Wraps (e : Expr) : Expr → Prop
  | refl : Wraps e e
  | convert {e' : Expr} (conversion : Conversion) (target : Ty) :
      Wraps e e' → Wraps e (e'.convert conversion target)

namespace Wraps

variable {e e' e'' : Expr}

theorem trans (h : e.Wraps e') (h' : e'.Wraps e'') : e.Wraps e'' := by
  induction h' with
  | refl => exact h
  | convert conversion target _ ih => exact .convert conversion target ih

/-- What a function of expressions does not see of one conversion it does not see of any. -/
theorem eq {α : Type} {f : Expr → α} (unseen : ∀ e conversion target,
    f (e.convert conversion target) = f e) (h : e.Wraps e') : f e' = f e := by
  induction h with
  | refl => rfl
  | convert conversion target _ ih => rw [unseen, ih]

end Wraps

variable {e e' l r : Expr}

/-- One conversion around an expression. -/
theorem wraps_convert (e : Expr) (conversion : Conversion) (target : Ty) :
    e.Wraps (e.convert conversion target) := .convert conversion target .refl

/-! ## Each step -/

theorem wraps_dereferenced (e : Expr) : e.Wraps e.dereferenced := by
  unfold dereferenced
  split
  · exact wraps_convert ..
  · exact .refl

theorem wraps_withoutQualifiers (e : Expr) : e.Wraps e.withoutQualifiers := by
  unfold withoutQualifiers
  split
  · exact wraps_convert ..
  · exact .refl

theorem wraps_asValue (e : Expr) : e.Wraps e.asValue :=
  e.wraps_dereferenced.trans e.dereferenced.wraps_withoutQualifiers

theorem wraps_categoryConverted (e : Expr) (target : Ty) :
    e.Wraps (e.categoryConverted target) := by
  unfold categoryConverted
  split
  · exact .refl
  · exact e.wraps_dereferenced

theorem wraps_toBoolean (e : Expr) (target : Ty) : e.Wraps (e.toBoolean target) := by
  unfold toBoolean
  split
  · exact wraps_convert ..
  · exact .refl

theorem wraps_toInteger (e : Expr) (target : Ty) : e.Wraps (e.toInteger target) := by
  unfold toInteger
  split
  · split
    · exact wraps_convert ..
    · exact .refl
  · exact wraps_convert ..
  · exact .refl

theorem wraps_toWiderFloat (e : Expr) (target : Ty) : e.Wraps (e.toWiderFloat target) := by
  unfold toWiderFloat
  split
  · split
    · exact wraps_convert ..
    · exact .refl
  · exact .refl

theorem wraps_integerToFloat (e : Expr) (target : Ty) : e.Wraps (e.integerToFloat target) := by
  unfold integerToFloat
  split
  · exact wraps_convert ..
  · exact .refl

theorem wraps_toFloat (e : Expr) (target : Ty) : e.Wraps (e.toFloat target) := by
  unfold toFloat
  split
  · exact wraps_toWiderFloat ..
  split
  · exact wraps_integerToFloat ..
  · exact .refl

theorem wraps_valueConverted (e : Expr) (target : Ty) : e.Wraps (e.valueConverted target) := by
  unfold valueConverted
  split
  · exact .refl
  split
  · exact wraps_toBoolean ..
  · exact wraps_toInteger ..
  · exact wraps_toFloat ..
  · exact .refl

theorem wraps_qualificationConverted (e : Expr) (target : Ty) :
    e.Wraps (e.qualificationConverted target) := by
  unfold qualificationConverted
  split
  · exact wraps_convert ..
  · exact .refl

/-! ## Conversions to a type -/

theorem meant_convertTo (e : Expr) (target : Ty) : Meant e.Wraps (e.convertTo target) := by
  have first := e.wraps_categoryConverted target
  have second := first.trans (wraps_valueConverted _ target)
  have third := second.trans (wraps_qualificationConverted _ target)
  unfold convertTo
  dsimp only
  split
  · exact first
  split
  · exact second
  split
  · exact third
  · rfl

theorem meant_asCondition (e : Expr) : Meant e.Wraps e.asCondition := by
  unfold asCondition
  dsimp only
  split
  · exact e.wraps_asValue
  · exact (meant_convertTo _ _).mono fun _ h => e.wraps_asValue.trans h

theorem meant_initializer (e : Expr) (target : Ty) : Meant e.Wraps (e.initializer target) := by
  unfold initializer
  split
  · exact .refl
  split
  · split
    · exact .refl
    · rfl
  · exact meant_convertTo ..

theorem meant_definingInitializer (e : Expr) (target : Ty) :
    Meant e.Wraps (e.definingInitializer target) := by
  unfold definingInitializer
  split
  · exact meant_initializer ..
  · exact (meant_initializer ..).mono fun _ h => e.wraps_asValue.trans h

theorem wraps_commonInteger (l r : Expr) (p₁ p₂ : Nat) (s₁ s₂ : Bool) :
    l.Wraps (l.commonInteger r p₁ s₁ p₂ s₂).1 ∧ r.Wraps (l.commonInteger r p₁ s₁ p₂ s₂).2 := by
  unfold commonInteger
  dsimp only
  split
  · split
    · exact ⟨wraps_toInteger .., .refl⟩
    split
    · exact ⟨.refl, wraps_toInteger ..⟩
    · exact ⟨.refl, .refl⟩
  split
  · exact ⟨.refl, wraps_toInteger ..⟩
  split
  · exact ⟨wraps_toInteger .., .refl⟩
  · exact ⟨wraps_toInteger .., wraps_toInteger ..⟩

/-- Two operands that meet in a common type are still themselves. -/
theorem meant_common (l r : Expr) :
    Meant (fun both => l.Wraps both.1 ∧ r.Wraps both.2) (l.common r) := by
  unfold common
  split
  · exact ⟨.refl, .refl⟩
  split
  · split
    · exact ⟨wraps_toWiderFloat .., .refl⟩
    split
    · exact ⟨.refl, wraps_toWiderFloat ..⟩
    · exact ⟨.refl, .refl⟩
  · exact ⟨wraps_integerToFloat .., .refl⟩
  · exact ⟨.refl, wraps_integerToFloat ..⟩
  · exact wraps_commonInteger ..
  · rfl

end Expr

end Deferral
