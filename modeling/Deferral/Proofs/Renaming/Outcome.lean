import Deferral.Diagnostic
import Deferral.Proofs.Renaming.Renaming

/-!
# Outcomes that follow one another

One outcome follows another along a renaming when both are values that correspond, or both are faults
that say the same of the renamed source at the same place.
-/

namespace Deferral

variable (σ : Renaming)

/-! ## Faults -/

/-- The name of a declaration and what it is renamed to. What was never declared has no name, and none
after renaming. -/
inductive Renaming.Names : String → String → Prop
  | declared (name : String) : Names name (σ.name name)
  | undeclared : Names "" ""

/-- A fault that mentions no name of the source. -/
def EvaluationFault.IsNameless : EvaluationFault → Prop
  | .notConstant _ | .selfDependent _ => False
  | _ => True

/-- The fault that an evaluation ends in once identifiers are renamed. -/
inductive EvaluationFault.Renamed : EvaluationFault → EvaluationFault → Prop
  | notConstant (name : String) : Renamed (.notConstant name) (.notConstant (σ.name name))
  | selfDependent {name name' : String} : σ.Names name name' →
      Renamed (.selfDependent name) (.selfDependent name')
  | nameless {fault : EvaluationFault} : fault.IsNameless → Renamed fault fault

/-- What is wrong with a table once identifiers are renamed. -/
inductive InternalFault.Renamed : InternalFault → InternalFault → Prop
  | noSavedScope (owner : String) : Renamed (.noSavedScope owner) (.noSavedScope owner)
  | noTypeHeld (declaration : Nat) : Renamed (.noTypeHeld declaration) (.noTypeHeld declaration)
  | unexpected (subject : Subject) {name name' : String} : σ.Names name name' →
      Renamed (.unexpected subject name) (.unexpected subject name')
  | deferredOperand : Renamed .deferredOperand .deferredOperand

/-- The cause of a fault once identifiers are renamed. Texts of tokens, names and types are those of the
renamed ones. -/
inductive Cause.Renamed : Cause → Cause → Prop
  | unexpected (t : Token) : Renamed (.unexpected t.text) (.unexpected (t.renamed σ).text)
  | unexpectedDetailed (t : Token) (detail : String) :
      Renamed (.unexpectedDetailed t.text detail) (.unexpectedDetailed (t.renamed σ).text detail)
  | badNumber (text : String) : Renamed (.badNumber text) (.badNumber text)
  | undeclared (name : String) : Renamed (.undeclared name) (.undeclared (σ.name name))
  | badExcerpt (excerpt : String) {cause cause' : Cause} : Renamed cause cause' →
      Renamed (.badExcerpt excerpt cause.message) (.badExcerpt excerpt cause'.message)
  | unknownType (name : String) : Renamed (.unknownType name) (.unknownType (σ.name name))
  | notAValue (name subject : String) :
      Renamed (.notAValue name subject) (.notAValue (σ.name name) subject)
  | typeMismatch (expected : String) (received : Ty) :
      Renamed (.typeMismatch expected received.shown)
        (.typeMismatch expected (received.renamed σ).shown)
  | tooManyArguments (expected received : Nat) :
      Renamed (.tooManyArguments expected received) (.tooManyArguments expected received)
  | tooFewArguments (expected received : Nat) :
      Renamed (.tooFewArguments expected received) (.tooFewArguments expected received)
  | noConversion (source target : Ty) : Renamed (.noConversion source.shown target.shown)
      (.noConversion (source.renamed σ).shown (target.renamed σ).shown)
  | noCommonType (left right : Ty) : Renamed (.noCommonType left.shown right.shown)
      (.noCommonType (left.renamed σ).shown (right.renamed σ).shown)
  | notEvaluable {fault fault' : EvaluationFault} : fault.Renamed σ fault' →
      Renamed (.notEvaluable fault) (.notEvaluable fault')
  | internal {fault fault' : InternalFault} : fault.Renamed σ fault' →
      Renamed (.internal fault) (.internal fault')

/-- A diagnostic once identifiers are renamed, at the same place and against the same subject. -/
structure Diagnostic.Renamed (d d' : Diagnostic) : Prop where
  cause : d.cause.Renamed σ d'.cause
  position : d'.position = d.position
  subject : d'.subject = d.subject

variable {σ}

theorem Cause.Renamed.isGrammatical {c c' : Cause} (h : c.Renamed σ c') :
    c'.isGrammatical = c.isGrammatical := by
  cases h <;> rfl

namespace Diagnostic.Renamed

variable {d d' : Diagnostic}

/-- A fault that no subject has been named for. -/
theorem of_cause {c c' : Cause} (h : c.Renamed σ c') (position : Position) :
    Renamed σ { cause := c, position } { cause := c', position } := ⟨h, rfl, rfl⟩

theorem within (h : d.Renamed σ d') (subject : Subject) :
    (d.within subject).Renamed σ (d'.within subject) := by
  unfold Diagnostic.within
  rw [h.subject]
  split
  · exact ⟨h.cause, h.position, rfl⟩
  · exact h

end Diagnostic.Renamed

/-! ## Outcomes -/

variable {α α' β β' : Type} {A : α → α' → Prop} {B : β → β' → Prop}

/-- Two values that correspond, or two faults of which one is the other renamed. -/
inductive Renaming.Follows (σ : Renaming) (A : α → α' → Prop) :
    Except Diagnostic α → Except Diagnostic α' → Prop
  | ok {a : α} {a' : α'} : A a a' → Follows σ A (.ok a) (.ok a')
  | error {d d' : Diagnostic} : d.Renamed σ d' → Follows σ A (.error d) (.error d')

namespace Renaming.Follows

variable {x : Except Diagnostic α} {x' : Except Diagnostic α'}

theorem bind (h : σ.Follows A x x') {f : α → Except Diagnostic β} {f' : α' → Except Diagnostic β'}
    (rest : ∀ a a', A a a' → σ.Follows B (f a) (f' a')) : σ.Follows B (x >>= f) (x' >>= f') := by
  cases h with
  | ok related => exact rest _ _ related
  | error fault => exact .error fault

theorem map (h : σ.Follows A x x') {f : α → β} {f' : α' → β'}
    (rest : ∀ a a', A a a' → B (f a) (f' a')) : σ.Follows B (x.map f) (x'.map f') := by
  cases h with
  | ok related => exact .ok (rest _ _ related)
  | error fault => exact .error fault

theorem mapError (h : σ.Follows A x x') {f f' : Diagnostic → Diagnostic}
    (rest : ∀ d d', d.Renamed σ d' → (f d).Renamed σ (f' d')) :
    σ.Follows A (x.mapError f) (x'.mapError f') := by
  cases h with
  | ok related => exact .ok related
  | error fault => exact .error (rest _ _ fault)

/-- A fault of a cause, wherever it is. -/
theorem fault {c c' : Cause} (h : c.Renamed σ c') (position : Position) :
    σ.Follows A (.error { cause := c, position }) (.error { cause := c', position }) :=
  .error (.of_cause h position)

end Renaming.Follows

end Deferral
