import Mathlib.Order.Defs.Unbundled
import Deferral.Proofs.Execution.Reporting

/-!
# Computations that move tables along a relation

However a computation ends, with a value or in a fault, the table that it leaves is related to the one
that it started on. A relation that is reflexive and transitive carries over from the steps of a
computation to the whole of it.
-/

namespace Deferral

variable {R R' : SymbolTable → SymbolTable → Prop} {α β : Type}

namespace Resolution

/-- However a computation ends, it moves the table along a relation. -/
def Moves (R : SymbolTable → SymbolTable → Prop) (x : Resolution α) : Prop :=
  ∀ ⦃t r t'⦄, Runs x t r t' → R t t'

theorem Moves.mono {x : Resolution α} (h : Moves R x) (wider : ∀ t t', R t t' → R' t t') :
    Moves R' x :=
  fun _ _ _ run => wider _ _ (h run)

theorem Moves.map {x : Resolution α} (h : Moves R x) (f : α → β) : Moves R (f <$> x) := by
  intro t r t' run
  obtain ⟨_, first, -⟩ := runs_map.mp run
  exact h first

/-- A fault may be reported as another one. -/
theorem Moves.rethrow {x : Resolution α} (h : Moves R x) (change : Diagnostic → Diagnostic) :
    Moves R (tryCatch x fun d => throw (change d)) := by
  intro t r t' run
  obtain ⟨_, first, -⟩ := runs_rethrow.mp run
  exact h first

theorem moves_modify {f : SymbolTable → SymbolTable} (h : ∀ t, R t (f t)) :
    Moves R (modify f : Resolution PUnit) := by
  intro t r t' run
  obtain ⟨-, rfl⟩ := runs_modify.mp run
  exact h t

theorem Moves.bind [IsTrans _ R] {x : Resolution α} {f : α → Resolution β} (h : Moves R x)
    (h' : ∀ a, Moves R (f a)) : Moves R (x >>= f) := by
  intro t r t' run
  rcases runs_bind.mp run with ⟨d, first, -⟩ | ⟨a, t₁, first, rest⟩
  · exact h first
  · exact IsTrans.trans _ _ _ (h first) (h' a rest)

/-- The table that a computation starts on may be asked first. -/
theorem moves_bind_look {pick : SymbolTable → α} {f : α → Resolution β}
    (h : ∀ a, Moves R (f a)) : Moves R (look pick >>= f) :=
  fun _ _ _ run => h _ (runs_bind_look.mp run)

theorem moves_bind_get {f : SymbolTable → Resolution β} (h : ∀ t, Moves R (f t)) :
    Moves R (get >>= f) :=
  fun _ _ _ run => h _ (runs_bind_get.mp run)

section Refl

variable [Std.Refl R]

theorem moves_pure (a : α) : Moves R (pure a : Resolution α) := by
  intro t r t' run
  obtain ⟨-, rfl⟩ := runs_pure.mp run
  exact Std.Refl.refl _

theorem moves_throw (d : Diagnostic) : Moves R (throw d : Resolution α) := by
  intro t r t' run
  obtain ⟨-, rfl⟩ := runs_throw.mp run
  exact Std.Refl.refl _

theorem moves_fail (cause : Cause) (position : Position) :
    Moves R (fail cause position : Resolution α) :=
  moves_throw _

theorem moves_ofExcept (x : Except Diagnostic α) : Moves R (ofExcept x) := by
  intro t r t' run
  obtain ⟨-, rfl⟩ := runs_ofExcept.mp run
  exact Std.Refl.refl _

theorem moves_scopeOf (owner : ScopeOwner) : Moves R (scopeOf owner) := by
  refine moves_bind_look fun scope? => ?_
  split
  · exact moves_pure _
  · exact moves_fail _ _

end Refl

end Resolution

namespace Reporting

/-- A computation moves the table along a relation. -/
def Moves (R : SymbolTable → SymbolTable → Prop) (x : Reporting α) : Prop :=
  ∀ ⦃ρ t a ρ' t'⦄, Ends x ρ t a ρ' t' → R t t'

theorem Moves.map {x : Reporting α} (h : Moves R x) (f : α → β) : Moves R (f <$> x) := by
  intro ρ t b ρ' t' run
  obtain ⟨_, first, -⟩ := ends_map.mp run
  exact h first

theorem Moves.bind [IsTrans _ R] {x : Reporting α} {f : α → Reporting β} (h : Moves R x)
    (h' : ∀ a, Moves R (f a)) : Moves R (x >>= f) := by
  intro ρ t b ρ' t' run
  obtain ⟨a, ρ₁, t₁, first, rest⟩ := ends_bind.mp run
  exact IsTrans.trans _ _ _ (h first) (h' a rest)

theorem moves_bind_look {pick : SymbolTable → α} {f : α → Reporting β}
    (h : ∀ a, Moves R (f a)) : Moves R (look pick >>= f) :=
  fun _ _ _ _ _ run => h _ (ends_bind_look.mp run)

theorem moves_attempt {x : Resolution α} (h : Resolution.Moves R x) : Moves R (attempt x) :=
  fun _ _ _ _ _ run => h (ends_attempt.mp run).1

section Refl

variable [Std.Refl R]

theorem moves_pure (a : α) : Moves R (pure a : Reporting α) := by
  intro ρ t b ρ' t' run
  obtain ⟨-, -, rfl⟩ := ends_pure.mp run
  exact Std.Refl.refl _

theorem moves_look (pick : SymbolTable → α) : Moves R (look pick) := by
  intro ρ t a ρ' t' run
  obtain ⟨-, -, rfl⟩ := ends_look.mp run
  exact Std.Refl.refl _

theorem moves_report (d : Diagnostic) : Moves R (report d) := by
  intro ρ t u ρ' t' run
  obtain ⟨-, rfl⟩ := ends_report.mp run
  exact Std.Refl.refl _

theorem moves_reportWithin (subject : Subject) (fault? : Option Diagnostic) :
    Moves R (reportWithin subject fault?) := by
  intro ρ t u ρ' t' run
  obtain ⟨-, rfl⟩ := ends_reportWithin.mp run
  exact Std.Refl.refl _

end Refl

end Reporting

namespace Faulting

/-- However a computation ends, it moves the table along a relation. -/
abbrev Moves (R : SymbolTable → SymbolTable → Prop) (x : Faulting α) : Prop :=
  Reporting.Moves R x.run

theorem Moves.bind [IsTrans _ R] {x : Faulting α} {f : α → Faulting β} (h : Moves R x)
    (h' : ∀ a, Moves R (f a)) : Moves R (x >>= f) := by
  intro ρ t r ρ' t' run
  rcases ends_bind.mp run with ⟨d, first, -⟩ | ⟨a, ρ₁, t₁, first, rest⟩
  · exact h first
  · exact IsTrans.trans _ _ _ (h first) (h' a rest)

theorem moves_bind_look {pick : SymbolTable → α} {f : α → Faulting β}
    (h : ∀ a, Moves R (f a)) : Moves R (look pick >>= f) :=
  fun _ _ _ _ _ run => h _ (ends_bind_look.mp run)

theorem moves_change {f : SymbolTable → SymbolTable} (h : ∀ t, R t (f t)) : Moves R (change f) := by
  intro ρ t u ρ' t' run
  obtain ⟨-, -, rfl⟩ := ends_change.mp run
  exact h t

theorem moves_resolve {x : Resolution α} (h : Resolution.Moves R x) : Moves R (resolve x) :=
  Reporting.moves_attempt h

theorem moves_lift {x : Reporting α} (h : Reporting.Moves R x) : Moves R (monadLift x) := by
  intro ρ t r ρ' t' run
  obtain ⟨a, first, -⟩ := ends_lift.mp run
  exact h first

theorem moves_pure [Std.Refl R] (a : α) : Moves R (pure a : Faulting α) :=
  Reporting.moves_pure _

theorem moves_throw [Std.Refl R] (d : Diagnostic) : Moves R (throw d : Faulting α) :=
  Reporting.moves_pure _

theorem moves_fault? {x : Faulting Unit} (h : Moves R x) : Reporting.Moves R x.fault? := by
  intro ρ t fault? ρ' t' run
  rcases ends_fault?.mp run with ⟨-, run⟩ | ⟨_, -, run⟩
  · exact h run
  · exact h run

end Faulting

/-! ## Evaluation and types

Evaluating an expression and resolving a type change the table only where a constant is bound. -/

section Bound

open Resolution

variable [Std.Refl R] {bind : DeclId → Resolution Unit}

namespace Expr

theorem moves_computed (span : Span) (x : Except EvaluationFault Constant) :
    Moves R (computed span x) := by
  cases x with
  | ok c => exact moves_pure c
  | error fault => exact moves_fail _ _

theorem moves_truth (span : Span) (c : Constant) : Moves R (truth span c) := by
  cases c with
  | boolean b => exact moves_pure b
  | _ => exact moves_fail _ _

theorem moves_evaluateName [IsTrans _ R] (binds : ∀ id, Moves R (bind id)) (decl : DeclId)
    (name : String) (span : Span) : Moves R (evaluateName bind decl name span) := by
  refine moves_bind_look fun constant => ?_
  split
  · refine (binds decl).bind fun _ => moves_bind_look fun c? => ?_
    split
    · exact moves_pure _
    · exact moves_fail _ _
  · refine moves_bind_look fun c? => ?_
    split
    · exact moves_pure _
    · exact moves_fail _ _

theorem moves_evaluateWith [IsTrans _ R] (binds : ∀ id, Moves R (bind id)) :
    ∀ e : Expr, Moves R (e.evaluateWith bind)
  | ⟨.deferred _, _, _⟩ | ⟨.call _ _, _, _⟩ | ⟨.assign _ _, _, _⟩ => moves_fail _ _
  | ⟨.boolean _, _, _⟩ | ⟨.integer _, _, _⟩ | ⟨.float _, _, _⟩ => moves_pure _
  | ⟨.name decl name, _, span⟩ => moves_evaluateName binds decl name span
  | ⟨.unary _ e, _, span⟩ | ⟨.converted _ e, _, span⟩ =>
    (moves_evaluateWith binds e).bind fun _ => moves_computed span _
  | ⟨.binary (.arithmetic _) left right, _, span⟩
  | ⟨.binary (.comparison _) left right, _, span⟩ =>
    (moves_evaluateWith binds left).bind fun _ =>
      (moves_evaluateWith binds right).bind fun _ => moves_computed span _
  | ⟨.binary (.connective op) left right, _, _⟩ => by
    refine (moves_evaluateWith binds left).bind fun c => (moves_truth left.span c).bind fun l => ?_
    split
    · exact moves_pure _
    · exact (moves_evaluateWith binds right).bind fun c => (moves_truth right.span c).bind fun _ =>
        moves_pure _

end Expr

namespace TypePhrase

theorem moves_typedIn (e : Phrase) : Moves R (typedIn e) := moves_bind_get fun _ => moves_ofExcept _

theorem moves_arrayOf (element : Ty) (extent : Constant) (position : Position) :
    Moves R (arrayOf element extent position) := by
  unfold arrayOf
  split
  · exact moves_pure _
  · exact moves_fail _ _

theorem moves_resolved [IsTrans _ R] (binds : ∀ id, Moves R (bind id)) :
    ∀ phrase : TypePhrase, Moves R (phrase.resolved bind)
  | .name _ => moves_bind_get fun _ => moves_ofExcept _
  | .auto | .decltypeAuto => moves_pure _
  | .decltype e => (moves_typedIn e).map _
  | .qualified inner _ | .pointer inner | .reference inner | .sequence inner =>
    (moves_resolved binds inner).map _
  | .array element extent =>
    (moves_resolved binds element).bind fun type => (moves_typedIn extent).bind fun e =>
      (e.moves_evaluateWith binds).bind fun value => moves_arrayOf type value _

theorem moves_check [IsTrans _ R] (binds : ∀ id, Moves R (bind id)) (part : TypePart) :
    Moves R (check bind part) := by
  cases part with
  | type phrase => exact (moves_resolved binds phrase).map _
  | expression e => exact (moves_typedIn e).map _

theorem moves_checks [IsTrans _ R] (binds : ∀ id, Moves R (bind id)) :
    ∀ parts : List TypePart, Moves R (parts.forM (check bind))
  | [] => moves_pure _
  | part :: rest => (moves_check binds part).bind fun _ => moves_checks binds rest

theorem moves_typeOf [IsTrans _ R] (binds : ∀ id, Moves R (bind id)) (tokens : List Token) :
    Moves R (typeOf bind tokens) := by
  unfold typeOf
  split
  · exact moves_resolved binds _
  · exact (moves_checks binds _).bind fun _ => moves_throw _

end TypePhrase

namespace Resolution

theorem moves_forceExpression (e : Expr) : Moves R (forceExpression e) :=
  moves_bind_get fun _ => moves_ofExcept _

theorem moves_unexpectedDecl (d : Decl) : Moves R (unexpectedDecl d : Resolution α) := moves_fail _ _

theorem moves_forceTypeWith [IsTrans _ R] (binds : ∀ id, Moves R (bind id)) (type : Ty) :
    Moves R (forceTypeWith bind type) := by
  unfold forceTypeWith
  split
  · exact (TypePhrase.moves_typeOf binds _).rethrow _
  · exact moves_pure _

end Resolution

end Bound

end Deferral
