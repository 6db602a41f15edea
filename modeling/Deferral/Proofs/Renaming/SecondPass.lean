import Deferral.Proofs.Renaming.FirstPass
import Deferral.Proofs.SecondPass.Resolved
import Deferral.Unit.Definition

/-!
# The second pass over renamed declarations

What the second pass does to renamed initializers and bodies is what it does to the initializers and
bodies, renamed.
-/

namespace Deferral

variable {σ : Renaming} {t t' : SymbolTable}

namespace Definition

/-- Something that has been worked on and what it is renamed to. Both works ended in a fault, or neither
did. -/
def Works {α α' : Type} (σ : Renaming) (rename : α → α') (w : Worked α) (w' : Worked α') : Prop :=
  w'.1 = rename w.1 ∧ Option.Rel (Diagnostic.Renamed σ) w.2 w'.2

/-! ## Results -/

section

open Resolution

theorem follows_resultOf (id : DeclId) :
    Follows σ (Ty.Renames σ) (resultOf id) (resultOf id) := by
  refine (follows_look fun t t' same => same.decl id).bind fun d d' renamed => ?_
  rw [renamed.callable?]
  cases d.callable? with
  | some c => exact follows_pure rfl
  | none => exact follows_unexpectedDecl renamed

theorem follows_deduceResult (id : DeclId) (deduced : Ty) :
    Follows σ (fun _ _ => True) (deduceResult id deduced)
      (deduceResult id (deduced.renamed σ)) := by
  refine (follows_resultOf id).bind ?_
  rintro result _ rfl
  rw [Ty.isPlaceholder_renamed]
  split
  · refine Follows.bind (A := fun _ _ => True) ?_ fun _ _ _ => ?_
    · exact follows_modify fun _ _ same => same.mapCallable id fun _ => rfl
    · exact follows_modify fun _ _ same => same.rebuildType id
  · exact follows_pure trivial

theorem follows_asResult (id : DeclId) (e : Expr) :
    Follows σ (Expr.Renames σ) (asResult id e) (asResult id (e.renamed σ)) := by
  refine (follows_resultOf id).bind ?_
  rintro result _ rfl
  rw [renamed_deduce?]
  cases deduce? result e with
  | some e =>
    dsimp only [Option.map]
    rw [Expr.type_renamed]
    exact (follows_deduceResult id e.type).bind fun _ _ _ => follows_pure rfl
  | none => exact follows_ofExcept (e.follows_definingInitializer result)

theorem follows_withoutResult (id : DeclId) (position : Position) :
    Follows σ (fun _ _ => True) (withoutResult id position) (withoutResult id position) := by
  have plain (type : Ty) : Follows σ (fun _ _ => True)
      (if type.isDependent then pure ()
        else fail (.noConversion Ty.void.shown type.shown) position : Resolution Unit)
      (if (type.renamed σ).isDependent then pure ()
        else fail (.noConversion Ty.void.shown (type.renamed σ).shown) position) := by
    rw [Ty.isDependent_renamed]
    split
    · exact follows_pure trivial
    · exact follows_fail (.noConversion .void type) position
  refine (follows_resultOf id).bind ?_
  rintro result _ rfl
  cases result with
  | auto | decltypeAuto => exact follows_deduceResult id .void
  | void => exact follows_pure trivial
  | _ => exact plain _

theorem follows_yielded (id : DeclId) (e : Expr) :
    Follows σ (Expr.Renames σ) (yielded id e) (yielded id (e.renamed σ)) := by
  refine (follows_resultOf id).bind ?_
  rintro result _ rfl
  rw [← Expr.renamed_asValue]
  exact follows_ofExcept (e.asValue.follows_initializer result)

end

/-- What is done to an expression is done to the renamed one. -/
def FollowsFinish (σ : Renaming) (finish : Expr → Resolution Expr) : Prop :=
  ∀ e, Resolution.Follows σ (Expr.Renames σ) (finish e) (finish (e.renamed σ))

theorem followsFinish_pure : FollowsFinish σ pure := fun _ => Resolution.follows_pure rfl

theorem followsFinish_asCondition : FollowsFinish σ (Resolution.ofExcept ·.asCondition) :=
  fun e => Resolution.follows_ofExcept e.follows_asCondition

theorem followsFinish_inside (function : Option DeclId) {finish : DeclId → Expr → Resolution Expr}
    (finishes : ∀ id, FollowsFinish σ (finish id)) : FollowsFinish σ (inside function finish) := by
  cases function with
  | some id => exact finishes id
  | none => exact followsFinish_pure

open Reporting

theorem follows_settle {finish : Expr → Resolution Expr} (finishes : FollowsFinish σ finish)
    (e : Expr) :
    Follows σ (Works σ (Expr.renamed σ)) (settle finish e) (settle finish (e.renamed σ)) := by
  refine (follows_attempt (Resolution.follows_forceExpression e)).bind fun r r' outcome => ?_
  cases outcome with
  | error fault => exact follows_pure ⟨rfl, .some fault⟩
  | @ok resolved _ same =>
    obtain rfl := same
    refine (follows_attempt (finishes resolved)).bind fun r r' outcome => ?_
    cases outcome with
    | error fault => exact follows_pure ⟨rfl, .some fault⟩
    | ok same => exact follows_pure ⟨same, .none⟩

/-! ## Statements -/

theorem follows_reportStatement {w w' : Worked Stmt} (h : Works σ (Stmt.renamed σ) w w') :
    Follows σ (fun s s' => s' = s.renamed σ) (reportStatement w) (reportStatement w') :=
  (follows_reportWithin .statement h.2).bind fun _ _ _ => follows_pure h.1

section Nested

open Signature (FollowsDeclaring)

variable {define define' : DeclId → Reporting Unit}

mutual

theorem follows_statement (defines : FollowsDeclaring σ define define') (function : Option DeclId) :
    ∀ s : Stmt, Follows σ (Works σ (Stmt.renamed σ)) (statement define function s)
      (statement define' function (s.renamed σ))
  | .block id body span => by
    refine (follows_attempt (Resolution.follows_scopeOf (.block id))).bind fun r r' outcome => ?_
    cases outcome with
    | error fault => exact follows_pure ⟨rfl, .some fault⟩
    | ok found =>
      subst found
      refine ((follows_statements defines function body).under _).bind ?_
      rintro body _ rfl
      exact follows_pure ⟨rfl, .none⟩
  | .returning (some e) span => by
    refine (follows_settle (followsFinish_inside function fun id => follows_asResult id) e).bind ?_
    rintro ⟨e, fault?⟩ ⟨_, fault?'⟩ ⟨rfl, related⟩
    exact follows_pure ⟨rfl, related⟩
  | .returning none span => by
    cases function with
    | none => exact follows_pure ⟨rfl, .none⟩
    | some id =>
      exact (Faulting.follows_resolve (follows_withoutResult id span.start)).fault?.bind
        fun _ _ related => follows_pure ⟨rfl, related⟩
  | .yielding e span => by
    refine (follows_settle (followsFinish_inside function fun id => follows_yielded id) e).bind ?_
    rintro ⟨e, fault?⟩ ⟨_, fault?'⟩ ⟨rfl, related⟩
    exact follows_pure ⟨rfl, related⟩
  | .conditional e onTrue onFalse span => by
    refine (follows_settle followsFinish_asCondition e).bind ?_
    rintro ⟨e, fault?⟩ ⟨_, fault?'⟩ ⟨rfl, related⟩
    cases related with
    | some fault => exact follows_pure ⟨rfl, .some fault⟩
    | none =>
      refine (follows_statement defines function onTrue).bind ?_
      rintro ⟨onTrue, fault?⟩ ⟨_, fault?'⟩ ⟨rfl, related⟩
      cases related with
      | some fault => exact follows_pure ⟨rfl, .some fault⟩
      | none =>
        refine (follows_alternative defines function onFalse).bind ?_
        rintro ⟨onFalse, fault?⟩ ⟨_, fault?'⟩ ⟨rfl, related⟩
        exact follows_pure ⟨rfl, related⟩
  | .whileLoop e body span => by
    refine (follows_settle followsFinish_asCondition e).bind ?_
    rintro ⟨e, fault?⟩ ⟨_, fault?'⟩ ⟨rfl, related⟩
    cases related with
    | some fault => exact follows_pure ⟨rfl, .some fault⟩
    | none =>
      refine (follows_statement defines function body).bind ?_
      rintro ⟨body, fault?⟩ ⟨_, fault?'⟩ ⟨rfl, related⟩
      exact follows_pure ⟨rfl, related⟩
  | .breaking _ | .continuing _ => follows_pure ⟨rfl, .none⟩
  | .declaration id span => (defines id).bind fun _ _ _ => follows_pure ⟨rfl, .none⟩
  | .expression e => by
    refine (follows_settle followsFinish_pure e).bind ?_
    rintro ⟨e, fault?⟩ ⟨_, fault?'⟩ ⟨rfl, related⟩
    exact follows_pure ⟨rfl, related⟩

theorem follows_statements (defines : FollowsDeclaring σ define define')
    (function : Option DeclId) : ∀ body : List Stmt,
    Follows σ (fun body body' => body' = Stmt.allRenamed σ body) (statements define function body)
      (statements define' function (Stmt.allRenamed σ body))
  | [] => follows_pure rfl
  | s :: rest => by
    refine (follows_statement defines function s).bind fun w w' works =>
      (follows_reportStatement works).bind ?_
    rintro s _ rfl
    refine (follows_statements defines function rest).bind ?_
    rintro rest _ rfl
    exact follows_pure rfl

theorem follows_alternative (defines : FollowsDeclaring σ define define')
    (function : Option DeclId) : ∀ onFalse : Option Stmt,
    Follows σ (Works σ (Stmt.renamedBehindElse σ)) (alternative define function onFalse)
      (alternative define' function (Stmt.renamedBehindElse σ onFalse))
  | none => follows_pure ⟨rfl, .none⟩
  | some s => by
    refine (follows_statement defines function s).bind ?_
    rintro ⟨s, fault?⟩ ⟨_, fault?'⟩ ⟨rfl, related⟩
    exact follows_pure ⟨rfl, related⟩

end

end Nested

/-! ## Declarations -/

theorem follows_object (id : DeclId) :
    Resolution.Follows σ (fun _ _ => True) (object id) (object id) := by
  refine (Resolution.follows_look fun t t' same => same.decl id).bind fun d d' renamed => ?_
  rw [renamed.ownType?, renamed.isConstant]
  cases d.ownType? with
  | none => exact Resolution.follows_unexpectedDecl renamed
  | some type =>
    dsimp only [Option.map]
    rw [Ty.isDeferred_renamed]
    split
    · exact Resolution.follows_pure trivial
    split
    · exact Resolution.follows_ensureConstant id
    · exact Resolution.follows_settleObject id

theorem follows_body {walk walk' : Stmt → Reporting (Worked Stmt)}
    (walks : ∀ s, Follows σ (Works σ (Stmt.renamed σ)) (walk s) (walk' (s.renamed σ)))
    (id : DeclId) (b : Body) :
    Follows σ (Works σ (Body.renamed σ)) (body walk id b) (body walk' id (b.renamed σ)) := by
  cases b with
  | absent => exact follows_pure ⟨rfl, .none⟩
  | statement s =>
    refine (walks s).bind ?_
    rintro ⟨s, fault?⟩ ⟨_, fault?'⟩ ⟨rfl, related⟩
    exact follows_pure ⟨rfl, related⟩
  | expression e =>
    refine (follows_attempt (Resolution.follows_scopeOf (.body id))).bind fun r r' outcome => ?_
    cases outcome with
    | error fault => exact follows_pure ⟨rfl, .some fault⟩
    | ok found =>
      subst found
      refine ((follows_settle (follows_asResult id) e).under _).bind ?_
      rintro ⟨e, fault?⟩ ⟨_, fault?'⟩ ⟨rfl, related⟩
      exact follows_pure ⟨rfl, related⟩

theorem follows_function {walk walk' : Stmt → Reporting (Worked Stmt)}
    (walks : ∀ s, Follows σ (Works σ (Stmt.renamed σ)) (walk s) (walk' (s.renamed σ)))
    (id : DeclId) :
    Faulting.Follows σ (fun _ _ => True) (function walk id) (function walk' id) := by
  refine (Faulting.follows_look fun t t' same => same.decl id).bind fun d d' renamed => ?_
  rw [renamed.callable?]
  cases d.callable? with
  | none => exact Faulting.follows_resolve (Resolution.follows_unexpectedDecl renamed)
  | some c =>
    dsimp only [Option.map, Callable.renamed]
    split
    · rename_i auto
      rw [auto]
      exact Faulting.follows_pure trivial
    rename_i typed
    split
    · rename_i auto
      cases type : c.type with
      | auto => exact (typed type).elim
      | _ => rw [type] at auto; cases auto
    refine (Faulting.follows_resolve (Resolution.follows_scopeOf _)).bind ?_
    rintro scope _ rfl
    refine (Faulting.follows_change fun _ _ same => same.withoutBody id).bind fun _ _ _ =>
      (Faulting.follows_lift ((follows_body walks id c.body).under scope)).bind ?_
    rintro ⟨b, fault?⟩ ⟨_, fault?'⟩ ⟨rfl, related⟩
    refine (Faulting.follows_change fun _ _ same => same.withBody id b).bind fun _ _ _ => ?_
    cases related with
    | none => exact Faulting.follows_pure trivial
    | some fault => exact Faulting.follows_throw fault

theorem follows_classMembers {walk walk' : List Stmt → Reporting (List Stmt)}
    (walks : ∀ body, Follows σ (fun body body' => body' = Stmt.allRenamed σ body) (walk body)
      (walk' (Stmt.allRenamed σ body))) (id : DeclId) :
    Faulting.Follows σ (fun _ _ => True) (classMembers walk id) (classMembers walk' id) := by
  refine (Faulting.follows_resolve (Resolution.follows_scopeOf _)).bind ?_
  rintro scope _ rfl
  refine (Faulting.follows_look (A := fun body body' => body' = Stmt.allRenamed σ body)
    fun t t' same => same.members id).bind ?_
  rintro body _ rfl
  refine (Faulting.follows_change fun _ _ same => same.withMembers id []).bind fun _ _ _ =>
    (Faulting.follows_lift ((walks body).under scope)).bind ?_
  rintro body _ rfl
  exact Faulting.follows_change fun _ _ same => same.withMembers id body

theorem follows_declaration {define define' : DeclId → Reporting Unit}
    (defines : Signature.FollowsDeclaring σ define define') (id : DeclId) :
    Faulting.Follows σ (fun _ _ => True) (declaration define id) (declaration define' id) := by
  refine (Faulting.follows_look fun t t' same => same.decl id).bind fun d d' renamed => ?_
  have unexpected : Faulting.Follows σ (fun _ _ => True)
      (Faulting.resolve (Resolution.unexpectedDecl d) : Faulting Unit)
      (Faulting.resolve (Resolution.unexpectedDecl d') : Faulting Unit) :=
    Faulting.follows_resolve (Resolution.follows_unexpectedDecl renamed)
  rw [renamed.kind]
  cases d.kind with
  | object sort type init => exact Faulting.follows_resolve (follows_object id)
  | callable sort c => exact follows_function (follows_statement defines (some id)) id
  | classDecl sort type body =>
    cases sort with
    | primary => exact follows_classMembers (follows_statements defines none) id
    | extension => exact Faulting.follows_pure trivial
  | super type => exact Faulting.follows_pure trivial
  | parameter type => exact unexpected
  | typeParameter => exact unexpected

theorem follows_defineWithin (level : Nat) :
    Signature.FollowsDeclaring σ (defineWithin level) (defineWithin level) := by
  induction level with
  | zero => exact fun _ => follows_pure trivial
  | succ level ih =>
    intro id
    refine (follows_declaration ih id).fault?.bind fun fault? fault?' related => ?_
    refine (follows_look (A := Eq) fun t t' same => (same.decl id).subject.symm).bind ?_
    rintro subject _ rfl
    exact follows_reportWithin subject related

theorem follows_define : Signature.FollowsDeclaring σ define define := by
  intro id
  refine (follows_look (A := Eq) fun t t' same => same.size_decls.symm).bind ?_
  rintro size _ rfl
  exact follows_defineWithin _ id

end Definition

namespace SourceUnit

/-- The second pass over a unit and over the renamed one. -/
theorem renamed_resolveDefinitions (u : SourceUnit) (same : t.Renamed σ t') :
    Reporting.Collects σ (fun u u' => u' = u.renamed σ) (u.resolveDefinitions.run t)
      ((u.renamed σ).resolveDefinitions.run t') := by
  refine Reporting.collects_of_follows
    (Reporting.Follows.bind (A := fun body body' => body' = Stmt.allRenamed σ body) ?_ ?_) same
  · exact (Definition.follows_statements Definition.follows_define none u.body).under u.scope
  · rintro body _ rfl
    exact Reporting.follows_pure rfl

/-- Both passes over a unit and over the renamed one. -/
theorem renamed_resolve (u : SourceUnit) (same : t.Renamed σ t') :
    Reporting.Collects σ (fun u u' => u' = u.renamed σ) (u.resolve.run t)
      ((u.renamed σ).resolve.run t') := by
  have first := u.renamed_resolveSignatures same
  have second := (u.resolveSignatures.run t).1.1.renamed_resolveDefinitions first.table
  rw [run_resolve (u := u) rfl rfl, run_resolve (u := u.renamed σ) rfl rfl]
  rw [← first.value] at second
  exact ⟨second.value, List.rel_append first.reports second.reports, second.table⟩

end SourceUnit

end Deferral
