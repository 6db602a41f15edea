import Deferral.Proofs.Execution.Relation
import Deferral.Proofs.Safety.Furnished
import Deferral.Proofs.Table.Layered
import Deferral.Unit.Definition

/-!
# Computations that leave scopes alone

Binding names, evaluating constants, resolving types and the whole second pass change what declarations
are made of, but neither scopes nor where declarations lie nor what they are called, however they end.
What else stays the same is a matter of the few ways in which declarations are changed.
-/

namespace Deferral

open Resolution SymbolTable

/-- The type parameters recorded on a function. -/
def Decl.typeParameters (d : Decl) : List DeclId := (d.callable?.map (·.typeParameters)).getD []

namespace SymbolTable

/-! ## Relations that settling has -/

/-- A relation between tables that resolving types and defining objects has. -/
class Settling (R : SymbolTable → SymbolTable → Prop) : Prop extends Std.Refl R, IsTrans SymbolTable R where
  leave {t t' : SymbolTable} {scope : ScopeId} : R (t.enter scope) t' → R t t'.leave
  values (t : SymbolTable) (constants : List (DeclId × Constant)) (binding : List DeclId) :
    R t { t with constants, binding }
  withTypeIn (t : SymbolTable) (id : DeclId) (slot : TypeSlot) (type : Ty) :
    R t (t.modifyDecl id (·.withTypeIn slot type))
  withInitializer (t : SymbolTable) (id : DeclId) (e : Expr) :
    R t (t.modifyDecl id (·.withInitializer e))

/-- A relation between tables that the second pass has as well, which takes out what is inside functions
and classes and puts it back. -/
class Reworking (R : SymbolTable → SymbolTable → Prop) : Prop extends Settling R where
  mapCallable (t : SymbolTable) (id : DeclId) {f : Callable → Callable}
    (parameters : ∀ c, (f c).parameters = c.parameters)
    (typeParameters : ∀ c, (f c).typeParameters = c.typeParameters) :
    R t (t.modifyDecl id (·.mapCallable f))
  mapMembers (t : SymbolTable) (id : DeclId) (f : List Stmt → List Stmt) :
    R t (t.modifyDecl id (·.mapMembers f))

instance : Reworking LeavesScopes where
  refl := .refl
  trans _ _ _ := .trans
  leave := .leave
  values _ _ _ := ⟨rfl, rfl, rfl, rfl, fun _ => rfl, fun _ => rfl⟩
  withTypeIn := .withTypeIn
  withInitializer := .withInitializer
  mapCallable t id _ _ _ := .mapCallable t id _
  mapMembers := .mapMembers

variable {t t' t'' : SymbolTable}

/-- No declaration changes its name, what it is, or the type parameters recorded on it. -/
structure LeavesNames (t t' : SymbolTable) : Prop extends LeavesScopes t t' where
  name : ∀ id, (t'.decl id).name = (t.decl id).name
  subject : ∀ id, (t'.decl id).subject = (t.decl id).subject
  typeParameters : ∀ id, (t'.decl id).typeParameters = (t.decl id).typeParameters

/-- One declaration changes what it is made of. -/
theorem LeavesNames.modifyDecl (t : SymbolTable) (id : DeclId) {f : Decl → Decl}
    (leaves : t.LeavesScopes (t.modifyDecl id f)) (name : (f (t.decl id)).name = (t.decl id).name)
    (subject : (f (t.decl id)).subject = (t.decl id).subject)
    (typeParameters : (f (t.decl id)).typeParameters = (t.decl id).typeParameters) :
    t.LeavesNames (t.modifyDecl id f) := by
  refine ⟨leaves, fun other => ?_, fun other => ?_, fun other => ?_⟩ <;> rw [decl_modifyDecl] <;> split
  · rename_i same
    rw [same.1, name]
  · rfl
  · rename_i same
    rw [same.1, subject]
  · rfl
  · rename_i same
    rw [same.1, typeParameters]
  · rfl

end SymbolTable

namespace Decl

variable (d : Decl)

theorem typeParameters_withTypeIn (slot : TypeSlot) (type : Ty) :
    (d.withTypeIn slot type).typeParameters = d.typeParameters := by
  unfold withTypeIn
  split <;> simp_all [typeParameters, callable?]

theorem typeParameters_withInitializer (e : Expr) :
    (d.withInitializer e).typeParameters = d.typeParameters := by
  unfold withInitializer
  split <;> simp_all [typeParameters, callable?]

theorem typeParameters_mapCallable {f : Callable → Callable}
    (same : ∀ c, (f c).typeParameters = c.typeParameters) :
    (d.mapCallable f).typeParameters = d.typeParameters := by
  unfold mapCallable
  split <;> simp_all [typeParameters, callable?]

theorem typeParameters_mapMembers (f : List Stmt → List Stmt) :
    (d.mapMembers f).typeParameters = d.typeParameters := by
  unfold mapMembers
  split <;> simp_all [typeParameters, callable?]

theorem declares_withTypeIn (slot : TypeSlot) (type : Ty) :
    (d.withTypeIn slot type).declares = d.declares := by
  unfold withTypeIn
  split <;> simp_all [declares]

theorem declares_withInitializer (e : Expr) : (d.withInitializer e).declares = d.declares := by
  unfold withInitializer
  split <;> simp_all [declares]

end Decl

namespace SymbolTable

instance : Reworking LeavesNames where
  refl t := ⟨.refl t, fun _ => rfl, fun _ => rfl, fun _ => rfl⟩
  trans _ _ _ h h' :=
    ⟨h.toLeavesScopes.trans h'.toLeavesScopes, fun id => (h'.name id).trans (h.name id),
      fun id => (h'.subject id).trans (h.subject id),
      fun id => (h'.typeParameters id).trans (h.typeParameters id)⟩
  leave h := ⟨h.toLeavesScopes.leave, h.name, h.subject, h.typeParameters⟩
  values t constants binding := ⟨Settling.values t constants binding, fun _ => rfl, fun _ => rfl, fun _ => rfl⟩
  withTypeIn t id slot type := .modifyDecl t id (.withTypeIn t id slot type) (Decl.name_withTypeIn ..)
    (subject_withTypeIn ..) (Decl.typeParameters_withTypeIn ..)
  withInitializer t id e := .modifyDecl t id (.withInitializer t id e) (Decl.name_withInitializer ..)
    (subject_withInitializer ..) (Decl.typeParameters_withInitializer ..)
  mapCallable t id f _ typeParameters := .modifyDecl t id (.mapCallable t id f) (Decl.name_mapCallable ..)
    (subject_mapCallable ..) (Decl.typeParameters_mapCallable _ typeParameters)
  mapMembers t id f := .modifyDecl t id (.mapMembers t id f) (Decl.name_mapMembers ..)
    (subject_mapMembers ..) (Decl.typeParameters_mapMembers ..)

/-- What is declared inside declarations stays there as well. -/
structure LeavesContents (t t' : SymbolTable) : Prop extends LeavesNames t t' where
  declares : ∀ id, (t'.decl id).declares = (t.decl id).declares

theorem LeavesContents.modifyDecl (t : SymbolTable) (id : DeclId) {f : Decl → Decl}
    (leaves : t.LeavesNames (t.modifyDecl id f)) (declares : ∀ d, (f d).declares = d.declares) :
    t.LeavesContents (t.modifyDecl id f) := by
  refine ⟨leaves, fun other => ?_⟩
  rw [decl_modifyDecl]
  split
  · rename_i same
    rw [same.1, declares]
  · rfl

instance : Settling LeavesContents where
  refl t := ⟨Std.Refl.refl t, fun _ => rfl⟩
  trans _ _ _ h h' :=
    ⟨IsTrans.trans _ _ _ h.toLeavesNames h'.toLeavesNames, fun id => (h'.declares id).trans (h.declares id)⟩
  leave h := ⟨Settling.leave h.toLeavesNames, h.declares⟩
  values t constants binding := ⟨Settling.values t constants binding, fun _ => rfl⟩
  withTypeIn t id slot type := .modifyDecl t id (Settling.withTypeIn t id slot type) (·.declares_withTypeIn slot type)
  withInitializer t id e := .modifyDecl t id (Settling.withInitializer t id e) (·.declares_withInitializer e)

end SymbolTable

variable {R : SymbolTable → SymbolTable → Prop} {bind : DeclId → Resolution Unit} {α : Type}

/-! ## Declarations -/

namespace Resolution

variable [Settling R]

/-- A scope that has been entered is left. -/
theorem calm_under {x : Resolution α} (h : Moves R x) (scope : ScopeId) : Moves R (under scope x) := by
  intro t r t' run
  obtain ⟨t₁, inner, rfl⟩ := runs_under.mp run
  exact Settling.leave (h inner)

theorem calm_forceSlotWith (binds : ∀ id, Moves R (bind id)) (id : DeclId) (slot : TypeSlot) :
    Moves R (forceSlotWith bind id slot) := by
  refine moves_bind_look fun held => ?_
  split
  · exact moves_fail _ _
  · split
    · exact (moves_forceTypeWith binds _).bind fun type =>
        moves_modify fun t => Settling.withTypeIn t id slot type
    · exact moves_pure _

theorem calm_settleType (id : DeclId) (declared : Ty) (init : Expr) :
    Moves R (settleType id declared init) := by
  unfold settleType
  split
  · exact (moves_modify fun t => Settling.withTypeIn t id .declared _).bind fun _ => moves_pure _
  · exact moves_ofExcept _

theorem calm_forceObjectWith (binds : ∀ id, Moves R (bind id)) (id : DeclId) (scope : ScopeId)
    (init : Expr) : Moves R (forceObjectWith bind id scope init) :=
  calm_under ((calm_forceSlotWith binds id .declared).bind fun _ => moves_forceExpression init) scope

theorem calm_settleObjectWith (binds : ∀ id, Moves R (bind id)) (id : DeclId) :
    Moves R (settleObjectWith bind id) := by
  refine moves_bind_look fun d => ?_
  split
  · exact moves_pure _
  refine (calm_forceObjectWith binds id d.scope _).bind fun init => moves_bind_look fun type => ?_
  split
  · exact moves_bind_look fun d => moves_unexpectedDecl d
  refine (calm_settleType id _ init).bind fun init => ?_
  have last : Moves R (modify (·.modifyDecl id (·.withInitializer init)) : Resolution PUnit) :=
    moves_modify fun t => Settling.withInitializer t id init
  split
  · exact (init.moves_evaluateWith binds).bind fun value =>
      (moves_modify fun t => Settling.values t _ t.binding).bind fun _ => last
  · exact last

theorem calm_ensureConstantWithin (level : Nat) (id : DeclId) :
    Moves R (ensureConstantWithin level id) := by
  induction level generalizing id with
  | zero =>
    intro t r t' h
    cases runs_ensureConstantWithin h with
    | known _ _ same => exact same ▸ Std.Refl.refl _
    | refused _ _ _ same => exact same ▸ Std.Refl.refl _
    | entered _ _ level _ _ => cases level
  | succ level ih =>
    intro t r t' h
    cases runs_ensureConstantWithin h with
    | known _ _ same => exact same ▸ Std.Refl.refl _
    | refused _ _ _ same => exact same ▸ Std.Refl.refl _
    | entered _ _ level run same =>
      obtain rfl := Nat.succ.inj level
      have started := Settling.values (R := R) t t.constants (id :: t.binding)
      exact same ▸ IsTrans.trans _ _ _ started
        (IsTrans.trans _ _ _ (calm_settleObjectWith ih id run) (Settling.values _ _ _))

theorem calm_ensureConstant (id : DeclId) : Moves R (ensureConstant id) :=
  moves_bind_look fun _ => calm_ensureConstantWithin _ id

theorem calm_forceSlot (id : DeclId) (slot : TypeSlot) : Moves R (forceSlot id slot) :=
  calm_forceSlotWith calm_ensureConstant id slot

end Resolution

/-! ## The second pass -/

namespace Definition

open Reporting

variable [Reworking R]

variable {define : DeclId → Reporting Unit}

theorem calm_resultOf (id : DeclId) : Resolution.Moves R (resultOf id) := by
  refine moves_bind_look fun d => ?_
  split
  · exact moves_pure _
  · exact moves_unexpectedDecl d

theorem calm_deduceResult (id : DeclId) (deduced : Ty) : Resolution.Moves R (deduceResult id deduced) := by
  refine (calm_resultOf id).bind fun result => ?_
  split
  · have deduce : Resolution.Moves R (modify (·.modifyDecl id (·.mapCallable fun c =>
        { c with result := deduced })) : Resolution PUnit) :=
      moves_modify fun t => Reworking.mapCallable t id (fun _ => rfl) fun _ => rfl
    exact deduce.bind fun _ => moves_modify fun t => Reworking.mapCallable t id (fun _ => rfl) fun _ => rfl
  · exact moves_pure _

theorem calm_asResult (id : DeclId) (e : Expr) : Resolution.Moves R (asResult id e) := by
  refine (calm_resultOf id).bind fun result => ?_
  split
  · exact (calm_deduceResult id _).bind fun _ => moves_pure _
  · exact moves_ofExcept _

theorem calm_withoutResult (id : DeclId) (position : Position) :
    Resolution.Moves R (withoutResult id position) := by
  refine (calm_resultOf id).bind fun result => ?_
  split
  · exact calm_deduceResult id .void
  · exact calm_deduceResult id .void
  · exact moves_pure _
  · split
    · exact moves_pure _
    · exact moves_fail _ _

theorem calm_yielded (id : DeclId) (e : Expr) : Resolution.Moves R (yielded id e) :=
  (calm_resultOf id).bind fun _ => moves_ofExcept _

theorem calm_inside {finish : DeclId → Expr → Resolution Expr}
    (calm : ∀ id e, Resolution.Moves R (finish id e)) (function : Option DeclId) (e : Expr) :
    Resolution.Moves R (inside function finish e) := by
  cases function with
  | some id => exact calm id e
  | none => exact moves_pure e

/-- A scope that has been entered is left. -/
theorem rests_under {x : Reporting α} (h : Reporting.Moves R x) (scope : ScopeId) :
    Reporting.Moves R (under scope x) := by
  intro ρ t a ρ' t' run
  obtain ⟨t₁, inner, rfl⟩ := ends_under.mp run
  exact Settling.leave (h inner)

theorem rests_settle {finish : Expr → Resolution Expr} (calm : ∀ e, Resolution.Moves R (finish e)) (e : Expr) :
    Reporting.Moves R (settle finish e) := by
  refine (Reporting.moves_attempt (moves_forceExpression e)).bind fun outcome => ?_
  cases outcome with
  | error d => exact Reporting.moves_pure _
  | ok resolved =>
    refine (Reporting.moves_attempt (calm resolved)).bind fun outcome => ?_
    cases outcome <;> exact Reporting.moves_pure _

theorem rests_reportStatement (worked : Worked Stmt) :
    Reporting.Moves R (reportStatement worked) :=
  (Reporting.moves_reportWithin _ _).bind fun _ => Reporting.moves_pure _

mutual

theorem rests_statement (defines : ∀ id, Reporting.Moves R (define id))
    (function : Option DeclId) : ∀ s : Stmt, Reporting.Moves R (statement define function s)
  | .block id body span => by
    refine (Reporting.moves_attempt (moves_scopeOf _)).bind fun outcome => ?_
    cases outcome with
    | error d => exact Reporting.moves_pure _
    | ok scope =>
      exact (rests_under (rests_statements defines function body) scope).bind fun _ =>
        Reporting.moves_pure _
  | .returning (some e) span =>
    (rests_settle (calm_inside calm_asResult function) e).bind fun _ => Reporting.moves_pure _
  | .returning none span => by
    cases function with
    | none => exact Reporting.moves_pure _
    | some id =>
      exact (Faulting.moves_fault? (Faulting.moves_resolve (calm_withoutResult id _))).bind
        fun _ => Reporting.moves_pure _
  | .yielding e span =>
    (rests_settle (calm_inside calm_yielded function) e).bind fun _ => Reporting.moves_pure _
  | .conditional e onTrue onFalse span => by
    refine (rests_settle (fun _ => moves_ofExcept _) e).bind fun ⟨e, fault?⟩ => ?_
    cases fault? with
    | some d => exact Reporting.moves_pure _
    | none =>
      refine (rests_statement defines function onTrue).bind fun ⟨onTrue, fault?⟩ => ?_
      cases fault? with
      | some d => exact Reporting.moves_pure _
      | none =>
        exact (rests_alternative defines function onFalse).bind fun _ => Reporting.moves_pure _
  | .whileLoop e body span => by
    refine (rests_settle (fun _ => moves_ofExcept _) e).bind fun ⟨e, fault?⟩ => ?_
    cases fault? with
    | some d => exact Reporting.moves_pure _
    | none => exact (rests_statement defines function body).bind fun _ => Reporting.moves_pure _
  | .breaking _ | .continuing _ => Reporting.moves_pure _
  | .declaration id _ => (defines id).bind fun _ => Reporting.moves_pure _
  | .expression e => (rests_settle (fun _ => moves_pure _) e).bind fun _ => Reporting.moves_pure _

theorem rests_statements (defines : ∀ id, Reporting.Moves R (define id))
    (function : Option DeclId) :
    ∀ body : List Stmt, Reporting.Moves R (statements define function body)
  | [] => Reporting.moves_pure _
  | s :: rest =>
    (rests_statement defines function s).bind fun worked =>
      (rests_reportStatement worked).bind fun _ =>
        (rests_statements defines function rest).bind fun _ => Reporting.moves_pure _

theorem rests_alternative (defines : ∀ id, Reporting.Moves R (define id))
    (function : Option DeclId) :
    ∀ onFalse : Option Stmt, Reporting.Moves R (alternative define function onFalse)
  | none => Reporting.moves_pure _
  | some s => (rests_statement defines function s).bind fun _ => Reporting.moves_pure _

end

theorem calm_object (id : DeclId) : Resolution.Moves R (object id) := by
  refine moves_bind_look fun d => ?_
  split
  · exact moves_unexpectedDecl d
  · split
    · exact moves_pure _
    · split
      · exact calm_ensureConstant id
      · exact calm_settleObjectWith calm_ensureConstant id

theorem rests_body {walk : Stmt → Reporting (Worked Stmt)}
    (walks : ∀ s, Reporting.Moves R (walk s)) (id : DeclId) :
    ∀ b : Body, Reporting.Moves R (body walk id b)
  | .absent => Reporting.moves_pure _
  | .statement s => (walks s).bind fun _ => Reporting.moves_pure _
  | .expression e => by
    refine (Reporting.moves_attempt (moves_scopeOf _)).bind fun outcome => ?_
    cases outcome with
    | error d => exact Reporting.moves_pure _
    | ok scope =>
      exact (rests_under (rests_settle (calm_asResult id) e) scope).bind fun _ =>
        Reporting.moves_pure _

theorem rests_function {walk : Stmt → Reporting (Worked Stmt)}
    (walks : ∀ s, Reporting.Moves R (walk s)) (id : DeclId) :
    Faulting.Moves R (function walk id) := by
  refine Faulting.moves_bind_look fun d => ?_
  split
  · exact Faulting.moves_resolve (moves_unexpectedDecl d)
  split
  · exact Faulting.moves_pure _
  refine (Faulting.moves_resolve (moves_scopeOf _)).bind fun scope => ?_
  have put (b : Body) : Faulting.Moves R (Faulting.change (Signature.withBody · id b)) :=
    Faulting.moves_change fun t => Reworking.mapCallable t id (fun _ => rfl) fun _ => rfl
  refine (put .absent).bind fun _ => ?_
  refine (Faulting.moves_lift (rests_under (rests_body walks id _) scope)).bind
    fun ⟨worked, fault?⟩ => ?_
  refine (put worked).bind fun _ => ?_
  cases fault? with
  | none => exact Faulting.moves_pure _
  | some d => exact Faulting.moves_throw d

theorem rests_classMembers {walk : List Stmt → Reporting (List Stmt)}
    (walks : ∀ body, Reporting.Moves R (walk body)) (id : DeclId) :
    Faulting.Moves R (classMembers walk id) :=
  (Faulting.moves_resolve (moves_scopeOf _)).bind fun scope =>
    Faulting.moves_bind_look fun body =>
      (Faulting.moves_change fun t => Reworking.mapMembers t id _).bind fun _ =>
        (Faulting.moves_lift (rests_under (walks body) scope)).bind fun _ =>
          Faulting.moves_change fun t => Reworking.mapMembers t id _

theorem rests_declaration (defines : ∀ id, Reporting.Moves R (define id)) (id : DeclId) :
    Faulting.Moves R (declaration define id) := by
  refine Faulting.moves_bind_look fun d => ?_
  split
  · exact Faulting.moves_resolve (calm_object id)
  · exact rests_function (rests_statement defines (some id)) id
  · exact rests_classMembers (rests_statements defines none) id
  · exact Faulting.moves_pure _
  · exact Faulting.moves_pure _
  · exact Faulting.moves_resolve (moves_unexpectedDecl d)
  · exact Faulting.moves_resolve (moves_unexpectedDecl d)

theorem rests_defineWithin (level : Nat) (id : DeclId) :
    Reporting.Moves R (defineWithin level id) := by
  induction level generalizing id with
  | zero => exact Reporting.moves_pure _
  | succ level ih =>
    exact (Faulting.moves_fault? (rests_declaration ih id)).bind fun fault? =>
      Reporting.moves_bind_look fun subject => Reporting.moves_reportWithin subject fault?

theorem rests_define (id : DeclId) : Reporting.Moves R (Definition.define id) :=
  Reporting.moves_bind_look fun _ => rests_defineWithin _ id

end Definition

/-- The second pass over a unit opens no scopes and moves none, and leaves names alone. -/
theorem SourceUnit.rests_resolveDefinitions {u u' : SourceUnit} {t t' : SymbolTable}
    {reported : List Diagnostic} (h : u.resolveDefinitions.run t = ((u', reported), t')) :
    t.LeavesNames t' ∧ u'.scope = u.scope := by
  unfold resolveDefinitions at h
  rw [Reporting.run_collect] at h
  obtain ⟨body, ρ₁, t₁, walk, last⟩ := Reporting.ends_bind.mp h
  obtain ⟨rfl, rfl, rfl⟩ := Reporting.ends_pure.mp last
  exact ⟨Definition.rests_under
    (Definition.rests_statements Definition.rests_define none u.body) u.scope walk, rfl⟩

end Deferral
