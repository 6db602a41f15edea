import Deferral.Proofs.FirstPass.Declaration
import Deferral.Proofs.SecondPass.Run

/-!
# The second pass over declarations

How the second pass over a declaration ends, for each kind of declaration. Whatever it ends in, the
table has only been edited.
-/

namespace Deferral

open Reporting SymbolTable

namespace Definition

variable {R : PassRelation} {define : DeclId → Reporting Unit} {ρ ρ' : List Diagnostic}
  {t t' : SymbolTable} {id : DeclId}

/-! ## Functions -/

/-- What the second pass makes of the body of a function. -/
structure BodyReworked (id : DeclId) (body : Body) (ρ : List Diagnostic) (body' : Body)
    (fault? : Option Diagnostic) (ρ' : List Diagnostic) (t' : SymbolTable) : Prop where
  declares : body'.declares = body.declares
  alike : ∀ s', body' = .statement s' → ∃ s, body = .statement s ∧ s.Alike s'
  sound : ∀ e ∈ body'.expressions, e.Sound t'
  quiet : fault? = none → ρ' = ρ → ∀ use ∈ body'.uses, use.IsDefined t' (some id)
  owns : fault? = none → ∀ e, body' = .expression e → ∃ s, t'.scopeOf? (.body id) = some s

theorem ends_body (lifts : R.Lifts) {b : Body} {worked : Worked Body}
    (holds : R.Holds define b.declares) (sound : t.Sound) (inside : t.Inside (some id))
    (exprs : ∀ e ∈ b.expressions, e.Sound t)
    (h : Ends (body (statement define (some id)) id b) ρ t worked ρ' t') :
    R.Partly b.declares ρ t worked.2 ρ' t' ∧ BodyReworked id b ρ worked.1 worked.2 ρ' t' := by
  cases b with
  | absent =>
    obtain ⟨rfl, rfl, rfl⟩ := ends_pure.mp h
    exact ⟨⟨[], lifts.refl sound, fun _ => rfl⟩, rfl, fun _ same => (by cases same), exprs,
      fun _ _ _ none => (by cases none), fun _ _ same => (by cases same)⟩
  | statement s =>
    obtain ⟨worked, _, _, walk, last⟩ := ends_bind.mp h
    obtain ⟨rfl, rfl, rfl⟩ := ends_pure.mp last
    obtain ⟨relation, alike, sound', quiet⟩ := ends_statement lifts s holds sound inside exprs walk
    exact ⟨relation, alike.declares, fun _ same => ⟨s, rfl, Body.statement.inj same ▸ alike⟩, sound',
      quiet, fun _ _ same => (by cases same)⟩
  | expression e =>
    obtain ⟨outcome, ρ₁, t₁, looked, rest⟩ := ends_bind.mp h
    obtain ⟨run, rfl⟩ := ends_attempt.mp looked
    obtain ⟨rfl, known⟩ := Resolution.runs_scopeOf run
    cases outcome with
    | error d =>
      obtain ⟨rfl, rfl, rfl⟩ := ends_pure.mp rest
      exact ⟨⟨[], lifts.refl sound, fun none => by cases none⟩, rfl,
        fun _ same => (by cases same), exprs, fun none => (by cases none),
        fun none => (by cases none)⟩
    | ok scope =>
      obtain ⟨worked, _, _, under, last⟩ := ends_bind.mp rest
      obtain ⟨rfl, rfl, rfl⟩ := ends_pure.mp last
      obtain ⟨t₂, settled, rfl⟩ := ends_under.mp under
      have entered : t₁.Evolves (t₁.enter scope) := .of_same rfl rfl
      have left : t₂.Evolves t₂.leave := .of_same rfl rfl
      have sound₁ := sound.enter scope
      have inside₁ := inside.of_evolves entered
      obtain ⟨rfl, idles, sound', well⟩ := ends_settle sound₁ (finishing_asResult sound₁ inside₁)
        (entered.exprSound (exprs e (by simp [Body.expressions]))) settled
      have inside₂ := inside₁.of_evolves idles.advances.evolves
      refine ⟨⟨[], lifts.leave (lifts.idle _ sound₁ idles), fun _ => rfl⟩, rfl,
        fun _ same => (by cases same), fun e member => ?_, fun none _ use member => ?_,
        fun _ _ _ => ⟨scope, ?_⟩⟩
      · obtain rfl := List.mem_singleton.mp member
        exact left.exprSound sound'
      · obtain rfl := List.mem_singleton.mp member
        refine ⟨left.wellTyped (well none).1, fun other same => ?_⟩
        obtain rfl := Option.some.inj same
        exact (well none).2.of_evolves inside₂ left
      · exact (idles.leave.advances.scopeOf? _).trans (known scope rfl)

/-- How the second pass over a function ends: a function without a type is left alone, and that it
has no scope is a fault. -/
inductive FunctionReworked (walk : Stmt → Reporting (Worked Stmt)) (id : DeclId)
    (ρ : List Diagnostic) (t : SymbolTable) (r : Except Diagnostic Unit) (ρ' : List Diagnostic) :
    SymbolTable → Prop
  | refused {d : Diagnostic} : r = .error d → ρ' = ρ → FunctionReworked walk id ρ t r ρ' t
  | skipped {sort : CallableSort} {c : Callable} : (t.decl id).kind = .callable sort c →
      c.type = .auto → ρ' = ρ → FunctionReworked walk id ρ t r ρ' t
  | walked {scope : ScopeId} {sort : CallableSort} {c : Callable} {worked : Worked Body}
      {t₁ : SymbolTable} :
      t.scopeOf? (.decl id) = some scope → (t.decl id).kind = .callable sort c → c.type ≠ .auto →
      Ends (body walk id c.body) ρ ((Signature.withoutBody t id).enter scope) worked ρ' t₁ →
      (r = .ok () → worked.2 = none) →
      FunctionReworked walk id ρ t r ρ' (Signature.withBody t₁.leave id worked.1)

theorem ends_function {walk : Stmt → Reporting (Worked Stmt)} {r : Except Diagnostic Unit}
    (h : Faulting.Ends (function walk id) ρ t r ρ' t') : FunctionReworked walk id ρ t r ρ' t' := by
  unfold function at h
  rw [Faulting.ends_bind_look] at h
  split at h
  · obtain ⟨run, rfl⟩ := Faulting.ends_resolve.mp h
    obtain ⟨rfl, wrong⟩ := Resolution.runs_unexpectedDecl run
    cases r with
    | error d => exact .refused rfl rfl
    | ok u => exact absurd rfl (wrong u)
  rename_i c callable
  obtain ⟨sort, kind⟩ := Decl.kind_of_callable? callable
  split at h
  · rename_i untyped
    obtain ⟨rfl, rfl, rfl⟩ := Faulting.ends_pure.mp h
    exact .skipped kind untyped rfl
  rename_i typed
  rcases Faulting.ends_bind.mp h with ⟨fault, looked, rfl⟩ | ⟨scope, ρ₁, t₁, looked, rest⟩
  · obtain ⟨run, rfl⟩ := Faulting.ends_resolve.mp looked
    obtain ⟨rfl, -⟩ := Resolution.runs_scopeOf run
    exact .refused rfl rfl
  obtain ⟨run, rfl⟩ := Faulting.ends_resolve.mp looked
  obtain ⟨rfl, known⟩ := Resolution.runs_scopeOf run
  rw [Faulting.ends_bind_change] at rest
  rcases Faulting.ends_bind.mp rest with ⟨fault, under, -⟩ | ⟨worked, ρ₂, t₂, under, last⟩
  · obtain ⟨a, -, wrong⟩ := Faulting.ends_lift.mp under
    cases wrong
  obtain ⟨a, run₂, ok⟩ := Faulting.ends_lift.mp under
  obtain rfl := Except.ok.inj ok
  obtain ⟨t₃, walked, rfl⟩ := ends_under.mp run₂
  rw [Faulting.ends_bind_change] at last
  have owns := known scope rfl
  split at last
  · rename_i none
    obtain ⟨rfl, rfl, rfl⟩ := Faulting.ends_pure.mp last
    exact .walked owns kind typed walked fun _ => none
  · obtain ⟨rfl, rfl, rfl⟩ := Faulting.ends_throw.mp last
    exact .walked owns kind typed walked fun ok => by cases ok

theorem inside_withoutBody {sort : CallableSort} {c : Callable} (sound : t.Sound)
    (kind : (t.decl id).kind = .callable sort c) (typed : c.type ≠ .auto) (scope : ScopeId) :
    ((Signature.withoutBody t id).enter scope).Inside (some id) := by
  have here : t.Inside (some id) := fun _ same => Option.some.inj same ▸ ⟨sort, c, kind, typed⟩
  have entered : (Signature.withoutBody t id).Evolves ((Signature.withoutBody t id).enter scope) :=
    .of_same rfl rfl
  exact (here.of_evolves (Signature.Advances.withoutBody sound id).evolves).of_evolves entered

theorem FunctionReworked.passes {r : Except Diagnostic Unit}
    (h : FunctionReworked (statement define (some id)) id ρ t r ρ' t') (sound : t.Sound)
    (holds : ∀ ids, Passing.Holds define ids) : Passes ρ t ρ' t' := by
  cases h with
  | refused _ same => exact same ▸ .refl _ _
  | skipped _ _ same => exact same ▸ .refl _ _
  | @walked scope sort c worked t₁ _ kind typed walk _ =>
    have old := sound.decls id
    rw [kind] at old
    have out := Signature.Advances.withoutBody sound id
    have entered : (Signature.withoutBody t id).Evolves ((Signature.withoutBody t id).enter scope) :=
      .of_same rfl rfl
    obtain ⟨⟨_, passes, -⟩, -, -, sound', -⟩ := ends_body passing_lifts (holds _)
      ((out.sound sound).enter scope) (inside_withoutBody sound kind typed scope)
      (fun e member => (out.evolves.trans entered).exprSound (old.body e member)) walk
    have before := (Passes.of_advances out ρ).trans (Passes.leave passes)
    have left : t₁.Evolves t₁.leave := .of_same rfl rfl
    exact before.trans (.of_advances (Signature.Advances.withBody (before.sound sound) id
      fun e member => left.exprSound (sound' e member)) _)

/-! ## Classes -/

/-- How the second pass over a class ends: that it has no scope is a fault. -/
inductive ClassReworked (walk : List Stmt → Reporting (List Stmt)) (id : DeclId)
    (ρ : List Diagnostic) (t : SymbolTable) (r : Except Diagnostic Unit) (ρ' : List Diagnostic) :
    SymbolTable → Prop
  | refused {d : Diagnostic} : r = .error d → ρ' = ρ → ClassReworked walk id ρ t r ρ' t
  | walked {scope : ScopeId} {body : List Stmt} {t₁ : SymbolTable} :
      t.scopeOf? (.decl id) = some scope →
      Ends (walk (t.members id)) ρ ((Signature.withoutMembers t id).enter scope) body ρ' t₁ →
      ClassReworked walk id ρ t r ρ' (t₁.leave.modifyDecl id (·.mapMembers fun _ => body))

theorem ends_classMembers {walk : List Stmt → Reporting (List Stmt)} {r : Except Diagnostic Unit}
    (h : Faulting.Ends (classMembers walk id) ρ t r ρ' t') : ClassReworked walk id ρ t r ρ' t' := by
  unfold classMembers at h
  rcases Faulting.ends_bind.mp h with ⟨fault, looked, rfl⟩ | ⟨scope, ρ₁, t₁, looked, rest⟩
  · obtain ⟨run, rfl⟩ := Faulting.ends_resolve.mp looked
    obtain ⟨rfl, -⟩ := Resolution.runs_scopeOf run
    exact .refused rfl rfl
  obtain ⟨run, rfl⟩ := Faulting.ends_resolve.mp looked
  obtain ⟨rfl, known⟩ := Resolution.runs_scopeOf run
  rw [Faulting.ends_bind_look, Faulting.ends_bind_change] at rest
  rcases Faulting.ends_bind.mp rest with ⟨fault, under, -⟩ | ⟨body, ρ₂, t₂, under, last⟩
  · obtain ⟨a, -, wrong⟩ := Faulting.ends_lift.mp under
    cases wrong
  obtain ⟨a, run₂, ok⟩ := Faulting.ends_lift.mp under
  obtain rfl := Except.ok.inj ok
  obtain ⟨t₃, walked, rfl⟩ := ends_under.mp run₂
  obtain ⟨rfl, rfl, rfl⟩ := Faulting.ends_change.mp last
  exact .walked (known scope rfl) walked

theorem outside_every_function (t : SymbolTable) : t.Inside none := fun _ same => by cases same

theorem ClassReworked.passes {r : Except Diagnostic Unit}
    (h : ClassReworked (statements define none) id ρ t r ρ' t') (sound : t.Sound)
    (holds : ∀ ids, Passing.Holds define ids) : Passes ρ t ρ' t' := by
  cases h with
  | refused _ same => exact same ▸ .refl _ _
  | @walked scope body t₁ _ walk =>
    have out := Signature.advances_withoutMembers sound id
    have entered : (Signature.withoutMembers t id).Evolves
        ((Signature.withoutMembers t id).enter scope) := .of_same rfl rfl
    obtain ⟨passes, -, sound', -⟩ := ends_statements passing_lifts _ (holds _)
      ((out.sound sound).enter scope) (outside_every_function _)
      (fun e member => (out.evolves.trans entered).exprSound (sound.members id e member)) walk
    have before := (Passes.of_advances out ρ).trans (Passes.leave passes)
    have left : t₁.Evolves t₁.leave := .of_same rfl rfl
    exact before.trans (.of_advances (.of_modifyDecl (before.sound sound) (.setMembers id
      fun e member => left.exprSound (sound' e member))) _)

/-! ## Objects -/

/-- How the second pass over an object ends: one without a resolved type is left alone. -/
structure ObjectReworked (id : DeclId) (t : SymbolTable) (r : Except Diagnostic Unit)
    (t' : SymbolTable) : Prop where
  idles : t.Idles t'
  read : r = .ok () → (t.decl id).IsAnnounced → ∀ e, (t'.decl id).initializer? = some e →
    e.excerpt? = none
  valued : r = .ok () → (t.decl id).IsAnnounced → (t.decl id).isConstant = true →
    (t'.constant? id).isSome = true

/-- The initializer of a constant that has a value has been read. -/
theorem read_of_constant (sound : t.Sound) (known : (t.constant? id).isSome = true) :
    ∀ e, (t.decl id).initializer? = some e → e.excerpt? = none := by
  obtain ⟨v, known⟩ := Option.isSome_iff_exists.mp known
  obtain ⟨older, -, ⟨-, e, initializer, value⟩, -⟩ := sound.constants.of_lookup known
  intro e' same
  obtain rfl := Option.some.inj (initializer.symm.trans same)
  exact Expr.excerpt?_of_value? value

theorem isBare_of_object {sort : ObjectSort} {type : Ty} {init : Option Expr}
    (kind : (t.decl id).kind = .object sort type init) : (t.decl id).IsBare := by
  simp [Decl.IsBare, kind]

theorem Finishes.idles (sound : t.Sound) (h : t.Finishes id t') : t.Idles t' := by
  have only := h.only
  have bare : (t.decl id).IsBare := by
    cases h with
    | defined kind _ => exact isBare_of_object kind
    | valued kind _ _ _ => exact isBare_of_object kind
  have advances : t.Advances t' :=
    .of_edit sound h.edit only.size only.saved only.active only.binding
  refine ⟨advances, .of_same_or_bare fun other => ?_, .of_scopes only.scopes⟩
  by_cases same : other = id
  · subst same
    by_cases lt : other.index < t.decls.size
    · exact .inr ⟨bare, advances.evolves.isBare lt bare⟩
    · have outside : t.decls.size ≤ other.index := by omega
      exact .inl (by rw [decl_eq_default outside, decl_eq_default (only.size ▸ outside)])
  · exact .inl (only.decls other same)

/-- A variable that ends well has its initializer read. -/
theorem runs_settleObject (sound : t.Sound) {type : Ty} {init : Option Expr}
    (kind : (t.decl id).kind = .object .var type init) {r : Except Diagnostic Unit}
    (h : Resolution.Runs (Resolution.settleObject id) t r t') :
    t.Idles t' ∧
      (r = .ok () → ∀ e, (t'.decl id).initializer? = some e → e.excerpt? = none) := by
  have variable' : (t.decl id).isConstant = false := by simp [Decl.isConstant, kind]
  have bare : ∀ other, some id = some other → (t.decl other).IsBare :=
    fun other same => Option.some.inj same ▸ isBare_of_object kind
  cases Resolution.runs_settleObjectWith Resolution.binds_ensureConstant sound (.inl variable') h with
  | stopped settles undefined =>
    refine ⟨.of_settles settles bare, fun ok e initializer => ?_⟩
    have none : init = none := by simpa [Decl.initializer?, kind] using undefined ok
    have evolves := (settles.evolves.decls id (lt_size_of_kind (by simp [kind]))).kind
    rw [kind, none] at evolves
    unfold Decl.initializer? at initializer
    generalize (t'.decl id).kind = k at evolves initializer
    cases evolves with
    | object _ _ some _ => simp [initializer] at some
  | @finished t₁ settles finishes _ =>
    refine ⟨.trans (.of_settles settles bare) (Finishes.idles (settles.sound sound) finishes),
      fun _ e initializer => ?_⟩
    cases finishes with
    | @defined type e₁ e' kind₁ initializes =>
      rw [decl_modifyDecl_self (lt_size_of_kind (by simp [kind₁])), Decl.initializer?,
        Decl.kind_withInitializer kind₁] at initializer
      exact Option.some.inj initializer ▸ initializes.well.excerpt?_eq_none
    | valued kind₁ _ _ _ =>
      have evolves := (settles.evolves.decls id (lt_size_of_kind (by simp [kind]))).kind
      rw [kind, kind₁] at evolves
      cases evolves

theorem runs_object (sound : t.Sound) {sort : ObjectSort} {type : Ty} {init : Option Expr}
    (kind : (t.decl id).kind = .object sort type init) {r : Except Diagnostic Unit}
    (h : Resolution.Runs (object id) t r t') : ObjectReworked id t r t' := by
  unfold object at h
  rw [Resolution.runs_bind_look] at h
  simp only [Decl.ownType?, Decl.typeIn?, kind] at h
  split at h
  · rename_i deferred
    obtain ⟨rfl, rfl⟩ := Resolution.runs_pure.mp h
    have absurd' : ¬(t'.decl id).IsAnnounced := by simp [Decl.IsAnnounced, kind, deferred]
    exact ⟨.refl _, fun _ announced => absurd announced absurd',
      fun _ announced => absurd announced absurd'⟩
  split at h
  · rename_i constant
    have binds := Resolution.binds_ensureConstant
    have settles := binds.settles sound constant h
    refine ⟨.of_settles settles (by simp), fun ok _ => ?_, fun ok _ _ => ?_⟩
    · subst ok
      exact read_of_constant (settles.sound sound) (binds.known sound constant h)
    · subst ok
      exact binds.known sound constant h
  · rename_i other
    have var : sort = .var := by
      cases sort with
      | var => rfl
      | constant => simp [Decl.isConstant, kind] at other
    subst var
    obtain ⟨idles, read⟩ := runs_settleObject sound kind h
    exact ⟨idles, fun ok _ => read ok, fun _ _ constant => absurd constant other⟩

/-! ## Declarations -/

/-- How the second pass over a declaration ends. -/
inductive Done (define : DeclId → Reporting Unit) (id : DeclId) (ρ : List Diagnostic)
    (t : SymbolTable) (r : Except Diagnostic Unit) (ρ' : List Diagnostic) (t' : SymbolTable) : Prop
  | refused {d : Diagnostic} : r = .error d → ρ' = ρ → t' = t → Done define id ρ t r ρ' t'
  | object {sort : ObjectSort} {type : Ty} {init : Option Expr} :
      (t.decl id).kind = .object sort type init → ObjectReworked id t r t' → ρ' = ρ →
      Done define id ρ t r ρ' t'
  | function : FunctionReworked (statement define (some id)) id ρ t r ρ' t' →
      Done define id ρ t r ρ' t'
  | primary : (t.decl id).isPrimaryClass = true →
      ClassReworked (statements define none) id ρ t r ρ' t' → Done define id ρ t r ρ' t'
  | other : (t.decl id).isExtension = true ∨ (∃ type, (t.decl id).kind = .super type) →
      ρ' = ρ → t' = t → Done define id ρ t r ρ' t'

theorem ends_declaration {r : Except Diagnostic Unit} (sound : t.Sound)
    (h : Faulting.Ends (declaration define id) ρ t r ρ' t') : Done define id ρ t r ρ' t' := by
  have unexpected (h : Faulting.Ends (Faulting.resolve (Resolution.unexpectedDecl (t.decl id))) ρ t r
      ρ' t') : Done define id ρ t r ρ' t' := by
    obtain ⟨run, rfl⟩ := Faulting.ends_resolve.mp h
    obtain ⟨rfl, wrong⟩ := Resolution.runs_unexpectedDecl run
    cases r with
    | error d => exact .refused rfl rfl rfl
    | ok u => exact absurd rfl (wrong u)
  unfold declaration at h
  rw [Faulting.ends_bind_look] at h
  split at h
  · rename_i sort type init kind
    obtain ⟨run, rfl⟩ := Faulting.ends_resolve.mp h
    exact .object kind (runs_object sound kind run) rfl
  · exact .function (ends_function h)
  · rename_i kind
    exact .primary (by simp [Decl.isPrimaryClass, kind]) (ends_classMembers h)
  · rename_i type kind
    obtain ⟨rfl, rfl, rfl⟩ := Faulting.ends_pure.mp h
    exact .other (.inr ⟨type, kind⟩) rfl rfl
  · rename_i kind
    obtain ⟨rfl, rfl, rfl⟩ := Faulting.ends_pure.mp h
    exact .other (.inl (by simp [Decl.isExtension, kind])) rfl rfl
  · exact unexpected h
  · exact unexpected h

theorem Done.passes {r : Except Diagnostic Unit} (h : Done define id ρ t r ρ' t') (sound : t.Sound)
    (holds : ∀ ids, Passing.Holds define ids) : Passes ρ t ρ' t' := by
  cases h with
  | refused _ quiet same =>
    obtain ⟨rfl, rfl⟩ : ρ' = ρ ∧ t' = t := ⟨quiet, same⟩
    exact .refl _ _
  | object _ reworked quiet => exact quiet ▸ .of_advances reworked.idles.advances ρ
  | function reworked => exact reworked.passes sound holds
  | primary _ reworked => exact reworked.passes sound holds
  | other _ quiet same =>
    obtain ⟨rfl, rfl⟩ : ρ' = ρ ∧ t' = t := ⟨quiet, same⟩
    exact .refl _ _

theorem passing_defineWithin (level : Nat) (ids : List DeclId) :
    Passing.Holds (defineWithin level) ids := by
  induction level generalizing ids with
  | zero =>
    intro id _ ρ ρ' t t' u _ h
    obtain ⟨-, rfl, rfl⟩ := ends_pure.mp h
    exact .refl _ _
  | succ level ih =>
    intro id _ ρ ρ' t t' u sound h
    obtain ⟨fault?, ρ₁, t₁, defined, rest⟩ := ends_bind.mp h
    rw [ends_bind_look] at rest
    obtain ⟨rfl, rfl⟩ := ends_reportWithin.mp rest
    rcases Faulting.ends_fault?.mp defined with ⟨rfl, run⟩ | ⟨d, rfl, run⟩
    · simpa [Passing] using (ends_declaration sound run).passes sound ih
    · exact ((ends_declaration sound run).passes sound ih).report _

theorem passing_define (ids : List DeclId) : Passing.Holds Definition.define ids := by
  intro id member ρ ρ' t t' u sound h
  unfold Definition.define at h
  exact passing_defineWithin _ ids id member sound (ends_bind_look.mp h)

end Definition

/-! ## Units -/

/-- The second pass over a unit. -/
theorem SourceUnit.passes_resolveDefinitions {u u' : SourceUnit} {t t' : SymbolTable}
    {reported : List Diagnostic} (sound : t.Sound)
    (exprs : ∀ e ∈ Stmt.expressionsIn u.body, e.Sound t)
    (h : u.resolveDefinitions.run t = ((u', reported), t')) :
    Passes [] t reported t' ∧ u'.scope = u.scope ∧
      ∀ e ∈ Stmt.expressionsIn u'.body, e.Sound t' := by
  unfold resolveDefinitions at h
  rw [run_collect] at h
  obtain ⟨body, ρ₁, t₁, walk, rest⟩ := ends_bind.mp h
  obtain ⟨same, rfl, rfl⟩ := ends_pure.mp rest
  subst same
  obtain ⟨t₂, walk₂, rfl⟩ := ends_under.mp walk
  have entered : t.Evolves (t.enter u.scope) := .of_same rfl rfl
  have left : t₂.Evolves t₂.leave := .of_same rfl rfl
  obtain ⟨passes, -, sound', -⟩ := Definition.ends_statements passing_lifts _
    (Definition.passing_define _) (sound.enter _) (Definition.outside_every_function _)
    (fun e member => entered.exprSound (exprs e member)) walk₂
  exact ⟨Passes.leave passes, rfl, fun e member => left.exprSound (sound' e member)⟩

end Deferral
