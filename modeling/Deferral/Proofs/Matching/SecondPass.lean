import Deferral.Proofs.Matching.FirstPass

/-!
# The second pass over tables that match

Initializers, bodies and conditions of paired declarations are resolved in step, results deduced alike and
constants computed to the same values.
-/

namespace Deferral

variable {M : Matching} {n level : Nat} {t t' : SymbolTable} {x x' : DeclId}

namespace Definition

/-- Two works on what matches ended alike: in a fault that says the same, or in none. -/
structure WorksMatch {α : Type} (A : α → α → Prop) (w w' : Worked α) : Prop where
  value : A w.1 w'.1
  fault : Option.Rel Diagnostic.Alike w.2 w'.2

/-! ## Results -/

section

open Resolution

theorem tracks_resultOf (paired : M.left.decl x = M.right.decl x') :
    Tracks (M.Joins n) (Ty.Matches M.left.decl M.right.decl) (resultOf x) (resultOf x') := by
  intro t t' tables
  refine tracksAt_bind_look ?_
  have parts := (tables.decl paired).callable?
  generalize t.decl x = d at parts
  generalize t'.decl x' = d' at parts
  generalize d.callable? = c? at parts
  generalize d'.callable? = c?' at parts
  cases parts with
  | none => exact tracks_unexpectedDecl _ _ tables
  | some parts => exact tracks_pure parts.result tables

theorem tracks_deduceResult (paired : M.left.decl x = M.right.decl x') {deduced deduced' : Ty}
    (types : deduced.Matches M.left.decl M.right.decl deduced') :
    Tracks (M.Joins n) (fun _ _ => True) (deduceResult x deduced) (deduceResult x' deduced') := by
  refine (tracks_resultOf paired).bind fun result result' same => ?_
  rw [same.isPlaceholder]
  split
  · refine (tracks_modify fun _ _ tables => tables.mapCallable paired (fun c c' parts =>
      ⟨parts.parameters, types, parts.type, parts.body, parts.typeParameters⟩) fun _ => rfl).bind
        fun _ _ _ => tracks_modify fun _ _ tables => tables.rebuildType paired
  · exact tracks_pure trivial

theorem tracks_asResult (paired : M.left.decl x = M.right.decl x') {e e' : Expr}
    (same : e.Matches M.left.decl M.right.decl e') :
    Tracks (M.Joins n) (Expr.Matches M.left.decl M.right.decl) (asResult x e) (asResult x' e') := by
  refine (tracks_resultOf paired).bind fun result result' results => ?_
  have deduced := matches_deduce? results same
  generalize deduce? result e = e? at deduced
  generalize deduce? result' e' = e?' at deduced
  cases deduced with
  | some same => exact (tracks_deduceResult paired same.type).bind fun _ _ _ => tracks_pure same
  | none => exact tracks_ofExcept (Expr.matches_definingInitializer M.distinct M.distinct' same results)

theorem tracks_withoutResult (paired : M.left.decl x = M.right.decl x') (position position' : Position) :
    Tracks (M.Joins n) (fun _ _ => True) (withoutResult x position) (withoutResult x' position') := by
  have plain {type type' : Ty} (same : type.Matches M.left.decl M.right.decl type') :
      Tracks (M.Joins n) (fun _ _ => True)
        (if type.isDependent then pure ()
          else fail (.noConversion Ty.void.shown type.shown) position : Resolution Unit)
        (if type'.isDependent then pure ()
          else fail (.noConversion Ty.void.shown type'.shown) position') := by
    rw [same.isDependent, same.shown]
    split
    · exact tracks_pure trivial
    · exact tracks_fail _ _ _
  have void : Ty.void.Matches M.left.decl M.right.decl .void := ⟨rfl, trivial, trivial⟩
  refine (tracks_resultOf paired).bind fun result result' same => ?_
  have shape := same.same
  cases result with
  | auto =>
    cases result' with
    | auto => exact tracks_deduceResult paired void
    | _ => cases shape
  | decltypeAuto =>
    cases result' with
    | decltypeAuto => exact tracks_deduceResult paired void
    | _ => cases shape
  | void =>
    cases result' with
    | void => exact tracks_pure trivial
    | _ => cases shape
  | _ =>
    cases result' with
    | auto | decltypeAuto | void => cases shape
    | _ => exact plain same

theorem tracks_yielded (paired : M.left.decl x = M.right.decl x') {e e' : Expr}
    (same : e.Matches M.left.decl M.right.decl e') :
    Tracks (M.Joins n) (Expr.Matches M.left.decl M.right.decl) (yielded x e) (yielded x' e') :=
  (tracks_resultOf paired).bind fun _ _ results =>
    tracks_ofExcept (Expr.matches_initializer M.distinct M.distinct' same.asValue results)

end

/-- The same is done to expressions that match. -/
def TracksFinish (M : Matching) (n : Nat) (finish finish' : Expr → Resolution Expr) : Prop :=
  ∀ ⦃e e'⦄, e.Matches M.left.decl M.right.decl e' →
    Resolution.Tracks (M.Joins n) (Expr.Matches M.left.decl M.right.decl) (finish e) (finish' e')

theorem tracksFinish_pure : TracksFinish M n pure pure := fun _ _ same => Resolution.tracks_pure same

theorem tracksFinish_asCondition :
    TracksFinish M n (Resolution.ofExcept ·.asCondition) (Resolution.ofExcept ·.asCondition) :=
  fun _ _ same => Resolution.tracks_ofExcept (Expr.matches_asCondition M.distinct M.distinct' same)

/-- Two functions around what is worked on are paired, or there is none. -/
abbrev FunctionsPaired (M : Matching) : Option DeclId → Option DeclId → Prop :=
  Option.Rel fun x x' => M.left.decl x = M.right.decl x'

theorem tracksFinish_inside {function function' : Option DeclId} (paired : FunctionsPaired M function function')
    {finish : DeclId → Expr → Resolution Expr}
    (finishes : ∀ {x x'}, M.left.decl x = M.right.decl x' → TracksFinish M n (finish x) (finish x')) :
    TracksFinish M n (inside function finish) (inside function' finish) := by
  cases paired with
  | some paired => exact finishes paired
  | none => exact tracksFinish_pure

open Reporting

theorem tracks_settle {finish finish' : Expr → Resolution Expr} (finishes : TracksFinish M n finish finish')
    {e e' : Expr} (same : e.Matches M.left.decl M.right.decl e') :
    Tracks (M.Joins n) (WorksMatch (Expr.Matches M.left.decl M.right.decl)) (settle finish e)
      (settle finish' e') := by
  intro t t' tables
  refine (tracksAt_attempt (Resolution.tracks_forceExpression same tables)).bind
    fun r r' u u' outcome tables => ?_
  cases outcome with
  | error fault => exact tracksAt_pure ⟨same, .some fault⟩ tables
  | ok resolved =>
    refine (tracksAt_attempt (finishes resolved tables)).bind fun r r' u u' outcome tables => ?_
    cases outcome with
    | error fault => exact tracksAt_pure ⟨resolved, .some fault⟩ tables
    | ok finished => exact tracksAt_pure ⟨finished, .none⟩ tables

/-! ## Statements -/

open Signature (WalkedTo AllWalkedTo PassesInStep)

theorem tracks_reportStatement {stmt : Stmt} {w w' : Worked Stmt} (h : WorksMatch (WalkedTo M stmt) w w') :
    Tracks (M.Joins n) (WalkedTo M stmt) (reportStatement w) (reportStatement w') :=
  fun _ _ tables => (tracks_reportWithin .statement h.fault tables).bind fun _ _ _ _ _ tables =>
    tracksAt_pure h.value tables

section Nested

variable {define define' : DeclId → Reporting Unit} {function function' : Option DeclId}

mutual

theorem tracks_statement {ids : List DeclId} (defines : PassesInStep M n define define' ids)
    (paired : FunctionsPaired M function function') : ∀ stmt stmt' : Stmt,
    stmt.Matches M.left M.right stmt' → stmt'.declares ⊆ ids →
    Tracks (M.Joins n) (WorksMatch (WalkedTo M stmt')) (statement define function stmt)
      (statement define' function' stmt')
  | .block id body span, stmt', same, among => by
    obtain ⟨id', body', span', rfl, blocks, all⟩ := same.of_block
    intro t t' tables
    refine (tracksAt_attempt (Resolution.tracks_scopeOf (M.savedBlock blocks) tables)).bind
      fun r r' u u' outcome tables => ?_
    cases outcome with
    | error fault => exact tracksAt_pure ⟨⟨.block blocks all, List.Subset.refl _⟩, .some fault⟩ tables
    | ok owns =>
      exact (TracksAt.under (tracks_statements defines paired body body' all among
        (tables.enter owns.paired (tables.lt_of_owns owns))) fun _ _ tables => tables.leave).bind
          fun _ _ _ _ all tables => tracksAt_pure ⟨⟨.block blocks all.same, all.declares⟩, .none⟩ tables
  | .returning value span, stmt', same, among => by
    obtain ⟨value', span', rfl, values⟩ := same.of_returning
    cases values with
    | none =>
      cases paired with
      | none => exact tracks_pure ⟨⟨.returning .none, List.Subset.refl _⟩, .none⟩
      | some paired =>
        intro t t' tables
        exact (Faulting.TracksAt.fault? (Faulting.tracksAt_resolve
          (tracks_withoutResult paired span.start span'.start tables))).bind fun _ _ _ _ fault tables =>
            tracksAt_pure ⟨⟨.returning .none, List.Subset.refl _⟩, fault⟩ tables
    | some inner =>
      exact (tracks_settle (tracksFinish_inside paired fun paired _ _ same => tracks_asResult paired same)
        inner).bind fun w w' works =>
          tracks_pure ⟨⟨.returning (.some works.value), List.Subset.refl _⟩, works.fault⟩
  | .yielding e span, stmt', same, among => by
    obtain ⟨e', span', rfl, inner⟩ := same.of_yielding
    exact (tracks_settle (tracksFinish_inside paired fun paired _ _ same => tracks_yielded paired same)
      inner).bind fun w w' works =>
        tracks_pure ⟨⟨.yielding works.value, List.Subset.refl _⟩, works.fault⟩
  | .conditional e onTrue onFalse span, stmt', same, among => by
    obtain ⟨e', onTrue', onFalse', span', rfl, conditions, first, second⟩ := same.of_conditional
    obtain ⟨among₁, among₂⟩ := List.append_subset.mp among
    refine (tracks_settle tracksFinish_asCondition conditions).bind ?_
    rintro ⟨e, fault?⟩ ⟨e', fault?'⟩ ⟨conditions, fault⟩
    cases fault with
    | some fault =>
      exact tracks_pure ⟨⟨.conditional conditions first second, List.Subset.refl _⟩, .some fault⟩
    | none =>
      refine (tracks_statement defines paired onTrue onTrue' first among₁).bind ?_
      rintro ⟨w, fault?⟩ ⟨w', fault?'⟩ ⟨walked, fault⟩
      have declares := List.subset_append_of_subset_left (Stmt.declaresBehindElse onFalse') walked.declares
      cases fault with
      | some fault =>
        exact tracks_pure ⟨⟨.conditional conditions walked.same second,
          List.append_subset.mpr ⟨declares, List.subset_append_right ..⟩⟩, .some fault⟩
      | none =>
        refine (tracks_alternative defines paired onFalse onFalse' second among₂).bind ?_
        rintro ⟨v, fault?⟩ ⟨v', fault?'⟩ ⟨others, fault⟩
        exact tracks_pure ⟨⟨.conditional conditions walked.same others.1,
          List.append_subset.mpr ⟨declares, List.subset_append_of_subset_right _ others.2⟩⟩, fault⟩
  | .whileLoop e body span, stmt', same, among => by
    obtain ⟨e', body', span', rfl, conditions, inner⟩ := same.of_whileLoop
    refine (tracks_settle tracksFinish_asCondition conditions).bind ?_
    rintro ⟨e, fault?⟩ ⟨e', fault?'⟩ ⟨conditions, fault⟩
    cases fault with
    | some fault => exact tracks_pure ⟨⟨.whileLoop conditions inner, List.Subset.refl _⟩, .some fault⟩
    | none =>
      refine (tracks_statement defines paired body body' inner among).bind ?_
      rintro ⟨w, fault?⟩ ⟨w', fault?'⟩ ⟨walked, fault⟩
      exact tracks_pure ⟨⟨.whileLoop conditions walked.same, walked.declares⟩, fault⟩
  | .breaking span, stmt', same, _ => by
    obtain ⟨span', rfl⟩ := same.of_breaking
    exact tracks_pure ⟨⟨same, List.Subset.refl _⟩, .none⟩
  | .continuing span, stmt', same, _ => by
    obtain ⟨span', rfl⟩ := same.of_continuing
    exact tracks_pure ⟨⟨same, List.Subset.refl _⟩, .none⟩
  | .declaration id span, stmt', same, among => by
    obtain ⟨id', span', rfl, held⟩ := same.of_declaration
    exact (defines held (among (List.mem_singleton_self _))).bind fun _ _ _ =>
      tracks_pure ⟨⟨.declaration held, List.Subset.refl _⟩, .none⟩
  | .expression e, stmt', same, _ => by
    obtain ⟨e', rfl, inner⟩ := same.of_expression
    exact (tracks_settle tracksFinish_pure inner).bind fun w w' works =>
      tracks_pure ⟨⟨.expression works.value, List.Subset.refl _⟩, works.fault⟩

theorem tracks_statements {ids : List DeclId} (defines : PassesInStep M n define define' ids)
    (paired : FunctionsPaired M function function') : ∀ body body' : List Stmt,
    Stmt.AllMatch M.left M.right body body' → Stmt.declaresIn body' ⊆ ids →
    Tracks (M.Joins n) (AllWalkedTo M body') (statements define function body)
      (statements define' function' body')
  | [], body', all, _ => by
    obtain rfl := all.eq_nil
    exact tracks_pure ⟨.nil, List.Subset.refl _⟩
  | stmt :: rest, body', all, among => by
    obtain ⟨stmt', rest', rfl, first, others⟩ := all.of_cons
    obtain ⟨among₁, among₂⟩ := List.append_subset.mp among
    refine (tracks_statement defines paired stmt stmt' first among₁).bind fun w w' works => ?_
    refine (tracks_reportStatement works).bind fun w w' walked => ?_
    refine (tracks_statements defines paired rest rest' others among₂).bind fun ws ws' walkeds => ?_
    exact tracks_pure ⟨.cons walked.same walkeds.same,
      List.append_subset.mpr ⟨List.subset_append_of_subset_left _ walked.declares,
        List.subset_append_of_subset_right _ walkeds.declares⟩⟩

theorem tracks_alternative {ids : List DeclId} (defines : PassesInStep M n define define' ids)
    (paired : FunctionsPaired M function function') : ∀ onFalse onFalse' : Option Stmt,
    Stmt.ElsesMatch M.left M.right onFalse onFalse' → Stmt.declaresBehindElse onFalse' ⊆ ids →
    Tracks (M.Joins n) (WorksMatch fun w w' => Stmt.ElsesMatch M.left M.right w w' ∧
        Stmt.declaresBehindElse w' ⊆ Stmt.declaresBehindElse onFalse')
      (alternative define function onFalse) (alternative define' function' onFalse')
  | none, onFalse', same, _ => by
    obtain rfl := same.eq_none
    exact tracks_pure ⟨⟨.none, List.Subset.refl _⟩, .none⟩
  | some stmt, onFalse', same, among => by
    obtain ⟨stmt', rfl, inner⟩ := same.of_some
    refine (tracks_statement defines paired stmt stmt' inner among).bind ?_
    rintro ⟨w, fault?⟩ ⟨w', fault?'⟩ ⟨walked, fault⟩
    exact tracks_pure ⟨⟨.some walked.same, walked.declares⟩, fault⟩

end

end Nested

/-! ## Declarations -/

theorem tracks_object (paired : M.left.decl x = M.right.decl x') :
    Resolution.Tracks (M.Joins n) (fun _ _ => True) (object x) (object x') := by
  intro t t' tables
  have matched := tables.decl paired
  have own := matched.ownType?
  refine Resolution.tracksAt_bind_look ?_
  rw [matched.isConstant]
  generalize (t.decl x).ownType? = type? at own
  generalize (t'.decl x').ownType? = type?' at own
  cases own with
  | none => exact Resolution.tracks_unexpectedDecl _ _ tables
  | some types =>
    dsimp only
    rw [types.isDeferred]
    split
    · exact Resolution.tracks_pure trivial tables
    split
    · rename_i constant
      exact Matching.binds_ensureConstant paired tables constant
    · exact Resolution.tracks_settleObject paired tables

/-- Two bodies that have been worked on match, and the second has no declarations that the body `old` had
not. -/
structure BodyWalkedTo (M : Matching) (old b b' : Body) : Prop where
  same : b.Matches M.left M.right b'
  declares : b'.declares ⊆ old.declares

theorem tracks_body {walk walk' : Stmt → Reporting (Worked Stmt)} (held : M.left.held x = M.right.held x')
    {b b' : Body} (same : b.Matches M.left M.right b')
    (walks : ∀ s s', s.Matches M.left M.right s' → s'.declares = b'.declares →
      Tracks (M.Joins n) (WorksMatch (WalkedTo M s')) (walk s) (walk' s')) :
    Tracks (M.Joins n) (WorksMatch (BodyWalkedTo M b')) (body walk x b) (body walk' x' b') := by
  cases b with
  | absent =>
    obtain rfl := same.eq_absent
    exact tracks_pure ⟨⟨.absent, List.Subset.refl _⟩, .none⟩
  | statement s =>
    obtain ⟨s', rfl, inner⟩ := same.of_statement
    refine (walks s s' inner rfl).bind ?_
    rintro ⟨w, fault?⟩ ⟨w', fault?'⟩ ⟨walked, fault⟩
    exact tracks_pure ⟨⟨.statement walked.same, walked.declares⟩, fault⟩
  | expression e =>
    obtain ⟨e', rfl, inner⟩ := same.of_expression
    intro t t' tables
    refine (tracksAt_attempt (Resolution.tracks_scopeOf (M.savedBody held) tables)).bind
      fun r r' u u' outcome tables => ?_
    cases outcome with
    | error fault => exact tracksAt_pure ⟨⟨.expression inner, List.Subset.refl _⟩, .some fault⟩ tables
    | ok owns =>
      have finishes : TracksFinish M n (asResult x) (asResult x') :=
        fun _ _ same => tracks_asResult (M.held held) same
      exact (TracksAt.under (tracks_settle finishes inner
        (tables.enter owns.paired (tables.lt_of_owns owns))) fun _ _ tables => tables.leave).bind
          fun _ _ _ _ works tables =>
            tracksAt_pure ⟨⟨.expression works.value, List.Subset.refl _⟩, works.fault⟩ tables

theorem tracks_function {walk walk' : Stmt → Reporting (Worked Stmt)} (held : M.left.held x = M.right.held x')
    (lt : n < level + 1)
    (walks : ∀ m s s', s.Matches M.left M.right s' → (s'.declares ≠ [] → m < level) →
      Tracks (M.Joins m) (WorksMatch (WalkedTo M s')) (walk s) (walk' s')) :
    Faulting.Tracks (M.Joins n) (fun _ _ => True) (function walk x) (function walk' x') := by
  intro t t' tables
  have paired := M.held held
  refine Faulting.tracksAt_bind_look ?_
  have parts := (tables.decl paired).callable?
  cases callable : (t.decl x).callable? with
  | none =>
    rw [callable] at parts
    cases callable' : (t'.decl x').callable? with
    | some c' => rw [callable'] at parts; cases parts
    | none => exact Faulting.tracksAt_resolve (Resolution.tracks_unexpectedDecl _ _ tables)
  | some c =>
    rw [callable] at parts
    cases callable' : (t'.decl x').callable? with
    | none => rw [callable'] at parts; cases parts
    | some c' =>
      rw [callable'] at parts
      obtain ⟨parts⟩ := parts
      have shape := parts.type.same
      dsimp only
      split
      · rename_i auto
        rw [auto] at shape
        cases type' : c'.type with
        | auto => exact Faulting.tracks_pure trivial tables
        | _ => rw [type'] at shape; cases shape
      rename_i typed
      split
      · rename_i auto'
        rw [auto'] at shape
        cases type : c.type with
        | auto => exact (typed type).elim
        | _ => rw [type] at shape; cases shape
      refine Faulting.tracksAt_bind_resolve (Resolution.tracks_scopeOf (M.saved held) tables)
        fun s s' u u' found found' owns _ => Faulting.tracksAt_bind_change ?_
      obtain ⟨rfl, -⟩ := Resolution.runs_scopeOf found
      obtain ⟨rfl, -⟩ := Resolution.runs_scopeOf found'
      have bodied : (u'.decl x').body = c'.body := by
        rw [Decl.body, callable']
        rfl
      have plain {k : Nat} {v v' : SymbolTable} (joins : M.Joins k v v') :=
        joins.members?_eq_none tables callable'
      obtain ⟨m, bounded, deep, refill⟩ := tables.bounded.walkBody lt (plain tables)
      rw [bodied] at deep refill
      have hollow : M.Joins m (Signature.withoutBody u x) (Signature.withoutBody u' x') :=
        tables.withBody paired .absent bounded
      have walked := tracks_body held parts.body (fun s s' same declares =>
        walks m s s' same (declares ▸ deep)) (hollow.enter owns.paired (hollow.lt_of_owns owns))
      refine Faulting.tracksAt_bind_lift (walked.under fun _ _ joins => joins.leave) ?_
      rintro ⟨b, fault?⟩ ⟨b', fault?'⟩ v v' ⟨worked, fault⟩ joins
      have put := joins.withBody paired worked.same (refill joins.bounded (plain joins)
        fun empty => List.subset_nil.mp (empty ▸ worked.declares))
      refine Faulting.tracksAt_bind_change ?_
      cases fault with
      | none => exact Faulting.tracks_pure trivial put
      | some fault => exact Faulting.tracks_throw fault put

theorem tracks_classMembers {walk walk' : List Stmt → Reporting (List Stmt)}
    (held : M.left.held x = M.right.held x') (lt : n < level + 1)
    (walks : ∀ m body body', Stmt.AllMatch M.left M.right body body' →
      (Stmt.declaresIn body' ≠ [] → m < level) →
      Tracks (M.Joins m) (AllWalkedTo M body') (walk body) (walk' body'))
    (tables : M.Joins n t t') (isClass : (t'.decl x').members?.isSome = true) :
    Faulting.TracksAt (M.Joins n) (fun _ _ => True) (classMembers walk x) t (classMembers walk' x') t' := by
  refine Faulting.tracksAt_bind_resolve (Resolution.tracks_scopeOf (M.saved held) tables)
    fun s s' u u' found found' owns _ => ?_
  obtain ⟨rfl, -⟩ := Resolution.runs_scopeOf found
  obtain ⟨rfl, -⟩ := Resolution.runs_scopeOf found'
  obtain ⟨m, bounded, deep, refill⟩ := tables.bounded.walkMembers lt isClass
  have hollow : M.Joins m (Signature.withoutMembers u x) (Signature.withoutMembers u' x') :=
    tables.withMembers held .nil bounded
  have walked := walks m _ _ (tables.members held) deep (hollow.enter owns.paired (hollow.lt_of_owns owns))
  refine Faulting.tracksAt_bind_look (Faulting.tracksAt_bind_change (Faulting.tracksAt_bind_lift
    (walked.under fun _ _ joins => joins.leave) fun body body' v v' walked joins => ?_))
  exact Faulting.tracksAt_change (joins.withMembers held walked.same (refill joins.bounded
    ((joins.isSome_members? tables x').trans isClass) fun empty =>
      List.subset_nil.mp (empty ▸ walked.declares)))

theorem tracks_declaration {define define' : DeclId → Reporting Unit} (held : M.left.held x = M.right.held x')
    (lt : n < level + 1) (defines : ∀ m < level, ∀ ids, PassesInStep M m define define' ids) :
    Faulting.Tracks (M.Joins n) (fun _ _ => True) (declaration define x) (declaration define' x') := by
  intro t t' tables
  have paired := M.held held
  have kinds := (tables.decl paired).kind
  -- Where nothing is declared inside, no level is needed.
  have inner {m : Nat} {ids : List DeclId} (deep : ids ≠ [] → m < level) :
      PassesInStep M m define define' ids := by
    intro y y' held member
    exact defines m (deep (List.ne_nil_of_mem member)) ids held member
  refine Faulting.tracksAt_bind_look ?_
  generalize d : t.decl x = decl at kinds
  generalize d' : t'.decl x' = decl' at kinds
  obtain ⟨name, kind, scope, span⟩ := decl
  obtain ⟨name', kind', scope', span'⟩ := decl'
  cases kind with
  | object sort type init =>
    cases kind' with
    | object _ _ _ => exact Faulting.tracksAt_resolve (tracks_object paired tables)
    | _ => cases kinds
  | super type =>
    cases kind' with
    | super _ => exact Faulting.tracks_pure trivial tables
    | _ => cases kinds
  | callable sort c =>
    cases kind' with
    | callable _ _ =>
      exact tracks_function held lt (fun m s s' same deep =>
        tracks_statement (inner deep) (.some paired) s s' same (List.Subset.refl _)) tables
    | _ => cases kinds
  | classDecl sort type body =>
    cases kind' with
    | classDecl sort' _ _ =>
      obtain ⟨rfl, -⟩ := Declared.classDecl.inj kinds
      cases sort with
      | extension => exact Faulting.tracks_pure trivial tables
      | primary =>
        exact tracks_classMembers held lt (fun m body body' all deep =>
          tracks_statements (inner deep) .none body body' all (List.Subset.refl _)) tables (by rw [d']; rfl)
    | _ => cases kinds
  | parameter type =>
    cases kind' with
    | parameter _ => exact Faulting.tracksAt_resolve (Resolution.tracks_unexpectedDecl _ _ tables)
    | _ => cases kinds
  | typeParameter =>
    cases kind' with
    | typeParameter => exact Faulting.tracksAt_resolve (Resolution.tracks_unexpectedDecl _ _ tables)
    | _ => cases kinds

/-- With more levels than functions and classes that have something inside them in the second table. -/
theorem passesInStep_defineWithin : ∀ (level : Nat), ∀ n < level, ∀ more ≥ level, ∀ ids,
    PassesInStep M n (defineWithin more) (defineWithin level) ids
  | level + 1, n, lt, more + 1, enough, ids, x, x', held, member => by
    have defines := passesInStep_defineWithin level
    have passed : Faulting.Tracks (M.Joins n) (fun _ _ => True) (declaration (defineWithin more) x)
        (declaration (defineWithin level) x') :=
      tracks_declaration held lt fun m lt ids => defines m lt more (Nat.le_of_succ_le_succ enough) ids
    intro t t' tables
    refine (Faulting.TracksAt.fault? (passed tables)).bind fun fault? fault?' u u' related tables => ?_
    refine Reporting.tracksAt_bind_look ?_
    rw [(tables.decl (M.held held)).subject]
    exact Reporting.tracks_reportWithin _ related tables

/-- Paired declarations are passed over in step if the second table is no larger. -/
theorem passesInStep_define (smaller : M.base'.decls.size ≤ M.base.decls.size) (n : Nat) (ids : List DeclId) :
    PassesInStep M n define define ids := by
  intro x x' held member t t' tables
  refine Reporting.tracksAt_bind_look ?_
  have le : t'.decls.size ≤ t.decls.size := by
    obtain ⟨k, size, size'⟩ := tables.decls
    omega
  have short : min n t'.decls.size < t'.decls.size + 1 := by omega
  exact (passesInStep_defineWithin _ _ short _ (Nat.succ_le_succ le) ids held member
    tables.min_size).mono (fun _ _ _ => trivial) fun u u' tables => tables.mono (Nat.min_le_left ..)

end Definition

end Deferral
