import Deferral.Proofs.Scope.Located
import Deferral.Proofs.SecondPass.Declaration

/-!
# The second pass binds lexically

The second pass reads each expression in the scope it stands in and changes no scope, so that what was
lexical where it stands stays so and what is read becomes so.
-/

namespace Deferral

open SymbolTable

/-! ## Expressions -/

namespace Definition

open Reporting

variable {define : DeclId → Reporting Unit} {function : Option DeclId}
  {finish : Expr → Resolution Expr} {ρ ρ' : List Diagnostic} {t t' : SymbolTable} {id : DeclId}

theorem reads_resultOf {r : Except Diagnostic Ty} (h : Resolution.Runs (resultOf id) t r t') :
    t' = t := by
  unfold resultOf at h
  rw [Resolution.runs_bind_look] at h
  split at h
  · exact (Resolution.runs_pure.mp h).2
  · exact (Resolution.runs_unexpectedDecl h).1

theorem reads_deduceResult (bound : t.Bound) {type : Ty} {r : Except Diagnostic Unit}
    (h : Resolution.Runs (deduceResult id type) t r t') : t.Reads t' := by
  have kept {t : SymbolTable} (bound : t.Bound) (f : Callable → Callable)
      (same : ∀ c, (f c).body = c.body) : t.Reads (t.modifyDecl id (·.mapCallable f)) :=
    ⟨.mapCallable t id f, bound.mapCallable id f (.inl (Decl.body_mapCallable same _))⟩
  unfold deduceResult at h
  rcases Resolution.runs_bind.mp h with ⟨d, looked, -⟩ | ⟨result, t₁, looked, rest⟩
  · obtain rfl := reads_resultOf looked
    exact .refl bound
  obtain rfl := reads_resultOf looked
  split at rest
  · rw [Resolution.runs_bind_modify, Resolution.runs_modify] at rest
    obtain ⟨-, rfl⟩ := rest
    have resulting := kept bound (fun c => { c with result := type }) fun _ => rfl
    exact resulting.trans (kept resulting.bound
      (fun c => { c with type := Signature.signatureType _ c }) fun _ => rfl)
  · obtain ⟨-, rfl⟩ := Resolution.runs_pure.mp rest
    exact .refl bound

/-- What is done to expressions that have been read refers to nothing more. -/
def FinishesReading (finish : Expr → Resolution Expr) : Prop :=
  ∀ {e : Expr} {t t' : SymbolTable} {r : Except Diagnostic Expr}, t.Bound →
    Resolution.Runs (finish e) t r t' →
    t.Reads t' ∧ ∀ e', r = .ok e' → e'.references = e.references

theorem finishesReading_ofExcept {convert : Expr → Except Diagnostic Expr}
    (references : ∀ {e e'}, convert e = .ok e' → e'.references = e.references) :
    FinishesReading (Resolution.ofExcept <| convert ·) := by
  intro e t t' r bound h
  obtain ⟨rfl, rfl⟩ := Resolution.runs_ofExcept.mp h
  exact ⟨.refl bound, fun e' converted => references converted⟩

theorem finishesReading_pure : FinishesReading pure := by
  intro e t t' r bound h
  obtain ⟨rfl, rfl⟩ := Resolution.runs_pure.mp h
  exact ⟨.refl bound, fun e' same => Except.ok.inj same ▸ rfl⟩

theorem finishesReading_asResult (id : DeclId) : FinishesReading (asResult id) := by
  intro e t t' r bound h
  unfold asResult at h
  rcases Resolution.runs_bind.mp h with ⟨d, looked, rfl⟩ | ⟨result, t₁, looked, rest⟩
  · obtain rfl := reads_resultOf looked
    exact ⟨.refl bound, fun _ same => by cases same⟩
  obtain rfl := reads_resultOf looked
  split at rest
  · rename_i e₁ deduced
    rcases Resolution.runs_bind.mp rest with ⟨d, run, rfl⟩ | ⟨_, t₂, run, last⟩
    · exact ⟨reads_deduceResult bound run, fun _ same => by cases same⟩
    obtain ⟨rfl, rfl⟩ := Resolution.runs_pure.mp last
    refine ⟨reads_deduceResult bound run, fun e' same => ?_⟩
    obtain rfl := Except.ok.inj same
    exact Resolution.references_deduce? deduced
  · obtain ⟨rfl, rfl⟩ := Resolution.runs_ofExcept.mp rest
    exact ⟨.refl bound, fun e' initialized => Expr.references_definingInitializer initialized⟩

theorem finishesReading_yielded (id : DeclId) : FinishesReading (yielded id) := by
  intro e t t' r bound h
  unfold yielded at h
  rcases Resolution.runs_bind.mp h with ⟨d, looked, rfl⟩ | ⟨result, t₁, looked, rest⟩
  · obtain rfl := reads_resultOf looked
    exact ⟨.refl bound, fun _ same => by cases same⟩
  obtain rfl := reads_resultOf looked
  obtain ⟨rfl, rfl⟩ := Resolution.runs_ofExcept.mp rest
  refine ⟨.refl bound, fun e' initialized => ?_⟩
  rw [Expr.references_initializer initialized, Expr.references_asValue]

theorem finishesReading_inside {finish : DeclId → Expr → Resolution Expr}
    (reading : ∀ id, FinishesReading (finish id)) (function : Option DeclId) :
    FinishesReading (inside function finish) := by
  cases function with
  | none => exact finishesReading_pure
  | some id => exact reading id

theorem reads_withoutResult (bound : t.Bound) {position : Position} {r : Except Diagnostic Unit}
    (h : Resolution.Runs (withoutResult id position) t r t') : t.Reads t' := by
  unfold withoutResult at h
  rcases Resolution.runs_bind.mp h with ⟨d, looked, -⟩ | ⟨result, t₁, looked, rest⟩
  · obtain rfl := reads_resultOf looked
    exact .refl bound
  obtain rfl := reads_resultOf looked
  split at rest
  · exact reads_deduceResult bound rest
  · exact reads_deduceResult bound rest
  · obtain ⟨-, rfl⟩ := Resolution.runs_pure.mp rest
    exact .refl bound
  · split at rest
    · obtain ⟨-, rfl⟩ := Resolution.runs_pure.mp rest
      exact .refl bound
    · obtain ⟨-, rfl⟩ := Resolution.runs_fail.mp rest
      exact .refl bound

/-- An expression is read in the innermost scope. -/
theorem reads_settle (bound : t.Bound) (reading : FinishesReading finish) {e : Expr} {worked : Worked Expr}
    (h : Ends (settle finish e) ρ t worked ρ' t') :
    t.Reads t' ∧ (t.Lexical t.innermost e → t'.Lexical t.innermost worked.1) := by
  obtain ⟨outcome, ρ₁, t₁, forced, rest⟩ := ends_bind.mp h
  obtain ⟨run, rfl⟩ := ends_attempt.mp forced
  obtain ⟨read, rfl⟩ := Resolution.runs_forceExpression.mp run
  cases outcome with
  | error d =>
    obtain ⟨rfl, rfl, rfl⟩ := ends_pure.mp rest
    exact ⟨.refl bound, fun lexical => lexical⟩
  | ok resolved =>
    have lexical : t₁.Lexical t₁.innermost e → t₁.Lexical t₁.innermost resolved := by
      intro lexical
      rcases lexical_forceExpression read.symm with rfl | typed
      · exact lexical
      · exact typed
    obtain ⟨outcome, ρ₂, t₂, finished, last⟩ := ends_bind.mp rest
    obtain ⟨run, rfl⟩ := ends_attempt.mp finished
    obtain ⟨reads, references⟩ := reading bound run
    cases outcome with
    | error d =>
      obtain ⟨rfl, rfl, rfl⟩ := ends_pure.mp last
      exact ⟨reads, fun h => (lexical h).of_scopes reads.scopes reads.extensions⟩
    | ok e' =>
      obtain ⟨rfl, rfl, rfl⟩ := ends_pure.mp last
      refine ⟨reads, fun h => ?_⟩
      unfold Lexical
      rw [references e' rfl]
      exact (lexical h).of_scopes reads.scopes reads.extensions

/-! ## Statements -/

/-- The pass over declarations moves nothing. -/
def MovesNothing (define : DeclId → Reporting Unit) : Prop :=
  ∀ {id : DeclId} {ρ ρ' : List Diagnostic} {t t' : SymbolTable} {u : Unit},
    t.Bound → Ends (define id) ρ t u ρ' t' → t.Reads t'

/-- A pass over statements moves nothing and leaves them lexical where they stand. -/
structure ReadsAt (t : SymbolTable) (located : List (Option ScopeId × Expr)) (t' : SymbolTable)
    (located' : List (Option ScopeId × Expr)) : Prop where
  reads : t.Reads t'
  lexical : t.LexicalAt located → t'.LexicalAt located'

theorem ReadsAt.refl (bound : t.Bound) (located : List (Option ScopeId × Expr)) :
    ReadsAt t located t located :=
  ⟨.refl bound, fun lexical => lexical⟩

theorem ReadsAt.append {t'' : SymbolTable} {l m l' m' : List (Option ScopeId × Expr)}
    (h : ReadsAt t l t' l') (h' : ReadsAt t' m t'' m') : ReadsAt t (l ++ m) t'' (l' ++ m') := by
  refine ⟨h.reads.trans h'.reads, fun lexical => ?_⟩
  obtain ⟨first, second⟩ := lexicalAt_append.mp lexical
  exact lexicalAt_append.mpr ⟨h'.reads.lexicalAt (h.lexical first),
    h'.lexical (h.reads.lexicalAt second)⟩

theorem ReadsAt.leave {scope : ScopeId} {l l' : List (Option ScopeId × Expr)}
    (h : ReadsAt (t.enter scope) l t' l') : ReadsAt t l t'.leave l' := by
  refine ⟨h.reads.leave, fun lexical p member s same => ?_⟩
  have entered : (t.enter scope).LexicalAt l :=
    fun p member s same => (lexical p member s same).of_scopes rfl fun _ => rfl
  exact (h.lexical entered p member s same).of_scopes rfl fun _ => rfl

/-- The pass is at the scope `scope`; scopes are saved as in `t₀`. -/
structure IsAt (t₀ : SymbolTable) (scope : ScopeId) (t : SymbolTable) : Prop where
  saved : t.saved = t₀.saved
  innermost : t.innermost = scope

theorem IsAt.of_reads {t₀ : SymbolTable} {scope : ScopeId} (h : IsAt t₀ scope t)
    (reads : t.Reads t') : IsAt t₀ scope t' :=
  ⟨reads.saved.trans h.saved, reads.innermost.trans h.innermost⟩

theorem IsAt.settle {t₀ : SymbolTable} {scope : ScopeId} (h : IsAt t₀ scope t) (bound : t.Bound)
    (reading : FinishesReading finish) {e : Expr} {worked : Worked Expr}
    (run : Ends (Definition.settle finish e) ρ t worked ρ' t') :
    ReadsAt t [(some scope, e)] t' [(some scope, worked.1)] := by
  obtain ⟨reads, lexical⟩ := reads_settle bound reading run
  rw [h.innermost] at lexical
  exact ⟨reads, by simpa using lexical⟩

mutual

/-- A statement is read in the scope it stands in. -/
theorem reads_statement (moves : MovesNothing define) {function : Option DeclId}
    {t₀ : SymbolTable} : ∀ (s : Stmt) {scope : ScopeId} {ρ ρ' : List Diagnostic}
    {t t' : SymbolTable} {worked : Worked Stmt}, IsAt t₀ scope t → t.Bound →
    Ends (statement define function s) ρ t worked ρ' t' →
    ReadsAt t (s.located t₀ (some scope)) t' (worked.1.located t₀ (some scope))
  | .block id body span, _, _, _, _, _, _, here, bound, h => by
    obtain ⟨outcome, ρ₁, t₁, looked, rest⟩ := ends_bind.mp h
    obtain ⟨run, rfl⟩ := ends_attempt.mp looked
    obtain ⟨rfl, known⟩ := Resolution.runs_scopeOf run
    cases outcome with
    | error d =>
      obtain ⟨rfl, rfl, rfl⟩ := ends_pure.mp rest
      exact .refl bound _
    | ok scope =>
      obtain ⟨body', ρ₂, t₂, under, last⟩ := ends_bind.mp rest
      obtain ⟨rfl, rfl, rfl⟩ := ends_pure.mp last
      obtain ⟨t₃, walk, rfl⟩ := ends_under.mp under
      have own : t₀.scopeOf? (.block id) = some scope := by
        simpa only [scopeOf?, here.saved] using known scope rfl
      have here' : IsAt t₀ scope (t₁.enter scope) := ⟨here.saved, rfl⟩
      simp only [Stmt.located, own]
      exact (reads_statements moves body here' (bound.of_same rfl rfl rfl) walk).leave
  | .returning (some e) span, _, _, _, _, _, _, here, bound, h => by
    obtain ⟨worked, _, _, settled, last⟩ := ends_bind.mp h
    obtain ⟨rfl, rfl, rfl⟩ := ends_pure.mp last
    exact here.settle bound (finishesReading_inside finishesReading_asResult function) settled
  | .returning none span, _, _, _, _, _, _, _, bound, h => by
    cases function with
    | none =>
      obtain ⟨rfl, rfl, rfl⟩ := ends_pure.mp h
      exact .refl bound _
    | some id =>
      obtain ⟨fault?, _, _, resolved, last⟩ := ends_bind.mp h
      obtain ⟨rfl, rfl, rfl⟩ := ends_pure.mp last
      refine ⟨?_, fun _ => lexicalAt_nil _⟩
      rcases Faulting.ends_fault?.mp resolved with ⟨-, run⟩ | ⟨d, -, run⟩ <;>
        exact reads_withoutResult bound (Faulting.ends_resolve.mp run).1
  | .yielding e span, _, _, _, _, _, _, here, bound, h => by
    obtain ⟨worked, _, _, settled, last⟩ := ends_bind.mp h
    obtain ⟨rfl, rfl, rfl⟩ := ends_pure.mp last
    exact here.settle bound (finishesReading_inside finishesReading_yielded function) settled
  | .conditional e onTrue onFalse span, _, _, _, _, _, _, here, bound, h => by
    obtain ⟨⟨e', fault?⟩, ρ₁, t₁, settled, rest⟩ := ends_bind.mp h
    have first := here.settle bound (finishesReading_ofExcept Expr.references_asCondition) settled
    cases fault? with
    | some d =>
      obtain ⟨rfl, rfl, rfl⟩ := ends_pure.mp rest
      exact first.append (.refl first.reads.bound _)
    | none =>
      obtain ⟨⟨onTrue', fault?⟩, ρ₂, t₂, walk, rest⟩ := ends_bind.mp rest
      have here₁ := here.of_reads first.reads
      have second := reads_statement moves onTrue here₁ first.reads.bound walk
      cases fault? with
      | some d =>
        obtain ⟨rfl, rfl, rfl⟩ := ends_pure.mp rest
        exact first.append (second.append (.refl second.reads.bound _))
      | none =>
        obtain ⟨⟨onFalse', fault?⟩, ρ₃, t₃, walk', last⟩ := ends_bind.mp rest
        obtain ⟨rfl, rfl, rfl⟩ := ends_pure.mp last
        exact first.append (second.append
          (reads_alternative moves onFalse (here₁.of_reads second.reads) second.reads.bound walk'))
  | .whileLoop e body span, _, _, _, _, _, _, here, bound, h => by
    obtain ⟨⟨e', fault?⟩, ρ₁, t₁, settled, rest⟩ := ends_bind.mp h
    have first := here.settle bound (finishesReading_ofExcept Expr.references_asCondition) settled
    cases fault? with
    | some d =>
      obtain ⟨rfl, rfl, rfl⟩ := ends_pure.mp rest
      exact first.append (.refl first.reads.bound _)
    | none =>
      obtain ⟨⟨body', fault?⟩, ρ₂, t₂, walk, last⟩ := ends_bind.mp rest
      obtain ⟨rfl, rfl, rfl⟩ := ends_pure.mp last
      exact first.append (reads_statement moves body (here.of_reads first.reads) first.reads.bound walk)
  | .breaking _, _, _, _, _, _, _, _, bound, h
  | .continuing _, _, _, _, _, _, _, _, bound, h => by
    obtain ⟨rfl, rfl, rfl⟩ := ends_pure.mp h
    exact .refl bound _
  | .declaration id span, _, _, _, _, _, _, _, bound, h => by
    obtain ⟨_, _, _, defined, last⟩ := ends_bind.mp h
    obtain ⟨rfl, rfl, rfl⟩ := ends_pure.mp last
    exact ⟨moves bound defined, fun _ => lexicalAt_nil _⟩
  | .expression e, _, _, _, _, _, _, here, bound, h => by
    obtain ⟨worked, _, _, settled, last⟩ := ends_bind.mp h
    obtain ⟨rfl, rfl, rfl⟩ := ends_pure.mp last
    exact here.settle bound finishesReading_pure settled

theorem reads_statements (moves : MovesNothing define) {function : Option DeclId}
    {t₀ : SymbolTable} : ∀ (body : List Stmt) {scope : ScopeId} {ρ ρ' : List Diagnostic}
    {t t' : SymbolTable} {body' : List Stmt}, IsAt t₀ scope t → t.Bound →
    Ends (statements define function body) ρ t body' ρ' t' →
    ReadsAt t (Stmt.locatedIn t₀ (some scope) body) t' (Stmt.locatedIn t₀ (some scope) body')
  | [], _, _, _, _, _, _, _, bound, h => by
    obtain ⟨rfl, rfl, rfl⟩ := ends_pure.mp h
    exact .refl bound _
  | s :: body, _, _, _, _, _, _, here, bound, h => by
    obtain ⟨⟨s', fault?⟩, ρ₁, t₁, walk, rest⟩ := ends_bind.mp h
    have first := reads_statement moves s here bound walk
    obtain ⟨s'', ρ₂, t₂, report, others⟩ := ends_bind.mp rest
    obtain ⟨_, _, _, reported, last⟩ := ends_bind.mp report
    obtain ⟨rfl, rfl⟩ := ends_reportWithin.mp reported
    obtain ⟨rfl, rfl, rfl⟩ := ends_pure.mp last
    obtain ⟨body', ρ₃, t₃, walk', last'⟩ := ends_bind.mp others
    obtain ⟨rfl, rfl, rfl⟩ := ends_pure.mp last'
    exact first.append (reads_statements moves body (here.of_reads first.reads) first.reads.bound walk')

theorem reads_alternative (moves : MovesNothing define) {function : Option DeclId}
    {t₀ : SymbolTable} : ∀ (onFalse : Option Stmt) {scope : ScopeId} {ρ ρ' : List Diagnostic}
    {t t' : SymbolTable} {worked : Worked (Option Stmt)}, IsAt t₀ scope t → t.Bound →
    Ends (alternative define function onFalse) ρ t worked ρ' t' →
    ReadsAt t (Stmt.locatedBehindElse t₀ (some scope) onFalse) t'
      (Stmt.locatedBehindElse t₀ (some scope) worked.1)
  | none, _, _, _, _, _, _, _, bound, h => by
    obtain ⟨rfl, rfl, rfl⟩ := ends_pure.mp h
    exact .refl bound _
  | some s, _, _, _, _, _, _, here, bound, h => by
    obtain ⟨worked, _, _, walk, last⟩ := ends_bind.mp h
    obtain ⟨rfl, rfl, rfl⟩ := ends_pure.mp last
    exact reads_statement moves s here bound walk

end

/-! ## Declarations -/

theorem reads_body (moves : MovesNothing define) {t₀ : SymbolTable} {scope : ScopeId} {b : Body}
    {worked : Worked Body} (here : IsAt t₀ scope t) (bound : t.Bound)
    (owns : t₀.scopeOf? (.decl id) = some scope)
    (h : Ends (body (statement define (some id)) id b) ρ t worked ρ' t') :
    ReadsAt t (b.located t₀ id) t' (worked.1.located t₀ id) := by
  cases b with
  | absent =>
    obtain ⟨rfl, rfl, rfl⟩ := ends_pure.mp h
    exact .refl bound _
  | statement s =>
    obtain ⟨worked, _, _, walk, last⟩ := ends_bind.mp h
    obtain ⟨rfl, rfl, rfl⟩ := ends_pure.mp last
    simp only [Body.located, owns]
    exact reads_statement moves s here bound walk
  | expression e =>
    obtain ⟨outcome, ρ₁, t₁, looked, rest⟩ := ends_bind.mp h
    obtain ⟨run, rfl⟩ := ends_attempt.mp looked
    obtain ⟨rfl, known⟩ := Resolution.runs_scopeOf run
    cases outcome with
    | error d =>
      obtain ⟨rfl, rfl, rfl⟩ := ends_pure.mp rest
      exact .refl bound _
    | ok own =>
      obtain ⟨worked, _, _, under, last⟩ := ends_bind.mp rest
      obtain ⟨rfl, rfl, rfl⟩ := ends_pure.mp last
      obtain ⟨t₂, settled, rfl⟩ := ends_under.mp under
      have saved : t₀.scopeOf? (.body id) = some own := by
        simpa only [scopeOf?, here.saved] using known own rfl
      have here' : IsAt t₀ own (t₁.enter own) := ⟨here.saved, rfl⟩
      simp only [Body.located, saved]
      exact (here'.settle (bound.of_same rfl rfl rfl) (finishesReading_asResult id) settled).leave

/-- A body is put back that is lexical where it stands. -/
theorem FunctionReworked.reads {r : Except Diagnostic Unit} (moves : MovesNothing define)
    (bound : t.Bound) (h : FunctionReworked (statement define (some id)) id ρ t r ρ' t') :
    t.Reads t' := by
  cases h with
  | refused => exact .refl bound
  | skipped => exact .refl bound
  | @walked scope sort c worked t₁ owns kind _ walk _ =>
    have here : IsAt t scope ((Signature.withoutBody t id).enter scope) := ⟨rfl, rfl⟩
    have out : t.Rests (Signature.withoutBody t id) := .mapCallable t id _
    have emptied : (Signature.withoutBody t id).Bound := by
      refine bound.mapCallable id _ (.inr ?_)
      rw [Decl.body_of_kind (Decl.kind_mapCallable kind _)]
      exact lexicalAt_nil t
    have walked := (reads_body moves here (emptied.of_same rfl rfl rfl) owns walk).leave
    have rests := out.trans walked.reads.toRests
    have lexical := walked.lexical (out.lexicalAt (Decl.body_of_kind kind ▸ bound.body id))
    refine ⟨rests.trans (.mapCallable _ id _), walked.reads.bound.mapCallable id _ ?_⟩
    unfold Decl.mapCallable
    split
    · refine .inr ?_
      rw [Body.located_congr rests.scopeOf?]
      exact lexical
    · exact .inl rfl

theorem ClassReworked.reads {r : Except Diagnostic Unit} (moves : MovesNothing define)
    (bound : t.Bound) (h : ClassReworked (statements define none) id ρ t r ρ' t') : t.Reads t' := by
  cases h with
  | refused => exact .refl bound
  | @walked scope body t₁ owns walk =>
    have here : IsAt t scope ((Signature.withoutMembers t id).enter scope) := ⟨rfl, rfl⟩
    have out : t.Rests (Signature.withoutMembers t id) := .mapMembers t id _
    have emptied : (Signature.withoutMembers t id).Bound := bound.mapMembers id [] (lexicalAt_nil t)
    have walked := (reads_statements moves _ here (emptied.of_same rfl rfl rfl) walk).leave
    have rests := out.trans walked.reads.toRests
    have lexical := walked.lexical (out.lexicalAt (owns ▸ bound.members id))
    refine ⟨rests.trans (.mapMembers _ id _), walked.reads.bound.mapMembers id body ?_⟩
    rw [rests.scopeOf?, Stmt.locatedIn_congr rests.scopeOf?, owns]
    exact lexical

/-- An initializer is read in the scope of its object. -/
theorem reads_object (bound : t.Bound) {r : Except Diagnostic Unit}
    (h : Resolution.Runs (object id) t r t') : t.Reads t' := by
  unfold object at h
  rw [Resolution.runs_bind_look] at h
  split at h
  · obtain ⟨rfl, -⟩ := Resolution.runs_unexpectedDecl h
    exact .refl bound
  split at h
  · obtain ⟨-, rfl⟩ := Resolution.runs_pure.mp h
    exact .refl bound
  split at h
  · exact .of_names bound (Resolution.namesIn_ensureConstant bound.legible trivial h)
  · exact .of_names bound (Resolution.names_settleObjectWith Resolution.namesIn_ensureConstant
      bound.legible trivial h)

theorem reads_declaration {r : Except Diagnostic Unit} (moves : MovesNothing define)
    (bound : t.Bound) (h : Faulting.Ends (declaration define id) ρ t r ρ' t') : t.Reads t' := by
  have unexpected (h : Faulting.Ends (Faulting.resolve (Resolution.unexpectedDecl (t.decl id))) ρ t r
      ρ' t') : t.Reads t' := by
    obtain ⟨run, -⟩ := Faulting.ends_resolve.mp h
    obtain ⟨rfl, -⟩ := Resolution.runs_unexpectedDecl run
    exact .refl bound
  unfold declaration at h
  rw [Faulting.ends_bind_look] at h
  split at h
  · exact reads_object bound (Faulting.ends_resolve.mp h).1
  · exact (ends_function h).reads moves bound
  · exact (ends_classMembers h).reads moves bound
  · obtain ⟨-, -, rfl⟩ := Faulting.ends_pure.mp h
    exact .refl bound
  · obtain ⟨-, -, rfl⟩ := Faulting.ends_pure.mp h
    exact .refl bound
  · exact unexpected h
  · exact unexpected h

theorem movesNothing_defineWithin (level : Nat) : MovesNothing (defineWithin level) := by
  induction level with
  | zero =>
    intro id ρ ρ' t t' u bound h
    obtain ⟨-, rfl, rfl⟩ := ends_pure.mp h
    exact .refl bound
  | succ level ih =>
    intro id ρ ρ' t t' u bound h
    obtain ⟨fault?, ρ₁, t₁, defined, rest⟩ := ends_bind.mp h
    rw [ends_bind_look] at rest
    obtain ⟨rfl, rfl⟩ := ends_reportWithin.mp rest
    rcases Faulting.ends_fault?.mp defined with ⟨-, run⟩ | ⟨d, -, run⟩ <;>
      exact reads_declaration ih bound run

theorem movesNothing_define : MovesNothing Definition.define := by
  intro id ρ ρ' t t' u bound h
  unfold Definition.define at h
  rw [ends_bind_look] at h
  exact movesNothing_defineWithin _ bound h

end Definition

/-! ## Units -/

/-- A second pass over what is lexical leaves it so. -/
theorem SourceUnit.reads_resolveDefinitions {u u' : SourceUnit} {t t' : SymbolTable}
    {reported : List Diagnostic} (bound : t.Bound)
    (lexical : t.LexicalAt (Stmt.locatedIn t (some u.scope) u.body))
    (h : u.resolveDefinitions.run t = ((u', reported), t')) :
    t'.Bound ∧ u'.scope = u.scope ∧
      t'.LexicalAt (Stmt.locatedIn t' (some u'.scope) u'.body) := by
  unfold resolveDefinitions at h
  rw [Reporting.run_collect] at h
  obtain ⟨body, ρ₁, t₁, walk, rest⟩ := Reporting.ends_bind.mp h
  obtain ⟨same, rfl, rfl⟩ := Reporting.ends_pure.mp rest
  subst same
  obtain ⟨t₂, walk₂, rfl⟩ := Reporting.ends_under.mp walk
  have here : Definition.IsAt t u.scope (t.enter u.scope) := ⟨rfl, rfl⟩
  have read := (Definition.reads_statements Definition.movesNothing_define _ here
    (bound.of_same rfl rfl rfl) walk₂).leave
  refine ⟨read.reads.bound, rfl, ?_⟩
  rw [Stmt.locatedIn_congr read.reads.scopeOf?]
  exact read.lexical lexical

end Deferral
