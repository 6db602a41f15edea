import Deferral.Proofs.Reading.Building
import Deferral.Proofs.Table.FirstPassLayered

/-!
# Reading keeps a table layered

Reading declares names in the innermost scope and opens scopes inside it. A scope is opened for a
declaration as soon as that has been declared, so that it lies where it should even if the rest cannot
be read.
-/

namespace Deferral

open SymbolTable

variable {R : SymbolTable → SymbolTable → Prop} {α β : Type}

namespace Reader

/-- However a reader ends and wherever it starts, it moves the table along a relation. -/
def Moves (R : SymbolTable → SymbolTable → Prop) (x : Reader α) : Prop :=
  ∀ c, Resolution.Moves R (x.run c)

/-! ## Readers -/

theorem moves_throw [Std.Refl R] (d : Diagnostic) : Moves R (throw d : Reader α) :=
  fun _ => Resolution.moves_throw d

theorem moves_pure [Std.Refl R] (a : α) : Moves R (pure a : Reader α) :=
  fun _ => Resolution.moves_pure _

theorem Moves.bind [IsTrans _ R] {x : Reader α} {f : α → Reader β} (h : Moves R x)
    (h' : ∀ a, Moves R (f a)) : Moves R (x >>= f) :=
  fun c => (h c).bind fun outcome => h' outcome.1 outcome.2

theorem Moves.map {x : Reader α} (h : Moves R x) (f : α → β) : Moves R (f <$> x) :=
  fun c => (h c).map _

section Refl

variable [Std.Refl R]

theorem Still.moves {P : α → Prop} {x : Reader α} (h : Still x P) : Moves R x := by
  intro c t r t' run
  obtain ⟨rfl, -⟩ := h run
  exact Std.Refl.refl _

variable [IsTrans _ R]

theorem moves_manyWithin {item : Reader α} (items : Moves R item) (more : TokenKind → Bool)
    (bound : Nat) : Moves R (manyWithin more item bound) := by
  induction bound with
  | zero => exact moves_pure _
  | succ bound ih =>
    refine still_kind.moves.bind fun k => ?_
    split
    · exact items.bind fun first => ih.bind fun rest => moves_pure _
    · exact moves_pure _

theorem moves_many {item : Reader α} (items : Moves R item) (more : TokenKind → Bool) :
    Moves R (many more item) :=
  still_get.moves.bind fun _ => moves_manyWithin items more _

end Refl

/-! ## Declaring and opening scopes -/

variable {t t' : SymbolTable} {c : Cursor}

theorem runs_declare {name : String} {kind : Declared} {span : Span}
    {r : Except Diagnostic (DeclId × Cursor)}
    (h : Resolution.Runs ((declare name kind span).run c) t r t') :
    r = .ok (t.nextDecl, c) ∧ t' = t.declare { name, kind, scope := t.innermost, span } :=
  ⟨(Prod.mk.inj h).1.symm, (Prod.mk.inj h).2.symm⟩

theorem runs_newScope {owner : ScopeOwner} {r : Except Diagnostic (ScopeId × Cursor)}
    (h : Resolution.Runs ((newScope owner).run c) t r t') :
    r = .ok (t.nextScope, c) ∧ t' = t.openFor owner :=
  ⟨(Prod.mk.inj h).1.symm, (Prod.mk.inj h).2.symm⟩

theorem tends_declare (name : String) (kind : Declared) (span : Span) :
    Moves Tends (declare name kind span) := by
  intro c t r t' h layered
  obtain ⟨-, rfl⟩ := runs_declare h
  exact stays_declare layered rfl

theorem tends_takeBlock : Moves Tends takeBlock := by
  intro c t r t' h layered
  obtain ⟨-, rfl⟩ : r = .ok (t.nextBlock, c) ∧ t' = t.takeBlock :=
    ⟨(Prod.mk.inj h).1.symm, (Prod.mk.inj h).2.symm⟩
  exact .of_rests layered ⟨rfl, rfl, rfl, rfl, fun _ => rfl, fun _ => rfl⟩

theorem tends_newScope {owner : ScopeOwner} (other : ∀ id, owner ≠ .decl id) :
    Moves Tends (newScope owner) := by
  intro c t r t' h layered
  obtain ⟨-, rfl⟩ := runs_newScope h
  exact stays_openFor layered fun id same => absurd same (other id)

theorem tends_change {f : SymbolTable → SymbolTable} (h : ∀ t, LeavesScopes t (f t)) :
    Moves Tends (change f) := by
  intro c t r t' run layered
  obtain rfl : t' = f t := (Prod.mk.inj run).2.symm
  exact .of_rests layered (h t)

/-- A scope is opened for an owner that stands here, and something is read in it. -/
theorem stays_inside {owner : ScopeOwner} {action : Reader α} {rest : α → Reader β}
    (acts : Moves Tends action) (rests : ∀ a, Moves Tends (rest a)) (layered : t.Layered)
    (stands : t.StandsHere owner) {r : Except Diagnostic (β × Cursor)}
    (h : Resolution.Runs
      ((newScope owner >>= fun scope => under scope action >>= rest).run c) t r t') :
    t.StaysLayered t' := by
  rw [StateT.run_bind] at h
  rcases Resolution.runs_bind.mp h with ⟨d, opened, -⟩ | ⟨⟨scope, c₁⟩, t₁, opened, h₁⟩
  · cases (runs_newScope opened).1
  obtain ⟨same, rfl⟩ := runs_newScope opened
  obtain ⟨rfl, rfl⟩ := Prod.mk.inj (Except.ok.inj same)
  have stays := stays_openFor layered stands
  have lt : t.nextScope.index < (t.openFor owner).scopes.size := by
    rw [size_scopes_openFor]
    exact Nat.lt_succ_self _
  have read : Moves (fun t₁ t₂ => t₁.Layered → t.nextScope.index < t₁.scopes.size → t₁.StaysLayered t₂)
      (under t.nextScope action) := by
    intro c t₁ r t₂ run layered lt
    obtain ⟨t₃, inner, rfl⟩ := Resolution.runs_under.mp run
    exact (acts c inner (layered.enter lt)).leave
  rw [StateT.run_bind] at h₁
  rcases Resolution.runs_bind.mp h₁ with ⟨d, first, -⟩ | ⟨⟨a, c₂⟩, t₂, first, last⟩
  · exact stays.trans (read _ first stays.layered lt)
  · have stays₂ := stays.trans (read _ first stays.layered lt)
    exact stays₂.trans (rests a _ last stays₂.layered)

/-- A name is declared, and what it declares is read in a scope of its own. -/
theorem tends_declare_inside (name : String) (kind : Declared) (span : Span)
    {action : DeclId → Reader α} {rest : DeclId → α → Reader β}
    (acts : ∀ id, Moves Tends (action id)) (rests : ∀ id a, Moves Tends (rest id a)) :
    Moves Tends (declare name kind span >>= fun id =>
      newScope (.decl id) >>= fun scope => under scope (action id) >>= rest id) := by
  intro c t r t' h layered
  rw [StateT.run_bind] at h
  rcases Resolution.runs_bind.mp h with ⟨d, declared, -⟩ | ⟨⟨id, c₁⟩, t₁, declared, h₁⟩
  · cases (runs_declare declared).1
  obtain ⟨same, rfl⟩ := runs_declare declared
  obtain ⟨rfl, rfl⟩ := Prod.mk.inj (Except.ok.inj same)
  have stays := stays_declare (d := { name, kind, scope := t.innermost, span }) layered rfl
  refine stays.trans (stays_inside (acts _) (rests _) stays.layered (fun id same => ?_) h₁)
  obtain rfl := ScopeOwner.decl.inj same
  refine ⟨?_, ?_⟩
  · rw [size_declare]
    exact Nat.lt_succ_self _
  · rw [decl_declare_nextDecl]
    rfl

end Reader

/-! ## Statements -/

namespace Grammar

open Reader

theorem tends_variableStatement : Moves Tends variableStatement := by
  have finish (start : Position) (name : String) (type : Ty) (init : Option Expr) :
      Moves Tends (do
        let span ← endStatement start
        let id ← Reader.declare name (.object .var type init) span
        return Stmt.declaration id span) :=
    (still_endStatement start).moves.bind fun span => (tends_declare _ _ span).bind fun _ => moves_pure _
  refine still_advance.moves.bind fun _ => (still_identifierFor _).moves.bind fun _ =>
    (still_expect _).moves.bind fun _ => (still_typeUpTo _).moves.bind fun type =>
      (still_accept _).moves.bind fun accepted => ?_
  split
  · exact ((still_expressionUpTo _).moves.map _).bind fun init => finish _ _ type init
  · exact (moves_pure none).bind fun init => finish _ _ type init

theorem tends_constantStatement (start : Position) (name : String) :
    Moves Tends (constantStatement start name) :=
  (still_expect _).moves.bind fun _ => (still_typeUpTo _).moves.bind fun _ => (still_expect _).moves.bind fun _ =>
    (still_expressionUpTo _).moves.bind fun _ => (still_endStatement start).moves.bind fun span =>
      (tends_declare name _ span).bind fun _ => moves_pure _

theorem tends_superStatement : Moves Tends superStatement :=
  still_advance.moves.bind fun _ => (still_identifierFor _).moves.bind fun _ => (still_expect _).moves.bind fun _ =>
    (still_typeUpTo _).moves.bind fun _ => (still_endStatement _).moves.bind fun span =>
      (tends_declare _ _ span).bind fun _ => moves_pure _

theorem tends_parameter : Moves Tends parameter :=
  (still_identifierFor _).moves.bind fun _ => (still_expect _).moves.bind fun _ =>
    (still_typeUpTo _).moves.bind fun _ => still_endOfLast.moves.bind fun _ => tends_declare _ _ _

theorem tends_parameters : Moves Tends parameters := by
  have finish (all : List DeclId) : Moves Tends (do
      let _ ← expect closeParen
      return all) :=
    (still_expect _).moves.bind fun _ => moves_pure _
  refine (still_expect _).moves.bind fun _ => still_kind.moves.bind fun kind => ?_
  split
  · exact (moves_pure []).bind finish
  · refine Moves.bind ?_ finish
    exact tends_parameter.bind fun _ =>
      (moves_many ((still_expect _).moves.bind fun _ => tends_parameter) _).bind fun _ => moves_pure _

section Nested

variable {statement : Reader Stmt} (statements : Moves Tends statement)

include statements

theorem tends_blockBody : Moves Tends (blockBody statement) :=
  (still_expect _).moves.bind fun _ => (moves_many statements _).bind fun _ =>
    (still_expect _).moves.bind fun _ => moves_pure _

theorem tends_blockStatement : Moves Tends (blockStatement statement) := by
  refine still_position.moves.bind fun start => tends_takeBlock.bind fun b => fun c t r t' h layered => ?_
  refine stays_inside (tends_blockBody statements) (fun body => ?_) layered
    (fun _ same => by cases same) h
  exact still_endOfLast.moves.bind fun _ => moves_pure _

theorem tends_functionBody (id : DeclId) : Moves Tends (functionBody statement id) := by
  refine still_get.moves.bind fun c => ?_
  split
  · exact (tends_blockStatement statements).map _
  split
  · exact still_advance.moves.bind fun _ => (tends_newScope fun _ same => by cases same).bind fun _ =>
      (still_expressionUpTo _).moves.bind fun _ => (still_expect _).moves.bind fun _ => moves_pure _
  split
  · exact still_advance.moves.bind fun _ => moves_pure _
  · exact moves_throw _

theorem tends_functionParts (id : DeclId) : Moves Tends (functionParts statement id) :=
  tends_parameters.bind fun _ => still_resultType.moves.bind fun _ =>
    (tends_functionBody statements id).bind fun _ => moves_pure _

theorem tends_functionStatement (sort : CallableSort) (start : Position) (name : String) :
    Moves Tends (functionStatement statement sort start name) := by
  refine tends_declare_inside name _ _ (tends_functionParts statements) fun id callable => ?_
  refine still_endOfLast.moves.bind fun stop => (tends_change fun t => ?_).bind fun _ => moves_pure _
  exact .modifyDecl t id (fun d => d.scope_mapCallable _) fun d => d.isExtension_mapCallable _

theorem tends_definitionStatement : Moves Tends (definitionStatement statement) := by
  refine still_advance.moves.bind fun _ => (still_identifierFor _).moves.bind fun _ => still_get.moves.bind fun c => ?_
  split
  · exact tends_constantStatement _ _
  split
  · exact tends_functionStatement statements _ _ _
  · exact moves_throw _

theorem tends_coroutineStatement : Moves Tends (coroutineStatement statement) :=
  still_advance.moves.bind fun _ => (still_identifierFor _).moves.bind fun _ =>
    tends_functionStatement statements _ _ _

theorem tends_classStatement (sort : ClassSort) : Moves Tends (classStatement statement sort) := by
  refine still_advance.moves.bind fun keyword => (still_identifierFor _).moves.bind fun name =>
    (still_classKind sort).moves.bind fun kind => ?_
  refine tends_declare_inside _ _ _ (fun _ => tends_blockBody statements) fun id body => ?_
  refine still_endOfLast.moves.bind fun stop => (tends_change fun t => ?_).bind fun _ => moves_pure _
  exact .modifyDecl t id (fun d => d.scope_mapMembers _) fun d => d.isExtension_mapMembers _

theorem tends_ifStatement : Moves Tends (ifStatement statement) := by
  have finish (start : Position) (e : Expr) (onTrue : Stmt) (onFalse : Option Stmt) :
      Moves Tends (do
        return Stmt.conditional e onTrue onFalse ⟨start, ← Reader.endOfLast⟩) :=
    still_endOfLast.moves.bind fun _ => moves_pure _
  refine still_advance.moves.bind fun _ => still_condition.moves.bind fun e => statements.bind fun onTrue =>
    (still_accept _).moves.bind fun accepted => ?_
  split
  · exact (statements.map _).bind (finish _ e onTrue)
  · exact (moves_pure none).bind (finish _ e onTrue)

theorem tends_whileStatement : Moves Tends (whileStatement statement) :=
  still_advance.moves.bind fun _ => still_condition.moves.bind fun _ => statements.bind fun _ =>
    still_endOfLast.moves.bind fun _ => moves_pure _

omit statements in
theorem tends_returnStatement : Moves Tends returnStatement := by
  have finish (start : Position) (value : Option Expr) : Moves Tends (do
      return Stmt.returning value (← endStatement start)) :=
    (still_endStatement start).moves.bind fun _ => moves_pure _
  refine still_advance.moves.bind fun _ => still_kind.moves.bind fun kind => ?_
  split
  · exact (moves_pure none).bind (finish _)
  · exact ((still_expressionUpTo _).moves.map _).bind (finish _)

theorem tends_statementOf (kind : TokenKind) : Moves Tends (statementOf statement kind) := by
  have jump (form : Span → Stmt) : Moves Tends (jumpStatement form) :=
    still_advance.moves.bind fun _ => (still_endStatement _).moves.bind fun _ => moves_pure _
  unfold statementOf
  split
  · exact tends_variableStatement
  · exact tends_definitionStatement statements
  · exact tends_coroutineStatement statements
  · exact tends_classStatement statements _
  · exact tends_classStatement statements _
  · exact tends_superStatement
  · exact tends_blockStatement statements
  · exact tends_returnStatement
  · exact still_advance.moves.bind fun _ => (still_expressionUpTo _).moves.bind fun _ =>
      (still_endStatement _).moves.bind fun _ => moves_pure _
  · exact tends_ifStatement statements
  · exact tends_whileStatement statements
  · exact jump _
  · exact jump _
  · exact (still_expressionUpTo _).moves.bind fun _ => (still_expect _).moves.bind fun _ => moves_pure _

end Nested

theorem tends_statementWithin (depth : Nat) : Moves Tends (statementWithin depth) := by
  induction depth with
  | zero => exact still_get.moves.bind fun _ => moves_throw _
  | succ depth ih => exact still_kind.moves.bind fun kind => tends_statementOf ih kind

theorem tends_statement : Moves Tends statement := still_get.moves.bind fun _ => tends_statementWithin _

end Grammar

/-- Reading a unit keeps the table layered, whether it succeeds or fails. -/
theorem SourceUnit.stays_read {tokens : List Token} {t t' : SymbolTable}
    {r : Except Diagnostic SourceUnit} (layered : t.Layered)
    (h : Resolution.Runs (SourceUnit.read tokens) t r t') : t.StaysLayered t' := by
  obtain ⟨t₁, run, rfl⟩ := Resolution.runs_under.mp h
  have entered : (t.enter .global).Layered :=
    layered.elim fun L layers => ⟨L, layers.enter layers.global⟩
  refine StaysLayered.leave (Resolution.Moves.bind (R := Tends) ?_ ?_ run entered)
  · exact Reader.moves_many Grammar.tends_statement _ _
  · exact fun _ => Resolution.moves_pure _

/-- A unit stands in the global scope. -/
theorem SourceUnit.scope_of_read {tokens : List Token} {t t' : SymbolTable} {u : SourceUnit}
    (h : Resolution.Runs (SourceUnit.read tokens) t (.ok u) t') : u.scope = .global := by
  obtain ⟨t₁, run, -⟩ := Resolution.runs_under.mp h
  rcases Resolution.runs_bind.mp run with ⟨d, -, wrong⟩ | ⟨⟨body, c⟩, t₂, -, last⟩
  · cases wrong
  · rw [Except.ok.inj (Resolution.runs_pure.mp last).1]

end Deferral
