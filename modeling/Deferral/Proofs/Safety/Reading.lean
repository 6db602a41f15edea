import Deferral.Proofs.Reading.Invariant
import Deferral.Proofs.Safety.SecondPass

/-!
# Reading furnishes a table

What is read into a furnished table leaves it furnished, whether the reading succeeds or not: a
function or class is declared together with its scope, and gets its parts in one step. So both passes
find what they ask for, however often they are run over whatever units.
-/

namespace Deferral

open SymbolTable

variable {α β : Type} {t t' : SymbolTable} {Q : α → SymbolTable → Prop} {Q' : β → SymbolTable → Prop}

/-- The table is furnished, and what is done upholds what it has. -/
abbrev SymbolTable.furnishing : Invariant SymbolTable where
  table t := t
  Holds := Furnished
  Leads := Upholds
  refl := .refl
  holds upholds := upholds.furnished
  trans _ first second := first.trans second

theorem SymbolTable.Upholds.leave {scope : ScopeId} (h : (t.enter scope).Upholds t') (furnished : t.Furnished) :
    t.Upholds t'.leave := by
  have entered : t.Upholds (t.enter scope) := .of_same furnished rfl rfl rfl
  exact (entered.trans h).trans (.of_same h.furnished rfl rfl rfl)

namespace Reader

/-- On a furnished table a reader ends in a furnished one, with a value of a kind or a fault that is not
internal, wherever it starts. -/
abbrev Safe (x : Reader α) (t : SymbolTable) (Q : α → SymbolTable → Prop) : Prop := Maintains furnishing x t Q

theorem safe_under {scope : ScopeId} {x : Reader α} (h : Safe x (t.enter scope) Q)
    (leaves : ∀ a t', Q a t' → Q a t'.leave) : Safe (under scope x) t Q :=
  maintains_under h rfl (fun furnished => furnished.of_same rfl rfl)
    fun t' furnished upholds => ⟨t'.leave, rfl, upholds.leave furnished, fun a => leaves a t'⟩

/-! ## Declarations and scopes -/

/-- A name is declared for what needs no scope. -/
theorem safe_declare {name : String} (kind : Declared) {span : Span} (new : ∀ t id, kind.Furnished t id)
    (t : SymbolTable) : Safe (declare name kind span) t fun id t' => (t'.decl id).kind = kind := by
  refine maintains_declare rfl (fun furnished => ?_) (congrArg Decl.kind (decl_declare_nextDecl ..))
  have added : t.Upholds (t.addUnnamed { name, kind, scope := t.innermost, span }) :=
    .addUnnamed furnished (new _ _)
  exact added.trans (.of_same added.furnished rfl rfl rfl)

theorem safe_takeBlock (t : SymbolTable) : Safe takeBlock t fun _ _ => True :=
  maintains_takeBlock rfl (fun furnished => .of_same furnished rfl rfl rfl) trivial

theorem upholds_openFor (furnished : t.Furnished) (owner : ScopeOwner) : t.Upholds (t.openFor owner) := by
  have added : t.Upholds (t.addScope t.innermost) := .of_same furnished rfl rfl rfl
  exact added.trans (.assignScope added.furnished owner _)

theorem saves_openFor (t : SymbolTable) (owner : ScopeOwner) : (t.openFor owner).Saves owner := by
  simp [Saves, openFor]

theorem safe_newScope (owner : ScopeOwner) (t : SymbolTable) :
    Safe (newScope owner) t fun _ t' => t'.Saves owner :=
  maintains_newScope rfl (upholds_openFor · owner) (saves_openFor t owner)

/-- A name is declared together with a scope for what it declares. -/
theorem safe_declare_inside {name : String} {kind : Declared} {span : Span}
    {rest : DeclId → ScopeId → Reader β}
    (new : ∀ t : SymbolTable, ∀ id, t.Saves (.decl id) → kind.Furnished t id)
    (rests : ∀ id scope t', t'.Saves (.decl id) → (SymbolTable.decl t' id).kind = kind →
      Safe (rest id scope) t' Q') :
    Safe (declare name kind span >>= fun id => newScope (.decl id) >>= rest id) t Q' := by
  intro c r t' furnished run
  rw [StateT.run_bind] at run
  rcases Resolution.runs_bind.mp run with ⟨d, declared, -⟩ | ⟨⟨id, c₁⟩, t₁, declared, run₁⟩
  · cases (runs_declare declared).1
  obtain ⟨same, rfl⟩ := runs_declare declared
  obtain ⟨rfl, rfl⟩ := Prod.mk.inj (Except.ok.inj same)
  rw [StateT.run_bind] at run₁
  rcases Resolution.runs_bind.mp run₁ with ⟨d, opened, -⟩ | ⟨⟨scope, c₂⟩, t₂, opened, run₂⟩
  · cases (runs_newScope opened).1
  obtain ⟨same, rfl⟩ := runs_newScope opened
  obtain ⟨rfl, rfl⟩ := Prod.mk.inj (Except.ok.inj same)
  -- The scope might as well have been made in front of the declaration.
  let d : Decl := { name, kind, scope := t.innermost, span }
  have opened : t.Upholds (t.openFor (.decl t.nextDecl)) := upholds_openFor furnished _
  have added : t.Upholds ((t.openFor (.decl t.nextDecl)).addUnnamed d) :=
    opened.trans (.addUnnamed opened.furnished (new _ _ (saves_openFor t _)))
  have saved : ((t.declare d).openFor (.decl t.nextDecl)).saved =
      ((t.openFor (.decl t.nextDecl)).addUnnamed d).saved := by
    simp [openFor, assignScope, addScope, nextScope, SymbolTable.declare, addUnnamed, bindName,
      modifyScope]
  have both : t.Upholds ((t.declare d).openFor (.decl t.nextDecl)) :=
    added.trans (.of_same added.furnished rfl saved rfl)
  have here : (((t.declare d).openFor (.decl t.nextDecl)).decl t.nextDecl).kind = kind :=
    congrArg Decl.kind (decl_addUnnamed_nextDecl t d)
  obtain ⟨t', rfl, upholds, sane⟩ := rests _ _ _ (saves_openFor _ _) here both.furnished run₂
  exact ⟨t', rfl, both.trans upholds, sane⟩

end Reader

/-! ## Statements -/

namespace Grammar

open Reader

/-- A statement that has been read finds its blocks and its declarations. -/
abbrev Furnishes (x : Reader Stmt) : Prop :=
  ∀ t, Reader.Safe x t fun s t' => t'.Knows s.blocks s.declares

theorem knows_declaration {id : DeclId} (stated : (t.decl id).IsStated) : t.Knows [] [id] :=
  ⟨nofun, fun _ member => List.mem_singleton.mp member ▸ stated⟩

/-- A declaration that needs no scope is stated. -/
theorem safe_stating {name : String} (kind : Declared) {span span' : Span}
    (new : ∀ t id, kind.Furnished t id)
    (stated : ∀ d : Decl, d.kind = kind → d.IsStated) (t : SymbolTable) :
    Reader.Safe (do
      let id ← Reader.declare name kind span
      return Stmt.declaration id span') t fun s t' => t'.Knows s.blocks s.declares :=
  (safe_declare kind new t).bind fun _ _ _ declared =>
    maintains_pure (knows_declaration (stated _ declared))

theorem isStated_of_object {sort : ObjectSort} {type : Ty} {init : Option Expr} {d : Decl}
    (kind : d.kind = .object sort type init) : d.IsStated := by
  cases sort <;> simp [Decl.IsStated, Decl.subject, kind]

theorem isWhole_of_deferred {e : Expr} (deferred : ∃ f, e = .deferred f) : e.IsWhole := by
  obtain ⟨f, rfl⟩ := deferred
  exact .inl rfl

theorem safe_variableStatement : Furnishes variableStatement := by
  have finish (start : Position) (name : String) (type : Ty) (init : Option Expr)
      (deferred : ∀ e, init = some e → ∃ f, e = .deferred f) (t : SymbolTable) :
      Reader.Safe (do
        let span ← endStatement start
        let id ← Reader.declare name (.object .var type init) span
        return Stmt.declaration id span) t fun s t' => t'.Knows s.blocks s.declares :=
    (still_endStatement start).before fun _ _ => safe_stating (.object .var type init)
      (fun _ _ e same => isWhole_of_deferred (deferred e same)) (fun _ => isStated_of_object) t
  intro t
  refine still_advance.before fun _ _ => (still_identifierFor _).before fun _ _ =>
    (still_expect _).before fun _ _ => (still_typeUpTo _).before fun type _ =>
      (still_accept _).before fun accepted _ => ?_
  split
  · exact (still_someExpressionUpTo _).before fun init deferred => finish _ _ type init deferred t
  · exact still_noExpression.before fun init deferred => finish _ _ type init deferred t

theorem safe_constantStatement (start : Position) (name : String) :
    Furnishes (constantStatement start name) := fun t =>
  (still_expect _).before fun _ _ => (still_typeUpTo _).before fun type _ =>
    (still_expect _).before fun _ _ => (still_expressionUpTo _).before fun init deferred =>
      (still_endStatement start).before fun _ _ => safe_stating (.object .constant type (some init))
        (fun _ _ _ same => Option.some.inj same ▸ isWhole_of_deferred deferred) (fun _ => isStated_of_object) t

theorem safe_superStatement : Furnishes superStatement := fun t =>
  still_advance.before fun _ _ => (still_identifierFor _).before fun _ _ =>
    (still_expect _).before fun _ _ => (still_typeUpTo _).before fun type _ =>
      (still_endStatement _).before fun _ _ => safe_stating (.super type) (fun _ _ => trivial)
        (fun d kind => by simp [Decl.IsStated, Decl.subject, kind]) t

/-! ### Parameters -/

theorem safe_parameter (t : SymbolTable) :
    Reader.Safe parameter t fun id t' => (t'.decl id).subject = .parameter :=
  (still_identifierFor _).before fun _ _ => (still_expect _).before fun _ _ =>
    (still_typeUpTo _).before fun type _ => still_endOfLast.before fun _ _ =>
      (safe_declare (.parameter type) (fun _ _ => trivial) t).mono fun _ _ _ kind => by simp [Decl.subject, kind]

/-- Every declaration of a list is a parameter. -/
def AllParameters (ids : List DeclId) (t : SymbolTable) : Prop :=
  ∀ p ∈ ids, (t.decl p).subject = .parameter

theorem AllParameters.retained {ids : List DeclId} (h : AllParameters ids t) (retains : t.Retains t') :
    AllParameters ids t' := fun p member => by
  have parameter := h p member
  rw [retains.subject_eq (by rw [parameter]; decide), parameter]

theorem AllParameters.append {ids : List DeclId} {id : DeclId} (h : AllParameters ids t) (retains : t.Retains t')
    (last : (t'.decl id).subject = .parameter) : AllParameters (ids ++ [id]) t' :=
  List.forall_mem_append.mpr ⟨h.retained retains, List.forall_mem_singleton.mpr last⟩

theorem safe_parameterList (t : SymbolTable) : Reader.Safe parameterList t AllParameters := by
  refine (safe_parameter t).bind fun first t₁ _ parameter => ?_
  have others : Reader.Safe (many (· ≠ closeParen) do
      let _ ← expect comma
      Grammar.parameter) t₁ fun ids t' => AllParameters (first :: ids) t' :=
    maintains_many (Q := fun ids t' => AllParameters (first :: ids) t') (fun ids t all =>
      (still_expect _).before fun _ _ => (safe_parameter t).mono fun _ _ upholds one =>
        all.append upholds.retains one) _ (List.forall_mem_singleton.mpr parameter)
  exact others.bind fun _ _ _ all => maintains_pure all

theorem safe_parameters (t : SymbolTable) : Reader.Safe parameters t AllParameters := by
  have finish (all : List DeclId) (t : SymbolTable) (parameters : AllParameters all t) :
      Reader.Safe (do
        let _ ← expect closeParen
        return all) t AllParameters :=
    (still_expect _).before fun _ _ => maintains_pure parameters
  refine (still_expect _).before fun _ _ => still_kind.before fun kind _ => ?_
  split
  · exact finish [] t fun _ none => by cases none
  · exact (safe_parameterList t).bind fun all t₁ _ parameters => finish all t₁ parameters

/-! ### Statements inside others -/

section Nested

variable {statement : Reader Stmt} (statements : Furnishes statement)

include statements

/-- All statements that have been read find their blocks and their declarations. -/
theorem safe_many (more : TokenKind → Bool) (t : SymbolTable) :
    Reader.Safe (many more statement) t fun body t' =>
      t'.Knows (Stmt.blocksIn body) (Stmt.declaresIn body) := by
  refine maintains_many (fun body t known => (statements t).mono fun s t' upholds read => ?_) more (knows_nil t)
  rw [Stmt.blocksIn_append, Stmt.declaresIn_append]
  exact knows_append.mpr ⟨upholds.retains.knows known, by simpa [Stmt.blocksIn, Stmt.declaresIn] using read⟩

theorem safe_blockBody (t : SymbolTable) :
    Reader.Safe (blockBody statement) t fun body t' =>
      t'.Knows (Stmt.blocksIn body) (Stmt.declaresIn body) :=
  (still_expect _).before fun _ _ => (safe_many statements _ t).bind fun _ _ _ known =>
    (still_expect _).before fun _ _ => maintains_pure known

theorem safe_blockStatement : Furnishes (blockStatement statement) := by
  intro t
  refine still_position.before fun start _ => (safe_takeBlock t).bind fun b t₁ _ _ =>
    (safe_newScope _ t₁).bind fun scope t₂ _ saved => ?_
  refine (safe_under (safe_blockBody statements _) fun _ _ known => known.leave).bind
    fun body t₃ upholds known => still_endOfLast.before fun _ _ => maintains_pure ?_
  exact ⟨List.forall_mem_cons.mpr ⟨upholds.retains.saves _ saved, known.blocks⟩, known.stated⟩

theorem safe_functionBody (id : DeclId) (t : SymbolTable) :
    Reader.Safe (functionBody statement id) t fun body t' => body.Furnished t' id := by
  refine still_get.before fun c _ => ?_
  split
  · exact (safe_blockStatement statements t).map fun _ _ _ known => known
  split
  · exact still_advance.before fun _ _ => (safe_newScope _ t).bind fun _ t₁ _ saved =>
      (still_expressionUpTo _).before fun _ _ => (still_expect _).before fun _ _ => maintains_pure saved
  split
  · exact still_advance.before fun _ _ => maintains_pure trivial
  · exact maintains_throw rfl

/-- Parameters and body of a function are there. -/
theorem safe_functionParts (id : DeclId) (t : SymbolTable) :
    Reader.Safe (functionParts statement id) t fun c t' =>
      AllParameters c.parameters t' ∧ c.body.Furnished t' id :=
  (safe_parameters t).bind fun _ t₁ _ all => still_resultType.before fun _ _ =>
    (safe_functionBody statements id t₁).bind fun _ _ upholds furnished =>
      maintains_pure ⟨all.retained upholds.retains, furnished⟩

omit statements in
/-- A function that is given its parts has what they take for granted. -/
theorem upholds_functionParts (furnished : t.Furnished) {id : DeclId} {c : Callable}
    (saved : t.Saves (.decl id)) (parameters : AllParameters c.parameters t)
    (body : c.body.Furnished t id) (span : Span) :
    t.Upholds (t.modifyDecl id fun d => { d.mapCallable (fun _ => c) with span }) := by
  refine .modifyDecl furnished (subject_mapCallable _ fun _ => c) ?_
  have old := furnished id
  rcases (t.decl id).mapCallable_cases (fun _ => c) with ⟨sort, before, -, after⟩ | same
  · rw [after]
    exact ⟨saved, parameters, body⟩
  · rw [same]
    exact old

theorem safe_functionStatement (sort : CallableSort) (start : Position) (name : String) :
    Furnishes (functionStatement statement sort start name) := by
  intro t
  refine safe_declare_inside (fun _ _ saved => ⟨saved, nofun, trivial⟩) fun id scope t₁ saved kind => ?_
  have stated : (t₁.decl id).IsStated := by
    cases sort <;> simp [Decl.IsStated, Decl.subject, kind]
  have parts := safe_under (safe_functionParts statements id (t₁.enter scope))
    fun c t' read => ⟨read.1.retained (Retains.refl t').leave, (Retains.refl t').leave.bodyFurnished read.2⟩
  refine parts.bind fun c t₂ upholds read => still_endOfLast.before fun stop _ => ?_
  refine maintains_bind_change rfl (fun furnished => upholds_functionParts furnished
    (upholds.retains.saves _ saved) read.1 read.2 _) fun given => ?_
  exact maintains_pure (knows_declaration ((upholds.retains.trans given.retains).isStated stated))

theorem safe_definitionStatement : Furnishes (definitionStatement statement) := by
  intro t
  refine still_advance.before fun _ _ => (still_identifierFor _).before fun _ _ =>
    still_get.before fun c _ => ?_
  split
  · exact safe_constantStatement _ _ t
  split
  · exact safe_functionStatement statements _ _ _ t
  · exact maintains_throw rfl

theorem safe_coroutineStatement : Furnishes (coroutineStatement statement) := fun t =>
  still_advance.before fun _ _ => (still_identifierFor _).before fun _ _ =>
    safe_functionStatement statements _ _ _ t

omit statements in
/-- A class that is given its members has what they take for granted. -/
theorem upholds_classBody (furnished : t.Furnished) {id : DeclId} {body : List Stmt}
    (known : t.Knows (Stmt.blocksIn body) (Stmt.declaresIn body)) (span : Span) :
    t.Upholds (t.modifyDecl id fun d => { d.mapMembers (fun _ => body) with span }) := by
  refine .modifyDecl furnished (subject_mapMembers _ fun _ => body) ?_
  have old := furnished id
  rcases (t.decl id).mapMembers_cases (fun _ => body) with ⟨sort, kind, members, before, after⟩ | same
  · rw [after]
    rw [before] at old
    exact ⟨old.1, known⟩
  · rw [same]
    exact old

theorem safe_classStatement (sort : ClassSort) : Furnishes (classStatement statement sort) := by
  intro t
  refine still_advance.before fun keyword _ => (still_identifierFor _).before fun _ _ =>
    (still_classKind sort).before fun type _ => ?_
  refine safe_declare_inside (fun _ _ saved => ⟨saved, knows_nil _⟩) fun id scope t₁ _ kind => ?_
  have stated : (t₁.decl id).IsStated := by
    cases sort <;> simp [Decl.IsStated, Decl.subject, kind]
  refine (safe_under (safe_blockBody statements _) fun _ _ known => known.leave).bind
    fun body t₂ upholds known => still_endOfLast.before fun _ _ => ?_
  refine maintains_bind_change rfl (fun furnished => upholds_classBody furnished known _) fun given => ?_
  exact maintains_pure (knows_declaration ((upholds.retains.trans given.retains).isStated stated))

/-! ### Other statements -/

omit statements in
theorem safe_returnStatement : Furnishes returnStatement := by
  have finish (start : Position) (value : Option Expr) (t : SymbolTable) :
      Reader.Safe (do return Stmt.returning value (← endStatement start)) t
        fun s t' => t'.Knows s.blocks s.declares :=
    (still_endStatement start).before fun _ _ => maintains_pure (knows_nil t)
  intro t
  refine still_advance.before fun _ _ => still_kind.before fun kind _ => ?_
  split
  · exact finish _ none t
  · exact (still_someExpressionUpTo _).before fun value _ => finish _ value t

omit statements in
theorem safe_yieldStatement : Furnishes yieldStatement := fun t =>
  still_advance.before fun _ _ => (still_expressionUpTo _).before fun _ _ =>
    (still_endStatement _).before fun _ _ => maintains_pure (knows_nil t)

omit statements in
theorem safe_jumpStatement {form : Span → Stmt} (blocks : ∀ span, (form span).blocks = [])
    (declares : ∀ span, (form span).declares = []) : Furnishes (jumpStatement form) := fun t =>
  still_advance.before fun _ _ => (still_endStatement _).before fun span _ =>
    maintains_pure (by rw [blocks, declares]; exact knows_nil t)

omit statements in
theorem safe_expressionStatement : Furnishes expressionStatement := fun t =>
  (still_expressionUpTo _).before fun _ _ => (still_expect _).before fun _ _ =>
    maintains_pure (knows_nil t)

theorem safe_ifStatement : Furnishes (ifStatement statement) := by
  have finish (start : Position) (e : Expr) (onTrue : Stmt) (onFalse : Option Stmt) (t : SymbolTable)
      (known : t.Knows onTrue.blocks onTrue.declares)
      (known' : t.Knows (Stmt.blocksBehindElse onFalse) (Stmt.declaresBehindElse onFalse)) :
      Reader.Safe (do return Stmt.conditional e onTrue onFalse ⟨start, ← Reader.endOfLast⟩) t
        fun s t' => t'.Knows s.blocks s.declares :=
    still_endOfLast.before fun _ _ => maintains_pure (knows_append.mpr ⟨known, known'⟩)
  intro t
  refine still_advance.before fun _ _ => still_condition.before fun e _ =>
    (statements t).bind fun onTrue t₁ _ known => (still_accept _).before fun _ _ => ?_
  split
  · have onFalse : Reader.Safe (some <$> statement) t₁ fun onFalse t' =>
        t'.Knows (Stmt.blocksBehindElse onFalse) (Stmt.declaresBehindElse onFalse) :=
      (statements t₁).map fun _ _ _ known => known
    exact onFalse.bind fun onFalse t₂ upholds known' =>
      finish _ e onTrue onFalse t₂ (upholds.retains.knows known) known'
  · exact finish _ e onTrue none t₁ known (knows_nil t₁)

theorem safe_whileStatement : Furnishes (whileStatement statement) := fun t =>
  still_advance.before fun _ _ => still_condition.before fun _ _ =>
    (statements t).bind fun _ _ _ known => still_endOfLast.before fun _ _ => maintains_pure known

theorem safe_statementOf (kind : TokenKind) : Furnishes (statementOf statement kind) := by
  unfold statementOf
  split
  · exact safe_variableStatement
  · exact safe_definitionStatement statements
  · exact safe_coroutineStatement statements
  · exact safe_classStatement statements .primary
  · exact safe_classStatement statements .extension
  · exact safe_superStatement
  · exact safe_blockStatement statements
  · exact safe_returnStatement
  · exact safe_yieldStatement
  · exact safe_ifStatement statements
  · exact safe_whileStatement statements
  · exact safe_jumpStatement (fun _ => rfl) fun _ => rfl
  · exact safe_jumpStatement (fun _ => rfl) fun _ => rfl
  · exact safe_expressionStatement

end Nested

theorem safe_statementWithin (depth : Nat) : Furnishes (statementWithin depth) := by
  induction depth with
  | zero => exact fun t => still_get.before fun _ _ => maintains_throw rfl
  | succ depth ih => exact fun t => still_kind.before fun kind _ => safe_statementOf ih kind t

theorem safe_statement : Furnishes statement := fun t =>
  still_get.before fun _ _ => safe_statementWithin _ t

end Grammar

/-- A unit that has been read finds its blocks and its declarations. -/
theorem SourceUnit.safe_read (tokens : List Token) (t : SymbolTable) :
    Resolution.Safe (SourceUnit.read tokens) t fun u t' =>
      t'.Knows (Stmt.blocksIn u.body) (Stmt.declaresIn u.body) := by
  intro furnished r t' run
  obtain ⟨t₁, rfl, upholds, known⟩ := SourceUnit.maintains_read
    (show furnishing.Holds (t.enter .global) from furnished.of_same rfl rfl) (Grammar.safe_many Grammar.safe_statement _ _) rfl run
  exact ⟨upholds.leave furnished, known.mono fun _ known => known.leave⟩

end Deferral
