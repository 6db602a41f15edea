import Deferral.Proofs.Renaming.Phrase
import Deferral.Proofs.Renaming.Run
import Deferral.Unit.Grammar

/-!
# Reading renamed tokens

What renamed tokens declare is what the tokens declare, renamed: reading sets excerpts aside by the
kinds of tokens, and takes names as they come.
-/

namespace Deferral

variable {σ : Renaming} {α α' β β' : Type} {A : α → α' → Prop} {B : β → β' → Prop}

namespace Reader

/-- Whatever `x` does on a cursor and a table, `x'` does on the renamed ones. -/
def Follows (σ : Renaming) (A : α → α' → Prop) (x : Reader α) (x' : Reader α') : Prop :=
  ∀ c : Cursor, Resolution.Follows σ (fun out out' => A out.1 out'.1 ∧ out'.2 = out.2.renamed σ)
    (x.run c) (x'.run (c.renamed σ))

variable {x : Reader α} {x' : Reader α'}

theorem follows_pure {a : α} {a' : α'} (related : A a a') : Follows σ A (pure a) (pure a') :=
  fun _ => Resolution.follows_pure ⟨related, rfl⟩

theorem follows_throw {d d' : Diagnostic} (fault : d.Renamed σ d') :
    Follows σ A (throw d) (throw d') :=
  fun _ => Resolution.follows_throw fault

theorem Follows.bind (h : Follows σ A x x') {f : α → Reader β} {f' : α' → Reader β'}
    (rest : ∀ a a', A a a' → Follows σ B (f a) (f' a')) :
    Follows σ B (x >>= f) (x' >>= f') := by
  intro c
  rw [StateT.run_bind, StateT.run_bind]
  refine (h c).bind ?_
  rintro ⟨a, c₁⟩ ⟨a', c₁'⟩ ⟨related, same⟩
  obtain rfl : c₁' = c₁.renamed σ := same
  exact rest a a' related c₁

theorem Follows.map (h : Follows σ A x x') {f : α → β} {f' : α' → β'}
    (rest : ∀ a a', A a a' → B (f a) (f' a')) : Follows σ B (f <$> x) (f' <$> x') := by
  rw [← bind_pure_comp, ← bind_pure_comp]
  exact h.bind fun a a' related => follows_pure (rest a a' related)

theorem Follows.some {g : α → α'} (h : Follows σ (fun a a' => a' = g a) x x') :
    Follows σ (fun a? a?' => a?' = a?.map g) (some <$> x) (some <$> x') :=
  h.map fun _ _ same => by rw [same]; rfl

/-! ## Tokens -/

theorem follows_get : Follows σ (fun c c' => c' = c.renamed σ) get get :=
  fun _ => Resolution.follows_pure ⟨rfl, rfl⟩

theorem follows_set (c : Cursor) :
    Follows σ (fun _ _ => True) (set c : Reader PUnit) (set (c.renamed σ)) :=
  fun _ => Resolution.follows_pure ⟨trivial, rfl⟩

theorem follows_kind : Follows σ Eq kind kind :=
  follows_get.map fun c _ same => by rw [same, Cursor.kind_renamed]

theorem follows_position : Follows σ Eq position position :=
  follows_get.map fun c _ same => by rw [same, Cursor.position_renamed]

theorem follows_endOfLast : Follows σ Eq endOfLast endOfLast :=
  follows_get.map fun c _ same => by rw [same]; rfl

theorem follows_advance : Follows σ (fun t t' => t' = t.renamed σ) advance advance := by
  intro c
  refine Resolution.follows_pure ⟨?_, ?_⟩
  · exact c.current_renamed
  · exact c.next_renamed

theorem follows_expect (kind : TokenKind) :
    Follows σ (fun t t' => t' = t.renamed σ) (expect kind) (expect kind) := by
  refine follows_get.bind ?_
  rintro c _ rfl
  have expects := c.follows_expect (σ := σ) kind
  generalize c.expect kind = out at expects
  generalize (c.renamed σ).expect kind = out' at expects
  cases expects with
  | @ok passed _ same =>
    subst same
    exact (follows_set passed.2).bind fun _ _ _ => follows_pure rfl
  | error fault => exact follows_throw fault

theorem follows_accept (kind : TokenKind) : Follows σ Eq (accept kind) (accept kind) := by
  refine follows_kind.bind ?_
  rintro found _ rfl
  split
  · exact follows_advance.bind fun _ _ _ => follows_pure rfl
  · exact follows_pure rfl

theorem follows_identifierFor (purpose : String) :
    Follows σ (fun t t' => t' = t.named σ) (identifierFor purpose) (identifierFor purpose) := by
  intro c
  change Resolution.Follows σ _
    (StateT.run (if c.kind = .identifier then advance else throw (c.unexpectedFor _)) c)
    (StateT.run (if (c.renamed σ).kind = .identifier then advance
      else throw ((c.renamed σ).unexpectedFor _)) (c.renamed σ))
  rw [Cursor.kind_renamed]
  split
  · rename_i identifier
    refine Resolution.follows_pure ⟨?_, c.next_renamed⟩
    exact c.current_renamed.trans (Token.renamed_of_eq identifier)
  · exact Resolution.follows_throw (c.unexpectedFor_renamed _)

theorem follows_setAside (ends : List TokenKind) :
    Follows σ (fun f f' => f' = f.renamed σ) (setAside ends) (setAside ends) := by
  refine follows_get.bind ?_
  rintro c _ rfl
  have aside := c.follows_setAside (σ := σ) ends
  generalize c.setAside ends = out at aside
  generalize (c.renamed σ).setAside ends = out' at aside
  cases aside with
  | @ok passed _ same =>
    subst same
    exact (follows_set passed.2).bind fun _ _ _ => follows_pure rfl
  | error fault => exact follows_throw fault

/-! ## Declarations and scopes -/

theorem follows_look {pick : SymbolTable → α} {pick' : SymbolTable → α'}
    (related : ∀ t t', t.Renamed σ t' → A (pick t) (pick' t')) :
    Follows σ A (look pick) (look pick') := by
  intro c
  change Resolution.Follows σ _ (Resolution.look pick >>= fun a => pure (a, c))
    (Resolution.look pick' >>= fun a => pure (a, c.renamed σ))
  exact (Resolution.follows_look related).bind fun _ _ related =>
    Resolution.follows_pure ⟨related, rfl⟩

theorem follows_change {f f' : SymbolTable → SymbolTable}
    (step : ∀ t t', t.Renamed σ t' → (f t).Renamed σ (f' t')) :
    Follows σ (fun _ _ => True) (change f) (change f') := by
  intro c
  change Resolution.Follows σ _ ((modify f : Resolution PUnit) >>= fun a => pure (a, c))
    ((modify f' : Resolution PUnit) >>= fun a => pure (a, c.renamed σ))
  exact (Resolution.follows_modify step).bind fun _ _ _ =>
    Resolution.follows_pure ⟨trivial, rfl⟩

theorem follows_declare (name : String) (kind : Declared) (span : Span) :
    Follows σ Eq (declare name kind span) (declare (σ.name name) (kind.renamed σ) span) := by
  refine (follows_look (A := Eq) fun t t' same => same.nextDecl.symm).bind ?_
  rintro id _ rfl
  refine (follows_change fun t t' same => ?_).bind fun _ _ _ => follows_pure rfl
  rw [same.innermost]
  exact same.declare ⟨name, kind, t.innermost, span⟩

theorem follows_newScope (owner : ScopeOwner) :
    Follows σ Eq (newScope owner) (newScope owner) := by
  refine (follows_look (A := Eq) fun t t' same => same.nextScope.symm).bind ?_
  rintro id _ rfl
  refine (follows_change fun t t' same => ?_).bind fun _ _ _ => follows_pure rfl
  rw [same.innermost]
  exact (same.addScope _).assignScope owner id

theorem follows_takeBlock : Follows σ Eq takeBlock takeBlock := by
  refine (follows_look (A := Eq) fun t t' same => same.nextBlock.symm).bind ?_
  rintro id _ rfl
  exact (follows_change fun _ _ same => same.takeBlock).bind fun _ _ _ => follows_pure rfl

theorem Follows.under (h : Follows σ A x x') (scope : ScopeId) :
    Follows σ A (under scope x) (under scope x') :=
  fun c => (h c).under scope

/-- Items are read one after the other while the kinds of tokens allow it. -/
theorem follows_manyWithin (h : Follows σ A x x') (more : TokenKind → Bool) (bound : Nat) :
    Follows σ (List.Forall₂ A) (manyWithin more x bound) (manyWithin more x' bound) := by
  induction bound with
  | zero => exact follows_pure .nil
  | succ bound ih =>
    refine follows_kind.bind ?_
    rintro kind _ rfl
    split
    · exact h.bind fun _ _ first => ih.bind fun _ _ rest => follows_pure (.cons first rest)
    · exact follows_pure .nil

theorem follows_many (h : Follows σ A x x') (more : TokenKind → Bool) :
    Follows σ (List.Forall₂ A) (many more x) (many more x') := by
  refine follows_get.bind ?_
  rintro c _ rfl
  rw [Cursor.length_upcoming_renamed]
  exact follows_manyWithin h more _

end Reader

/-! ## Statements -/

theorem Stmt.eq_allRenamed {body body' : List Stmt}
    (same : List.Forall₂ (fun s s' => s' = s.renamed σ) body body') :
    body' = allRenamed σ body := by
  rw [allRenamed_eq_map]
  induction same with
  | nil => rfl
  | cons first _ ih => rw [first, ih, List.map_cons]

namespace Grammar

open Reader

/-- A reader of statements that reads the renamed statement from renamed tokens. -/
abbrev FollowsStatement (σ : Renaming) (x x' : Reader Stmt) : Prop :=
  Follows σ (fun s s' => s' = s.renamed σ) x x'

theorem follows_typeUpTo (ends : List TokenKind) :
    Follows σ (fun type type' => type' = type.renamed σ) (typeUpTo ends) (typeUpTo ends) :=
  (follows_setAside ends).map fun _ _ same => by rw [same]; rfl

theorem follows_expressionUpTo (ends : List TokenKind) :
    Follows σ (fun e e' => e' = e.renamed σ) (expressionUpTo ends) (expressionUpTo ends) :=
  (follows_setAside ends).map fun f _ same => by
    subst same
    show Expr.mk _ _ (f.renamed σ).span = _
    rw [Excerpt.span_renamed]
    rfl

theorem follows_endStatement (start : Position) :
    Follows σ Eq (endStatement start) (endStatement start) := by
  refine (follows_expect _).bind ?_
  rintro t _ rfl
  rw [Token.span_renamed]
  exact follows_pure rfl

/-- A declaration that has been read is declared, and stands as a statement. -/
theorem follows_declaring (name : String) (kind : Declared) (start : Position) :
    FollowsStatement σ
      (do
        let span ← endStatement start
        let id ← Reader.declare name kind span
        return .declaration id span)
      (do
        let span ← endStatement start
        let id ← Reader.declare (σ.name name) (kind.renamed σ) span
        return .declaration id span) := by
  refine (follows_endStatement start).bind ?_
  rintro span _ rfl
  refine (follows_declare name kind span).bind ?_
  rintro id _ rfl
  exact follows_pure rfl

theorem follows_variableStatement : FollowsStatement σ variableStatement variableStatement := by
  refine follows_advance.bind ?_
  rintro word _ rfl
  rw [Token.span_renamed]
  refine (follows_identifierFor _).bind ?_
  rintro name _ rfl
  refine (follows_expect _).bind fun _ _ _ => (follows_typeUpTo _).bind ?_
  rintro type _ rfl
  refine (follows_accept _).bind ?_
  rintro defined _ rfl
  cases defined with
  | true =>
    refine (follows_expressionUpTo _).some.bind ?_
    rintro init _ rfl
    exact follows_declaring name.text (.object .var type init) _
  | false => exact follows_declaring name.text (.object .var type none) _

theorem follows_constantStatement (start : Position) (name : String) :
    FollowsStatement σ (constantStatement start name) (constantStatement start (σ.name name)) := by
  refine (follows_expect _).bind fun _ _ _ => (follows_typeUpTo _).bind ?_
  rintro type _ rfl
  refine (follows_expect _).bind fun _ _ _ => (follows_expressionUpTo _).bind ?_
  rintro init _ rfl
  exact follows_declaring name (.object .constant type (some init)) start

theorem follows_superStatement : FollowsStatement σ superStatement superStatement := by
  refine follows_advance.bind ?_
  rintro word _ rfl
  rw [Token.span_renamed]
  refine (follows_identifierFor _).bind ?_
  rintro name _ rfl
  refine (follows_expect _).bind fun _ _ _ => (follows_typeUpTo _).bind ?_
  rintro type _ rfl
  exact follows_declaring name.text (.super type) _

theorem follows_parameter : Follows σ Eq parameter parameter := by
  refine (follows_identifierFor _).bind ?_
  rintro name _ rfl
  refine (follows_expect _).bind fun _ _ _ => (follows_typeUpTo _).bind ?_
  rintro type _ rfl
  refine follows_endOfLast.bind ?_
  rintro stop _ rfl
  exact follows_declare name.text (.parameter type) _

theorem follows_parameterList : Follows σ Eq parameterList parameterList := by
  refine follows_parameter.bind ?_
  rintro first _ rfl
  have other : Follows σ Eq (expect comma >>= fun _ => parameter)
      (expect comma >>= fun _ => parameter) :=
    (follows_expect _).bind fun _ _ _ => follows_parameter
  refine (follows_many other _).bind fun others others' same => ?_
  rw [List.forall₂_eq_eq_eq] at same
  subst same
  exact follows_pure rfl

theorem follows_parameters : Follows σ Eq parameters parameters := by
  have finish (all : List DeclId) :
      Follows σ Eq (expect closeParen >>= fun _ => pure all)
        (expect closeParen >>= fun _ => pure all) :=
    (follows_expect _).bind fun _ _ _ => follows_pure rfl
  refine (follows_expect _).bind fun _ _ _ => follows_kind.bind ?_
  rintro kind _ rfl
  split
  · exact finish []
  · refine follows_parameterList.bind ?_
    rintro all _ rfl
    exact finish all

theorem follows_resultType :
    Follows σ (fun result result' => result' = result.map (Ty.renamed σ)) resultType resultType := by
  refine (follows_accept _).bind ?_
  rintro named _ rfl
  split
  · exact (follows_typeUpTo _).some
  · exact follows_pure rfl

/-! ### Statements with others inside -/

section Nested

variable {statement statement' : Reader Stmt} (statements : FollowsStatement σ statement statement')

include statements

theorem follows_blockBody :
    Follows σ (fun body body' => body' = Stmt.allRenamed σ body) (blockBody statement)
      (blockBody statement') := by
  refine (follows_expect _).bind fun _ _ _ => (follows_many statements _).bind
    fun body body' same => (follows_expect _).bind fun _ _ _ => follows_pure ?_
  exact Stmt.eq_allRenamed same

theorem follows_blockStatement :
    FollowsStatement σ (blockStatement statement) (blockStatement statement') := by
  refine follows_position.bind ?_
  rintro start _ rfl
  refine follows_takeBlock.bind ?_
  rintro id _ rfl
  refine (follows_newScope _).bind ?_
  rintro scope _ rfl
  refine ((follows_blockBody statements).under scope).bind ?_
  rintro body _ rfl
  refine follows_endOfLast.bind ?_
  rintro stop _ rfl
  exact follows_pure rfl

theorem follows_functionBody (id : DeclId) :
    Follows σ (fun body body' => body' = body.renamed σ) (functionBody statement id)
      (functionBody statement' id) := by
  refine follows_get.bind ?_
  rintro c _ rfl
  rw [Cursor.kind_renamed]
  split
  · exact (follows_blockStatement statements).map fun _ _ same => congrArg Body.statement same
  split
  · refine follows_advance.bind fun _ _ _ => (follows_newScope _).bind fun _ _ _ =>
      (follows_expressionUpTo _).bind ?_
    rintro e _ rfl
    exact (follows_expect _).bind fun _ _ _ => follows_pure rfl
  split
  · exact follows_advance.bind fun _ _ _ => follows_pure rfl
  · exact follows_throw (c.unexpectedFor_renamed _)

theorem follows_functionParts (id : DeclId) :
    Follows σ (fun c c' => c' = c.renamed σ) (functionParts statement id)
      (functionParts statement' id) := by
  refine follows_parameters.bind ?_
  rintro ids _ rfl
  refine follows_resultType.bind ?_
  rintro result _ rfl
  refine (follows_functionBody statements id).bind ?_
  rintro body _ rfl
  refine follows_pure ?_
  have implied : (result.map (Ty.renamed σ)).getD (impliedResult (body.renamed σ)) =
      (result.getD (impliedResult body)).renamed σ := by
    cases result with
    | some type => rfl
    | none => cases body <;> rfl
  rw [implied]
  rfl

theorem follows_functionStatement (sort : CallableSort) (start : Position) (name : String) :
    FollowsStatement σ (functionStatement statement sort start name)
      (functionStatement statement' sort start (σ.name name)) := by
  refine (follows_declare name (.callable sort .announced) _).bind ?_
  rintro id _ rfl
  refine (follows_newScope _).bind ?_
  rintro scope _ rfl
  refine ((follows_functionParts statements id).under scope).bind ?_
  rintro callable _ rfl
  refine follows_endOfLast.bind ?_
  rintro stop _ rfl
  refine (follows_change fun t t' same => same.modifyDecl id fun d => ?_).bind
    fun _ _ _ => follows_pure rfl
  have parts := d.renamed_mapCallable (σ := σ) (f := fun _ => callable)
    (g := fun _ => callable.renamed σ) fun _ => rfl
  rw [← parts]
  rfl

theorem follows_definitionStatement :
    FollowsStatement σ (definitionStatement statement) (definitionStatement statement') := by
  refine follows_advance.bind ?_
  rintro word _ rfl
  rw [Token.span_renamed]
  refine (follows_identifierFor _).bind ?_
  rintro name _ rfl
  refine follows_get.bind ?_
  rintro c _ rfl
  rw [Cursor.kind_renamed]
  split
  · exact follows_constantStatement _ name.text
  split
  · exact follows_functionStatement statements .function _ name.text
  · exact follows_throw (c.unexpectedFor_renamed _)

theorem follows_coroutineStatement :
    FollowsStatement σ (coroutineStatement statement) (coroutineStatement statement') := by
  refine follows_advance.bind ?_
  rintro word _ rfl
  rw [Token.span_renamed]
  refine (follows_identifierFor _).bind ?_
  rintro name _ rfl
  exact follows_functionStatement statements .coroutine _ name.text

omit statements in
theorem follows_classKind (sort : ClassSort) :
    Follows σ (fun kind kind' => kind' = kind.renamed σ) (classKind sort) (classKind sort) := by
  unfold classKind
  split
  · refine (follows_accept _).bind ?_
    rintro named _ rfl
    cases named with
    | true => exact follows_typeUpTo _
    | false => exact follows_pure rfl
  · exact follows_pure rfl

theorem follows_classStatement (sort : ClassSort) :
    FollowsStatement σ (classStatement statement sort) (classStatement statement' sort) := by
  refine follows_advance.bind ?_
  rintro word _ rfl
  refine (follows_identifierFor _).bind ?_
  rintro name _ rfl
  refine (follows_classKind sort).bind ?_
  rintro kind _ rfl
  rw [Token.span_renamed]
  refine (follows_declare name.text (.classDecl sort kind []) _).bind ?_
  rintro id _ rfl
  refine (follows_newScope _).bind ?_
  rintro scope _ rfl
  refine ((follows_blockBody statements).under scope).bind ?_
  rintro body _ rfl
  refine follows_endOfLast.bind ?_
  rintro stop _ rfl
  refine (follows_change fun t t' same => same.modifyDecl id fun d => ?_).bind
    fun _ _ _ => follows_pure rfl
  have members := d.renamed_mapMembers (σ := σ) (f := fun _ => body)
    (g := fun _ => Stmt.allRenamed σ body) fun _ => rfl
  rw [← members]
  rfl

omit statements in
theorem follows_returnStatement : FollowsStatement σ returnStatement returnStatement := by
  have finish (value : Option Expr) (start : Position) :
      FollowsStatement σ (endStatement start >>= fun span => pure (.returning value span))
        (endStatement start >>= fun span =>
          pure (.returning (value.map (Expr.renamed σ)) span)) := by
    refine (follows_endStatement start).bind ?_
    rintro span _ rfl
    exact follows_pure rfl
  refine follows_advance.bind ?_
  rintro word _ rfl
  rw [Token.span_renamed]
  refine follows_kind.bind ?_
  rintro kind _ rfl
  split
  · exact finish none _
  · refine (follows_expressionUpTo _).some.bind ?_
    rintro value _ rfl
    exact finish value _

omit statements in
theorem follows_yieldStatement : FollowsStatement σ yieldStatement yieldStatement := by
  refine follows_advance.bind ?_
  rintro word _ rfl
  rw [Token.span_renamed]
  refine (follows_expressionUpTo _).bind ?_
  rintro value _ rfl
  refine (follows_endStatement _).bind ?_
  rintro span _ rfl
  exact follows_pure rfl

omit statements in
theorem follows_condition :
    Follows σ (fun e e' => e' = e.renamed σ) condition condition := by
  refine (follows_expect _).bind fun _ _ _ => (follows_expressionUpTo _).bind ?_
  rintro e _ rfl
  exact (follows_expect _).bind fun _ _ _ => follows_pure rfl

theorem follows_ifStatement :
    FollowsStatement σ (ifStatement statement) (ifStatement statement') := by
  have finish (e : Expr) (onTrue : Stmt) (onFalse : Option Stmt) (start : Position) :
      FollowsStatement σ
        (endOfLast >>= fun stop => pure (.conditional e onTrue onFalse ⟨start, stop⟩))
        (endOfLast >>= fun stop => pure (.conditional (e.renamed σ) (onTrue.renamed σ)
          (onFalse.map (Stmt.renamed σ)) ⟨start, stop⟩)) := by
    refine follows_endOfLast.bind ?_
    rintro stop _ rfl
    exact follows_pure (by rw [Stmt.renamed, Stmt.renamedBehindElse_eq_map])
  refine follows_advance.bind ?_
  rintro word _ rfl
  rw [Token.span_renamed]
  refine follows_condition.bind ?_
  rintro e _ rfl
  refine statements.bind ?_
  rintro onTrue _ rfl
  refine (follows_accept _).bind ?_
  rintro more _ rfl
  cases more with
  | true =>
    refine statements.some.bind ?_
    rintro onFalse _ rfl
    exact finish e onTrue onFalse _
  | false => exact finish e onTrue none _

theorem follows_whileStatement :
    FollowsStatement σ (whileStatement statement) (whileStatement statement') := by
  refine follows_advance.bind ?_
  rintro word _ rfl
  rw [Token.span_renamed]
  refine follows_condition.bind ?_
  rintro e _ rfl
  refine statements.bind ?_
  rintro body _ rfl
  refine follows_endOfLast.bind ?_
  rintro stop _ rfl
  exact follows_pure rfl

omit statements in
theorem follows_jumpStatement {form : Span → Stmt}
    (plain : ∀ span, (form span).renamed σ = form span) :
    FollowsStatement σ (jumpStatement form) (jumpStatement form) := by
  refine follows_advance.bind ?_
  rintro word _ rfl
  rw [Token.span_renamed]
  refine (follows_endStatement _).bind ?_
  rintro span _ rfl
  exact follows_pure (plain span).symm

omit statements in
theorem follows_expressionStatement : FollowsStatement σ expressionStatement expressionStatement := by
  refine (follows_expressionUpTo _).bind ?_
  rintro e _ rfl
  exact (follows_expect _).bind fun _ _ _ => follows_pure rfl

theorem follows_statementOf (kind : TokenKind) :
    FollowsStatement σ (statementOf statement kind) (statementOf statement' kind) := by
  unfold statementOf
  split
  · exact follows_variableStatement
  · exact follows_definitionStatement statements
  · exact follows_coroutineStatement statements
  · exact follows_classStatement statements .primary
  · exact follows_classStatement statements .extension
  · exact follows_superStatement
  · exact follows_blockStatement statements
  · exact follows_returnStatement
  · exact follows_yieldStatement
  · exact follows_ifStatement statements
  · exact follows_whileStatement statements
  · exact follows_jumpStatement fun _ => rfl
  · exact follows_jumpStatement fun _ => rfl
  · exact follows_expressionStatement

end Nested

theorem follows_statementWithin (depth : Nat) :
    FollowsStatement σ (statementWithin depth) (statementWithin depth) := by
  induction depth with
  | zero =>
    refine follows_get.bind ?_
    rintro c _ rfl
    exact follows_throw c.unexpected_renamed
  | succ depth ih =>
    refine follows_kind.bind ?_
    rintro kind _ rfl
    exact follows_statementOf ih kind

theorem follows_statement : FollowsStatement σ statement statement := by
  refine follows_get.bind ?_
  rintro c _ rfl
  rw [Cursor.length_upcoming_renamed]
  exact follows_statementWithin _

end Grammar

namespace SourceUnit

/-- A unit with its identifiers renamed. -/
def renamed (σ : Renaming) (u : SourceUnit) : SourceUnit :=
  { u with body := Stmt.allRenamed σ u.body }

/-- Renamed tokens are read as the renamed unit. -/
theorem follows_read (tokens : List Token) :
    Resolution.Follows σ (fun u u' => u' = u.renamed σ) (read tokens)
      (read (tokens.map (·.renamed σ))) := by
  refine Resolution.Follows.under ?_ .global
  rw [Cursor.ofTokens_renamed]
  refine (Reader.follows_many Grammar.follows_statement _ _).bind ?_
  rintro ⟨body, c⟩ ⟨body', c'⟩ ⟨same, -⟩
  obtain rfl : body' = Stmt.allRenamed σ body := Stmt.eq_allRenamed same
  exact Resolution.follows_pure rfl

end SourceUnit

end Deferral
