import Deferral.Proofs.Phrase.Parts
import Deferral.Proofs.Reading.Building

/-!
# Where reading fails

A reader fails at the token that may not stand where it does, which is one of those to come or the end of
the input behind them.
-/

namespace Deferral

open SymbolTable

variable {A : Position → Prop} {α β : Type}

namespace Cursor

/-- All tokens to come, and the end of the input, start at places of a kind. -/
structure IsAmong (A : Position → Prop) (c : Cursor) : Prop where
  upcoming : ∀ t ∈ c.upcoming, A t.span.start
  stop : A c.stop.span.start

variable {c : Cursor}

theorem IsAmong.position (h : c.IsAmong A) : A c.position := by
  obtain ⟨_ | ⟨t, rest⟩, stop, endOfLast⟩ := c
  · exact h.stop
  · exact h.upcoming t (List.mem_cons_self ..)

theorem IsAmong.next (h : c.IsAmong A) : c.next.IsAmong A := by
  obtain ⟨_ | ⟨t, rest⟩, stop, endOfLast⟩ := c
  · exact h
  · exact ⟨fun s member => h.upcoming s (List.mem_cons_of_mem _ member), h.stop⟩

/-- Setting tokens aside fails at one of them or behind them, and goes on to those that are left. -/
theorem comes_setAsideFrom (ends : List TokenKind) {stop : Token} (last : A stop.span.start) :
    ∀ (upcoming : List Token) (depth : Nat) (endOfLast : Position), (∀ t ∈ upcoming, A t.span.start) →
    Comes (fun d => A d.position) (fun out => out.2.IsAmong A)
      (setAsideFrom ends depth upcoming endOfLast stop)
  | [], _, _, _ => last
  | t :: rest, depth, endOfLast, starts => by
    have more (depth' : Nat) : Comes (fun d => A d.position) (fun out => out.2.IsAmong A)
        ((setAsideFrom ends depth' rest t.span.stop stop).map fun out => (t :: out.1, out.2)) := by
      have inner := comes_setAsideFrom ends last rest depth' t.span.stop fun s member =>
        starts s (List.mem_cons_of_mem _ member)
      cases outcome : setAsideFrom ends depth' rest t.span.stop stop <;> rw [outcome] at inner <;>
        exact inner
    unfold setAsideFrom
    split
    · exact starts t (List.mem_cons_self ..)
    split
    · exact ⟨starts, last⟩
    split
    · exact more _
    split
    · split
      · exact starts t (List.mem_cons_self ..)
      · exact more _
    · exact more _

theorem comes_setAside (ends : List TokenKind) (h : c.IsAmong A) :
    Comes (fun d => A d.position) (fun out => out.2.IsAmong A) (c.setAside ends) := by
  have taken := comes_setAsideFrom ends h.stop c.upcoming 0 c.endOfLast h.upcoming
  unfold setAside
  split
  · rename_i outcome
    rw [outcome] at taken
    exact taken
  · exact h.position
  · rename_i outcome
    rw [outcome] at taken
    exact taken

theorem comes_expect {k : TokenKind} (h : c.IsAmong A) :
    Comes (fun d => A d.position) (fun out => out.2.IsAmong A) (c.expect k) := by
  unfold expect
  split
  · exact h.next
  · exact h.position

end Cursor

namespace Reader

/-- Wherever a reader fails, one of the tokens that it started with starts there. -/
def Points (A : Position → Prop) (x : Reader α) : Prop :=
  ∀ ⦃c t r t'⦄, c.IsAmong A → Resolution.Runs (x.run c) t r t' →
    Comes (fun d => A d.position) (fun out => out.2.IsAmong A) r

theorem points_pure (a : α) : Points A (pure a : Reader α) := by
  intro c t r t' among run
  obtain ⟨rfl, -⟩ := Resolution.runs_pure.mp run
  exact among

theorem points_throw {d : Diagnostic} (h : A d.position) : Points A (throw d : Reader α) := by
  intro c t r t' _ run
  obtain ⟨rfl, -⟩ := Resolution.runs_throw.mp run
  exact h

theorem Points.bind {x : Reader α} {f : α → Reader β} (h : Points A x) (h' : ∀ a, Points A (f a)) :
    Points A (x >>= f) := by
  intro c t r t' among run
  rcases Resolution.runs_bind.mp run with ⟨d, first, rfl⟩ | ⟨⟨a, c₁⟩, t₁, first, rest⟩
  · exact h among first
  · exact h' a (h among first) rest

theorem Points.map {x : Reader α} (h : Points A x) (f : α → β) : Points A (f <$> x) := by
  rw [map_eq_pure_bind]
  exact h.bind fun _ => points_pure _

theorem points_bind_get {f : Cursor → Reader β} (h : ∀ c : Cursor, c.IsAmong A → Points A (f c)) :
    Points A (get >>= f) :=
  fun c _ _ _ among run => h c among among run

theorem points_get : Points A (get : Reader Cursor) := points_bind_get fun c _ => points_pure c

theorem points_set {c : Cursor} (h : c.IsAmong A) : Points A (set c : Reader PUnit) := by
  intro c₀ t r t' _ run
  obtain ⟨rfl, -⟩ := Resolution.runs_pure.mp run
  exact h

theorem points_seen (see : Cursor → α) : Points A (see <$> get : Reader α) := points_get.map see

theorem points_advance : Points A advance := by
  intro c t r t' among run
  obtain ⟨rfl, -⟩ := Resolution.runs_pure.mp run
  exact among.next

theorem points_expect (k : TokenKind) : Points A (expect k) := by
  refine points_bind_get fun c among => ?_
  have passed := Cursor.comes_expect (k := k) among
  split
  · rename_i outcome
    rw [outcome] at passed
    exact (points_set passed).bind fun _ => points_pure _
  · rename_i outcome
    rw [outcome] at passed
    exact points_throw passed

theorem points_accept (k : TokenKind) : Points A (accept k) := by
  refine (points_seen _).bind fun _ => ?_
  split
  · exact points_advance.bind fun _ => points_pure _
  · exact points_pure _

theorem points_identifierFor (purpose : String) : Points A (identifierFor purpose) := by
  refine points_bind_get fun c among => ?_
  split
  · exact points_advance
  · exact points_throw among.position

theorem points_setAside (ends : List TokenKind) : Points A (setAside ends) := by
  refine points_bind_get fun c among => ?_
  have taken := Cursor.comes_setAside ends among
  split
  · rename_i outcome
    rw [outcome] at taken
    exact (points_set taken).bind fun _ => points_pure _
  · rename_i outcome
    rw [outcome] at taken
    exact points_throw taken

theorem points_look (pick : SymbolTable → α) : Points A (look pick) := by
  intro c t r t' among run
  obtain ⟨rfl, -⟩ := Resolution.runs_pure.mp run
  exact among

theorem points_change (f : SymbolTable → SymbolTable) : Points A (change f) := by
  intro c t r t' among run
  obtain ⟨rfl, -⟩ := Resolution.runs_pure.mp run
  exact among

theorem points_declare (name : String) (kind : Declared) (span : Span) :
    Points A (declare name kind span) :=
  (points_look _).bind fun _ => (points_change _).bind fun _ => points_pure _

theorem points_newScope (owner : ScopeOwner) : Points A (newScope owner) :=
  (points_look _).bind fun _ => (points_change _).bind fun _ => points_pure _

theorem points_takeBlock : Points A takeBlock :=
  (points_look _).bind fun _ => (points_change _).bind fun _ => points_pure _

theorem points_under {scope : ScopeId} {x : Reader α} (h : Points A x) : Points A (under scope x) := by
  intro c t r t' among run
  obtain ⟨t₁, run, -⟩ := Resolution.runs_under.mp run
  exact h among run

theorem points_manyWithin {item : Reader α} (items : Points A item) (more : TokenKind → Bool)
    (bound : Nat) : Points A (manyWithin more item bound) := by
  induction bound with
  | zero => exact points_pure _
  | succ bound ih =>
    refine (points_seen _).bind fun k => ?_
    split
    · exact items.bind fun _ => ih.bind fun _ => points_pure _
    · exact points_pure _

theorem points_many {item : Reader α} (items : Points A item) (more : TokenKind → Bool) :
    Points A (many more item) :=
  points_get.bind fun _ => points_manyWithin items more _

end Reader

/-! ## Statements -/

namespace Grammar

open Reader

theorem points_typeUpTo (ends : List TokenKind) : Points A (typeUpTo ends) :=
  (points_setAside ends).map _

theorem points_expressionUpTo (ends : List TokenKind) : Points A (expressionUpTo ends) :=
  (points_setAside ends).map _

theorem points_endStatement (start : Position) : Points A (endStatement start) :=
  (points_expect _).bind fun _ => points_pure _

theorem points_variableStatement : Points A variableStatement := by
  have finish (start : Position) (name : String) (type : Ty) (init : Option Expr) :
      Points A (do
        let span ← endStatement start
        let id ← Reader.declare name (.object .var type init) span
        return Stmt.declaration id span) :=
    (points_endStatement start).bind fun span =>
      (points_declare _ _ span).bind fun _ => points_pure _
  refine points_advance.bind fun _ => (points_identifierFor _).bind fun _ =>
    (points_expect _).bind fun _ => (points_typeUpTo _).bind fun type =>
      (points_accept _).bind fun accepted => ?_
  split
  · exact ((points_expressionUpTo _).map _).bind fun init => finish _ _ type init
  · exact (points_pure _).bind fun init => finish _ _ type init

theorem points_constantStatement (start : Position) (name : String) :
    Points A (constantStatement start name) :=
  (points_expect _).bind fun _ => (points_typeUpTo _).bind fun _ => (points_expect _).bind fun _ =>
    (points_expressionUpTo _).bind fun _ => (points_endStatement start).bind fun span =>
      (points_declare name _ span).bind fun _ => points_pure _

theorem points_superStatement : Points A superStatement :=
  points_advance.bind fun _ => (points_identifierFor _).bind fun _ => (points_expect _).bind fun _ =>
    (points_typeUpTo _).bind fun _ => (points_endStatement _).bind fun span =>
      (points_declare _ _ span).bind fun _ => points_pure _

theorem points_parameter : Points A parameter :=
  (points_identifierFor _).bind fun _ => (points_expect _).bind fun _ =>
    (points_typeUpTo _).bind fun _ => (points_seen _).bind fun _ => points_declare _ _ _

theorem points_parameters : Points A parameters := by
  have finish (all : List DeclId) : Points A (do
      let _ ← expect closeParen
      return all) :=
    (points_expect _).bind fun _ => points_pure _
  refine (points_expect _).bind fun _ => (points_seen _).bind fun kind => ?_
  split
  · exact (points_pure _).bind fun all => finish all
  · refine Points.bind ?_ fun all => finish all
    exact points_parameter.bind fun _ =>
      (points_many ((points_expect _).bind fun _ => points_parameter) _).bind fun _ =>
        points_pure _

theorem points_resultType : Points A resultType := by
  refine (points_accept _).bind fun accepted => ?_
  split
  · exact (points_typeUpTo _).map _
  · exact points_pure _

section Nested

variable {statement : Reader Stmt} (statements : Points A statement)

include statements

theorem points_blockBody : Points A (blockBody statement) :=
  (points_expect _).bind fun _ => (points_many statements _).bind fun _ =>
    (points_expect _).bind fun _ => points_pure _

theorem points_blockStatement : Points A (blockStatement statement) :=
  (points_seen _).bind fun _ => points_takeBlock.bind fun _ => (points_newScope _).bind fun _ =>
    (points_under (points_blockBody statements)).bind fun _ =>
      (points_seen _).bind fun _ => points_pure _

theorem points_functionBody (id : DeclId) : Points A (functionBody statement id) := by
  refine points_bind_get fun c among => ?_
  split
  · exact (points_blockStatement statements).map _
  split
  · exact points_advance.bind fun _ => (points_newScope _).bind fun _ =>
      (points_expressionUpTo _).bind fun _ => (points_expect _).bind fun _ => points_pure _
  split
  · exact points_advance.bind fun _ => points_pure _
  · exact points_throw among.position

theorem points_functionParts (id : DeclId) : Points A (functionParts statement id) :=
  points_parameters.bind fun _ => points_resultType.bind fun _ =>
    (points_functionBody statements id).bind fun _ => points_pure _

theorem points_functionStatement (sort : CallableSort) (start : Position) (name : String) :
    Points A (functionStatement statement sort start name) :=
  (points_declare name _ _).bind fun id => (points_newScope _).bind fun _ =>
    (points_under (points_functionParts statements id)).bind fun _ =>
      (points_seen _).bind fun _ => (points_change _).bind fun _ => points_pure _

theorem points_definitionStatement : Points A (definitionStatement statement) := by
  refine points_advance.bind fun _ => (points_identifierFor _).bind fun _ =>
    points_bind_get fun c among => ?_
  split
  · exact points_constantStatement _ _
  split
  · exact points_functionStatement statements _ _ _
  · exact points_throw among.position

theorem points_coroutineStatement : Points A (coroutineStatement statement) :=
  points_advance.bind fun _ => (points_identifierFor _).bind fun _ =>
    points_functionStatement statements _ _ _

omit statements in
theorem points_classKind (sort : ClassSort) : Points A (classKind sort) := by
  unfold classKind
  split
  · refine (points_accept _).bind fun accepted => ?_
    split
    · exact points_typeUpTo _
    · exact points_pure _
  · exact points_pure _

theorem points_classStatement (sort : ClassSort) :
    Points A (classStatement statement sort) :=
  points_advance.bind fun _ => (points_identifierFor _).bind fun _ =>
    (points_classKind sort).bind fun _ => (points_declare _ _ _).bind fun _ =>
      (points_newScope _).bind fun _ => (points_under (points_blockBody statements)).bind fun _ =>
        (points_seen _).bind fun _ => (points_change _).bind fun _ => points_pure _

omit statements in
theorem points_condition : Points A condition :=
  (points_expect _).bind fun _ => (points_expressionUpTo _).bind fun _ =>
    (points_expect _).bind fun _ => points_pure _

theorem points_ifStatement : Points A (ifStatement statement) := by
  have finish (start : Position) (e : Expr) (onTrue : Stmt) (onFalse : Option Stmt) :
      Points A (do
        return Stmt.conditional e onTrue onFalse ⟨start, ← Reader.endOfLast⟩) :=
    (points_seen _).bind fun _ => points_pure _
  refine points_advance.bind fun _ => points_condition.bind fun e => statements.bind fun onTrue =>
    (points_accept _).bind fun accepted => ?_
  split
  · exact (statements.map _).bind fun onFalse => finish _ e onTrue onFalse
  · exact (points_pure _).bind fun onFalse => finish _ e onTrue onFalse

theorem points_whileStatement : Points A (whileStatement statement) :=
  points_advance.bind fun _ => points_condition.bind fun _ => statements.bind fun _ =>
    (points_seen _).bind fun _ => points_pure _

omit statements in
theorem points_returnStatement : Points A returnStatement := by
  have finish (start : Position) (value : Option Expr) : Points A (do
      return Stmt.returning value (← endStatement start)) :=
    (points_endStatement start).bind fun _ => points_pure _
  refine points_advance.bind fun _ => (points_seen _).bind fun kind => ?_
  split
  · exact (points_pure _).bind fun value => finish _ value
  · exact ((points_expressionUpTo _).map _).bind fun value => finish _ value

theorem points_statementOf (kind : TokenKind) : Points A (statementOf statement kind) := by
  have jump (form : Span → Stmt) : Points A (jumpStatement form) :=
    points_advance.bind fun _ => (points_endStatement _).bind fun _ => points_pure _
  unfold statementOf
  split
  · exact points_variableStatement
  · exact points_definitionStatement statements
  · exact points_coroutineStatement statements
  · exact points_classStatement statements _
  · exact points_classStatement statements _
  · exact points_superStatement
  · exact points_blockStatement statements
  · exact points_returnStatement
  · exact points_advance.bind fun _ => (points_expressionUpTo _).bind fun _ =>
      (points_endStatement _).bind fun _ => points_pure _
  · exact points_ifStatement statements
  · exact points_whileStatement statements
  · exact jump _
  · exact jump _
  · exact (points_expressionUpTo _).bind fun _ => (points_expect _).bind fun _ => points_pure _

end Nested

theorem points_statementWithin (depth : Nat) : Points A (statementWithin depth) := by
  induction depth with
  | zero => exact points_bind_get fun _ among => points_throw among.position
  | succ depth ih => exact (points_seen _).bind fun kind => points_statementOf ih kind

theorem points_statement : Points A statement :=
  points_get.bind fun _ => points_statementWithin _

end Grammar

/-- Reading fails where one of the tokens starts, whatever has been read before. -/
theorem SourceUnit.position_of_read {tokens : List Token} {t t' : SymbolTable} {d : Diagnostic}
    (among : (Cursor.ofTokens tokens).IsAmong A)
    (h : Resolution.Runs (SourceUnit.read tokens) t (.error d) t') : A d.position := by
  obtain ⟨t₁, run, rfl⟩ := Resolution.runs_under.mp h
  have points := Reader.points_many (Grammar.points_statement (A := A)) (· ≠ .endOfInput)
  rcases Resolution.runs_bind.mp run with ⟨d', read, same⟩ | ⟨out, t₂, -, last⟩
  · obtain rfl := Except.error.inj same
    exact points among read
  · cases (Resolution.runs_pure.mp last).1

end Deferral
