import Deferral.Proofs.Generic.Holders
import Deferral.Proofs.Reading.Invariant

/-!
# What is read is held once

Reading makes declarations one by one, and each of them gets into one list of parameters, one body or
one sequence of statements. Nothing that was there before is held more often than it was.
-/

namespace Deferral

open SymbolTable

variable {α : Type} {t t' t'' : SymbolTable} {hand ids mid : List DeclId}

namespace SymbolTable

/-- How often a declaration may be held: once it has been made, once. -/
def known (t : SymbolTable) (w : DeclId) : Nat := if w.index < t.decls.size then 1 else 0

/-- What is in hand and what is held are different declarations that have been made. -/
def Single (hand : List DeclId) (t : SymbolTable) : Prop := ∀ w, hand.count w + t.held w ≤ t.known w

theorem known_le_one (t : SymbolTable) (w : DeclId) : t.known w ≤ 1 := by
  unfold known
  split <;> decide

/-- What is in hand afterwards, and what is held then, was in hand or held before or is new. -/
def Gains (hand ids : List DeclId) (t t' : SymbolTable) : Prop :=
  ∀ w, ids.count w + t'.held w + t.known w ≤ hand.count w + t.held w + t'.known w

namespace Gains

theorem refl (hand : List DeclId) (t : SymbolTable) : Gains hand hand t t := fun _ => Nat.le_refl _

theorem trans (h : Gains hand mid t t') (h' : Gains mid ids t' t'') : Gains hand ids t t'' := by
  intro w
  have first := h w
  have second := h' w
  omega

theorem of_fewer (h : Gains hand ids t t') {fewer : List DeclId} (le : ∀ w, fewer.count w ≤ ids.count w) :
    Gains hand fewer t t' := by
  intro w
  have gains := h w
  have less := le w
  omega

/-- What is in hand besides stays there. -/
theorem frame (h : Gains hand ids t t') (rest : List DeclId) : Gains (hand ++ rest) (ids ++ rest) t t' := by
  intro w
  have gains := h w
  simp only [List.count_append]
  omega

theorem of_decls (same : t'.decls = t.decls) (hand : List DeclId) : Gains hand hand t t' := by
  intro w
  rw [LeavesHeld.of_decls same w, known, known, same]

/-- What is read is held once, if what was there is. -/
theorem single (h : Gains hand ids t t') (single : t.Single hand) : t'.Single ids := by
  intro w
  have gains := h w
  have once := single w
  omega

end Gains

end SymbolTable

theorem Stmt.declaresIn_eq_flatMap (body : List Stmt) : declaresIn body = body.flatMap declares := by
  induction body with
  | nil => rfl
  | cons s rest ih => rw [declaresIn, ih, List.flatMap_cons]

/-! ## Readers -/

/-- A table, and the declarations that have been read and are held nowhere in it yet. -/
structure SymbolTable.Dealt where
  hand : List DeclId
  table : SymbolTable

/-- Nothing is held twice because of what is read that was in hand, held or not there before. -/
abbrev SymbolTable.dealing : Invariant Dealt where
  table s := s.table
  Holds _ := True
  Leads s s' := Gains s.hand s'.hand s.table s'.table
  refl _ := .refl _ _
  holds _ := trivial
  trans _ first second := first.trans second

/-- Some declarations have come into the hand, and nothing has gone. -/
def SymbolTable.Dealt.Takes (s : Dealt) (ids : List DeclId) (s' : Dealt) : Prop :=
  ∀ w, ids.count w + s.hand.count w ≤ s'.hand.count w

namespace SymbolTable.Dealt.Takes

variable {s s' s'' : Dealt} {ids' : List DeclId}

theorem refl (s : Dealt) : s.Takes [] s := fun _ => Nat.le_of_eq (Nat.zero_add _)

theorem trans (h : s.Takes ids s') (h' : s'.Takes ids' s'') : s.Takes (ids ++ ids') s'' := by
  intro w
  have first := h w
  have second := h' w
  rw [List.count_append]
  omega

end SymbolTable.Dealt.Takes

namespace Reader

variable {post : α → List DeclId} {s : Dealt}

/-- Wherever a reader starts and however it ends, nothing comes to be held twice; what it yields is in hand
then, together with what was in hand before. -/
abbrev Deals (x : Reader α) (post : α → List DeclId) : Prop :=
  ∀ s, Maintains dealing x s fun a s' => s.Takes (post a) s'

theorem deals_under {scope : ScopeId} {x : Reader α} (h : Deals x post) : Deals (under scope x) post := fun s =>
  maintains_under (i := ⟨s.hand, s.table.enter scope⟩) (h _) rfl id fun s' _ gains =>
    ⟨⟨s'.hand, s'.table.leave⟩, rfl, gains, fun _ takes => takes⟩

theorem deals_newScope (owner : ScopeOwner) : Deals (newScope owner) fun _ => [] := fun s =>
  maintains_newScope (u := ⟨s.hand, s.table.openFor owner⟩) rfl (fun _ => .of_decls rfl _) (.refl s)

theorem deals_takeBlock : Deals takeBlock fun _ => [] := fun s =>
  maintains_takeBlock (u := ⟨s.hand, s.table.takeBlock⟩) rfl (fun _ => .of_decls rfl _) (.refl s)

/-- A declaration that is made holds nothing yet. -/
theorem deals_declare {name : String} {kind : Declared} {span : Span}
    (nothing : ∀ scope, (Decl.mk name kind scope span).holds = []) :
    Deals (declare name kind span) fun id => [id] := by
  intro s
  refine maintains_declare
    (u := ⟨s.table.nextDecl :: s.hand, s.table.declare ⟨name, kind, s.table.innermost, span⟩⟩) rfl
    (fun _ w => ?_) fun w => ?_
  · have held : (s.table.declare ⟨name, kind, s.table.innermost, span⟩).held w = s.table.held w := by
      rw [held_push rfl, nothing, List.count_nil, Nat.add_zero]
    rw [held, known, known, size_declare, List.count_cons]
    by_cases new : w = s.table.nextDecl
    · subst new
      simp [nextDecl]
      omega
    · rw [if_neg (show ¬(s.table.nextDecl == w) = true by simpa using Ne.symm new)]
      split <;> split <;> omega
  · show [s.table.nextDecl].count w + s.hand.count w ≤ (s.table.nextDecl :: s.hand).count w
    rw [List.count_cons, List.count_cons, List.count_nil]
    omega

/-- A declaration comes to hold what is in hand, and stays in hand itself. -/
theorem maintains_bind_fill {f : SymbolTable → SymbolTable} {rest : Unit → Reader α} {s s' : Dealt}
    {Q : α → Dealt → Prop} (size : (f s'.table).decls.size = s'.table.decls.size)
    (le : ∀ w, (f s'.table).held w ≤ s'.table.held w + ids.count w) (takes : s.Takes ids s')
    (h : Maintains dealing (rest ()) ⟨s.hand, f s'.table⟩ Q) : Maintains dealing (change f >>= rest) s' Q := by
  refine maintains_bind_change (u := ⟨s.hand, f s'.table⟩) rfl (fun _ w => ?_) fun _ => h
  have taken := le w
  have inHand := takes w
  simp only [known, size]
  omega

theorem deals_many {item : Reader α} (items : Deals item post) (more : TokenKind → Bool) :
    Deals (many more item) fun as => as.flatMap post := fun s =>
  maintains_many (Q := fun as s' => s.Takes (as.flatMap post) s') (fun as s₁ takes =>
    (items s₁).mono fun a s₂ _ one => by
      rw [List.flatMap_append, List.flatMap_singleton]
      exact takes.trans one) more (.refl s)

end Reader

/-! ## Statements -/

namespace Grammar

open Reader

theorem deals_declaring {name : String} {kind : Declared} {span span' : Span}
    (nothing : ∀ scope, (Decl.mk name kind scope span).holds = []) :
    Deals (do
      let id ← Reader.declare name kind span
      return Stmt.declaration id span') Stmt.declares := fun s =>
  (deals_declare nothing s).bind fun _ _ _ takes => maintains_pure takes

theorem deals_variableStatement : Deals variableStatement Stmt.declares := by
  have finish (start : Position) (name : String) (type : Ty) (init : Option Expr) : Deals (do
      let span ← endStatement start
      let id ← Reader.declare name (.object .var type init) span
      return Stmt.declaration id span) Stmt.declares := fun s =>
    (still_endStatement start).before fun _ _ => deals_declaring (fun _ => rfl) s
  intro s
  refine still_advance.before fun _ _ => (still_identifierFor _).before fun _ _ =>
    (still_expect _).before fun _ _ => (still_typeUpTo _).before fun type _ =>
      (still_accept _).before fun accepted _ => ?_
  split
  · exact (still_someExpressionUpTo _).before fun init _ => finish _ _ type init s
  · exact still_noExpression.before fun init _ => finish _ _ type init s

theorem deals_constantStatement (start : Position) (name : String) :
    Deals (constantStatement start name) Stmt.declares := fun s =>
  (still_expect _).before fun _ _ => (still_typeUpTo _).before fun _ _ =>
    (still_expect _).before fun _ _ => (still_expressionUpTo _).before fun _ _ =>
      (still_endStatement start).before fun _ _ => deals_declaring (fun _ => rfl) s

theorem deals_superStatement : Deals superStatement Stmt.declares := fun s =>
  still_advance.before fun _ _ => (still_identifierFor _).before fun _ _ =>
    (still_expect _).before fun _ _ => (still_typeUpTo _).before fun _ _ =>
      (still_endStatement _).before fun _ _ => deals_declaring (fun _ => rfl) s

/-! ### Parameters -/

theorem deals_parameter : Deals parameter fun id => [id] := fun s =>
  (still_identifierFor _).before fun _ _ => (still_expect _).before fun _ _ =>
    (still_typeUpTo _).before fun _ _ => still_endOfLast.before fun _ _ =>
      deals_declare (fun _ => rfl) s

theorem deals_parameterList : Deals parameterList id := by
  have further : Deals (do
      let _ ← expect comma
      parameter) fun id => [id] := fun s => (still_expect _).before fun _ _ => deals_parameter s
  intro s
  refine (deals_parameter s).bind fun first s₁ _ one => (deals_many further (· ≠ closeParen) s₁).bind
    fun rest s₂ _ others => maintains_pure ?_
  have others : s₁.Takes (rest.flatMap fun id => [id]) s₂ := others
  rw [List.flatMap_singleton'] at others
  exact one.trans others

theorem deals_parameters : Deals parameters id := by
  have finish {s s' : Dealt} (all : List DeclId) (takes : s.Takes all s') :
      Maintains dealing (do
        let _ ← expect closeParen
        return all) s' fun ids s'' => s.Takes ids s'' :=
    (still_expect _).before fun _ _ => maintains_pure takes
  intro s
  refine (still_expect _).before fun _ _ => still_kind.before fun kind _ => ?_
  split
  · exact finish [] (.refl s)
  · exact (deals_parameterList s).bind fun all s₁ _ takes => finish all takes

/-! ### Statements with others inside -/

section Nested

variable {statement : Reader Stmt} (statements : Deals statement Stmt.declares)

include statements

theorem deals_blockBody : Deals (blockBody statement) Stmt.declaresIn := fun s =>
  (still_expect _).before fun _ _ => (deals_many statements _ s).bind fun body s₁ _ takes =>
    (still_expect _).before fun _ _ => maintains_pure (by rwa [Stmt.declaresIn_eq_flatMap])

theorem deals_blockStatement : Deals (blockStatement statement) Stmt.declares := fun s =>
  still_position.before fun _ _ => (deals_takeBlock s).bind fun _ s₁ _ first =>
    (deals_newScope _ s₁).bind fun _ s₂ _ second =>
      (deals_under (deals_blockBody statements) s₂).bind fun _ _ _ takes =>
        still_endOfLast.before fun _ _ => maintains_pure ((first.trans second).trans takes)

theorem deals_functionBody (id : DeclId) : Deals (functionBody statement id) Body.declares := by
  intro s
  refine still_get.before fun c _ => ?_
  split
  · exact (deals_blockStatement statements s).map fun _ _ _ takes => takes
  split
  · exact still_advance.before fun _ _ => (deals_newScope _ s).bind fun _ _ _ takes =>
      (still_expressionUpTo _).before fun _ _ => (still_expect _).before fun _ _ => maintains_pure takes
  split
  · exact still_advance.before fun _ _ => maintains_pure (.refl s)
  · exact maintains_throw rfl

/-- A function that has been read holds its parameters and what is declared in its body. -/
theorem deals_functionParts (id : DeclId) :
    Deals (functionParts statement id) fun c => c.parameters ++ c.body.declares := fun s =>
  (deals_parameters s).bind fun _ s₁ _ first => still_resultType.before fun _ _ =>
    (deals_functionBody statements id s₁).bind fun _ _ _ second => maintains_pure (first.trans second)

theorem deals_functionStatement (sort : CallableSort) (start : Position) (name : String) :
    Deals (functionStatement statement sort start name) Stmt.declares := by
  intro s
  refine (deals_declare (fun _ => rfl) s).bind fun id s₁ _ made => (deals_newScope _ s₁).bind fun scope s₂ _ opened =>
    (deals_under (deals_functionParts statements id) s₂).bind fun c s₃ _ parts =>
      still_endOfLast.before fun stop _ => ?_
  exact maintains_bind_fill (size_modifyDecl ..)
    (fun w => held_modifyDecl_le (Decl.count_holds_complete (s₃.table.decl id) c _ w))
    (opened.trans parts) (maintains_pure made)

theorem deals_definitionStatement : Deals (definitionStatement statement) Stmt.declares := by
  intro s
  refine still_advance.before fun _ _ => (still_identifierFor _).before fun _ _ =>
    still_get.before fun c _ => ?_
  split
  · exact deals_constantStatement _ _ s
  split
  · exact deals_functionStatement statements _ _ _ s
  · exact maintains_throw rfl

theorem deals_coroutineStatement : Deals (coroutineStatement statement) Stmt.declares := fun s =>
  still_advance.before fun _ _ => (still_identifierFor _).before fun _ _ =>
    deals_functionStatement statements _ _ _ s

theorem deals_classStatement (sort : ClassSort) : Deals (classStatement statement sort) Stmt.declares := by
  intro s
  refine still_advance.before fun keyword _ => (still_identifierFor _).before fun _ _ =>
    (still_classKind sort).before fun kind _ => (deals_declare (fun _ => rfl) s).bind fun id s₁ _ made =>
      (deals_newScope _ s₁).bind fun scope s₂ _ opened =>
        (deals_under (deals_blockBody statements) s₂).bind fun body s₃ _ members =>
          still_endOfLast.before fun stop _ => ?_
  exact maintains_bind_fill (size_modifyDecl ..)
    (fun w => held_modifyDecl_le (Decl.count_holds_withMembers (s₃.table.decl id) body w))
    (opened.trans members) (maintains_pure made)

/-! ### Other statements -/

omit statements in
theorem deals_returnStatement : Deals returnStatement Stmt.declares := by
  have finish (start : Position) (value : Option Expr) :
      Deals (do return Stmt.returning value (← endStatement start)) Stmt.declares := fun s =>
    (still_endStatement start).before fun _ _ => maintains_pure (.refl s)
  intro s
  refine still_advance.before fun _ _ => still_kind.before fun kind _ => ?_
  split
  · exact finish _ none s
  · exact (still_someExpressionUpTo _).before fun value _ => finish _ value s

omit statements in
theorem deals_yieldStatement : Deals yieldStatement Stmt.declares := fun s =>
  still_advance.before fun _ _ => (still_expressionUpTo _).before fun _ _ =>
    (still_endStatement _).before fun _ _ => maintains_pure (.refl s)

omit statements in
theorem deals_jumpStatement {form : Span → Stmt} (none : ∀ span, (form span).declares = []) :
    Deals (jumpStatement form) Stmt.declares := fun s =>
  still_advance.before fun _ _ => (still_endStatement _).before fun span _ =>
    maintains_pure (by rw [none]; exact .refl s)

omit statements in
theorem deals_expressionStatement : Deals expressionStatement Stmt.declares := fun s =>
  (still_expressionUpTo _).before fun _ _ => (still_expect _).before fun _ _ => maintains_pure (.refl s)

theorem deals_ifStatement : Deals (ifStatement statement) Stmt.declares := by
  have finish {s s' : Dealt} (start : Position) (e : Expr) {onTrue : Stmt} (takes : s.Takes onTrue.declares s')
      {x : Reader (Option Stmt)} (h : Deals x Stmt.declaresBehindElse) : Maintains dealing (do
        let onFalse ← x
        return Stmt.conditional e onTrue onFalse ⟨start, ← Reader.endOfLast⟩) s'
        fun stmt s'' => s.Takes stmt.declares s'' :=
    (h s').bind fun onFalse _ _ others => still_endOfLast.before fun _ _ => maintains_pure (takes.trans others)
  intro s
  refine still_advance.before fun _ _ => still_condition.before fun e _ =>
    (statements s).bind fun onTrue s₁ _ takes => (still_accept _).before fun accepted _ => ?_
  split
  · exact finish _ e takes fun s => (statements s).map fun _ _ _ takes => takes
  · exact finish _ e takes fun s => maintains_pure (.refl s)

theorem deals_whileStatement : Deals (whileStatement statement) Stmt.declares := fun s =>
  still_advance.before fun _ _ => still_condition.before fun _ _ =>
    (statements s).bind fun _ _ _ takes => still_endOfLast.before fun _ _ => maintains_pure takes

theorem deals_statementOf (kind : TokenKind) : Deals (statementOf statement kind) Stmt.declares := by
  unfold statementOf
  split
  · exact deals_variableStatement
  · exact deals_definitionStatement statements
  · exact deals_coroutineStatement statements
  · exact deals_classStatement statements .primary
  · exact deals_classStatement statements .extension
  · exact deals_superStatement
  · exact deals_blockStatement statements
  · exact deals_returnStatement
  · exact deals_yieldStatement
  · exact deals_ifStatement statements
  · exact deals_whileStatement statements
  · exact deals_jumpStatement fun _ => rfl
  · exact deals_jumpStatement fun _ => rfl
  · exact deals_expressionStatement

end Nested

theorem deals_statementWithin (depth : Nat) : Deals (statementWithin depth) Stmt.declares := by
  induction depth with
  | zero => exact fun s => still_get.before fun _ _ => maintains_throw rfl
  | succ depth ih => exact fun s => still_kind.before fun kind _ => deals_statementOf ih kind s

theorem deals_statement : Deals statement Stmt.declares := fun s =>
  still_get.before fun _ _ => deals_statementWithin _ s

end Grammar

/-- What a unit states is held nowhere else, and nothing that was there before is held more often. -/
theorem SourceUnit.gains_read {tokens : List Token} {r : Except Diagnostic SourceUnit}
    (h : Resolution.Runs (SourceUnit.read tokens) t r t') :
    Gains [] [] t t' ∧ ∀ u, r = .ok u → Gains [] (Stmt.declaresIn u.body) t t' := by
  obtain ⟨s, rfl, gains, takes⟩ := SourceUnit.maintains_read
    (show dealing.Holds ⟨[], t.enter .global⟩ from trivial) (Reader.deals_many Grammar.deals_statement _ _) rfl h
  replace gains : Gains [] s.hand t s.table.leave := gains
  refine ⟨gains.of_fewer fun _ => Nat.zero_le _, fun u same => gains.of_fewer fun w => ?_⟩
  subst same
  rw [Stmt.declaresIn_eq_flatMap]
  exact Nat.le_trans (Nat.le_add_right ..) (takes w)

end Deferral
