import Deferral.Proofs.Execution.Outcome
import Deferral.Proofs.Table.Building
import Deferral.Unit.Grammar

/-!
# Reading builds the symbol table

Every reader either leaves the table alone or declares and opens scopes under the innermost scope. The
declarations of a statement lie in the innermost scope or in blocks inside it, and its expressions
have been set aside.
-/

namespace Deferral

open SymbolTable

namespace Reader

variable {α β : Type} {c c' : Cursor} {t t' : SymbolTable} {P : α → Prop} {P' : β → Prop}

/-- A reader that starts at `c` with the table `t` ends well, with a value, at `c'` and with `t'`. -/
def Reads (x : Reader α) (c : Cursor) (t : SymbolTable) (a : α) (c' : Cursor) (t' : SymbolTable) :
    Prop :=
  Resolution.Runs (x.run c) t (.ok (a, c')) t'

theorem reads_pure {a b : α} : Reads (pure a) c t b c' t' ↔ b = a ∧ c' = c ∧ t' = t := by
  unfold Reads
  refine Resolution.runs_pure.trans ?_
  simp [and_assoc]

theorem reads_bind {x : Reader α} {f : α → Reader β} {b : β} :
    Reads (x >>= f) c t b c' t' ↔
      ∃ a c₁ t₁, Reads x c t a c₁ t₁ ∧ Reads (f a) c₁ t₁ b c' t' := by
  unfold Reads
  rw [StateT.run_bind, Resolution.runs_bind]
  constructor
  · rintro (⟨d, -, wrong⟩ | ⟨⟨a, c₁⟩, t₁, first, rest⟩)
    · cases wrong
    · exact ⟨a, c₁, t₁, first, rest⟩
  · rintro ⟨a, c₁, t₁, first, rest⟩
    exact .inr ⟨(a, c₁), t₁, first, rest⟩

theorem reads_map {x : Reader α} {f : α → β} {b : β} :
    Reads (f <$> x) c t b c' t' ↔ ∃ a, Reads x c t a c' t' ∧ b = f a := by
  rw [map_eq_pure_bind, reads_bind]
  constructor
  · rintro ⟨a, c₁, t₁, first, rest⟩
    obtain ⟨rfl, rfl, rfl⟩ := reads_pure.mp rest
    exact ⟨a, first, rfl⟩
  · rintro ⟨a, first, rfl⟩
    exact ⟨a, c', t', first, reads_pure.mpr ⟨rfl, rfl, rfl⟩⟩

theorem reads_throw {d : Diagnostic} {a : α} : ¬Reads (throw d) c t a c' t' := by
  intro h
  obtain ⟨wrong, -⟩ := Resolution.runs_throw.mp h
  cases wrong

theorem reads_look {pick : SymbolTable → α} {a : α} :
    Reads (look pick) c t a c' t' ↔ a = pick t ∧ c' = c ∧ t' = t :=
  reads_pure

theorem reads_change {f : SymbolTable → SymbolTable} {u : Unit} :
    Reads (change f) c t u c' t' ↔ c' = c ∧ t' = f t := by
  refine (reads_pure (a := ()) (t := f t)).trans ?_
  simp

theorem reads_under {scope : ScopeId} {x : Reader α} {a : α} :
    Reads (under scope x) c t a c' t' ↔
      ∃ t₁, Reads x c (t.enter scope) a c' t₁ ∧ t' = t₁.leave :=
  Resolution.runs_under

/-! ## Readers that change no table -/

/-- Wherever a reader starts, it changes no table, and yields something of a kind or ends in a fault that is
not internal. -/
def Still (x : Reader α) (P : α → Prop) : Prop :=
  ∀ ⦃c t r t'⦄, Resolution.Runs (x.run c) t r t' → t' = t ∧ Sane (fun out => P out.1) r

theorem still_pure {a : α} (h : P a) : Still (pure a) P := by
  intro c t r t' run
  obtain ⟨rfl, rfl⟩ := Resolution.runs_pure.mp run
  exact ⟨rfl, h⟩

theorem still_same (a : α) : Still (pure a : Reader α) (· = a) := still_pure rfl

theorem still_throw {d : Diagnostic} (sane : d.cause.isInternal = false) : Still (throw d : Reader α) P := by
  intro c t r t' run
  obtain ⟨rfl, rfl⟩ := Resolution.runs_throw.mp run
  exact ⟨rfl, sane⟩

theorem Still.mono {Q : α → Prop} {x : Reader α} (h : Still x P) (wider : ∀ a, P a → Q a) : Still x Q :=
  fun _ _ _ _ run => ⟨(h run).1, (h run).2.mono fun out => wider out.1⟩

theorem Still.bind {x : Reader α} {f : α → Reader β} (h : Still x P) (h' : ∀ a, P a → Still (f a) P') :
    Still (x >>= f) P' := by
  intro c t r t' run
  rw [StateT.run_bind] at run
  rcases Resolution.runs_bind.mp run with ⟨d, first, rfl⟩ | ⟨⟨a, c₁⟩, t₁, first, rest⟩
  · exact h first
  · obtain ⟨rfl, holds⟩ := h first
    exact h' a holds rest

theorem Still.map {x : Reader α} (h : Still x P) {f : α → β} (h' : ∀ a, P a → P' (f a)) : Still (f <$> x) P' := by
  rw [← bind_pure_comp]
  exact h.bind fun a holds => still_pure (h' a holds)

theorem Still.reads {x : Reader α} {a : α} (h : Still x P) (run : Reads x c t a c' t') : t' = t ∧ P a := h run

/-- A first step that changes no table. -/
theorem Still.peel {x : Reader α} {f : α → Reader β} {b : β} (still : Still x P)
    (h : Reads (x >>= f) c t b c' t') :
    ∃ a c₁, Reads x c t a c₁ t ∧ Reads (f a) c₁ t b c' t' := by
  obtain ⟨a, c₁, t₁, first, rest⟩ := reads_bind.mp h
  obtain ⟨rfl, -⟩ := still.reads first
  exact ⟨a, c₁, first, rest⟩

theorem still_get : Still (get : Reader Cursor) fun _ => True := fun _ _ _ _ run => by
  obtain ⟨rfl, rfl⟩ := Resolution.runs_pure.mp run
  exact ⟨rfl, trivial⟩

theorem still_set (c : Cursor) : Still (set c : Reader PUnit) fun _ => True := fun _ _ _ _ run => by
  obtain ⟨rfl, rfl⟩ := Resolution.runs_pure.mp run
  exact ⟨rfl, trivial⟩

theorem still_kind : Still kind fun _ => True := still_get.map fun _ _ => trivial

theorem still_position : Still position fun _ => True := still_get.map fun _ _ => trivial

theorem still_endOfLast : Still endOfLast fun _ => True := still_get.map fun _ _ => trivial

theorem still_advance : Still advance fun _ => True := fun _ _ _ _ run => by
  obtain ⟨rfl, rfl⟩ := Resolution.runs_pure.mp run
  exact ⟨rfl, trivial⟩

/-- A token that is not there is at fault. -/
theorem sane_expect (c : Cursor) (k : TokenKind) : Sane (fun _ => True) (c.expect k) := by
  unfold Cursor.expect
  split
  · trivial
  · rfl

theorem still_expect (k : TokenKind) : Still (expect k) fun _ => True := by
  refine still_get.bind fun c _ => ?_
  have sane := sane_expect c k
  cases passed : c.expect k with
  | ok out => exact (still_set out.2).bind fun _ _ => still_pure trivial
  | error d =>
    rw [passed] at sane
    exact still_throw sane

theorem still_accept (k : TokenKind) : Still (accept k) fun _ => True := by
  refine still_kind.bind fun k' _ => ?_
  split
  · exact still_advance.bind fun _ _ => still_pure trivial
  · exact still_pure trivial

theorem still_identifierFor (purpose : String) : Still (identifierFor purpose) fun _ => True := by
  refine still_get.bind fun c _ => ?_
  split
  · exact still_advance
  · exact still_throw rfl

theorem sane_setAsideFrom (ends : List TokenKind) (upcoming : List Token) (stop : Token) :
    ∀ depth endOfLast, Sane (fun _ => True) (Cursor.setAsideFrom ends depth upcoming endOfLast stop) := by
  have more {x : Except Diagnostic (List Token × Cursor)} (h : Sane (fun _ => True) x)
      (f : List Token × Cursor → List Token × Cursor) : Sane (fun _ => True) (x.map f) := by
    cases x with
    | ok out => trivial
    | error d => exact h
  induction upcoming with
  | nil => exact fun _ _ => rfl
  | cons t rest ih =>
    intro depth endOfLast
    unfold Cursor.setAsideFrom
    split
    · rfl
    split
    · trivial
    split
    · exact more (ih _ _) _
    split
    · split
      · rfl
      · exact more (ih _ _) _
    · exact more (ih _ _) _

theorem still_setAside (ends : List TokenKind) : Still (setAside ends) fun _ => True := by
  refine still_get.bind fun c _ => ?_
  have sane := sane_setAsideFrom ends c.upcoming c.stop 0 c.endOfLast
  cases aside : Cursor.setAsideFrom ends 0 c.upcoming c.endOfLast c.stop with
  | error d =>
    rw [aside] at sane
    simp only [Cursor.setAside, aside]
    exact still_throw sane
  | ok out =>
    obtain ⟨_ | ⟨first, rest⟩, after⟩ := out
    · simp only [Cursor.setAside, aside]
      exact still_throw rfl
    · simp only [Cursor.setAside, aside]
      exact (still_set _).bind fun _ _ => still_pure trivial

/-! ## Readers that add to the table -/

theorem reads_declare {name : String} {kind : Declared} {span : Span} {id : DeclId}
    (h : Reads (declare name kind span) c t id c' t') :
    id = t.nextDecl ∧ t' = t.declare { name, kind, scope := t.innermost, span } := by
  obtain ⟨next, _, _, looked, rest⟩ := reads_bind.mp h
  obtain ⟨rfl, rfl, rfl⟩ := reads_look.mp looked
  obtain ⟨_, _, _, changed, last⟩ := reads_bind.mp rest
  obtain ⟨rfl, rfl⟩ := reads_change.mp changed
  obtain ⟨rfl, rfl, rfl⟩ := reads_pure.mp last
  exact ⟨rfl, rfl⟩

theorem reads_newScope {owner : ScopeOwner} {id : ScopeId}
    (h : Reads (newScope owner) c t id c' t') : id = t.nextScope ∧ t' = t.openFor owner := by
  obtain ⟨next, _, _, looked, rest⟩ := reads_bind.mp h
  obtain ⟨rfl, rfl, rfl⟩ := reads_look.mp looked
  obtain ⟨_, _, _, changed, last⟩ := reads_bind.mp rest
  obtain ⟨rfl, rfl⟩ := reads_change.mp changed
  obtain ⟨rfl, rfl, rfl⟩ := reads_pure.mp last
  exact ⟨rfl, rfl⟩

theorem reads_takeBlock {b : Nat} (h : Reads takeBlock c t b c' t') :
    b = t.nextBlock ∧ t' = t.takeBlock := by
  obtain ⟨next, _, _, looked, rest⟩ := reads_bind.mp h
  obtain ⟨rfl, rfl, rfl⟩ := reads_look.mp looked
  obtain ⟨_, _, _, changed, last⟩ := reads_bind.mp rest
  obtain ⟨rfl, rfl⟩ := reads_change.mp changed
  obtain ⟨rfl, rfl, rfl⟩ := reads_pure.mp last
  exact ⟨rfl, rfl⟩

end Reader

/-! ## What has been read -/

namespace SymbolTable

variable {t t' t'' : SymbolTable} {rank rank' rank'' : ScopeId → Nat}

/-- A declaration lies in a scope, or in a block inside it. -/
structure Lies (rank : ScopeId → Nat) (t : SymbolTable) (s : ScopeId) (w : DeclId) : Prop where
  lt : w.index < t.decls.size
  scope : (t.decl w).scope = s ∨
    rank s < rank (t.decl w).scope ∧ ∃ b, t.scopeOf? (.block b) = some (t.decl w).scope
  encloses : t.Encloses s (t.decl w).scope

theorem Lies.of_grows {s : ScopeId} {w : DeclId} (h : t.Lies rank s w) (built : t.Built rank)
    (inRange : s.index < t.scopes.size) (grows : Grows rank t rank' t') : t'.Lies rank' s w := by
  refine ⟨Nat.lt_of_lt_of_le h.lt grows.size, ?_, ?_⟩ <;> rw [grows.decls w h.lt]
  · rw [grows.rank s inRange, grows.rank _ (built.scopes w h.lt)]
    exact h.scope.imp_right fun ⟨deeper, b, owns⟩ => ⟨deeper, b, grows.saved _ _ owns⟩
  · exact h.encloses.of_grows built grows

/-- What lies in the scope of a declaration, or in blocks there, may lie inside the declaration. -/
theorem Lies.houses {scope : ScopeId} {id w : DeclId} (h : t.Lies rank scope w)
    (built : t.Built rank) (owns : t.scopeOf? (.decl id) = some scope) : t.Houses rank id w := by
  have opened := built.opened owns
  refine ⟨h.lt, ?_, fun other _ owns' => ?_⟩
  · rcases h.scope with same | ⟨deeper, -⟩
    · rw [same]
      omega
    · omega
  · rcases h.scope with same | ⟨-, b, block⟩
    · rw [same] at owns'
      exact ScopeOwner.decl.inj (built.distinct owns' owns)
    · cases built.distinct owns' block

/-- What lies in a block lies in the scope around it. -/
theorem Lies.of_block {s scope : ScopeId} {b : Nat} {w : DeclId} (h : t.Lies rank scope w)
    (owns : t.scopeOf? (.block b) = some scope) (inside : t.IsInside scope s)
    (deeper : rank s < rank scope) : t.Lies rank s w := by
  refine ⟨h.lt, .inr ?_, .tail h.encloses ⟨inside, b, owns⟩⟩
  rcases h.scope with same | ⟨inner, b', owns'⟩
  · rw [same]
    exact ⟨deeper, b, owns⟩
  · exact ⟨Nat.lt_trans deeper inner, b', owns'⟩

/-- What reading does that reads the declarations `ds` and the expressions `es`. -/
structure Added (rank : ScopeId → Nat) (t : SymbolTable) (ds : List DeclId) (es : List Expr)
    (rank' : ScopeId → Nat) (t' : SymbolTable) : Prop where
  built : t'.Built rank'
  grows : Grows rank t rank' t'
  lies : ∀ w ∈ ds, t'.Lies rank' t.innermost w
  unread : ∀ e ∈ es, e.excerpt?.isSome = true

namespace Added

variable {ds ds' : List DeclId} {es es' : List Expr}

theorem refl (built : t.Built rank) : Added rank t [] [] rank t :=
  ⟨built, .refl rank t, fun _ none => (by cases none), fun _ none => (by cases none)⟩

theorem trans (h : Added rank t ds es rank' t') (h' : Added rank' t' ds' es' rank'' t'')
    (inRange : t.innermost.index < t.scopes.size) :
    Added rank t (ds ++ ds') (es ++ es') rank'' t'' := by
  refine ⟨h'.built, h.grows.trans h'.grows, fun w member => ?_, fun e member => ?_⟩
  · rcases List.mem_append.mp member with member | member
    · exact (h.lies w member).of_grows h.built (Nat.lt_of_lt_of_le inRange h.grows.scopes) h'.grows
    · exact h.grows.innermost ▸ h'.lies w member
  · exact (List.mem_append.mp member).elim (h.unread e) (h'.unread e)

/-- Expressions that have been set aside besides. -/
theorem aside (h : Added rank t ds es rank' t') (unread : ∀ e ∈ es', e.excerpt?.isSome = true) :
    Added rank t ds (es' ++ es) rank' t' :=
  ⟨h.built, h.grows, h.lies, fun e member =>
    (List.mem_append.mp member).elim (unread e) (h.unread e)⟩

theorem declare (built : t.Built rank) {d : Decl} (unread : d.kind.IsUnread)
    (scope : d.scope = t.innermost) (stating : d.isConstant = true → t.Stating) :
    Added rank t [t.nextDecl] [] rank (t.declare d) := by
  refine ⟨built.declare unread scope stating, grows_declare rank t d, fun w member => ?_,
    fun _ none => (by cases none)⟩
  obtain rfl := List.mem_singleton.mp member
  refine ⟨?_, .inl ?_, ?_⟩
  · rw [size_declare]
    exact Nat.lt_succ_self _
  · rw [decl_declare_nextDecl, scope]
  · rw [decl_declare_nextDecl, scope]

end Added

end SymbolTable

/-! ## Statements -/

namespace Grammar

open Reader

variable {c c' : Cursor} {t t' : SymbolTable} {rank : ScopeId → Nat}

/-- A reader of statements that builds the table. -/
def Builds (x : Reader Stmt) : Prop :=
  ∀ ⦃c t s c' t' rank⦄, t.Built rank → t.Stating → Reads x c t s c' t' →
    ∃ rank', Added rank t s.declares s.expressions rank' t'

theorem still_typeUpTo (ends : List TokenKind) : Still (typeUpTo ends) fun type => ∃ f, type = .deferred f :=
  (still_setAside ends).map fun f _ => ⟨f, rfl⟩

theorem still_expressionUpTo (ends : List TokenKind) : Still (expressionUpTo ends) fun e => ∃ f, e = .deferred f :=
  (still_setAside ends).map fun f _ => ⟨f, rfl⟩

/-- An expression that may be left out. -/
theorem still_someExpressionUpTo (ends : List TokenKind) :
    Still (some <$> expressionUpTo ends) fun init => ∀ e, init = some e → ∃ f, e = .deferred f :=
  (still_expressionUpTo ends).map fun _ deferred _ same => Option.some.inj same ▸ deferred

theorem still_noExpression : Still (pure none : Reader (Option Expr)) fun init =>
    ∀ e, init = some e → ∃ f, e = .deferred f := still_pure nofun

theorem still_endStatement (start : Position) : Still (endStatement start) fun _ => True :=
  (still_expect _).bind fun _ _ => still_pure trivial

theorem still_resultType : Still resultType fun result => ∀ type, result = some type → ∃ f, type = .deferred f := by
  refine (still_accept _).bind fun accepted _ => ?_
  split
  · exact (still_typeUpTo _).map fun _ deferred _ same => Option.some.inj same ▸ deferred
  · exact still_pure nofun

theorem still_classKind (sort : ClassSort) :
    Still (classKind sort) fun kind => (∃ f, kind = .deferred f) ∨ kind = .metatype := by
  unfold classKind
  split
  · refine (still_accept _).bind fun accepted _ => ?_
    split
    · exact (still_typeUpTo _).mono fun _ => .inl
    · exact still_pure (.inr rfl)
  · exact still_pure (.inr rfl)

theorem still_condition : Still condition fun e => ∃ f, e = .deferred f :=
  (still_expect _).bind fun _ _ => (still_expressionUpTo _).bind fun _ deferred =>
    (still_expect _).bind fun _ _ => still_pure deferred

theorem reads_typeUpTo {ends : List TokenKind} {type : Ty}
    (h : Reads (typeUpTo ends) c t type c' t') : type.isDeferred = true := by
  obtain ⟨-, f, rfl⟩ := (still_typeUpTo _).reads h
  rfl

theorem reads_expressionUpTo {ends : List TokenKind} {e : Expr}
    (h : Reads (expressionUpTo ends) c t e c' t') : e.excerpt?.isSome = true := by
  obtain ⟨-, f, rfl⟩ := (still_expressionUpTo _).reads h
  rfl

/-- A statement that holds one expression set aside. -/
theorem added_of_expression (built : t.Built rank) {s : Stmt} {es : List Expr}
    (declares : s.declares = []) (expressions : s.expressions = es)
    (unread : ∀ e ∈ es, e.excerpt?.isSome = true) :
    ∃ rank', Added rank t s.declares s.expressions rank' t := by
  refine ⟨rank, ?_⟩
  rw [declares, expressions]
  simpa using (Added.refl built).aside unread

theorem builds_variableStatement : Builds variableStatement := by
  intro c t s c' t' rank built stating h
  obtain ⟨_, c₁, -, h⟩ := still_advance.peel h
  obtain ⟨_, c₂, -, h⟩ := (still_identifierFor _).peel h
  obtain ⟨_, c₃, -, h⟩ := (still_expect _).peel h
  obtain ⟨type, c₄, read, h⟩ := (still_typeUpTo _).peel h
  have deferred := reads_typeUpTo read
  obtain ⟨accepted, c₅, -, h⟩ := (still_accept _).peel h
  -- The variable is declared once its initializer has been set aside, if it has one.
  have finish : ∀ {start : Position} {name : String} {init : Option Expr} {c₆ : Cursor},
      (∀ e, init = some e → e.excerpt?.isSome = true) →
      Reads (do
        let span ← endStatement start
        let id ← Reader.declare name (.object .var type init) span
        return .declaration id span) c₆ t s c' t' →
      ∃ rank', Added rank t s.declares s.expressions rank' t' := by
    intro start name init c₆ unread h
    obtain ⟨span, c₇, -, h⟩ := (still_endStatement _).peel h
    obtain ⟨id, c₈, t₈, declared, last⟩ := reads_bind.mp h
    obtain ⟨rfl, rfl⟩ := reads_declare declared
    obtain ⟨rfl, rfl, rfl⟩ := reads_pure.mp last
    exact ⟨rank, Added.declare built ⟨deferred, unread, fun wrong => by cases wrong⟩ rfl
      fun wrong => by cases wrong⟩
  split at h
  · obtain ⟨init, c₆, read₆, h⟩ := (still_someExpressionUpTo _).peel h
    obtain ⟨e, read, rfl⟩ := reads_map.mp read₆
    exact finish (fun _ same => Option.some.inj same ▸ reads_expressionUpTo read) h
  · obtain ⟨init, c₆, read₆, h⟩ := (still_same _).peel h
    obtain ⟨rfl, -⟩ := reads_pure.mp read₆
    exact finish (fun _ same => by cases same) h

theorem builds_constantStatement (start : Position) (name : String) :
    Builds (constantStatement start name) := by
  intro c t s c' t' rank built stating h
  obtain ⟨_, c₁, -, h⟩ := (still_expect _).peel h
  obtain ⟨type, c₂, read, h⟩ := (still_typeUpTo _).peel h
  obtain ⟨_, c₃, -, h⟩ := (still_expect _).peel h
  obtain ⟨init, c₄, read₄, h⟩ := (still_expressionUpTo _).peel h
  obtain ⟨span, c₅, -, h⟩ := (still_endStatement _).peel h
  obtain ⟨id, c₆, t₆, declared, last⟩ := reads_bind.mp h
  obtain ⟨rfl, rfl⟩ := reads_declare declared
  obtain ⟨rfl, rfl, rfl⟩ := reads_pure.mp last
  exact ⟨rank, Added.declare built ⟨reads_typeUpTo read, fun e same =>
    Option.some.inj same ▸ reads_expressionUpTo read₄, fun _ => rfl⟩ rfl fun _ => stating⟩

theorem builds_superStatement : Builds superStatement := by
  intro c t s c' t' rank built stating h
  obtain ⟨_, c₁, -, h⟩ := still_advance.peel h
  obtain ⟨_, c₂, -, h⟩ := (still_identifierFor _).peel h
  obtain ⟨_, c₃, -, h⟩ := (still_expect _).peel h
  obtain ⟨type, c₄, read, h⟩ := (still_typeUpTo _).peel h
  obtain ⟨span, c₅, -, h⟩ := (still_endStatement _).peel h
  obtain ⟨id, c₆, t₆, declared, last⟩ := reads_bind.mp h
  obtain ⟨rfl, rfl⟩ := reads_declare declared
  obtain ⟨rfl, rfl, rfl⟩ := reads_pure.mp last
  exact ⟨rank, Added.declare built (reads_typeUpTo read) rfl fun wrong => by cases wrong⟩

/-! ## Sequences and blocks -/

theorem added_manyWithin {statement : Reader Stmt} (builds : Builds statement)
    (more : TokenKind → Bool) : ∀ (bound : Nat) {c c' : Cursor} {t t' : SymbolTable}
    {rank : ScopeId → Nat} {body : List Stmt}, t.Built rank → t.Stating →
    Reads (manyWithin more statement bound) c t body c' t' →
    ∃ rank', Added rank t (Stmt.declaresIn body) (Stmt.expressionsIn body) rank' t'
  | 0, _, _, _, _, rank, _, built, _, h => by
    obtain ⟨rfl, rfl, rfl⟩ := reads_pure.mp h
    exact ⟨rank, .refl built⟩
  | bound + 1, _, _, _, _, rank, _, built, stating, h => by
    obtain ⟨kind, c₁, -, h⟩ := still_kind.peel h
    split at h
    · obtain ⟨s, c₂, t₂, first, rest⟩ := reads_bind.mp h
      obtain ⟨rank₁, added⟩ := builds built stating first
      obtain ⟨others, c₃, t₃, second, last⟩ := reads_bind.mp rest
      obtain ⟨rank₂, added'⟩ := added_manyWithin builds more bound added.built
        (stating.of_grows built added.grows) second
      obtain ⟨rfl, rfl, rfl⟩ := reads_pure.mp last
      exact ⟨rank₂, added.trans added' built.innermost⟩
    · obtain ⟨rfl, rfl, rfl⟩ := reads_pure.mp h
      exact ⟨rank, .refl built⟩

theorem added_many {statement : Reader Stmt} (builds : Builds statement)
    {more : TokenKind → Bool} {body : List Stmt} (built : t.Built rank) (stating : t.Stating)
    (h : Reads (many more statement) c t body c' t') :
    ∃ rank', Added rank t (Stmt.declaresIn body) (Stmt.expressionsIn body) rank' t' := by
  obtain ⟨c₁, c₂, -, h⟩ := still_get.peel h
  exact added_manyWithin builds more _ built stating h

theorem added_blockBody {statement : Reader Stmt} (builds : Builds statement) {body : List Stmt}
    (built : t.Built rank) (stating : t.Stating) (h : Reads (blockBody statement) c t body c' t') :
    ∃ rank', Added rank t (Stmt.declaresIn body) (Stmt.expressionsIn body) rank' t' := by
  obtain ⟨_, c₁, -, h⟩ := (still_expect _).peel h
  obtain ⟨body', c₂, t₂, read, rest⟩ := reads_bind.mp h
  obtain ⟨_, c₃, -, last⟩ := (still_expect _).peel rest
  obtain ⟨rfl, rfl, rfl⟩ := reads_pure.mp last
  exact added_many builds built stating read

/-- A block opens a scope for its statements, wherever it stands itself. -/
theorem added_blockStatement {statement : Reader Stmt} (builds : Builds statement) {s : Stmt}
    (built : t.Built rank) (h : Reads (blockStatement statement) c t s c' t') :
    ∃ rank', Added rank t s.declares s.expressions rank' t' := by
  obtain ⟨start, c₁, -, h⟩ := still_position.peel h
  obtain ⟨b, c₂, t₂, taken, h⟩ := reads_bind.mp h
  obtain ⟨rfl, rfl⟩ := reads_takeBlock taken
  obtain ⟨scope, c₃, t₃, made, rest⟩ := reads_bind.mp h
  obtain ⟨rfl, rfl⟩ := reads_newScope made
  obtain ⟨body, c₄, t₄, read, last⟩ := reads_bind.mp rest
  obtain ⟨stop, c₅, -, last⟩ := still_endOfLast.peel last
  obtain ⟨rfl, rfl, rfl⟩ := reads_pure.mp last
  obtain ⟨t₆, read₆, rfl⟩ := reads_under.mp read
  have built₁ := built.takeBlock
  have free : t.takeBlock.scopeOf? (.block t.nextBlock) = none := by
    cases known : t.takeBlock.scopeOf? (.block t.nextBlock) with
    | none => rfl
    | some s => exact absurd (built.owned known).1 (Nat.lt_irrefl _)
  have built₂ := built₁.openFor (.block t.nextBlock) (Nat.lt_succ_self t.nextBlock) free
    fun _ same => by cases same
  have grows₂ := (grows_takeBlock rank t).trans (grows_openFor rank free)
  have inRange : t.takeBlock.nextScope.index < (t.takeBlock.openFor (.block t.nextBlock)).scopes.size := by
    rw [size_scopes_openFor]
    exact Nat.lt_succ_self _
  have stating : ((t.takeBlock.openFor (.block t.nextBlock)).enter t.takeBlock.nextScope).Stating := by
    intro f s _ owns same
    rcases scopeOf?_openFor_cases owns with ⟨wrong, -⟩ | ⟨-, owns⟩
    · cases wrong
    · obtain ⟨-, lt, -⟩ := built₁.owned owns
      rw [← show t.takeBlock.nextScope = s from same] at lt
      exact Nat.lt_irrefl _ lt
  obtain ⟨rank', added⟩ := added_blockBody builds (built₂.enter inRange) stating read₆
  have inside : t₆.IsInside t.takeBlock.nextScope t.innermost :=
    (added.grows.parent _ inRange).trans (isInside_openFor t.takeBlock (.block t.nextBlock))
  have owns : t₆.scopeOf? (.block t.nextBlock) = some t.takeBlock.nextScope :=
    added.grows.saved _ _ (scopeOf?_assignScope_self ..)
  have deeper : rank' t.innermost < rank' t.takeBlock.nextScope := by
    rw [added.grows.rank _ inRange,
      added.grows.rank _ (Nat.lt_of_lt_of_le built.innermost grows₂.scopes),
      rankOpen_nextScope, rankOpen_of_lt (t := t.takeBlock) rank built.innermost]
    exact Nat.lt_succ_self _
  refine ⟨rank', added.built.leave, grows₂.trans added.grows.leave, fun w member => ?_, added.unread⟩
  have lies := (added.lies w member).of_block owns inside deeper
  exact ⟨lies.lt, lies.scope, lies.encloses⟩

theorem builds_blockStatement {statement : Reader Stmt} (builds : Builds statement) :
    Builds (blockStatement statement) :=
  fun _ _ _ _ _ _ built _ h => added_blockStatement builds built h

/-! ## Functions -/

/-- What reading parameters does: they are declared in the innermost scope. -/
structure Listed (rank : ScopeId → Nat) (t : SymbolTable) (ids : List DeclId) (t' : SymbolTable) :
    Prop where
  built : t'.Built rank
  grows : Grows rank t rank t'
  saved : t'.saved = t.saved
  parameters : ∀ id ∈ ids, (t'.decl id).IsUnreadParameter

theorem Listed.refl (built : t.Built rank) : Listed rank t [] t :=
  ⟨built, .refl rank t, rfl, fun _ none => (by cases none)⟩

theorem Listed.trans {t'' : SymbolTable} {ids ids' : List DeclId} (h : Listed rank t ids t')
    (h' : Listed rank t' ids' t'') : Listed rank t (ids ++ ids') t'' := by
  refine ⟨h'.built, h.grows.trans h'.grows, h'.saved.trans h.saved, fun id member => ?_⟩
  rcases List.mem_append.mp member with member | member
  · obtain ⟨type, kind⟩ := h.parameters id member
    rw [h'.grows.decls id (lt_size_of_kind (by simp [kind]))]
    exact ⟨type, kind⟩
  · exact h'.parameters id member

theorem listed_parameter {id : DeclId} (built : t.Built rank)
    (h : Reads parameter c t id c' t') : Listed rank t [id] t' := by
  obtain ⟨_, c₁, -, h⟩ := (still_identifierFor _).peel h
  obtain ⟨_, c₂, -, h⟩ := (still_expect _).peel h
  obtain ⟨type, c₃, read, h⟩ := (still_typeUpTo _).peel h
  obtain ⟨_, c₄, -, h⟩ := still_endOfLast.peel h
  obtain ⟨rfl, rfl⟩ := reads_declare h
  refine ⟨built.declare (reads_typeUpTo read) rfl (fun wrong => by cases wrong),
    grows_declare rank t _, rfl, fun id member => ?_⟩
  obtain rfl := List.mem_singleton.mp member
  rw [decl_declare_nextDecl]
  exact Decl.isUnreadParameter_of_kind rfl (reads_typeUpTo read)

theorem listed_manyWithin (more : TokenKind → Bool) : ∀ (bound : Nat) {c c' : Cursor}
    {t t' : SymbolTable} {ids : List DeclId}, t.Built rank →
    Reads (manyWithin more (do
      let _ ← expect comma
      parameter) bound) c t ids c' t' → Listed rank t ids t'
  | 0, _, _, _, _, _, built, h => by
    obtain ⟨rfl, rfl, rfl⟩ := reads_pure.mp h
    exact .refl built
  | bound + 1, _, _, _, _, _, built, h => by
    obtain ⟨kind, c₁, -, h⟩ := still_kind.peel h
    split at h
    · obtain ⟨id, c₂, t₂, first, rest⟩ := reads_bind.mp h
      obtain ⟨_, c₃, -, first⟩ := (still_expect _).peel first
      have listed := listed_parameter built first
      obtain ⟨others, c₄, t₄, second, last⟩ := reads_bind.mp rest
      have listed' := listed_manyWithin more bound listed.built second
      obtain ⟨rfl, rfl, rfl⟩ := reads_pure.mp last
      exact listed.trans listed'
    · obtain ⟨rfl, rfl, rfl⟩ := reads_pure.mp h
      exact .refl built

theorem listed_parameterList {ids : List DeclId} (built : t.Built rank)
    (h : Reads parameterList c t ids c' t') : Listed rank t ids t' := by
  obtain ⟨first, c₁, t₁, read, h⟩ := reads_bind.mp h
  have listed := listed_parameter built read
  obtain ⟨others, c₂, t₂, read₂, last⟩ := reads_bind.mp h
  obtain ⟨c₃, c₄, -, read₂⟩ := still_get.peel read₂
  have listed' := listed_manyWithin _ _ listed.built read₂
  obtain ⟨rfl, rfl, rfl⟩ := reads_pure.mp last
  exact listed.trans listed'

theorem listed_parameters {ids : List DeclId} (built : t.Built rank)
    (h : Reads parameters c t ids c' t') : Listed rank t ids t' := by
  obtain ⟨_, c₁, -, h⟩ := (still_expect _).peel h
  obtain ⟨kind, c₂, -, h⟩ := still_kind.peel h
  have finish : ∀ {all : List DeclId} {c₃ : Cursor} {t₃ : SymbolTable}, Listed rank t all t₃ →
      Reads (do
        let _ ← expect closeParen
        return all) c₃ t₃ ids c' t' → Listed rank t ids t' := by
    intro all c₃ t₃ listed h
    obtain ⟨_, c₄, -, last⟩ := (still_expect _).peel h
    obtain ⟨rfl, rfl, rfl⟩ := reads_pure.mp last
    exact listed
  split at h
  · obtain ⟨all, c₃, none, h⟩ := (still_same _).peel h
    obtain ⟨rfl, -⟩ := reads_pure.mp none
    exact finish (.refl built) h
  · obtain ⟨all, c₃, t₃, read, h⟩ := reads_bind.mp h
    exact finish (listed_parameterList built read) h

theorem reads_resultType {result : Option Ty} (h : Reads resultType c t result c' t') :
    t' = t ∧ ∀ type, result = some type → type.isDeferred = true := by
  obtain ⟨rfl, deferred⟩ := still_resultType.reads h
  refine ⟨rfl, fun type same => ?_⟩
  obtain ⟨f, rfl⟩ := deferred type same
  rfl

theorem added_functionBody {statement : Reader Stmt} (builds : Builds statement) {id : DeclId}
    {body : Body} (built : t.Built rank) (present : id.index < t.decls.size)
    (free : t.scopeOf? (.body id) = none) (h : Reads (functionBody statement id) c t body c' t') :
    ∃ rank', Added rank t body.declares body.expressions rank' t' := by
  obtain ⟨c₁, c₂, -, h⟩ := still_get.peel h
  split at h
  · obtain ⟨s, read, rfl⟩ := reads_map.mp h
    exact added_blockStatement builds built read
  split at h
  · obtain ⟨_, c₃, -, h⟩ := still_advance.peel h
    obtain ⟨scope, c₄, t₄, made, h⟩ := reads_bind.mp h
    obtain ⟨rfl, rfl⟩ := reads_newScope made
    obtain ⟨e, c₅, read, h⟩ := (still_expressionUpTo _).peel h
    obtain ⟨_, c₆, -, last⟩ := (still_expect _).peel h
    obtain ⟨rfl, rfl, rfl⟩ := reads_pure.mp last
    refine ⟨_, built.openFor (.body id) present free (fun _ same => by cases same),
      grows_openFor rank free, fun _ none => (by cases none), fun e' member => ?_⟩
    obtain rfl := List.mem_singleton.mp member
    exact reads_expressionUpTo read
  split at h
  · obtain ⟨_, c₃, -, last⟩ := still_advance.peel h
    obtain ⟨rfl, rfl, rfl⟩ := reads_pure.mp last
    exact ⟨rank, .refl built⟩
  · exact absurd h reads_throw

/-- What reading the parts of a function does. -/
structure PartsRead (rank : ScopeId → Nat) (t : SymbolTable) (callable : Callable)
    (rank' : ScopeId → Nat) (t' : SymbolTable) : Prop where
  added : Added rank t callable.body.declares callable.body.expressions rank' t'
  unread : callable.IsUnread t'

theorem partsRead_functionParts {statement : Reader Stmt} (builds : Builds statement) {id : DeclId}
    {callable : Callable} (built : t.Built rank) (present : id.index < t.decls.size)
    (free : t.scopeOf? (.body id) = none)
    (h : Reads (functionParts statement id) c t callable c' t') :
    ∃ rank', PartsRead rank t callable rank' t' := by
  obtain ⟨ids, c₁, t₁, read, h⟩ := reads_bind.mp h
  have listed := listed_parameters built read
  obtain ⟨result, c₂, t₂, read₂, h₂⟩ := reads_bind.mp h
  obtain ⟨rfl, deferred⟩ := reads_resultType read₂
  obtain ⟨body, c₃, t₃, read₃, last⟩ := reads_bind.mp h₂
  have free₁ : t₂.scopeOf? (.body id) = none := by rw [scopeOf?, listed.saved]; exact free
  obtain ⟨rank', added⟩ := added_functionBody builds listed.built
    (Nat.lt_of_lt_of_le present listed.grows.size) free₁ read₃
  obtain ⟨rfl, rfl, rfl⟩ := reads_pure.mp last
  refine ⟨rank', ⟨added.built, listed.grows.trans added.grows, fun w member =>
    listed.grows.innermost ▸ added.lies w member, added.unread⟩, fun id member => ?_, ?_, rfl,
    added.unread, rfl⟩
  · obtain ⟨type, kind⟩ := listed.parameters id member
    rw [added.grows.decls id (lt_size_of_kind (by simp [kind]))]
    exact ⟨type, kind⟩
  · cases result with
    | some type => exact .inl (deferred type rfl)
    | none =>
      cases body with
      | expression e => exact .inr (.inl rfl)
      | statement s => exact .inr (.inr rfl)
      | absent => exact .inr (.inr rfl)

/-- A declaration by name, and a scope for what is inside it. -/
structure Begun (rank : ScopeId → Nat) (t : SymbolTable) (d : Decl) (t' : SymbolTable)
    (rank' : ScopeId → Nat) : Prop where
  built : (t'.enter t.nextScope).Built rank'
  grows : Grows rank t rank' t'
  present : t.nextDecl.index < t'.decls.size
  decl : t'.decl t.nextDecl = d
  owns : t'.scopeOf? (.decl t.nextDecl) = some t.nextScope
  free : t'.scopeOf? (.body t.nextDecl) = none

theorem begun (built : t.Built rank) {d : Decl} (unread : d.kind.IsUnread)
    (scope : d.scope = t.innermost) (other : d.isConstant = false) :
    ∃ rank', Begun rank t d ((t.declare d).openFor (.decl t.nextDecl)) rank' := by
  have built₁ := built.declare unread scope fun constant => by
    rw [other] at constant
    cases constant
  have unowned : ∀ owner, ¬t.Owned owner → (t.declare d).scopeOf? owner = none := by
    intro owner not
    cases known : (t.declare d).scopeOf? owner with
    | none => rfl
    | some s => exact absurd (built.owned (show t.scopeOf? owner = some s from known)).1 not
  have present : t.nextDecl.index < (t.declare d).decls.size := by
    rw [size_declare]
    exact Nat.lt_succ_self _
  have free := unowned (.decl t.nextDecl) (Nat.lt_irrefl _)
  have built₂ := built₁.openFor (.decl t.nextDecl) present free fun id same => by
    obtain rfl := ScopeOwner.decl.inj same
    rw [decl_declare_nextDecl, scope]
    rfl
  have next : (t.declare d).nextScope = t.nextScope :=
    congrArg ScopeId.mk (size_scopes_declare t d)
  have inRange : t.nextScope.index < ((t.declare d).openFor (.decl t.nextDecl)).scopes.size := by
    rw [size_scopes_openFor, size_scopes_declare]
    exact Nat.lt_succ_self _
  refine ⟨_, built₂.enter inRange, (grows_declare rank t d).trans (grows_openFor rank free), present,
    decl_declare_nextDecl t d, ?_, ?_⟩
  · rw [openFor, scopeOf?_assignScope_self, next]
  · rw [openFor, scopeOf?_assignScope_of_ne (by simp)]
    exact unowned (.body t.nextDecl) (Nat.lt_irrefl _)

/-- What is inside a class stands in no function's own scope. -/
theorem Begun.stating {d : Decl} {t₁ : SymbolTable} {rank₁ : ScopeId → Nat}
    (begun : Begun rank t d t₁ rank₁) (other : d.callable?.isSome = false) :
    (t₁.enter t.nextScope).Stating := by
  intro f s callable owns same
  obtain rfl : t.nextScope = s := same
  obtain rfl := ScopeOwner.decl.inj (begun.built.distinct owns begun.owns)
  rw [show ((t₁.enter t.nextScope).decl t.nextDecl) = d from begun.decl, other] at callable
  cases callable

/-- What is read inside a declaration is put into it. -/
theorem Begun.fill {d : Decl} {t₁ t₂ : SymbolTable} {rank₁ rank₂ : ScopeId → Nat}
    {ds : List DeclId} {es : List Expr} (begun : Begun rank t d t₁ rank₁)
    (scope : d.scope = t.innermost) (added : Added rank₁ (t₁.enter t.nextScope) ds es rank₂ t₂)
    {f : Decl → Decl} (edit : t₂.leave.Edit (t₂.leave.modifyDecl t.nextDecl f))
    (name : (f d).name = d.name) (scope' : (f d).scope = d.scope)
    (constant : (f d).isConstant = d.isConstant)
    (callable : (f d).callable?.isSome = d.callable?.isSome)
    (declares : ∀ w ∈ (f d).declares, w ∈ ds) (expressions : ∀ e ∈ (f d).expressions, e ∈ es) :
    ∃ rank', Added rank t [t.nextDecl] [] rank' (t₂.leave.modifyDecl t.nextDecl f) := by
  have same : t₂.leave.decl t.nextDecl = d :=
    (added.grows.decls _ begun.present).trans begun.decl
  have grows := begun.grows.trans added.grows.leave
  have owns : t₂.leave.scopeOf? (.decl t.nextDecl) = some t.nextScope :=
    added.grows.saved _ _ begun.owns
  have fills : t₂.leave.Fills t.nextDecl (f d) :=
    ⟨by rw [same, name], by rw [same, scope'], by rw [same, constant], by rw [same, callable],
      fun w member => ⟨_, owns, (added.lies w (declares w member)).encloses⟩,
      fun e member => added.unread e (expressions e member)⟩
  have filled : (t₂.leave.modifyDecl t.nextDecl f).Built rank₂ := by
    refine added.built.leave.fill edit (by rw [same]; exact fills) fun w member => ?_
    rw [same] at member
    have lies := added.lies w (declares w member)
    exact Lies.houses ⟨lies.lt, lies.scope, lies.encloses⟩ added.built.leave owns
  refine ⟨rank₂, filled, grows.fill f (Nat.le_refl _), fun w member => ?_,
    fun _ none => (by cases none)⟩
  obtain rfl := List.mem_singleton.mp member
  have present : t.nextDecl.index < t₂.leave.decls.size :=
    Nat.lt_of_lt_of_le begun.present added.grows.size
  have lies : ((t₂.leave.modifyDecl t.nextDecl f).decl t.nextDecl).scope = t.innermost := by
    rw [decl_modifyDecl_self present, same, scope', scope]
  exact ⟨by rw [size_modifyDecl]; exact present, .inl lies, by rw [lies]⟩

theorem builds_functionStatement {statement : Reader Stmt} (builds : Builds statement)
    (sort : CallableSort) (start : Position) (name : String) :
    Builds (functionStatement statement sort start name) := by
  intro c t s c' t' rank built stating h
  obtain ⟨id, c₁, t₁, declared, h⟩ := reads_bind.mp h
  obtain ⟨rfl, rfl⟩ := reads_declare declared
  obtain ⟨scope, c₂, t₂, made, h₂⟩ := reads_bind.mp h
  obtain ⟨rfl, rfl⟩ := reads_newScope made
  obtain ⟨callable, c₃, t₃, read, h₃⟩ := reads_bind.mp h₂
  obtain ⟨stop, c₄, -, h₄⟩ := still_endOfLast.peel h₃
  obtain ⟨_, c₅, t₅, changed, last⟩ := reads_bind.mp h₄
  obtain ⟨rfl, rfl⟩ := reads_change.mp changed
  obtain ⟨rfl, rfl, rfl⟩ := reads_pure.mp last
  obtain ⟨t₆, read₆, rfl⟩ := reads_under.mp read
  have unread : (Declared.callable sort .announced).IsUnread := rfl
  obtain ⟨rank₁, begun⟩ := begun built (d := ⟨name, .callable sort .announced, t.innermost,
    .point start⟩) unread rfl rfl
  rw [show (t.declare _).nextScope = t.nextScope from
    congrArg ScopeId.mk (size_scopes_declare t _)] at read₆
  obtain ⟨rank₂, parts⟩ := partsRead_functionParts builds begun.built begun.present begun.free read₆
  have same : t₆.leave.decl t.nextDecl = _ :=
    (parts.added.grows.decls _ begun.present).trans begun.decl
  have edit := @Edit.completeCallable t₆.leave t.nextDecl sort callable
    ⟨start, stop⟩ (by rw [same]) ⟨parts.unread.parameters, parts.unread.result, parts.unread.type,
      parts.unread.body, parts.unread.typeParameters⟩
  exact begun.fill rfl parts.added edit rfl rfl rfl rfl
    (fun w member => by simpa [Decl.declares, Decl.mapCallable] using member)
    fun e member => by simpa [Decl.expressions, Decl.mapCallable] using member

/-! ## Classes -/

theorem reads_classKind {sort : ClassSort} {kind : Ty} (h : Reads (classKind sort) c t kind c' t') :
    t' = t ∧ (kind.isDeferred = true ∨ kind = .metatype) := by
  obtain ⟨rfl, ⟨f, rfl⟩ | metatype⟩ := (still_classKind sort).reads h
  · exact ⟨rfl, .inl rfl⟩
  · exact ⟨rfl, .inr metatype⟩

theorem builds_classStatement {statement : Reader Stmt} (builds : Builds statement)
    (sort : ClassSort) : Builds (classStatement statement sort) := by
  intro c t s c' t' rank built stating h
  obtain ⟨keyword, c₁, -, h⟩ := still_advance.peel h
  obtain ⟨name, c₂, -, h⟩ := (still_identifierFor _).peel h
  obtain ⟨kind, c₃, t₃, read, h₃⟩ := reads_bind.mp h
  obtain ⟨rfl, known⟩ := reads_classKind read
  obtain ⟨id, c₄, t₄, declared, h₄⟩ := reads_bind.mp h₃
  obtain ⟨rfl, rfl⟩ := reads_declare declared
  obtain ⟨scope, c₅, t₅, made, h₅⟩ := reads_bind.mp h₄
  obtain ⟨rfl, rfl⟩ := reads_newScope made
  obtain ⟨body, c₆, t₆, read₆, h₆⟩ := reads_bind.mp h₅
  obtain ⟨stop, c₇, -, h₇⟩ := still_endOfLast.peel h₆
  obtain ⟨_, c₈, t₈, changed, last⟩ := reads_bind.mp h₇
  obtain ⟨rfl, rfl⟩ := reads_change.mp changed
  obtain ⟨rfl, rfl, rfl⟩ := reads_pure.mp last
  obtain ⟨t₉, read₉, rfl⟩ := reads_under.mp read₆
  have unread : (Declared.classDecl sort kind []).IsUnread := ⟨known, rfl⟩
  obtain ⟨rank₁, begun⟩ := begun built (d := ⟨name.text, .classDecl sort kind [], t₃.innermost,
    keyword.span⟩) unread rfl rfl
  rw [show (t₃.declare _).nextScope = t₃.nextScope from
    congrArg ScopeId.mk (size_scopes_declare t₃ _)] at read₉
  obtain ⟨rank₂, added⟩ := added_blockBody builds begun.built (begun.stating rfl) read₉
  have same : t₉.leave.decl t₃.nextDecl = _ :=
    (added.grows.decls _ begun.present).trans begun.decl
  have edit := @Edit.completeClass t₉.leave t₃.nextDecl body
    ⟨keyword.span.start, stop⟩ (by rw [SymbolTable.members, same]; rfl) added.unread
  exact begun.fill rfl added edit rfl rfl rfl rfl
    (fun w member => by simpa [Decl.declares, Decl.mapMembers] using member)
    fun e member => by simpa [Decl.expressions, Decl.mapMembers] using member

/-! ## Other statements -/

theorem builds_definitionStatement {statement : Reader Stmt} (builds : Builds statement) :
    Builds (definitionStatement statement) := by
  intro c t s c' t' rank built stating h
  obtain ⟨_, c₁, -, h⟩ := still_advance.peel h
  obtain ⟨_, c₂, -, h⟩ := (still_identifierFor _).peel h
  obtain ⟨_, c₃, -, h⟩ := still_get.peel h
  split at h
  · exact builds_constantStatement _ _ built stating h
  split at h
  · exact builds_functionStatement builds _ _ _ built stating h
  · exact absurd h reads_throw

theorem builds_coroutineStatement {statement : Reader Stmt} (builds : Builds statement) :
    Builds (coroutineStatement statement) := by
  intro c t s c' t' rank built stating h
  obtain ⟨_, c₁, -, h⟩ := still_advance.peel h
  obtain ⟨_, c₂, -, h⟩ := (still_identifierFor _).peel h
  exact builds_functionStatement builds _ _ _ built stating h

theorem builds_returnStatement : Builds returnStatement := by
  intro c t s c' t' rank built stating h
  obtain ⟨_, c₁, -, h⟩ := still_advance.peel h
  obtain ⟨_, c₂, -, h⟩ := still_kind.peel h
  split at h
  · obtain ⟨value, c₃, none, h⟩ := (still_same _).peel h
    obtain ⟨rfl, -⟩ := reads_pure.mp none
    obtain ⟨_, c₄, -, last⟩ := (still_endStatement _).peel h
    obtain ⟨rfl, rfl, rfl⟩ := reads_pure.mp last
    exact ⟨rank, .refl built⟩
  · obtain ⟨value, c₃, read, h₃⟩ := (still_someExpressionUpTo _).peel h
    obtain ⟨e, read₃, rfl⟩ := reads_map.mp read
    obtain ⟨_, c₄, -, last⟩ := (still_endStatement _).peel h₃
    obtain ⟨rfl, rfl, rfl⟩ := reads_pure.mp last
    exact added_of_expression built rfl rfl fun _ member => by
      obtain rfl := List.mem_singleton.mp member
      exact reads_expressionUpTo read₃

theorem builds_yieldStatement : Builds yieldStatement := by
  intro c t s c' t' rank built stating h
  obtain ⟨_, c₁, -, h⟩ := still_advance.peel h
  obtain ⟨e, c₂, read, h⟩ := (still_expressionUpTo _).peel h
  obtain ⟨_, c₃, -, last⟩ := (still_endStatement _).peel h
  obtain ⟨rfl, rfl, rfl⟩ := reads_pure.mp last
  exact added_of_expression built rfl rfl fun _ member => by
    obtain rfl := List.mem_singleton.mp member
    exact reads_expressionUpTo read

theorem builds_expressionStatement : Builds expressionStatement := by
  intro c t s c' t' rank built stating h
  obtain ⟨e, c₁, read, h⟩ := (still_expressionUpTo _).peel h
  obtain ⟨_, c₂, -, last⟩ := (still_expect _).peel h
  obtain ⟨rfl, rfl, rfl⟩ := reads_pure.mp last
  exact added_of_expression built rfl rfl fun _ member => by
    obtain rfl := List.mem_singleton.mp member
    exact reads_expressionUpTo read

theorem builds_jumpStatement {form : Span → Stmt} (declares : ∀ span, (form span).declares = [])
    (expressions : ∀ span, (form span).expressions = []) : Builds (jumpStatement form) := by
  intro c t s c' t' rank built stating h
  obtain ⟨_, c₁, -, h⟩ := still_advance.peel h
  obtain ⟨span, c₂, -, last⟩ := (still_endStatement _).peel h
  obtain ⟨rfl, rfl, rfl⟩ := reads_pure.mp last
  exact added_of_expression built (declares span) (expressions span) fun _ none => by cases none

theorem reads_condition {e : Expr} (h : Reads condition c t e c' t') :
    t' = t ∧ e.excerpt?.isSome = true := by
  obtain ⟨rfl, f, rfl⟩ := still_condition.reads h
  exact ⟨rfl, rfl⟩

theorem builds_ifStatement {statement : Reader Stmt} (builds : Builds statement) :
    Builds (ifStatement statement) := by
  intro c t s c' t' rank built stating h
  obtain ⟨_, c₁, -, h⟩ := still_advance.peel h
  obtain ⟨e, c₂, t₂, read, h₂⟩ := reads_bind.mp h
  obtain ⟨rfl, unread⟩ := reads_condition read
  obtain ⟨onTrue, c₃, t₃, read₃, h₃⟩ := reads_bind.mp h₂
  obtain ⟨rank₁, added⟩ := builds built stating read₃
  obtain ⟨accepted, c₄, -, h₄⟩ := (still_accept _).peel h₃
  have conditional : ∀ e' ∈ [e], e'.excerpt?.isSome = true := fun e' member =>
    List.mem_singleton.mp member ▸ unread
  split at h₄
  · obtain ⟨onFalse, c₅, t₅, read₅, h₅⟩ := reads_bind.mp h₄
    obtain ⟨other, read₆, rfl⟩ := reads_map.mp read₅
    obtain ⟨rank₂, added'⟩ := builds added.built (stating.of_grows built added.grows) read₆
    obtain ⟨_, c₆, -, last⟩ := still_endOfLast.peel h₅
    obtain ⟨rfl, rfl, rfl⟩ := reads_pure.mp last
    exact ⟨rank₂, (added.trans added' built.innermost).aside conditional⟩
  · obtain ⟨onFalse, c₅, none, h₅⟩ := (still_same _).peel h₄
    obtain ⟨rfl, -⟩ := reads_pure.mp none
    obtain ⟨_, c₆, -, last⟩ := still_endOfLast.peel h₅
    obtain ⟨rfl, rfl, rfl⟩ := reads_pure.mp last
    refine ⟨rank₁, Added.aside ?_ conditional⟩
    simpa [Stmt.declares, Stmt.declaresBehindElse, Stmt.expressionsBehindElse] using added

theorem builds_whileStatement {statement : Reader Stmt} (builds : Builds statement) :
    Builds (whileStatement statement) := by
  intro c t s c' t' rank built stating h
  obtain ⟨_, c₁, -, h⟩ := still_advance.peel h
  obtain ⟨e, c₂, t₂, read, h₂⟩ := reads_bind.mp h
  obtain ⟨rfl, unread⟩ := reads_condition read
  obtain ⟨body, c₃, t₃, read₃, h₃⟩ := reads_bind.mp h₂
  obtain ⟨rank₁, added⟩ := builds built stating read₃
  obtain ⟨_, c₄, -, last⟩ := still_endOfLast.peel h₃
  obtain ⟨rfl, rfl, rfl⟩ := reads_pure.mp last
  have condition : ∀ e' ∈ [e], e'.excerpt?.isSome = true :=
    fun e' member => List.mem_singleton.mp member ▸ unread
  exact ⟨rank₁, added.aside condition⟩

theorem builds_statementOf {statement : Reader Stmt} (builds : Builds statement)
    (kind : TokenKind) : Builds (statementOf statement kind) := by
  unfold statementOf
  split
  · exact builds_variableStatement
  · exact builds_definitionStatement builds
  · exact builds_coroutineStatement builds
  · exact builds_classStatement builds _
  · exact builds_classStatement builds _
  · exact builds_superStatement
  · exact builds_blockStatement builds
  · exact builds_returnStatement
  · exact builds_yieldStatement
  · exact builds_ifStatement builds
  · exact builds_whileStatement builds
  · exact builds_jumpStatement (fun _ => rfl) fun _ => rfl
  · exact builds_jumpStatement (fun _ => rfl) fun _ => rfl
  · exact builds_expressionStatement

theorem builds_statementWithin (depth : Nat) : Builds (statementWithin depth) := by
  induction depth with
  | zero =>
    intro c t s c' t' rank _ _ h
    obtain ⟨_, _, -, h⟩ := still_get.peel h
    exact absurd h reads_throw
  | succ depth ih =>
    intro c t s c' t' rank built stating h
    obtain ⟨kind, _, -, h⟩ := still_kind.peel h
    exact builds_statementOf ih kind built stating h

theorem builds_statement : Builds statement := by
  intro c t s c' t' rank built stating h
  obtain ⟨_, _, -, h⟩ := still_get.peel h
  exact builds_statementWithin _ built stating h

end Grammar

/-! ## Units -/

theorem SymbolTable.names_empty (s : ScopeId) : (SymbolTable.empty.scope s).names = [] := by
  obtain ⟨_ | n⟩ := s
  · rfl
  · simp [SymbolTable.empty, SymbolTable.scope, Array.getD_eq_getD_getElem?]
    rfl

theorem SymbolTable.built_empty : SymbolTable.empty.Built fun _ => 0 := by
  have noDecl : ∀ id, SymbolTable.empty.decl id = default := fun id => by
    simp [SymbolTable.empty, SymbolTable.decl, Array.getD_eq_getD_getElem?]
  have noParent : ∀ s, (SymbolTable.empty.scope s).parent = none := by
    rintro ⟨_ | n⟩
    · rfl
    · simp [SymbolTable.empty, SymbolTable.scope, Array.getD_eq_getD_getElem?]
      rfl
  exact
    { sound := ⟨fun id => by rw [noDecl]; trivial, trivial⟩
      ordered := fun s => by rw [names_empty]; exact List.Pairwise.nil
      named := fun d lt => absurd lt (Nat.not_lt_zero _)
      bound := fun {s name d} b => by
        obtain ⟨set, found, -⟩ := b
        rw [names_empty] at found
        cases found
      active := fun s member => by
        obtain rfl := List.mem_singleton.mp member
        exact Nat.zero_lt_one
      global := Nat.zero_lt_one
      scopes := fun d lt => absurd lt (Nat.not_lt_zero _)
      owned := fun known => by cases known
      distinct := fun known => by cases known
      opened := fun known => by cases known
      inside := fun h w member => by rw [noDecl] at member; cases member
      laid :=
        { titled := fun {s name d} b => by
            obtain ⟨set, found, -⟩ := b
            rw [names_empty] at found
            cases found
          parents := fun {s p} parent => by
            rw [IsInside, noParent] at parent
            cases parent
          within := fun known => by cases known
          encloses := fun h w member => by rw [noDecl] at member; cases member
          constants := fun _ known => by cases known
          unread := fun id e member => by rw [noDecl] at member; cases member } }

/-- A unit that has been read: the table has been built, what the unit states lies in the global
scope or in blocks there, and its expressions have been set aside. -/
structure SourceUnit.IsRead (u : SourceUnit) (rank : ScopeId → Nat) (t : SymbolTable) : Prop where
  built : t.Built rank
  placed : u.Placed t
  unread : ∀ e ∈ Stmt.expressionsIn u.body, e.excerpt?.isSome = true
  encloses : ∀ w ∈ Stmt.declaresIn u.body, t.Encloses .global (t.decl w).scope
  active : t.active = [.global]
  global : u.scope = .global
  outermost : (t.scope .global).parent = none

theorem SourceUnit.isRead_read {tokens : List Token} {u : SourceUnit} {t : SymbolTable}
    (h : (SourceUnit.read tokens).run.run SymbolTable.empty = (.ok u, t)) :
    ∃ rank, u.IsRead rank t := by
  obtain ⟨t₁, run, rfl⟩ := Resolution.runs_under.mp h
  rcases Resolution.runs_bind.mp run with ⟨d, -, wrong⟩ | ⟨⟨body, c⟩, t₂, read, last⟩
  · cases wrong
  obtain ⟨same, rfl⟩ := Resolution.runs_pure.mp last
  obtain rfl := Except.ok.inj same
  obtain ⟨rank, added⟩ := Grammar.added_many Grammar.builds_statement
    (built_empty.enter (by exact Nat.zero_lt_one)) (fun _ _ _ none => by cases none) read
  have built := added.built.leave
  refine ⟨rank, built, ⟨fun w member => (added.lies w member).lt, fun w member other owns => ?_⟩,
    added.unread, fun w member => (added.lies w member).encloses,
    congrArg List.tail added.grows.active, rfl, added.grows.parent .global Nat.zero_lt_one⟩
  rcases (added.lies w member).scope with same | ⟨-, b, block⟩
  · exact (built.owned owns).2.2 same
  · cases built.distinct owns block

/-! ## Runs that are computed -/

namespace SourceUnit

variable {β : Type} {tokens : List Token} {t : SymbolTable} {see : SourceUnit → SymbolTable → β} {b : β}

/-- What is seen of the unit that some tokens form, and of the table once it has been read. -/
def seen? (tokens : List Token) (t : SymbolTable) (see : SourceUnit → SymbolTable → β) : Option β :=
  let out := (read tokens).run.run t
  out.1.toOption.map fun u => see u out.2

theorem exists_of_seen? (h : seen? tokens t see = some b) :
    ∃ u t', (read tokens).run.run t = (.ok u, t') ∧ see u t' = b := by
  obtain ⟨u, accepted, same⟩ := map_toOption_eq_some_iff.mp h
  exact ⟨u, _, Prod.ext accepted rfl, same⟩

end SourceUnit

end Deferral
