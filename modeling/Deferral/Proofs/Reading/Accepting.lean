import Deferral.Proofs.Reading.Copying

/-!
# Whatever follows the grammar is read

Tokens that form a statement are read as one, down to the token behind them, from every table.
-/

namespace Deferral

open SymbolTable

/-- The kind of the token that comes next. -/
def nextKind (i : List Token) : TokenKind := (i.head?.map Token.kind).getD .endOfInput

@[simp] theorem nextKind_cons (t : Token) (i : List Token) : nextKind (t :: i) = t.kind := rfl

theorem Cursor.IsScanned.kind_eq {c : Cursor} (scanned : c.IsScanned) :
    c.kind = nextKind c.upcoming := by
  obtain ⟨_ | ⟨t, rest⟩, stop, endOfLast⟩ := c
  · exact scanned.ended
  · rfl

namespace Reader

variable {α β : Type} {i j r : List Token} {k : TokenKind} {token : Token}

/-- Reading takes the tokens that lead from `i` to `r`, wherever they come next. -/
def Takes (x : Reader α) (i r : List Token) : Prop :=
  ∀ ⦃c t⦄, c.IsScanned → c.upcoming = i →
    ∃ a c' t', Reads x c t a c' t' ∧ c'.IsScanned ∧ c'.upcoming = r

theorem takes_pure (a : α) (i : List Token) : Takes (pure a : Reader α) i i :=
  fun c t scanned upcoming => ⟨a, c, t, reads_pure.mpr ⟨rfl, rfl, rfl⟩, scanned, upcoming⟩

theorem Takes.bind {x : Reader α} {f : α → Reader β} (h : Takes x i j) (h' : ∀ a, Takes (f a) j r) :
    Takes (x >>= f) i r := by
  intro c t scanned upcoming
  obtain ⟨a, c₁, t₁, first, scanned₁, upcoming₁⟩ := h scanned upcoming
  obtain ⟨b, c₂, t₂, second, scanned₂, upcoming₂⟩ := h' a scanned₁ upcoming₁
  exact ⟨b, c₂, t₂, reads_bind.mpr ⟨a, c₁, t₁, first, second⟩, scanned₂, upcoming₂⟩

theorem Takes.map {x : Reader α} (h : Takes x i r) (f : α → β) : Takes (f <$> x) i r := by
  rw [map_eq_pure_bind]
  exact h.bind fun a => takes_pure (f a) r

/-- None of the tokens to come ends the input. -/
theorem Takes.of_before {x : Reader α} (h : (∀ t ∈ i, t.kind ≠ .endOfInput) → Takes x i r) :
    Takes x i r :=
  fun _ _ scanned upcoming => h (upcoming ▸ scanned.before) scanned upcoming

theorem takes_bind_get {f : Cursor → Reader β}
    (h : ∀ c : Cursor, c.IsScanned → c.upcoming = i → Takes (f c) i r) : Takes (get >>= f) i r := by
  intro c t scanned upcoming
  obtain ⟨b, c', t', reads, after⟩ := h c scanned upcoming scanned upcoming
  exact ⟨b, c', t', reads_bind.mpr ⟨c, c, t, reads_pure.mpr ⟨rfl, rfl, rfl⟩, reads⟩, after⟩

theorem takes_bind_seen {see : Cursor → α} {f : α → Reader β} (h : ∀ a, Takes (f a) i r) :
    Takes ((see <$> get) >>= f) i r := by
  rw [map_eq_pure_bind, bind_assoc]
  refine takes_bind_get fun c _ _ => ?_
  rw [pure_bind]
  exact h _

theorem takes_bind_kind {f : TokenKind → Reader β} (h : Takes (f (nextKind i)) i r) :
    Takes (kind >>= f) i r := by
  unfold kind
  rw [map_eq_pure_bind, bind_assoc]
  refine takes_bind_get fun c scanned upcoming => ?_
  rwa [pure_bind, scanned.kind_eq, upcoming]

theorem takes_set {c : Cursor} (scanned : c.IsScanned) : Takes (set c : Reader PUnit) i c.upcoming :=
  fun _ t _ _ => ⟨⟨⟩, c, t, Resolution.runs_pure.mpr ⟨rfl, rfl⟩, scanned, rfl⟩

/-! ## Tokens one by one -/

theorem passed_of_upcoming {c : Cursor} (scanned : c.IsScanned) (upcoming : c.upcoming = token :: r) :
    Passed c token.kind c.current c.next ∧ c.next.upcoming = r := by
  have kind : c.kind = token.kind := by rw [scanned.kind_eq, upcoming, nextKind_cons]
  refine ⟨passed_next scanned kind (scanned.before token (upcoming ▸ List.mem_cons_self ..)), ?_⟩
  rw [c.upcoming_next, upcoming, List.tail_cons]

theorem takes_advance : Takes advance (token :: r) r := by
  intro c t scanned upcoming
  obtain ⟨passed, after⟩ := passed_of_upcoming scanned upcoming
  exact ⟨c.current, c.next, t, Resolution.runs_pure.mpr ⟨rfl, rfl⟩, passed.behind, after⟩

theorem takes_expect (same : token.kind = k) : Takes (expect k) (token :: r) r := by
  refine takes_bind_get fun c scanned upcoming => ?_
  obtain ⟨passed, after⟩ := passed_of_upcoming scanned upcoming
  rw [Cursor.expect, if_pos (by rw [scanned.kind_eq, upcoming, nextKind_cons, same])]
  exact (after ▸ takes_set passed.behind).bind fun _ => takes_pure _ r

theorem takes_identifierFor (same : token.kind = .identifier) (purpose : String) :
    Takes (identifierFor purpose) (token :: r) r := by
  refine takes_bind_get fun c scanned upcoming => ?_
  rw [if_pos (by rw [scanned.kind_eq, upcoming, nextKind_cons, same])]
  exact takes_advance

theorem takes_accept_of_eq {f : Bool → Reader β} (same : token.kind = k) (h : Takes (f true) i r) :
    Takes (accept k >>= f) (token :: i) r := by
  unfold accept
  rw [bind_assoc]
  refine takes_bind_kind ?_
  rw [nextKind_cons, if_pos same, bind_assoc]
  exact takes_advance.bind fun _ => by rwa [pure_bind]

theorem takes_accept_of_ne {f : Bool → Reader β} (ne : nextKind i ≠ k) (h : Takes (f false) i r) :
    Takes (accept k >>= f) i r := by
  unfold accept
  rw [bind_assoc]
  refine takes_bind_kind ?_
  rwa [if_neg ne, pure_bind]

/-- A run is set aside if a token that ends it comes next. -/
theorem takes_setAside {ends : List TokenKind} (aside : Aside ends i r) (ended : nextKind r ∈ ends)
    (known : .endOfInput ∉ ends) : Takes (setAside ends) i r := by
  obtain _ | ⟨mark, rest⟩ := r
  · exact absurd ended known
  refine takes_bind_get fun c scanned upcoming => ?_
  obtain ⟨f, c', taken, after, -⟩ := c.setAside_of_aside ended scanned.before (upcoming ▸ aside)
  obtain ⟨run, same, stop, -⟩ := Cursor.aside_of_setAside taken
  obtain ⟨start, last⟩ := Cursor.place_of_setAside taken
  have passed : SetAside ends c f c' := ⟨scanned, run, same, stop, start, last⟩
  rw [taken]
  exact (after ▸ takes_set passed.behind).bind fun _ => takes_pure f _

/-! ## The table -/

theorem takes_look (pick : SymbolTable → α) : Takes (look pick) i i :=
  fun c t scanned upcoming => ⟨_, c, t, reads_look.mpr ⟨rfl, rfl, rfl⟩, scanned, upcoming⟩

theorem takes_change (f : SymbolTable → SymbolTable) : Takes (change f) i i :=
  fun c _ scanned upcoming => ⟨(), c, _, reads_change.mpr ⟨rfl, rfl⟩, scanned, upcoming⟩

theorem takes_declare (name : String) (kind : Declared) (span : Span) :
    Takes (declare name kind span) i i :=
  (takes_look _).bind fun _ => (takes_change _).bind fun _ => takes_pure _ i

theorem takes_newScope (owner : ScopeOwner) : Takes (newScope owner) i i :=
  (takes_look _).bind fun _ => (takes_change _).bind fun _ => takes_pure _ i

theorem takes_takeBlock : Takes takeBlock i i :=
  (takes_look _).bind fun _ => (takes_change _).bind fun _ => takes_pure _ i

theorem Takes.under {x : Reader α} (h : Takes x i r) (scope : ScopeId) : Takes (under scope x) i r := by
  intro c t scanned upcoming
  obtain ⟨a, c', t', reads, after⟩ := h scanned upcoming (t := t.enter scope)
  exact ⟨a, c', t'.leave, reads_under.mpr ⟨t', reads, rfl⟩, after⟩

end Reader

namespace Grammar

open Reader

variable {i j r : List Token} {word name mark colon equals : Token}

theorem takes_typeUpTo {ends : List TokenKind} (aside : Aside ends i r) (ended : nextKind r ∈ ends)
    (known : .endOfInput ∉ ends) : Takes (typeUpTo ends) i r := (takes_setAside aside ended known).map _

theorem takes_expressionUpTo {ends : List TokenKind} (aside : Aside ends i r)
    (ended : nextKind r ∈ ends) (known : .endOfInput ∉ ends) : Takes (expressionUpTo ends) i r :=
  (takes_setAside aside ended known).map _

theorem takes_endStatement (ended : mark.kind = semicolon) (start : Position) :
    Takes (endStatement start) (mark :: r) r := (takes_expect ended).bind fun _ => takes_pure _ r

/-! ## What comes first -/

section First

variable {valueless nearest : Bool}

theorem nextKind_of_block (h : Surface.Block valueless nearest i r) : nextKind i = openCurly := by
  cases h with
  | curly opened _ _ => exact opened

theorem nextKind_of_functionBody (h : Surface.FunctionBody valueless nearest i r) :
    nextKind i ∈ [openCurly, assignment, semicolon] := by
  cases h with
  | block body => simp [nextKind_of_block body]
  | expression assigned _ _ => simp [assigned]
  | absent ended => simp [ended]

theorem nextKind_of_parameter (h : Surface.Parameter i r) : nextKind i = .identifier := by
  cases h with
  | typed named _ _ => exact named

theorem nextKind_of_parameters (h : Surface.Parameters i r) : nextKind i = openParen := by
  cases h with
  | none opened _ => exact opened
  | some opened _ _ _ => exact opened

theorem nextKind_of_moreParameters (h : Surface.MoreParameters i r) (closed : nextKind r = closeParen) :
    nextKind i ∈ [comma, closeParen] := by
  cases h with
  | nil => simp [closed]
  | cons separated _ _ => simp [separated]

theorem isOpening_of_isClosing {k : TokenKind} (closing : k.isClosing = true) :
    k.isOpening = false := by
  unfold TokenKind.isClosing at closing
  split at closing <;> first | rfl | cases closing

/-- No run starts with a closing bracket, nor with what ends it. -/
theorem nextKind_of_aside {ends : List TokenKind} (h : Aside ends i r) :
    (nextKind i).isClosing = false ∧ nextKind i ∉ ends := by
  obtain ⟨_ | ⟨t, ts⟩, run, rfl⟩ := h
  · exact absurd rfl run.nonempty
  obtain ⟨-, first, later⟩ := Balanced.cons.mp run.balanced
  refine ⟨?_, first rfl⟩
  have above : 0 ≤ t.turn := by simpa using later.above [] List.nil_prefix
  cases closing : t.kind.isClosing with
  | false => exact closing
  | true => simp [Token.turn, closing, isOpening_of_isClosing closing] at above

theorem nextKind_of_statement (h : Surface.Statement valueless nearest i r) :
    nextKind i ≠ closeCurly := by
  cases h with
  | block body =>
    rw [nextKind_of_block body]
    decide
  | expression _ aside _ =>
    intro closes
    have := (nextKind_of_aside aside).1
    rw [closes] at this
    cases this
  | callable introduced _ _ _ _ | classDecl introduced _ _ =>
    rw [nextKind_cons]
    rcases introduced with same | same <;> rw [same] <;> decide
  | returningNothing _ introduced _ | returning introduced _ _ | yielding introduced _ _
  | conditional introduced _ _ _ | alternative introduced _ _ _ _ | whileLoop introduced _ _
  | breaking introduced _ | continuing introduced _ | «variable» introduced _ _ _ _
  | initialized introduced _ _ _ _ _ _ | constant introduced _ _ _ _ _ _
  | kindedClass introduced _ _ _ _ | super introduced _ _ _ _ =>
    rw [nextKind_cons, introduced]
    decide

end First

/-! ## Statements -/

/-- Whatever is a statement of at most `n` tokens is read. -/
def Accepting (n : Nat) (statement : Reader Stmt) : Prop :=
  ∀ ⦃i r⦄, i.length ≤ n → Surface.Statement true true i r → Takes statement i r

variable {n : Nat} {statement : Reader Stmt}

theorem takes_manyWithin (accepting : Accepting n statement) {more : TokenKind → Bool}
    (goesOn : ∀ k, k ≠ .endOfInput → k ≠ closeCurly → more k = true) :
    ∀ {bound : Nat} {i r : List Token}, i.length ≤ bound → i.length ≤ n → more (nextKind r) = false →
    Surface.Statements true true i r → Takes (manyWithin more statement bound) i r
  | 0, _, r, _, _, _, .nil => takes_pure [] r
  | 0, i, r, short, _, _, .cons first _ => absurd first.length_lt (by omega)
  | bound + 1, _, r, _, _, ended, .nil => by
    refine takes_bind_kind ?_
    rw [if_neg (by simp [ended])]
    exact takes_pure [] r
  | bound + 1, i, r, short, within, ended, .cons first rest => by
    refine .of_before fun before => takes_bind_kind ?_
    have shorter := first.length_lt
    have begun : nextKind i ≠ .endOfInput := by
      cases i with
      | nil => exact absurd shorter (Nat.not_lt_zero _)
      | cons t _ => exact before t (List.mem_cons_self ..)
    rw [if_pos (goesOn _ begun (nextKind_of_statement first))]
    exact (accepting within first).bind fun _ =>
      (takes_manyWithin accepting goesOn (by omega) (by omega) ended rest).bind fun _ => takes_pure _ r

theorem takes_many (accepting : Accepting n statement) {more : TokenKind → Bool}
    (goesOn : ∀ k, k ≠ .endOfInput → k ≠ closeCurly → more k = true) (within : i.length ≤ n)
    (ended : more (nextKind r) = false) (h : Surface.Statements true true i r) :
    Takes (many more statement) i r :=
  takes_bind_get fun _ _ upcoming =>
    takes_manyWithin accepting goesOn (Nat.le_of_eq (congrArg _ upcoming.symm)) within ended h

theorem takes_blockBody (accepting : Accepting n statement) (within : i.length ≤ n + 1)
    (h : Surface.Block true true i r) : Takes (blockBody statement) i r := by
  cases h with
  | curly opened body closed =>
    rw [List.length_cons] at within
    refine (takes_expect opened).bind fun _ => ?_
    refine (takes_many accepting ?_ (by omega) ?_ body).bind fun _ => ?_
    · exact fun k ne ne' => by simp [ne, ne']
    · simp [closed]
    · exact (takes_expect closed).bind fun _ => takes_pure _ r

theorem takes_blockStatement (accepting : Accepting n statement) (within : i.length ≤ n + 1)
    (h : Surface.Block true true i r) : Takes (blockStatement statement) i r :=
  takes_bind_seen fun _ => takes_takeBlock.bind fun _ => (takes_newScope _).bind fun _ =>
    ((takes_blockBody accepting within h).under _).bind fun _ => takes_bind_seen fun _ => takes_pure _ r

/-! ### Functions and classes -/

theorem takes_parameter (h : Surface.Parameter i r) (ended : nextKind r ∈ [comma, closeParen]) :
    Takes parameter i r := by
  cases h with
  | typed named typed aside =>
    exact (takes_identifierFor named _).bind fun _ => (takes_expect typed).bind fun _ =>
      (takes_typeUpTo aside ended (by decide)).bind fun _ => takes_bind_seen fun _ =>
        takes_declare _ _ _

theorem takes_furtherParameters {more : TokenKind → Bool} (goesOn : more comma = true) :
    ∀ {bound : Nat} {i r : List Token}, i.length ≤ bound → nextKind r = closeParen →
    more (nextKind r) = false → Surface.MoreParameters i r →
    Takes (manyWithin more (do
      let _ ← expect comma
      parameter) bound) i r
  | 0, _, r, _, _, _, .nil => takes_pure [] r
  | 0, _, _, short, _, _, .cons _ _ _ => absurd short (by simp)
  | bound + 1, _, r, _, _, ended, .nil => by
    refine takes_bind_kind ?_
    rw [if_neg (by simp [ended])]
    exact takes_pure [] r
  | bound + 1, _, r, short, closed, ended, .cons separated parameter further => by
    refine takes_bind_kind ?_
    rw [nextKind_cons, separated, if_pos goesOn]
    have shorter := parameter.length_lt
    rw [List.length_cons] at short
    exact ((takes_expect separated).bind fun _ =>
      takes_parameter parameter (nextKind_of_moreParameters further closed)).bind fun _ =>
        (takes_furtherParameters goesOn (by omega) closed ended further).bind fun _ => takes_pure _ r

theorem takes_parameters (h : Surface.Parameters i r) : Takes parameters i r := by
  cases h with
  | none opened closed =>
    refine (takes_expect opened).bind fun _ => takes_bind_kind ?_
    rw [nextKind_cons, if_pos closed, pure_bind]
    exact (takes_expect closed).bind fun _ => takes_pure _ r
  | some opened first further closed =>
    refine (takes_expect opened).bind fun _ => takes_bind_kind ?_
    rw [nextKind_of_parameter first, if_neg (by decide)]
    have ended : nextKind (_ :: r) = closeParen := closed
    refine Takes.bind ?_ fun _ => (takes_expect closed).bind fun _ => takes_pure _ r
    refine (takes_parameter first (nextKind_of_moreParameters further ended)).bind fun _ =>
      Takes.bind ?_ fun _ => takes_pure _ _
    refine takes_bind_get fun c _ upcoming => ?_
    refine takes_furtherParameters (by decide) (Nat.le_of_eq (congrArg _ upcoming.symm)) ended ?_ further
    rw [ended]
    decide

theorem takes_resultType (h : Surface.ResultType i r)
    (ended : nextKind r ∈ [openCurly, assignment, semicolon]) : Takes resultType i r := by
  cases h with
  | implied =>
    refine takes_accept_of_ne (fun arrow => ?_) (takes_pure _ _)
    rw [arrow] at ended
    revert ended
    decide
  | named arrow aside =>
    exact takes_accept_of_eq arrow ((takes_typeUpTo aside ended (by decide)).map _)

theorem takes_functionBody (accepting : Accepting n statement) (within : i.length ≤ n + 1)
    (h : Surface.FunctionBody true true i r) (id : DeclId) :
    Takes (functionBody statement id) i r := by
  refine takes_bind_get fun c scanned upcoming => ?_
  rw [scanned.kind_eq, upcoming]
  cases h with
  | block body =>
    rw [if_pos (nextKind_of_block body)]
    exact (takes_blockStatement accepting within body).map _
  | expression assigned aside ended =>
    rw [nextKind_cons, assigned, if_neg (by decide), if_pos rfl]
    exact takes_advance.bind fun _ => (takes_newScope _).bind fun _ =>
      (takes_expressionUpTo aside (by simp [ended]) (by decide)).bind fun _ =>
        (takes_expect ended).bind fun _ => takes_pure _ r
  | absent ended =>
    rw [nextKind_cons, ended, if_neg (by decide), if_neg (by decide), if_pos rfl]
    exact takes_advance.bind fun _ => takes_pure _ r

theorem takes_functionStatement (accepting : Accepting n statement) {k : List Token}
    (within : i.length ≤ n + 1) (parameters : Surface.Parameters i j)
    (result : Surface.ResultType j k) (body : Surface.FunctionBody true true k r)
    (sort : CallableSort) (start : Position) (name : String) :
    Takes (functionStatement statement sort start name) i r := by
  have shorter := parameters.length_lt
  have shorter' := result.length_le
  have parts (id : DeclId) : Takes (functionParts statement id) i r :=
    (takes_parameters parameters).bind fun _ =>
      (takes_resultType result (nextKind_of_functionBody body)).bind fun _ =>
        (takes_functionBody accepting (by omega) body id).bind fun _ => takes_pure _ r
  exact (takes_declare _ _ _).bind fun _ => (takes_newScope _).bind fun _ =>
    ((parts _).under _).bind fun _ => takes_bind_seen fun _ => (takes_change _).bind fun _ =>
      takes_pure _ r

theorem takes_classStatement (accepting : Accepting n statement) {sort : ClassSort}
    (named : name.kind = .identifier) (kind : Takes (classKind sort) i j)
    (within : j.length ≤ n + 1) (block : Surface.Block true true j r) :
    Takes (classStatement statement sort) (word :: name :: i) r :=
  takes_advance.bind fun _ => (takes_identifierFor named _).bind fun _ => kind.bind fun _ =>
    (takes_declare _ _ _).bind fun _ => (takes_newScope _).bind fun _ =>
      ((takes_blockBody accepting within block).under _).bind fun _ => takes_bind_seen fun _ =>
        (takes_change _).bind fun _ => takes_pure _ r

/-- No kind stands between a name and a block. -/
theorem takes_classKind (h : Surface.Block true true i r) (sort : ClassSort) :
    Takes (classKind sort) i i := by
  unfold classKind
  split
  · refine takes_accept_of_ne ?_ (takes_pure _ i)
    rw [nextKind_of_block h]
    decide
  · exact takes_pure _ i

theorem takes_condition (h : Surface.Condition i r) : Takes condition i r := by
  cases h with
  | bracketed opened aside closed =>
    exact (takes_expect opened).bind fun _ =>
      (takes_expressionUpTo aside (by simp [closed]) (by decide)).bind fun _ =>
        (takes_expect closed).bind fun _ => takes_pure _ r

/-! ### All statements -/

/-! ### Statements by what introduces them -/

theorem takes_returnStatement (aside : Aside [semicolon] i (mark :: r)) (ended : mark.kind = semicolon) :
    Takes returnStatement (word :: i) r := by
  refine takes_advance.bind fun _ => takes_bind_kind ?_
  rw [if_neg fun same => (nextKind_of_aside aside).2 (by simp [same])]
  exact ((takes_expressionUpTo aside (by simp [ended]) (by decide)).map some).bind fun _ =>
    (takes_endStatement ended _).bind fun _ => takes_pure _ r

theorem takes_returnStatement_semicolon (ended : mark.kind = semicolon) :
    Takes returnStatement (word :: mark :: r) r := by
  refine takes_advance.bind fun _ => takes_bind_kind ?_
  rw [nextKind_cons, if_pos ended, pure_bind]
  exact (takes_endStatement ended _).bind fun _ => takes_pure _ r

theorem takes_yieldStatement (aside : Aside [semicolon] i (mark :: r)) (ended : mark.kind = semicolon) :
    Takes yieldStatement (word :: i) r :=
  takes_advance.bind fun _ => (takes_expressionUpTo aside (by simp [ended]) (by decide)).bind fun _ =>
    (takes_endStatement ended _).bind fun _ => takes_pure _ r

theorem takes_jumpStatement (ended : mark.kind = semicolon) (form : Span → Stmt) :
    Takes (jumpStatement form) (word :: mark :: r) r :=
  takes_advance.bind fun _ => (takes_endStatement ended _).bind fun _ => takes_pure _ r

theorem takes_expressionStatement (aside : Aside [semicolon] i (mark :: r))
    (ended : mark.kind = semicolon) : Takes expressionStatement i r :=
  (takes_expressionUpTo aside (by simp [ended]) (by decide)).bind fun _ =>
    (takes_expect ended).bind fun _ => takes_pure _ r

theorem takes_ifStatement (accepting : Accepting n statement) (within : i.length ≤ n)
    (condition : Surface.Condition i j) (onTrue : Surface.Statement true true j r)
    (alone : ∀ t ∈ r.head?, t.kind ≠ .keyword .elseKw) : Takes (ifStatement statement) (word :: i) r := by
  have shorter := condition.length_lt
  refine takes_advance.bind fun _ => (takes_condition condition).bind fun _ =>
    (accepting (by omega) onTrue).bind fun _ => takes_accept_of_ne (fun isElse => ?_) ?_
  · cases r with
    | nil => cases isElse
    | cons next rest => exact alone next rfl isElse
  · exact (takes_pure none r).bind fun _ => takes_bind_seen fun _ => takes_pure _ r

theorem takes_ifStatement_else (accepting : Accepting n statement) (within : i.length ≤ n)
    {other : Token} {k : List Token} (condition : Surface.Condition i j)
    (onTrue : Surface.Statement true true j (other :: k)) (isElse : other.kind = .keyword .elseKw)
    (onFalse : Surface.Statement true true k r) : Takes (ifStatement statement) (word :: i) r := by
  have shorter := condition.length_lt
  have shorter' := onTrue.length_lt
  rw [List.length_cons] at shorter'
  refine takes_advance.bind fun _ => (takes_condition condition).bind fun _ =>
    (accepting (by omega) onTrue).bind fun _ => takes_accept_of_eq isElse ?_
  exact ((accepting (by omega) onFalse).map some).bind fun _ => takes_bind_seen fun _ => takes_pure _ r

theorem takes_whileStatement (accepting : Accepting n statement) (within : i.length ≤ n)
    (condition : Surface.Condition i j) (body : Surface.Statement true true j r) :
    Takes (whileStatement statement) (word :: i) r := by
  have shorter := condition.length_lt
  exact takes_advance.bind fun _ => (takes_condition condition).bind fun _ =>
    (accepting (by omega) body).bind fun _ => takes_bind_seen fun _ => takes_pure _ r

theorem takes_variableStatement (named : name.kind = .identifier) (typed : colon.kind = .mark .colon)
    (aside : Aside [assignment, semicolon] i (mark :: r)) (ended : mark.kind = semicolon) :
    Takes variableStatement (word :: name :: colon :: i) r := by
  refine takes_advance.bind fun _ => (takes_identifierFor named _).bind fun _ =>
    (takes_expect typed).bind fun _ => (takes_typeUpTo aside (by simp [ended]) (by decide)).bind fun _ =>
      takes_accept_of_ne (by rw [nextKind_cons, ended]; decide) ?_
  exact (takes_pure none _).bind fun _ => (takes_endStatement ended _).bind fun _ =>
    (takes_declare _ _ _).bind fun _ => takes_pure _ r

theorem takes_variableStatement_initialized (named : name.kind = .identifier)
    (typed : colon.kind = .mark .colon) (type : Aside [assignment, semicolon] i (equals :: j))
    (assigned : equals.kind = assignment) (value : Aside [semicolon] j (mark :: r))
    (ended : mark.kind = semicolon) : Takes variableStatement (word :: name :: colon :: i) r := by
  refine takes_advance.bind fun _ => (takes_identifierFor named _).bind fun _ =>
    (takes_expect typed).bind fun _ => (takes_typeUpTo type (by simp [assigned]) (by decide)).bind
      fun _ => takes_accept_of_eq assigned ?_
  exact ((takes_expressionUpTo value (by simp [ended]) (by decide)).map some).bind fun _ =>
    (takes_endStatement ended _).bind fun _ => (takes_declare _ _ _).bind fun _ => takes_pure _ r

theorem takes_superStatement (named : name.kind = .identifier) (typed : colon.kind = .mark .colon)
    (aside : Aside [semicolon] i (mark :: r)) (ended : mark.kind = semicolon) :
    Takes superStatement (word :: name :: colon :: i) r :=
  takes_advance.bind fun _ => (takes_identifierFor named _).bind fun _ =>
    (takes_expect typed).bind fun _ => (takes_typeUpTo aside (by simp [ended]) (by decide)).bind fun _ =>
      (takes_endStatement ended _).bind fun _ => (takes_declare _ _ _).bind fun _ => takes_pure _ r

theorem takes_constantStatement (typed : colon.kind = .mark .colon)
    (type : Aside [assignment, semicolon] i (equals :: j)) (assigned : equals.kind = assignment)
    (value : Aside [semicolon] j (mark :: r)) (ended : mark.kind = semicolon) (start : Position)
    (name : String) : Takes (constantStatement start name) (colon :: i) r :=
  (takes_expect typed).bind fun _ => (takes_typeUpTo type (by simp [assigned]) (by decide)).bind
    fun _ => (takes_expect assigned).bind fun _ =>
      (takes_expressionUpTo value (by simp [ended]) (by decide)).bind fun _ =>
        (takes_endStatement ended _).bind fun _ => (takes_declare _ _ _).bind fun _ => takes_pure _ r

theorem takes_definitionStatement_constant (named : name.kind = .identifier)
    (typed : colon.kind = .mark .colon)
    (constant : ∀ start name, Takes (constantStatement start name) (colon :: i) r) :
    Takes (definitionStatement statement) (word :: name :: colon :: i) r := by
  refine takes_advance.bind fun _ => (takes_identifierFor named _).bind fun _ =>
    takes_bind_get fun c scanned upcoming => ?_
  rw [scanned.kind_eq, upcoming, nextKind_cons, typed, if_pos rfl]
  exact constant _ _

theorem takes_definitionStatement_function (named : name.kind = .identifier)
    (opened : nextKind i = openParen)
    (function : ∀ start name, Takes (functionStatement statement .function start name) i r) :
    Takes (definitionStatement statement) (word :: name :: i) r := by
  refine takes_advance.bind fun _ => (takes_identifierFor named _).bind fun _ =>
    takes_bind_get fun c scanned upcoming => ?_
  rw [scanned.kind_eq, upcoming, opened, if_neg (by decide), if_pos rfl]
  exact function _ _

theorem takes_coroutineStatement (named : name.kind = .identifier)
    (function : ∀ start name, Takes (functionStatement statement .coroutine start name) i r) :
    Takes (coroutineStatement statement) (word :: name :: i) r :=
  takes_advance.bind fun _ => (takes_identifierFor named _).bind fun _ => function _ _

/-! ### All statements -/

theorem statementOf_of_not_startsStatement {k : TokenKind} (h : k.startsStatement = false) :
    statementOf statement k = expressionStatement := by
  unfold statementOf
  split
  all_goals first | exact absurd h (by decide) | rfl

theorem takes_statementOf (accepting : Accepting n statement) (within : i.length ≤ n + 1)
    (h : Surface.Statement true true i r) : Takes (statementOf statement (nextKind i)) i r := by
  cases h with
  | block body =>
    rw [nextKind_of_block body]
    exact takes_blockStatement accepting within body
  | returning isReturn aside ended =>
    rw [nextKind_cons, isReturn]
    exact takes_returnStatement aside ended
  | returningNothing _ isReturn ended =>
    rw [nextKind_cons, isReturn]
    exact takes_returnStatement_semicolon ended
  | yielding isYield aside ended =>
    rw [nextKind_cons, isYield]
    exact takes_yieldStatement aside ended
  | conditional isIf condition onTrue alone =>
    rw [nextKind_cons, isIf]
    exact takes_ifStatement accepting (Nat.le_of_succ_le_succ within) condition onTrue (alone rfl)
  | alternative isIf condition onTrue isElse onFalse =>
    rw [nextKind_cons, isIf]
    exact takes_ifStatement_else accepting (Nat.le_of_succ_le_succ within) condition onTrue isElse
      onFalse
  | whileLoop isWhile condition body =>
    rw [nextKind_cons, isWhile]
    exact takes_whileStatement accepting (Nat.le_of_succ_le_succ within) condition body
  | breaking isBreak ended =>
    rw [nextKind_cons, isBreak]
    exact takes_jumpStatement ended .breaking
  | continuing isContinue ended =>
    rw [nextKind_cons, isContinue]
    exact takes_jumpStatement ended .continuing
  | «variable» isVar named typed aside ended =>
    rw [nextKind_cons, isVar]
    exact takes_variableStatement named typed aside ended
  | initialized isVar named typed type assigned value ended =>
    rw [nextKind_cons, isVar]
    exact takes_variableStatement_initialized named typed type assigned value ended
  | constant isDef named typed type assigned value ended =>
    rw [nextKind_cons, isDef]
    exact takes_definitionStatement_constant named typed
      (takes_constantStatement typed type assigned value ended)
  | callable introduced named parameters result body =>
    simp only [List.length_cons] at within
    have function := takes_functionStatement accepting (by omega) parameters result body
    rw [nextKind_cons]
    rcases introduced with isDef | isCoroutine
    · rw [isDef]
      exact takes_definitionStatement_function named (nextKind_of_parameters parameters) (function _)
    · rw [isCoroutine]
      exact takes_coroutineStatement named (function _)
  | classDecl introduced named body =>
    simp only [List.length_cons] at within
    rw [nextKind_cons]
    rcases introduced with isClass | isExtension
    · rw [isClass]
      exact takes_classStatement accepting named (takes_classKind body _) (by omega) body
    · rw [isExtension]
      exact takes_classStatement accepting named (takes_classKind body _) (by omega) body
  | kindedClass isClass named typed aside body =>
    rw [nextKind_cons, isClass]
    have shorter := aside.length_lt
    simp only [List.length_cons] at within
    refine takes_classStatement accepting named (takes_accept_of_eq typed ?_) (by omega) body
    exact takes_typeUpTo aside (by simp [nextKind_of_block body]) (by decide)
  | super isSuper named typed aside ended =>
    rw [nextKind_cons, isSuper]
    exact takes_superStatement named typed aside ended
  | expression other aside ended =>
    rw [statementOf_of_not_startsStatement]
    · exact takes_expressionStatement aside ended
    · cases i with
      | nil => rfl
      | cons t _ => exact other t rfl

theorem accepting_statementWithin (depth : Nat) : Accepting depth (statementWithin depth) := by
  induction depth with
  | zero => exact fun i r short h => absurd h.length_lt (by omega)
  | succ depth ih => exact fun i r short h => takes_bind_kind (takes_statementOf ih short h)

theorem accepting_statement (n : Nat) : Accepting n Grammar.statement := fun _ _ _ h =>
  takes_bind_get fun _ _ upcoming =>
    accepting_statementWithin _ (Nat.le_of_eq (congrArg _ upcoming.symm)) h

end Grammar

end Deferral
