import Deferral.Proofs.Reading.Printing

/-!
# Reading follows the grammar and loses nothing

Whatever a reader passes over forms what the grammar of statements says, and prints as it was from what
has been read.
-/

namespace Deferral

open SymbolTable

variable {c c' : Cursor} {t t' : SymbolTable}

namespace Reader

/-! ## Passing tokens -/

/-- One token of a kind has been passed. -/
structure Passed (c : Cursor) (k : TokenKind) (token : Token) (c' : Cursor) : Prop where
  scanned : c.IsScanned
  kind : token.kind = k
  upcoming : c.upcoming = token :: c'.upcoming
  stop : c'.stop = c.stop
  last : c'.endOfLast = token.span.stop

namespace Passed

variable {k : TokenKind} {token : Token}

theorem copies (h : Passed c k token c') (t : SymbolTable) :
    Copies c t (fun _ _ => [token.piece]) c' t :=
  have passed : c.upcoming = [token] ++ c'.upcoming := h.upcoming
  .of_same rfl h.stop passed

theorem behind (h : Passed c k token c') : c'.IsScanned := (h.copies .empty).scanned h.scanned

theorem spelled (h : Passed c k token c') : token.IsSpelled :=
  h.scanned.spelled token (h.upcoming ▸ List.mem_cons_self ..)

theorem keyword {word : Keyword} (h : Passed c (.keyword word) token c') (t : SymbolTable) :
    Copies c t (fun _ _ => [word.piece]) c' t :=
  Token.piece_of_keyword h.spelled h.kind ▸ h.copies t

theorem mark {mark : Mark} (h : Passed c (.mark mark) token c') (t : SymbolTable) :
    Copies c t (fun _ _ => [mark.piece]) c' t :=
  Token.piece_of_mark h.spelled h.kind ▸ h.copies t

theorem name (h : Passed c .identifier token c') (t : SymbolTable) :
    Copies c t (fun _ _ => [(.identifier, token.text)]) c' t :=
  Token.piece_of_identifier h.kind ▸ h.copies t

end Passed

theorem passed_next (scanned : c.IsScanned) {k : TokenKind} (kind : c.kind = k)
    (ne : k ≠ .endOfInput) : Passed c k c.current c.next := by
  obtain ⟨_ | ⟨token, rest⟩, stop, endOfLast⟩ := c
  · exact absurd (kind.symm.trans scanned.ended) ne
  · exact ⟨scanned, kind, rfl, rfl, rfl⟩

section Peel

variable {β : Type} {b : β} {k : TokenKind}

/-! What a first step passes, and the reading that is left. -/

theorem peel_get {f : Cursor → Reader β} (h : Reads (get >>= f) c t b c' t') :
    Reads (f c) c t b c' t' := by
  obtain ⟨a, c₁, t₁, got, rest⟩ := reads_bind.mp h
  obtain ⟨same, rfl⟩ := Resolution.runs_pure.mp got
  obtain ⟨rfl, rfl⟩ := Prod.mk.inj (Except.ok.inj same)
  exact rest

/-- Something is seen from the cursor. -/
theorem peel_seen {α : Type} {see : Cursor → α} {f : α → Reader β}
    (h : Reads ((see <$> get) >>= f) c t b c' t') : Reads (f (see c)) c t b c' t' := by
  rw [map_eq_pure_bind, bind_assoc] at h
  have rest := peel_get h
  rwa [pure_bind] at rest

theorem peel_set {a : Cursor} {f : PUnit → Reader β} (h : Reads (set a >>= f) c t b c' t') :
    Reads (f ⟨⟩) a t b c' t' := by
  obtain ⟨u, c₁, t₁, moved, rest⟩ := reads_bind.mp h
  obtain ⟨same, rfl⟩ := Resolution.runs_pure.mp moved
  obtain ⟨rfl, rfl⟩ := Prod.mk.inj (Except.ok.inj same)
  exact rest

theorem peel_advance {f : Token → Reader β} (scanned : c.IsScanned) (kind : c.kind = k)
    (ne : k ≠ .endOfInput) (h : Reads (advance >>= f) c t b c' t') :
    ∃ token c₁, Passed c k token c₁ ∧ Reads (f token) c₁ t b c' t' := by
  obtain ⟨token, c₁, t₁, moved, rest⟩ := reads_bind.mp h
  obtain ⟨same, rfl⟩ := Resolution.runs_pure.mp moved
  obtain ⟨rfl, rfl⟩ := Prod.mk.inj (Except.ok.inj same)
  exact ⟨_, _, passed_next scanned kind ne, rest⟩

theorem peel_expect {f : Token → Reader β} (scanned : c.IsScanned) (ne : k ≠ .endOfInput)
    (h : Reads (expect k >>= f) c t b c' t') :
    ∃ token c₁, Passed c k token c₁ ∧ Reads (f token) c₁ t b c' t' := by
  obtain ⟨token, c₁, t₁, passed, rest⟩ := reads_bind.mp h
  have passed := peel_get passed
  unfold Cursor.expect at passed
  split at passed
  · rename_i taken
    split at taken
    · rename_i kind
      obtain ⟨rfl, rfl⟩ := Prod.mk.inj (Except.ok.inj taken)
      have last := peel_set passed
      obtain ⟨rfl, rfl, rfl⟩ := reads_pure.mp last
      exact ⟨_, _, passed_next scanned kind ne, rest⟩
    · cases taken
  · exact absurd passed reads_throw

theorem peel_accept {f : Bool → Reader β} (scanned : c.IsScanned) (ne : k ≠ .endOfInput)
    (h : Reads (accept k >>= f) c t b c' t') :
    (∃ token c₁, Passed c k token c₁ ∧ Reads (f true) c₁ t b c' t') ∨
      (c.kind ≠ k ∧ Reads (f false) c t b c' t') := by
  obtain ⟨_, _, _, accepted, rest⟩ := reads_bind.mp h
  have accepted := peel_seen accepted
  split at accepted
  · rename_i kind
    obtain ⟨token, c₁, passed, last⟩ := peel_advance scanned kind ne accepted
    obtain ⟨rfl, rfl, rfl⟩ := reads_pure.mp last
    exact .inl ⟨token, _, passed, rest⟩
  · rename_i other
    obtain ⟨rfl, rfl, rfl⟩ := reads_pure.mp accepted
    exact .inr ⟨other, rest⟩

theorem peel_identifierFor {f : Token → Reader β} {purpose : String} (scanned : c.IsScanned)
    (h : Reads (identifierFor purpose >>= f) c t b c' t') :
    ∃ token c₁, Passed c .identifier token c₁ ∧ Reads (f token) c₁ t b c' t' := by
  obtain ⟨_, _, _, named, rest⟩ := reads_bind.mp h
  have named := peel_get named
  split at named
  · rename_i kind
    exact peel_advance scanned kind (by decide) (reads_bind.mpr ⟨_, _, _, named, rest⟩)
  · exact absurd named reads_throw

theorem peel_change {f : Unit → Reader β} {g : SymbolTable → SymbolTable}
    (h : Reads (change g >>= f) c t b c' t') : Reads (f ()) c (g t) b c' t' := by
  obtain ⟨_, _, _, changed, rest⟩ := reads_bind.mp h
  obtain ⟨rfl, rfl⟩ := reads_change.mp changed
  exact rest

theorem peel_declare {f : DeclId → Reader β} {name : String} {kind : Declared} {span : Span}
    (h : Reads (declare name kind span >>= f) c t b c' t') :
    Reads (f t.nextDecl) c (t.declare { name, kind, scope := t.innermost, span }) b c' t' := by
  obtain ⟨id, c₁, t₁, declared, rest⟩ := reads_bind.mp h
  obtain ⟨_, _, _, looked, adding⟩ := reads_bind.mp declared
  obtain ⟨rfl, rfl, rfl⟩ := reads_look.mp looked
  have last := peel_change adding
  obtain ⟨rfl, rfl, rfl⟩ := reads_pure.mp last
  exact rest

/-- A scope is made, which no declaration knows of. -/
theorem peel_newScope {f : ScopeId → Reader β} {owner : ScopeOwner}
    (h : Reads (newScope owner >>= f) c t b c' t') :
    ∃ s t₁, t₁.decls = t.decls ∧ Reads (f s) c t₁ b c' t' := by
  obtain ⟨id, c₁, t₁, made, rest⟩ := reads_bind.mp h
  obtain ⟨_, _, _, looked, adding⟩ := reads_bind.mp made
  obtain ⟨rfl, rfl, rfl⟩ := reads_look.mp looked
  have last := peel_change adding
  obtain ⟨rfl, rfl, rfl⟩ := reads_pure.mp last
  refine ⟨_, _, ?_, rest⟩
  rfl

theorem peel_takeBlock {f : Nat → Reader β} (h : Reads (takeBlock >>= f) c t b c' t') :
    ∃ n t₁, t₁.decls = t.decls ∧ Reads (f n) c t₁ b c' t' := by
  obtain ⟨id, c₁, t₁, made, rest⟩ := reads_bind.mp h
  obtain ⟨_, _, _, looked, adding⟩ := reads_bind.mp made
  obtain ⟨rfl, rfl, rfl⟩ := reads_look.mp looked
  have last := peel_change adding
  obtain ⟨rfl, rfl, rfl⟩ := reads_pure.mp last
  refine ⟨_, _, ?_, rest⟩
  rfl

end Peel

/-! ## Setting tokens aside -/

/-- A run has been set aside. -/
structure SetAside (ends : List TokenKind) (c : Cursor) (f : Excerpt) (c' : Cursor) : Prop where
  scanned : c.IsScanned
  run : IsRun ends f.tokens
  upcoming : c.upcoming = f.tokens ++ c'.upcoming
  stop : c'.stop = c.stop
  start : f.position = c.position
  last : ∃ t, f.tokens.getLast? = some t ∧ c'.endOfLast = t.span.stop

namespace SetAside

variable {ends : List TokenKind} {f : Excerpt}

theorem copies (h : SetAside ends c f c') (t : SymbolTable) :
    Copies c t (fun _ _ => f.pieces) c' t := .of_same rfl h.stop h.upcoming

theorem behind (h : SetAside ends c f c') : c'.IsScanned := (h.copies .empty).scanned h.scanned

theorem aside (h : SetAside ends c f c') : Aside ends c.upcoming c'.upcoming :=
  ⟨f.tokens, h.run, h.upcoming⟩

/-- A run up to a token that has been passed. -/
theorem upTo {c'' : Cursor} {k : TokenKind} {mark : Token} (h : SetAside ends c f c')
    (passed : Passed c' k mark c'') : Aside ends c.upcoming (mark :: c''.upcoming) :=
  passed.upcoming ▸ h.aside

end SetAside

theorem reads_setAside {ends : List TokenKind} {f : Excerpt} (scanned : c.IsScanned)
    (h : Reads (setAside ends) c t f c' t') : SetAside ends c f c' ∧ t' = t := by
  have rest := peel_get h
  split at rest
  · rename_i out taken
    have last := peel_set rest
    obtain ⟨rfl, rfl, rfl⟩ := reads_pure.mp last
    obtain ⟨run, upcoming, stop, -⟩ := Cursor.aside_of_setAside taken
    obtain ⟨start, last⟩ := Cursor.place_of_setAside taken
    exact ⟨⟨scanned, run, upcoming, stop, start, last⟩, rfl⟩
  · exact absurd rest reads_throw

end Reader

/-! ## Statements -/

namespace Grammar

open Reader

/-- What has been passed is a statement, and prints as the one that has been read. -/
structure Copied (c : Cursor) (t : SymbolTable) (s : Stmt) (c' : Cursor) (t' : SymbolTable) :
    Prop where
  grammar : Surface.Statement true true c.upcoming c'.upcoming
  copies : Copies c t (fun T level => s.pieces (T.shows level)) c' t'

/-- A reader of statements that follows the grammar and loses nothing. -/
def Copying (statement : Reader Stmt) : Prop :=
  ∀ ⦃c t s c' t'⦄, c.IsScanned → Reads statement c t s c' t' → Copied c t s c' t'

section Parts

variable {β : Type} {b : β}

theorem peel_typeUpTo {ends : List TokenKind} {f : Ty → Reader β} (scanned : c.IsScanned)
    (h : Reads (typeUpTo ends >>= f) c t b c' t') :
    ∃ e c₁, SetAside ends c e c₁ ∧ Reads (f (.deferred e)) c₁ t b c' t' := by
  obtain ⟨_, c₁, t₁, read, rest⟩ := reads_bind.mp h
  obtain ⟨e, taken, rfl⟩ := reads_map.mp read
  obtain ⟨aside, rfl⟩ := reads_setAside scanned taken
  exact ⟨e, c₁, aside, rest⟩

theorem peel_expressionUpTo {ends : List TokenKind} {f : Expr → Reader β} (scanned : c.IsScanned)
    (h : Reads (expressionUpTo ends >>= f) c t b c' t') :
    ∃ e c₁, SetAside ends c e c₁ ∧ Reads (f (.deferred e)) c₁ t b c' t' := by
  obtain ⟨_, c₁, t₁, read, rest⟩ := reads_bind.mp h
  obtain ⟨e, taken, rfl⟩ := reads_map.mp read
  obtain ⟨aside, rfl⟩ := reads_setAside scanned taken
  exact ⟨e, c₁, aside, rest⟩

theorem peel_endStatement {start : Position} {f : Span → Reader β} (scanned : c.IsScanned)
    (h : Reads (endStatement start >>= f) c t b c' t') :
    ∃ mark c₁, Passed c semicolon mark c₁ ∧ Reads (f ⟨start, mark.span.stop⟩) c₁ t b c' t' := by
  obtain ⟨_, c₁, t₁, ended, rest⟩ := reads_bind.mp h
  obtain ⟨mark, c₂, passed, last⟩ := peel_expect scanned (by decide) ended
  obtain ⟨rfl, rfl, rfl⟩ := reads_pure.mp last
  exact ⟨mark, _, passed, rest⟩

end Parts

theorem copied_variableStatement {s : Stmt} (scanned : c.IsScanned)
    (kind : c.kind = .keyword .varKw) (h : Reads variableStatement c t s c' t') :
    Copied c t s c' t' := by
  obtain ⟨word, c₁, isVar, h⟩ := peel_advance scanned kind (by decide) h
  obtain ⟨name, c₂, named, h⟩ := peel_identifierFor isVar.behind h
  obtain ⟨colon, c₃, typed, h⟩ := peel_expect named.behind (by decide) h
  obtain ⟨f, c₄, type, h⟩ := peel_typeUpTo typed.behind h
  rcases peel_accept type.behind (by decide) h with ⟨equals, c₅, assigned, h⟩ | ⟨-, h⟩
  · simp only [if_true, map_eq_pure_bind, bind_assoc, pure_bind] at h
    obtain ⟨e, c₆, init, h⟩ := peel_expressionUpTo assigned.behind h
    obtain ⟨mark, c₇, ended, h⟩ := peel_endStatement init.behind h
    have last := peel_declare h
    obtain ⟨rfl, rfl, rfl⟩ := reads_pure.mp last
    refine ⟨?_, Copies.declare ((isVar.keyword _).trans ((named.name _).trans ((typed.mark _).trans
      ((type.copies _).trans ((assigned.mark _).trans ((init.copies _).trans (ended.mark _)))))))
      fun _ _ => rfl⟩
    rw [isVar.upcoming, named.upcoming, typed.upcoming]
    exact .initialized isVar.kind named.kind typed.kind (type.upTo assigned) assigned.kind
      (init.upTo ended) ended.kind
  · simp only [Bool.false_eq_true, if_false, pure_bind] at h
    obtain ⟨mark, c₅, ended, h⟩ := peel_endStatement type.behind h
    have last := peel_declare h
    obtain ⟨rfl, rfl, rfl⟩ := reads_pure.mp last
    refine ⟨?_, Copies.declare ((isVar.keyword _).trans ((named.name _).trans ((typed.mark _).trans
      ((type.copies _).trans (ended.mark _))))) fun _ _ => rfl⟩
    rw [isVar.upcoming, named.upcoming, typed.upcoming]
    exact .variable isVar.kind named.kind typed.kind (type.upTo ended) ended.kind

theorem copied_superStatement {s : Stmt} (scanned : c.IsScanned)
    (kind : c.kind = .keyword .superKw) (h : Reads superStatement c t s c' t') :
    Copied c t s c' t' := by
  obtain ⟨word, c₁, isSuper, h⟩ := peel_advance scanned kind (by decide) h
  obtain ⟨name, c₂, named, h⟩ := peel_identifierFor isSuper.behind h
  obtain ⟨colon, c₃, typed, h⟩ := peel_expect named.behind (by decide) h
  obtain ⟨f, c₄, type, h⟩ := peel_typeUpTo typed.behind h
  obtain ⟨mark, c₅, ended, h⟩ := peel_endStatement type.behind h
  have last := peel_declare h
  obtain ⟨rfl, rfl, rfl⟩ := reads_pure.mp last
  refine ⟨?_, Copies.declare ((isSuper.keyword _).trans ((named.name _).trans ((typed.mark _).trans
    ((type.copies _).trans (ended.mark _))))) fun _ _ => rfl⟩
  rw [isSuper.upcoming, named.upcoming, typed.upcoming]
  exact .super isSuper.kind named.kind typed.kind (type.upTo ended) ended.kind

/-- A constant, behind the keyword and the name that have been passed. -/
theorem copied_constantStatement {s : Stmt} {c₁ c₂ : Cursor} {word name : Token} {start : Position}
    (isDef : Passed c (.keyword .defKw) word c₁) (named : Passed c₁ .identifier name c₂)
    (h : Reads (constantStatement start name.text) c₂ t s c' t') : Copied c t s c' t' := by
  obtain ⟨colon, c₃, typed, h⟩ := peel_expect named.behind (by decide) h
  obtain ⟨f, c₄, type, h⟩ := peel_typeUpTo typed.behind h
  obtain ⟨equals, c₅, assigned, h⟩ := peel_expect type.behind (by decide) h
  obtain ⟨e, c₆, init, h⟩ := peel_expressionUpTo assigned.behind h
  obtain ⟨mark, c₇, ended, h⟩ := peel_endStatement init.behind h
  have last := peel_declare h
  obtain ⟨rfl, rfl, rfl⟩ := reads_pure.mp last
  refine ⟨?_, Copies.declare ((isDef.keyword _).trans ((named.name _).trans ((typed.mark _).trans
    ((type.copies _).trans ((assigned.mark _).trans ((init.copies _).trans (ended.mark _)))))))
    fun _ _ => rfl⟩
  rw [isDef.upcoming, named.upcoming, typed.upcoming]
  exact .constant isDef.kind named.kind typed.kind (type.upTo assigned) assigned.kind
    (init.upTo ended) ended.kind

/-! ### Statements without declarations -/

theorem copied_returnStatement {s : Stmt} (scanned : c.IsScanned)
    (kind : c.kind = .keyword .returnKw) (h : Reads returnStatement c t s c' t') :
    Copied c t s c' t' := by
  obtain ⟨word, c₁, isReturn, h⟩ := peel_advance scanned kind (by decide) h
  have h := peel_seen h
  split at h
  · simp only [pure_bind] at h
    obtain ⟨mark, c₃, ended, last⟩ := peel_endStatement isReturn.behind h
    obtain ⟨rfl, rfl, rfl⟩ := reads_pure.mp last
    refine ⟨?_, (isReturn.keyword _).trans (ended.mark _)⟩
    rw [isReturn.upcoming, ended.upcoming]
    exact .returningNothing rfl isReturn.kind ended.kind
  · simp only [map_eq_pure_bind, bind_assoc, pure_bind] at h
    obtain ⟨e, c₃, value, h⟩ := peel_expressionUpTo isReturn.behind h
    obtain ⟨mark, c₄, ended, last⟩ := peel_endStatement value.behind h
    obtain ⟨rfl, rfl, rfl⟩ := reads_pure.mp last
    refine ⟨?_, (isReturn.keyword _).trans ((value.copies _).trans (ended.mark _))⟩
    rw [isReturn.upcoming]
    exact .returning isReturn.kind (value.upTo ended) ended.kind

theorem copied_yieldStatement {s : Stmt} (scanned : c.IsScanned)
    (kind : c.kind = .keyword .yieldKw) (h : Reads yieldStatement c t s c' t') :
    Copied c t s c' t' := by
  obtain ⟨word, c₁, isYield, h⟩ := peel_advance scanned kind (by decide) h
  obtain ⟨e, c₂, value, h⟩ := peel_expressionUpTo isYield.behind h
  obtain ⟨mark, c₃, ended, last⟩ := peel_endStatement value.behind h
  obtain ⟨rfl, rfl, rfl⟩ := reads_pure.mp last
  refine ⟨?_, (isYield.keyword _).trans ((value.copies _).trans (ended.mark _))⟩
  rw [isYield.upcoming]
  exact .yielding isYield.kind (value.upTo ended) ended.kind

theorem copied_expressionStatement {s : Stmt} (scanned : c.IsScanned)
    (other : c.kind.startsStatement = false) (h : Reads expressionStatement c t s c' t') :
    Copied c t s c' t' := by
  obtain ⟨e, c₁, value, h⟩ := peel_expressionUpTo scanned h
  obtain ⟨mark, c₂, ended, last⟩ := peel_expect value.behind (by decide) h
  obtain ⟨rfl, rfl, rfl⟩ := reads_pure.mp last
  refine ⟨.expression (fun first head => ?_) (value.upTo ended) ended.kind,
    (value.copies _).trans (ended.mark _)⟩
  rwa [Cursor.kind, Cursor.current, Option.mem_def.mp head] at other

/-- A keyword and a semicolon. -/
theorem copied_jumpStatement {s : Stmt} {form : Span → Stmt} {word : Keyword}
    (scanned : c.IsScanned) (kind : c.kind = .keyword word)
    (grammar : ∀ {first mark : Token} {r : List Token}, first.kind = .keyword word →
      mark.kind = semicolon → Surface.Statement true true (first :: mark :: r) r)
    (pieces : ∀ shows span, (form span).pieces shows = [word.piece, Mark.semicolon.piece])
    (h : Reads (jumpStatement form) c t s c' t') : Copied c t s c' t' := by
  obtain ⟨first, c₁, introduced, h⟩ := peel_advance scanned kind TokenKind.noConfusion h
  obtain ⟨mark, c₂, ended, last⟩ := peel_endStatement introduced.behind h
  obtain ⟨rfl, rfl, rfl⟩ := reads_pure.mp last
  refine ⟨?_, ((introduced.keyword _).trans (ended.mark _)).congr fun _ _ => (pieces ..).symm⟩
  rw [introduced.upcoming, ended.upcoming]
  exact grammar introduced.kind ended.kind

/-! ### Sequences and blocks -/

theorem copied_manyWithin {statement : Reader Stmt} (copying : Copying statement)
    (more : TokenKind → Bool) : ∀ (bound : Nat) {c c' : Cursor} {t t' : SymbolTable}
    {body : List Stmt}, c.IsScanned → Reads (manyWithin more statement bound) c t body c' t' →
    Surface.Statements true true c.upcoming c'.upcoming ∧
      Copies c t (fun T level => Stmt.piecesIn (T.shows level) body) c' t'
  | 0, _, _, _, _, _, _, h => by
    obtain ⟨rfl, rfl, rfl⟩ := reads_pure.mp h
    exact ⟨.nil, .refl _ _⟩
  | bound + 1, _, _, _, _, _, scanned, h => by
    have h := peel_seen h
    split at h
    · obtain ⟨s, c₁, t₁, first, rest⟩ := reads_bind.mp h
      have copied := copying scanned first
      obtain ⟨others, c₂, t₂, second, last⟩ := reads_bind.mp rest
      obtain ⟨grammar, copies⟩ :=
        copied_manyWithin copying more bound (copied.copies.scanned scanned) second
      obtain ⟨rfl, rfl, rfl⟩ := reads_pure.mp last
      exact ⟨.cons copied.grammar grammar, copied.copies.trans copies⟩
    · obtain ⟨rfl, rfl, rfl⟩ := reads_pure.mp h
      exact ⟨.nil, .refl _ _⟩

theorem copied_blockBody {statement : Reader Stmt} (copying : Copying statement)
    {body : List Stmt} (scanned : c.IsScanned) (h : Reads (blockBody statement) c t body c' t') :
    Surface.Block true true c.upcoming c'.upcoming ∧
      Copies c t (fun T level => Mark.openCurly.piece ::
        (Stmt.piecesIn (T.shows level) body ++ [Mark.closeCurly.piece])) c' t' := by
  obtain ⟨left, c₁, opened, h⟩ := peel_expect scanned (by decide) h
  obtain ⟨body', c₂, t₂, read, h⟩ := reads_bind.mp h
  have read := peel_get read
  obtain ⟨statements, copies⟩ := copied_manyWithin copying _ _ opened.behind read
  obtain ⟨right, c₃, closed, last⟩ := peel_expect (copies.scanned opened.behind) (by decide) h
  obtain ⟨rfl, rfl, rfl⟩ := reads_pure.mp last
  refine ⟨?_, (opened.mark _).trans (copies.trans (closed.mark _))⟩
  rw [opened.upcoming]
  exact .curly opened.kind (closed.upcoming ▸ statements) closed.kind

theorem copied_blockStatement {statement : Reader Stmt} (copying : Copying statement) {s : Stmt}
    (scanned : c.IsScanned) (h : Reads (blockStatement statement) c t s c' t') :
    Surface.Block true true c.upcoming c'.upcoming ∧
      Copies c t (fun T level => s.pieces (T.shows level)) c' t' := by
  have h := peel_seen h
  obtain ⟨b, t₁, same₁, h⟩ := peel_takeBlock h
  obtain ⟨scope, t₂, same₂, h⟩ := peel_newScope h
  obtain ⟨body, c₁, t₃, read, h⟩ := reads_bind.mp h
  obtain ⟨t₄, inside, rfl⟩ := reads_under.mp read
  obtain ⟨grammar, copies⟩ := copied_blockBody copying scanned inside
  have last := peel_seen h
  obtain ⟨rfl, rfl, rfl⟩ := reads_pure.mp last
  exact ⟨grammar, copies.of_decls (same₂.trans same₁).symm rfl⟩

/-! ### Functions -/

theorem copied_parameter {id : DeclId} (scanned : c.IsScanned) (h : Reads parameter c t id c' t') :
    Surface.Parameter c.upcoming c'.upcoming ∧ Copies c t (fun T level => T.shows level id) c' t' := by
  obtain ⟨name, c₁, named, h⟩ := peel_identifierFor scanned h
  obtain ⟨colon, c₂, typed, h⟩ := peel_expect named.behind (by decide) h
  obtain ⟨f, c₃, type, h⟩ := peel_typeUpTo typed.behind h
  have h := peel_seen h
  rw [← bind_pure (declare _ _ _)] at h
  have last := peel_declare h
  obtain ⟨rfl, rfl, rfl⟩ := reads_pure.mp last
  refine ⟨?_, Copies.declare ((named.name _).trans ((typed.mark _).trans (type.copies _)))
    fun _ _ => rfl⟩
  rw [named.upcoming, typed.upcoming]
  exact .typed named.kind typed.kind type.aside

/-- Further parameters with a comma in front of each. -/
theorem copied_furtherParameters (more : TokenKind → Bool) : ∀ (bound : Nat) {c c' : Cursor}
    {t t' : SymbolTable} {ids : List DeclId}, c.IsScanned →
    Reads (manyWithin more (do
      let _ ← expect comma
      parameter) bound) c t ids c' t' →
    Surface.MoreParameters c.upcoming c'.upcoming ∧
      Copies c t (fun T level => ids.flatMap fun id => Mark.comma.piece :: T.shows level id) c' t'
  | 0, _, _, _, _, _, _, h => by
    obtain ⟨rfl, rfl, rfl⟩ := reads_pure.mp h
    exact ⟨.nil, .refl _ _⟩
  | bound + 1, _, _, _, _, _, scanned, h => by
    have h := peel_seen h
    split at h
    · obtain ⟨id, c₁, t₁, first, rest⟩ := reads_bind.mp h
      obtain ⟨mark, c₂, separated, first⟩ := peel_expect scanned (by decide) first
      obtain ⟨parameter, copies⟩ := copied_parameter separated.behind first
      obtain ⟨others, c₃, t₃, second, last⟩ := reads_bind.mp rest
      obtain ⟨further, copies'⟩ :=
        copied_furtherParameters more bound (copies.scanned separated.behind) second
      obtain ⟨rfl, rfl, rfl⟩ := reads_pure.mp last
      refine ⟨?_, ((separated.mark _).trans copies).trans copies'⟩
      rw [separated.upcoming]
      exact .cons separated.kind parameter further
    · obtain ⟨rfl, rfl, rfl⟩ := reads_pure.mp h
      exact ⟨.nil, .refl _ _⟩

theorem copied_parameters {ids : List DeclId} (scanned : c.IsScanned)
    (h : Reads parameters c t ids c' t') :
    Surface.Parameters c.upcoming c'.upcoming ∧
      Copies c t (fun T level => Mark.openParen.piece ::
        (parameterPieces (T.shows level) ids ++ [Mark.closeParen.piece])) c' t' := by
  obtain ⟨left, c₁, opened, h⟩ := peel_expect scanned (by decide) h
  have h := peel_seen h
  split at h
  · rw [pure_bind] at h
    obtain ⟨right, c₂, closed, last⟩ := peel_expect opened.behind (by decide) h
    obtain ⟨rfl, rfl, rfl⟩ := reads_pure.mp last
    refine ⟨?_, (opened.mark _).trans (closed.mark _)⟩
    rw [opened.upcoming, closed.upcoming]
    exact .none opened.kind closed.kind
  · obtain ⟨all, c₂, t₂, read, h⟩ := reads_bind.mp h
    obtain ⟨first, c₃, t₃, read₁, rest⟩ := reads_bind.mp read
    obtain ⟨parameter, copies⟩ := copied_parameter opened.behind read₁
    obtain ⟨others, c₄, t₄, read₂, last⟩ := reads_bind.mp rest
    have read₂ := peel_get read₂
    have scanned₁ := copies.scanned opened.behind
    obtain ⟨further, copies'⟩ := copied_furtherParameters _ _ scanned₁ read₂
    obtain ⟨rfl, rfl, rfl⟩ := reads_pure.mp last
    obtain ⟨right, c₅, closed, last⟩ := peel_expect (copies'.scanned scanned₁) (by decide) h
    obtain ⟨rfl, rfl, rfl⟩ := reads_pure.mp last
    refine ⟨?_, (opened.mark _).trans ((copies.trans copies').trans (closed.mark _))⟩
    rw [opened.upcoming]
    exact .some opened.kind parameter (closed.upcoming ▸ further) closed.kind

theorem copied_resultType {result : Option Ty} (scanned : c.IsScanned)
    (h : Reads resultType c t result c' t') {implied : Ty} (unwritten : implied.piecesBehind .arrow = []) :
    Surface.ResultType c.upcoming c'.upcoming ∧
      Copies c t (fun _ _ => (result.getD implied).piecesBehind .arrow) c' t' := by
  rcases peel_accept scanned (by decide) h with ⟨arrow, c₁, named, h⟩ | ⟨-, h⟩
  · simp only [if_true, map_eq_pure_bind] at h
    obtain ⟨f, c₂, type, last⟩ := peel_typeUpTo named.behind h
    obtain ⟨rfl, rfl, rfl⟩ := reads_pure.mp last
    refine ⟨?_, (named.mark _).trans (type.copies _)⟩
    rw [named.upcoming]
    exact .named named.kind type.aside
  · obtain ⟨rfl, rfl, rfl⟩ := reads_pure.mp h
    exact ⟨.implied, (Copies.refl _ _).congr fun _ _ => unwritten.symm⟩

theorem copied_functionBody {statement : Reader Stmt} (copying : Copying statement) {id : DeclId}
    {body : Body} (scanned : c.IsScanned) (h : Reads (functionBody statement id) c t body c' t') :
    Surface.FunctionBody true true c.upcoming c'.upcoming ∧
      Copies c t (fun T level => body.pieces (T.shows level)) c' t' := by
  have h := peel_get h
  split at h
  · obtain ⟨s, read, rfl⟩ := reads_map.mp h
    obtain ⟨grammar, copies⟩ := copied_blockStatement copying scanned read
    exact ⟨.block grammar, copies⟩
  split at h
  · rename_i kind
    obtain ⟨equals, c₁, assigned, h⟩ := peel_advance scanned kind (by decide) h
    obtain ⟨scope, t₁, same, h⟩ := peel_newScope h
    obtain ⟨e, c₂, value, h⟩ := peel_expressionUpTo assigned.behind h
    obtain ⟨mark, c₃, ended, last⟩ := peel_expect value.behind (by decide) h
    obtain ⟨rfl, rfl, rfl⟩ := reads_pure.mp last
    refine ⟨?_, ((assigned.mark _).trans ((value.copies _).trans (ended.mark _))).of_decls same.symm rfl⟩
    rw [assigned.upcoming]
    exact .expression assigned.kind (value.upTo ended) ended.kind
  split at h
  · rename_i kind
    obtain ⟨mark, c₁, ended, last⟩ := peel_advance scanned kind (by decide) h
    obtain ⟨rfl, rfl, rfl⟩ := reads_pure.mp last
    refine ⟨?_, ended.mark _⟩
    rw [ended.upcoming]
    exact .absent ended.kind
  · exact absurd h reads_throw

theorem piecesBehind_impliedResult (mark : Mark) (body : Body) :
    (impliedResult body).piecesBehind mark = [] := by
  cases body <;> rfl

theorem copied_functionParts {statement : Reader Stmt} (copying : Copying statement) {id : DeclId}
    {callable : Callable} (scanned : c.IsScanned)
    (h : Reads (functionParts statement id) c t callable c' t') :
    (∃ j k, Surface.Parameters c.upcoming j ∧ Surface.ResultType j k ∧
      Surface.FunctionBody true true k c'.upcoming) ∧
      Copies c t (fun T level => callable.pieces (T.shows level)) c' t' := by
  obtain ⟨ids, c₁, t₁, read₁, h⟩ := reads_bind.mp h
  obtain ⟨parameters, copies₁⟩ := copied_parameters scanned read₁
  have scanned₁ := copies₁.scanned scanned
  obtain ⟨result, c₂, t₂, read₂, h⟩ := reads_bind.mp h
  obtain ⟨body, c₃, t₃, read₃, last⟩ := reads_bind.mp h
  obtain ⟨type, copies₂⟩ := copied_resultType scanned₁ read₂ (piecesBehind_impliedResult .arrow body)
  obtain ⟨form, copies₃⟩ := copied_functionBody copying (copies₂.scanned scanned₁) read₃
  obtain ⟨rfl, rfl, rfl⟩ := reads_pure.mp last
  refine ⟨⟨_, _, parameters, type, form⟩, (copies₁.trans (copies₂.trans copies₃)).congr fun T level => ?_⟩
  simp [Callable.pieces]

/-- A function, behind the keyword and the name that have been passed. -/
theorem copied_functionStatement {statement : Reader Stmt} (copying : Copying statement)
    {sort : CallableSort} {s : Stmt} {c₁ c₂ : Cursor} {k : Keyword} {word name : Token}
    {start : Position} (introduced : Passed c (.keyword k) word c₁)
    (named : Passed c₁ .identifier name c₂) (isKeyword : k = .defKw ∨ k = .coroutineKw)
    (keyword : ∀ callable, (Declared.callable sort callable).keyword? = some k)
    (h : Reads (functionStatement statement sort start name.text) c₂ t s c' t') :
    Copied c t s c' t' := by
  have h := peel_declare h
  obtain ⟨scope, t₁, same, h⟩ := peel_newScope h
  obtain ⟨callable, c₃, t₂, read, h⟩ := reads_bind.mp h
  obtain ⟨t₃, inside, rfl⟩ := reads_under.mp read
  obtain ⟨⟨j, k, parameters, result, body⟩, copies⟩ := copied_functionParts copying named.behind inside
  have h := peel_seen h
  have last := peel_change h
  obtain ⟨rfl, rfl, rfl⟩ := reads_pure.mp last
  refine ⟨?_, Copies.define ((introduced.keyword _).trans ((named.name _).trans copies)) same
    fun T level => ?_⟩
  · rw [introduced.upcoming, named.upcoming]
    refine .callable ?_ named.kind parameters result body
    rw [introduced.kind]
    exact isKeyword.imp (congrArg _) (congrArg _)
  · simp [Decl.pieces, Decl.mapCallable, keyword, Declared.pieces]

theorem copied_definitionStatement {statement : Reader Stmt} (copying : Copying statement) {s : Stmt}
    (scanned : c.IsScanned) (kind : c.kind = .keyword .defKw)
    (h : Reads (definitionStatement statement) c t s c' t') : Copied c t s c' t' := by
  obtain ⟨word, c₁, isDef, h⟩ := peel_advance scanned kind (by decide) h
  obtain ⟨name, c₂, named, h⟩ := peel_identifierFor isDef.behind h
  have h := peel_get h
  split at h
  · exact copied_constantStatement isDef named h
  split at h
  · exact copied_functionStatement copying isDef named (.inl rfl) (fun _ => rfl) h
  · exact absurd h reads_throw

theorem copied_coroutineStatement {statement : Reader Stmt} (copying : Copying statement) {s : Stmt}
    (scanned : c.IsScanned) (kind : c.kind = .keyword .coroutineKw)
    (h : Reads (coroutineStatement statement) c t s c' t') : Copied c t s c' t' := by
  obtain ⟨word, c₁, introduced, h⟩ := peel_advance scanned kind (by decide) h
  obtain ⟨name, c₂, named, h⟩ := peel_identifierFor introduced.behind h
  exact copied_functionStatement copying introduced named (.inr rfl) (fun _ => rfl) h

/-! ### Classes -/

/-- The kind of a class is behind a colon, or missing. -/
theorem copied_classKind {sort : ClassSort} {type : Ty} (scanned : c.IsScanned)
    (h : Reads (classKind sort) c t type c' t') :
    (c'.upcoming = c.upcoming ∨ sort = .primary ∧ ∃ (colon : Token) (i : List Token),
      colon.kind = .mark .colon ∧ c.upcoming = colon :: i ∧ Aside [openCurly] i c'.upcoming) ∧
      (∀ s, Copies c s (fun _ _ => type.piecesBehind .colon) c' s) ∧ t' = t := by
  unfold classKind at h
  split at h
  · rename_i primary
    rcases peel_accept scanned (by decide) h with ⟨colon, c₁, typed, h⟩ | ⟨-, h⟩
    · rw [if_pos rfl, ← bind_pure (typeUpTo _)] at h
      obtain ⟨f, c₂, type, last⟩ := peel_typeUpTo typed.behind h
      obtain ⟨rfl, rfl, rfl⟩ := reads_pure.mp last
      exact ⟨.inr ⟨primary, colon, _, typed.kind, typed.upcoming, type.aside⟩,
        fun s => (typed.mark s).trans (type.copies s), rfl⟩
    · obtain ⟨rfl, rfl, rfl⟩ := reads_pure.mp h
      exact ⟨.inl rfl, fun s => .refl _ s, rfl⟩
  · obtain ⟨rfl, rfl, rfl⟩ := reads_pure.mp h
    exact ⟨.inl rfl, fun s => .refl _ s, rfl⟩

theorem copied_classStatement {statement : Reader Stmt} (copying : Copying statement) {s : Stmt}
    {sort : ClassSort} {word : Keyword} (scanned : c.IsScanned) (kind : c.kind = .keyword word)
    (isKeyword : sort = .primary ∧ word = .classKw ∨ sort = .extension ∧ word = .extensionKw)
    (h : Reads (classStatement statement sort) c t s c' t') : Copied c t s c' t' := by
  obtain ⟨first, c₁, introduced, h⟩ := peel_advance scanned kind TokenKind.noConfusion h
  obtain ⟨name, c₂, named, h⟩ := peel_identifierFor introduced.behind h
  obtain ⟨type, c₃, t₁, read, h₁⟩ := reads_bind.mp h
  obtain ⟨form, kindCopies, rfl⟩ := copied_classKind named.behind read
  have h := peel_declare h₁
  obtain ⟨scope, t₂, same, h⟩ := peel_newScope h
  obtain ⟨body, c₄, t₃, read₁, h⟩ := reads_bind.mp h
  obtain ⟨t₄, inside, rfl⟩ := reads_under.mp read₁
  obtain ⟨block, copies⟩ :=
    copied_blockBody copying ((kindCopies .empty).scanned named.behind) inside
  have h := peel_seen h
  have last := peel_change h
  obtain ⟨rfl, rfl, rfl⟩ := reads_pure.mp last
  refine ⟨?_, Copies.define ((introduced.keyword _).trans ((named.name _).trans
    ((kindCopies _).trans copies))) same fun T level => ?_⟩
  · rw [introduced.upcoming, named.upcoming]
    rcases form with same | ⟨rfl, colon, i, isColon, upcoming, aside⟩
    · refine .classDecl ?_ named.kind (same ▸ block)
      rw [introduced.kind]
      exact isKeyword.imp (fun is => congrArg _ is.2) fun is => congrArg _ is.2
    · obtain ⟨-, rfl⟩ : ClassSort.primary = .primary ∧ word = .classKw := by simpa using isKeyword
      rw [upcoming]
      exact .kindedClass introduced.kind named.kind isColon aside block
  · have keyword : (Declared.classDecl sort type body).keyword? = some word := by
      rcases isKeyword with ⟨rfl, rfl⟩ | ⟨rfl, rfl⟩ <;> rfl
    simp [Decl.pieces, Decl.mapMembers, keyword, Declared.pieces]

/-! ### Conditions -/

theorem copied_condition {e : Expr} (scanned : c.IsScanned) (h : Reads condition c t e c' t') :
    Surface.Condition c.upcoming c'.upcoming ∧
      Copies c t (fun _ _ => Mark.openParen.piece :: (e.pieces ++ [Mark.closeParen.piece])) c' t' := by
  obtain ⟨left, c₁, opened, h⟩ := peel_expect scanned (by decide) h
  obtain ⟨f, c₂, value, h⟩ := peel_expressionUpTo opened.behind h
  obtain ⟨right, c₃, closed, last⟩ := peel_expect value.behind (by decide) h
  obtain ⟨rfl, rfl, rfl⟩ := reads_pure.mp last
  refine ⟨?_, (opened.mark _).trans ((value.copies _).trans (closed.mark _))⟩
  rw [opened.upcoming]
  exact .bracketed opened.kind (value.upTo closed) closed.kind

theorem copied_ifStatement {statement : Reader Stmt} (copying : Copying statement) {s : Stmt}
    (scanned : c.IsScanned) (kind : c.kind = .keyword .ifKw)
    (h : Reads (ifStatement statement) c t s c' t') : Copied c t s c' t' := by
  obtain ⟨word, c₁, isIf, h⟩ := peel_advance scanned kind (by decide) h
  obtain ⟨e, c₂, t₂, read, h⟩ := reads_bind.mp h
  obtain ⟨condition, copies⟩ := copied_condition isIf.behind read
  have scanned₁ := copies.scanned isIf.behind
  obtain ⟨onTrue, c₃, t₃, read₁, h⟩ := reads_bind.mp h
  have copied := copying scanned₁ read₁
  have scanned₂ := copied.copies.scanned scanned₁
  rcases peel_accept scanned₂ (by decide) h with ⟨other, c₄, isElse, h⟩ | ⟨none, h⟩
  · simp only [if_true, map_eq_pure_bind, bind_assoc, pure_bind] at h
    obtain ⟨onFalse, c₅, t₅, read₂, h⟩ := reads_bind.mp h
    have copied' := copying isElse.behind read₂
    have last := peel_seen h
    obtain ⟨rfl, rfl, rfl⟩ := reads_pure.mp last
    refine ⟨?_, ((isIf.keyword _).trans (copies.trans (copied.copies.trans
      ((isElse.keyword _).trans copied'.copies)))).congr fun T level => ?_⟩
    · rw [isIf.upcoming]
      exact .alternative isIf.kind condition (isElse.upcoming ▸ copied.grammar) isElse.kind
        copied'.grammar
    · simp [Stmt.pieces, Stmt.piecesBehindElse]
  · simp only [Bool.false_eq_true, if_false, pure_bind] at h
    have last := peel_seen h
    obtain ⟨rfl, rfl, rfl⟩ := reads_pure.mp last
    refine ⟨?_, ((isIf.keyword _).trans (copies.trans copied.copies)).congr fun T level => ?_⟩
    · rw [isIf.upcoming]
      refine .conditional isIf.kind condition copied.grammar fun _ next head => ?_
      rwa [Cursor.kind, Cursor.current, Option.mem_def.mp head] at none
    · simp [Stmt.pieces, Stmt.piecesBehindElse]

theorem copied_whileStatement {statement : Reader Stmt} (copying : Copying statement) {s : Stmt}
    (scanned : c.IsScanned) (kind : c.kind = .keyword .whileKw)
    (h : Reads (whileStatement statement) c t s c' t') : Copied c t s c' t' := by
  obtain ⟨word, c₁, isWhile, h⟩ := peel_advance scanned kind (by decide) h
  obtain ⟨e, c₂, t₂, read, h⟩ := reads_bind.mp h
  obtain ⟨condition, copies⟩ := copied_condition isWhile.behind read
  obtain ⟨body, c₃, t₃, read₁, h⟩ := reads_bind.mp h
  have copied := copying (copies.scanned isWhile.behind) read₁
  have last := peel_seen h
  obtain ⟨rfl, rfl, rfl⟩ := reads_pure.mp last
  refine ⟨?_, ((isWhile.keyword _).trans (copies.trans copied.copies)).congr fun T level => ?_⟩
  · rw [isWhile.upcoming]
    exact .whileLoop isWhile.kind condition copied.grammar
  · simp [Stmt.pieces]

/-! ### All statements -/

theorem copied_statementOf {statement : Reader Stmt} (copying : Copying statement) {s : Stmt}
    (scanned : c.IsScanned) (h : Reads (statementOf statement c.kind) c t s c' t') :
    Copied c t s c' t' := by
  generalize kind : c.kind = k at h
  unfold statementOf at h
  split at h
  · exact copied_variableStatement scanned kind h
  · exact copied_definitionStatement copying scanned kind h
  · exact copied_coroutineStatement copying scanned kind h
  · exact copied_classStatement copying scanned kind (.inl ⟨rfl, rfl⟩) h
  · exact copied_classStatement copying scanned kind (.inr ⟨rfl, rfl⟩) h
  · exact copied_superStatement scanned kind h
  · obtain ⟨grammar, copies⟩ := copied_blockStatement copying scanned h
    exact ⟨.block grammar, copies⟩
  · exact copied_returnStatement scanned kind h
  · exact copied_yieldStatement scanned kind h
  · exact copied_ifStatement copying scanned kind h
  · exact copied_whileStatement copying scanned kind h
  · exact copied_jumpStatement scanned kind .breaking (fun _ _ => rfl) h
  · exact copied_jumpStatement scanned kind .continuing (fun _ _ => rfl) h
  · refine copied_expressionStatement scanned ?_ h
    rw [kind]
    unfold TokenKind.startsStatement
    split <;> first | contradiction | rfl

theorem copying_statementWithin (depth : Nat) : Copying (statementWithin depth) := by
  induction depth with
  | zero =>
    intro c t s c' t' _ h
    exact absurd (peel_get h) reads_throw
  | succ depth ih =>
    intro c t s c' t' scanned h
    exact copied_statementOf ih scanned (peel_seen h)

theorem copying_statement : Copying statement := fun _ _ _ _ _ scanned h =>
  copying_statementWithin _ scanned (peel_get h)

end Grammar

end Deferral
