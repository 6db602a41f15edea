import Deferral.Proofs.Reading.Building
import Deferral.Proofs.Reading.Grammar

/-!
# Printing what has been read

The tokens that statements and declarations have been read from, put together again from a table:
keywords and marks by their spelling, names from the declarations, and excerpts as they were set aside.
-/

namespace Deferral

/-- The kind of a token and its text. -/
abbrev Piece := TokenKind × String

def Token.piece (t : Token) : Piece := (t.kind, t.text)

def Keyword.piece (word : Keyword) : Piece := (.keyword word, word.spelling)

def Mark.piece (mark : Mark) : Piece := (.mark mark, mark.spelling)

def Excerpt.pieces (f : Excerpt) : List Piece := f.tokens.map Token.piece

/-- An expression that has been set aside. -/
def Expr.pieces (e : Expr) : List Piece := (e.excerpt?.map Excerpt.pieces).getD []

/-- A type that has been set aside, behind a mark. A type that was not written is not printed. -/
def Ty.piecesBehind (mark : Mark) : Ty → List Piece
  | .deferred f => mark.piece :: f.pieces
  | _ => []

section Shows

variable (shows : DeclId → List Piece)

mutual

/-- A statement; `shows` prints the declarations in it. -/
def Stmt.pieces : Stmt → List Piece
  | .block _ body _ => Mark.openCurly.piece :: (piecesIn body ++ [Mark.closeCurly.piece])
  | .returning value _ =>
    Keyword.returnKw.piece :: ((value.map Expr.pieces).getD [] ++ [Mark.semicolon.piece])
  | .yielding e _ => Keyword.yieldKw.piece :: (e.pieces ++ [Mark.semicolon.piece])
  | .conditional e onTrue onFalse _ =>
    Keyword.ifKw.piece :: Mark.openParen.piece ::
      (e.pieces ++ Mark.closeParen.piece :: (onTrue.pieces ++ piecesBehindElse onFalse))
  | .whileLoop e body _ =>
    Keyword.whileKw.piece :: Mark.openParen.piece :: (e.pieces ++ Mark.closeParen.piece :: body.pieces)
  | .breaking _ => [Keyword.breakKw.piece, Mark.semicolon.piece]
  | .continuing _ => [Keyword.continueKw.piece, Mark.semicolon.piece]
  | .declaration id _ => shows id
  | .expression e => e.pieces ++ [Mark.semicolon.piece]

def Stmt.piecesIn : List Stmt → List Piece
  | [] => []
  | s :: rest => s.pieces ++ piecesIn rest

def Stmt.piecesBehindElse : Option Stmt → List Piece
  | none => []
  | some s => Keyword.elseKw.piece :: s.pieces

end

/-- Parameters with commas between them. -/
def parameterPieces : List DeclId → List Piece
  | [] => []
  | p :: rest => shows p ++ rest.flatMap fun q => Mark.comma.piece :: shows q

def Body.pieces : Body → List Piece
  | .absent => [Mark.semicolon.piece]
  | .statement s => s.pieces shows
  | .expression e => Mark.assignment.piece :: (e.pieces ++ [Mark.semicolon.piece])

/-- A function behind its name. -/
def Callable.pieces (c : Callable) : List Piece :=
  Mark.openParen.piece :: (parameterPieces shows c.parameters ++
    Mark.closeParen.piece :: (c.result.piecesBehind .arrow ++ c.body.pieces shows))

/-- What a declaration of a name declares, behind the name. -/
def Declared.pieces : Declared → List Piece
  | .object _ type init =>
    type.piecesBehind .colon ++
      (((init.map fun e => Mark.assignment.piece :: e.pieces).getD []) ++ [Mark.semicolon.piece])
  | .parameter type => type.piecesBehind .colon
  | .super type => type.piecesBehind .colon ++ [Mark.semicolon.piece]
  | .callable _ c => c.pieces shows
  | .classDecl _ kind body =>
    kind.piecesBehind .colon ++
      Mark.openCurly.piece :: (Stmt.piecesIn shows body ++ [Mark.closeCurly.piece])
  | .typeParameter => []

end Shows

/-- The keyword that introduces a declaration, if one does. -/
def Declared.keyword? : Declared → Option Keyword
  | .object .var _ _ => some .varKw
  | .object .constant _ _ | .callable .function _ => some .defKw
  | .callable .coroutine _ => some .coroutineKw
  | .classDecl .primary _ _ => some .classKw
  | .classDecl .extension _ _ => some .extensionKw
  | .super _ => some .superKw
  | .parameter _ | .typeParameter => none

/-- A declaration; `shows` prints those inside it. -/
def Decl.pieces (shows : DeclId → List Piece) (d : Decl) : List Piece :=
  (d.kind.keyword?.map Keyword.piece).toList ++ (.identifier, d.name) :: d.kind.pieces shows

/-- A declaration of a table with at most `level` levels of declarations, itself one of them. -/
def SymbolTable.shows (t : SymbolTable) : (level : Nat) → DeclId → List Piece
  | 0, _ => []
  | level + 1, id => (t.decl id).pieces (t.shows level)

/-- A unit, with the declarations of its table. -/
def SourceUnit.pieces (u : SourceUnit) (t : SymbolTable) : List Piece :=
  Stmt.piecesIn (t.shows t.decls.size) u.body

/-! ## Tokens with their own spelling -/

/-- Keywords and marks are spelled as they are. -/
def Token.IsSpelled (t : Token) : Prop :=
  match t.kind with
  | .keyword word => t.text = word.spelling
  | .mark mark => t.text = mark.spelling
  | _ => True

theorem Token.piece_of_keyword {t : Token} (spelled : t.IsSpelled) {word : Keyword}
    (kind : t.kind = .keyword word) : t.piece = word.piece := by
  rw [IsSpelled, kind] at spelled
  rw [piece, kind, spelled, Keyword.piece]

theorem Token.piece_of_mark {t : Token} (spelled : t.IsSpelled) {mark : Mark}
    (kind : t.kind = .mark mark) : t.piece = mark.piece := by
  rw [IsSpelled, kind] at spelled
  rw [piece, kind, spelled, Mark.piece]

theorem Token.piece_of_identifier {t : Token} (kind : t.kind = .identifier) :
    t.piece = (.identifier, t.text) := by
  rw [piece, kind]

/-- All tokens come in front of the end of the input, each with its own spelling. -/
structure Cursor.IsScanned (c : Cursor) : Prop where
  spelled : ∀ t ∈ c.upcoming, t.IsSpelled
  before : ∀ t ∈ c.upcoming, t.kind ≠ .endOfInput
  ended : c.stop.kind = .endOfInput

/-! ## Copies -/

open SymbolTable

/-- A table has the declarations made from one table to another. -/
def Shares (T t t' : SymbolTable) : Prop :=
  ∀ id : DeclId, t.decls.size ≤ id.index → id.index < t'.decls.size → T.decl id = t'.decl id

/-- What is read from one cursor and table to another prints as it was: `w` are the pieces that are
printed from tables with the declarations that have been read, in as many levels as there are of these.
Earlier declarations stay as they were. -/
structure Copies (c : Cursor) (t : SymbolTable) (w : SymbolTable → Nat → List Piece) (c' : Cursor)
    (t' : SymbolTable) : Prop where
  grows : t.decls.size ≤ t'.decls.size
  keeps : ∀ id : DeclId, id.index < t.decls.size → t'.decl id = t.decl id
  stop : c'.stop = c.stop
  suffix : c'.upcoming <:+ c.upcoming
  prints : ∀ T level, Shares T t t' → t'.decls.size - t.decls.size ≤ level →
    c.upcoming.map Token.piece = w T level ++ c'.upcoming.map Token.piece

namespace Copies

variable {c c' c'' : Cursor} {t t' t'' : SymbolTable} {w w' : SymbolTable → Nat → List Piece}

theorem scanned (h : Copies c t w c' t') (scanned : c.IsScanned) : c'.IsScanned :=
  ⟨fun s member => scanned.spelled s (h.suffix.mem member),
    fun s member => scanned.before s (h.suffix.mem member), h.stop ▸ scanned.ended⟩

theorem trans (h : Copies c t w c' t') (h' : Copies c' t' w' c'' t'') :
    Copies c t (fun T level => w T level ++ w' T level) c'' t'' where
  grows := Nat.le_trans h.grows h'.grows
  keeps id lt := (h'.keeps id (Nat.lt_of_lt_of_le lt h.grows)).trans (h.keeps id lt)
  stop := h'.stop.trans h.stop
  suffix := h'.suffix.trans h.suffix
  prints T level shares deep := by
    have first : Shares T t t' := fun id le lt =>
      (shares id le (Nat.lt_of_lt_of_le lt h'.grows)).trans (h'.keeps id lt)
    have second : Shares T t' t'' := fun id le lt => shares id (Nat.le_trans h.grows le) lt
    have grows := h.grows
    have grows' := h'.grows
    rw [h.prints T level first (by omega), h'.prints T level second (by omega), List.append_assoc]

/-- Tokens are passed, and nothing is declared. -/
theorem of_same (decls : t'.decls = t.decls) (stop : c'.stop = c.stop) {ts : List Token}
    (passed : c.upcoming = ts ++ c'.upcoming) :
    Copies c t (fun _ _ => ts.map Token.piece) c' t' where
  grows := Nat.le_of_eq (by rw [decls])
  keeps id _ := by simp [decl, decls]
  stop := stop
  suffix := ⟨ts, passed.symm⟩
  prints _ _ _ _ := by rw [passed, List.map_append]

theorem refl (c : Cursor) (t : SymbolTable) : Copies c t (fun _ _ => []) c t :=
  have nothing : c.upcoming = [] ++ c.upcoming := rfl
  of_same rfl rfl nothing

/-- The pieces may be given in another way. -/
theorem congr (h : Copies c t w c' t') (same : ∀ T level, w T level = w' T level) :
    Copies c t w' c' t' :=
  ⟨h.grows, h.keeps, h.stop, h.suffix, fun T level shares deep => same T level ▸ h.prints T level shares deep⟩

/-- Scopes make no difference. -/
theorem of_decls (h : Copies c t w c' t') {s s' : SymbolTable} (first : s.decls = t.decls)
    (last : s'.decls = t'.decls) : Copies c s w c' s' := by
  have decl₁ (id : DeclId) : s.decl id = t.decl id := by simp [decl, first]
  have decl₂ (id : DeclId) : s'.decl id = t'.decl id := by simp [decl, last]
  refine ⟨by rw [first, last]; exact h.grows, fun id lt => ?_, h.stop, h.suffix,
    fun T level shares deep => h.prints T level (fun id le lt => ?_) (by rwa [first, last] at deep)⟩
  · rw [decl₁, decl₂]
    exact h.keeps id (by rwa [first] at lt)
  · rw [← decl₂]
    exact shares id (by rwa [first]) (by rwa [last])

/-- A name is declared before or after the tokens that its declaration prints, and what is declared
between is inside it. -/
theorem fill {s s' : SymbolTable} {d : Decl} (h : Copies c s w c' s')
    (begun : s.decls.size = t.decls.size + 1)
    (earlier : ∀ id : DeclId, id.index < t.decls.size → s.decl id = t.decl id)
    (size : t'.decls.size = s'.decls.size) (self : t'.decl t.nextDecl = d)
    (others : ∀ id, id ≠ t.nextDecl → t'.decl id = s'.decl id)
    (pieces : ∀ T level, w T level = d.pieces (T.shows level)) :
    Copies c t (fun T level => T.shows level t.nextDecl) c' t' := by
  have grows := h.grows
  have other : ∀ {id : DeclId}, id.index ≠ t.decls.size → id ≠ t.nextDecl := fun ne same =>
    ne (congrArg DeclId.index same)
  refine ⟨by omega, fun id lt => ?_, h.stop, h.suffix, fun T level shares deep => ?_⟩
  · rw [others id (other (Nat.ne_of_lt lt)), h.keeps id (by omega), earlier id lt]
  · -- The declaration takes one level, and the declarations inside it the others.
    obtain _ | level := level
    · omega
    have inside : Shares T s s' := fun id le lt =>
      (shares id (by omega) (by omega)).trans (others id (other (by omega)))
    have declared : T.decl t.nextDecl = d :=
      (shares t.nextDecl (Nat.le_refl _) (show t.decls.size < _ by omega)).trans self
    rw [h.prints T level inside (by omega), pieces]
    simp only [SymbolTable.shows, declared]

/-- What prints a declaration is passed before it is declared. -/
theorem declare {d : Decl} (h : Copies c (t.declare d) w c' (t.declare d))
    (pieces : ∀ T level, w T level = d.pieces (T.shows level)) :
    Copies c t (fun T level => T.shows level t.nextDecl) c' (t.declare d) :=
  h.fill (size_declare t d) (fun _ lt => decl_declare_of_lt lt d) rfl (decl_declare_nextDecl t d)
    (fun _ _ => rfl) pieces

/-- A declaration is given its parts once they have been read. -/
theorem define {s s' : SymbolTable} {d : Decl} {f : Decl → Decl} (h : Copies c s w c' s')
    (begun : s.decls = (t.declare d).decls)
    (pieces : ∀ T level, w T level = (f d).pieces (T.shows level)) :
    Copies c t (fun T level => T.shows level t.nextDecl) c' (s'.leave.modifyDecl t.nextDecl f) := by
  have decl (id : DeclId) : s.decl id = (t.declare d).decl id := by simp [decl, begun]
  have size : s.decls.size = t.decls.size + 1 := by rw [begun, size_declare]
  have present : t.nextDecl.index < s.decls.size := by
    rw [size]
    exact Nat.lt_succ_self _
  refine h.fill size (fun id lt => ?_) (size_modifyDecl ..) ?_ (fun id ne => ?_) pieces
  · rw [decl, decl_declare_of_lt lt]
  · rw [decl_modifyDecl_self (t := s'.leave) (Nat.lt_of_lt_of_le present h.grows)]
    refine congrArg f ?_
    exact (h.keeps _ present).trans ((decl _).trans (decl_declare_nextDecl t d))
  · exact decl_modifyDecl_of_ne ne _ f

end Copies

end Deferral
