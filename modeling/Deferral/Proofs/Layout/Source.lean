import Deferral.Proofs.Layout.Reading
import Deferral.Proofs.Progress.Restored
import Deferral.Proofs.Reading.FaultPlace
import Deferral.Proofs.Scanning.Lossless

/-!
# The layout of a source

The tokens of a source that has been scanned follow each other, and what is read of them lays out the table:
every declaration lies in its span, and whatever is set aside in one is an excerpt that has been captured
when the source was read.
-/

namespace Deferral

open SymbolTable Layout

/-! ## Excerpts that are held -/

/-- An excerpt is set aside in a declaration. -/
def Decl.Holds (d : Decl) (f : Excerpt) : Prop :=
  (∃ slot, d.typeIn? slot = some (.deferred f)) ∨ ∃ e ∈ d.expressions, e.excerpt? = some f

/-- An excerpt is set aside in a unit or in a declaration of its table. -/
def SourceUnit.Captures (u : SourceUnit) (t : SymbolTable) (f : Excerpt) : Prop :=
  (∃ e ∈ Stmt.expressionsIn u.body, e.excerpt? = some f) ∨ ∃ id, (t.decl id).Holds f

/-- The same layout with fewer excerpts. -/
def Layout.holding (L : Layout) (P : Excerpt → Prop) : Layout :=
  { L with captured := fun f => L.captured f ∧ P f }

section Holding

variable {L : Layout} {P : Excerpt → Prop} {n lo hi : Nat}

theorem Excerpt.LiesIn.holding {f : Excerpt} (h : f.LiesIn L lo hi) (held : P f) :
    f.LiesIn (L.holding P) lo hi :=
  ⟨⟨h.captured, held⟩, h.start, h.tokens⟩

theorem Ty.LiesIn.holding {type : Ty} (h : type.LiesIn L n lo hi) (held : ∀ f, type = .deferred f → P f) :
    type.LiesIn (L.holding P) n lo hi := by
  cases type with
  | deferred f => exact Excerpt.LiesIn.holding h (held f rfl)
  | _ => exact h

theorem Expr.LiesIn.holding {e : Expr} (h : e.LiesIn L n lo hi) (held : ∀ f, e.excerpt? = some f → P f) :
    e.LiesIn (L.holding P) n lo hi := by
  unfold Expr.LiesIn at h ⊢
  split
  · rename_i f excerpt
    rw [excerpt] at h
    exact ⟨Excerpt.LiesIn.holding h.1 (held f excerpt), h.2⟩
  · rename_i none
    rw [none] at h
    exact h

namespace Stmt

mutual

theorem LiesIn.holding : ∀ {s : Stmt} {lo hi : Nat},
    (∀ e ∈ s.expressions, ∀ f, e.excerpt? = some f → P f) → s.LiesIn L n lo hi →
    s.LiesIn (L.holding P) n lo hi
  | .block _ _ _, _, _, held, h => AllLieIn.holding held h
  | .returning _ _, _, _, held, h =>
    ⟨h.1, fun e same => (h.2 e same).holding (held e (by simp [expressions, same]))⟩
  | .yielding e _, _, _, held, h | .expression e, _, _, held, h =>
    Expr.LiesIn.holding (e := e) h (held e (List.mem_singleton_self e))
  | .conditional e onTrue onFalse _, _, _, held, ⟨_, _, le₁, le₂, le₃, condition, first, second⟩ =>
    have ⟨here, inside⟩ := List.forall_mem_cons.mp held
    have ⟨held₁, held₂⟩ := List.forall_mem_append.mp inside
    ⟨_, _, le₁, le₂, le₃, condition.holding here, LiesIn.holding held₁ first,
      LiesBehindElse.holding held₂ second⟩
  | .whileLoop _ _ _, _, _, held, ⟨_, le₁, le₂, condition, body⟩ =>
    have ⟨here, inside⟩ := List.forall_mem_cons.mp held
    ⟨_, le₁, le₂, condition.holding here, LiesIn.holding inside body⟩
  | .breaking _, _, _, _, _ | .continuing _, _, _, _, _ => trivial
  | .declaration _ _, _, _, _, h => h

theorem AllLieIn.holding : ∀ {body : List Stmt} {lo hi : Nat},
    (∀ e ∈ expressionsIn body, ∀ f, e.excerpt? = some f → P f) → AllLieIn L n lo hi body →
    AllLieIn (L.holding P) n lo hi body
  | [], _, _, _, _ => trivial
  | _ :: _, _, _, held, ⟨_, le₁, le₂, first, rest⟩ =>
    have ⟨held₁, held₂⟩ := List.forall_mem_append.mp held
    ⟨_, le₁, le₂, LiesIn.holding held₁ first, AllLieIn.holding held₂ rest⟩

theorem LiesBehindElse.holding : ∀ {onFalse : Option Stmt} {lo hi : Nat},
    (∀ e ∈ expressionsBehindElse onFalse, ∀ f, e.excerpt? = some f → P f) →
    LiesBehindElse L n lo hi onFalse → LiesBehindElse (L.holding P) n lo hi onFalse
  | none, _, _, _, _ => trivial
  | some s, _, _, held, h => LiesIn.holding (s := s) held h

end

end Stmt

theorem Body.LiesIn.holding {body : Body} (h : body.LiesIn L n lo hi)
    (held : ∀ e ∈ body.expressions, ∀ f, e.excerpt? = some f → P f) :
    body.LiesIn (L.holding P) n lo hi := by
  cases body with
  | absent => trivial
  | statement s => exact Stmt.LiesIn.holding held h
  | expression e => exact Expr.LiesIn.holding h (held e (List.mem_singleton_self e))

theorem Decl.LiesIn.holding {d : Decl} {id : DeclId} (h : d.LiesIn L n id) (held : ∀ f, d.Holds f → P f) :
    d.LiesIn (L.holding P) n id := by
  have types (slot : TypeSlot) (type : Ty) (there : d.typeIn? slot = some type) (f : Excerpt)
      (same : type = .deferred f) : P f :=
    held f (.inl ⟨slot, same ▸ there⟩)
  have expressions (e : Expr) (member : e ∈ d.expressions) (f : Excerpt) (same : e.excerpt? = some f) : P f :=
    held f (.inr ⟨e, member, same⟩)
  refine ⟨?_, h.constant, h.extension⟩
  have lies := h.kind
  unfold Decl.expressions at expressions
  cases kind : d.kind with
  | object sort type initializer =>
    rw [kind] at lies expressions
    exact ⟨lies.1.holding (types .declared type (by simp [Decl.typeIn?, kind])),
      fun e same => (lies.2 e same).holding (expressions e (by simp [same]))⟩
  | parameter type | super type =>
    rw [kind] at lies
    exact Ty.LiesIn.holding lies (types .declared type (by simp [Decl.typeIn?, kind]))
  | callable sort c =>
    rw [kind] at lies expressions
    exact { lies with
      result := lies.result.holding (types .result c.result (by simp [Decl.typeIn?, kind]))
      body := Body.LiesIn.holding lies.body expressions }
  | classDecl sort type body =>
    rw [kind] at lies expressions
    exact ⟨lies.1.holding (types .kind type (by simp [Decl.typeIn?, kind])),
      Stmt.AllLieIn.holding expressions lies.2⟩
  | typeParameter => trivial

end Holding

/-! ## Tokens -/

/-- A token starts at a position. -/
def Token.Starts (tokens : List Token) (p : Position) : Prop := ∃ t ∈ tokens, t.span.start = p

/-- A cursor before what has been scanned has all of it to come, in the order of the source. -/
theorem Cursor.inOrder_ofTokens {source : List Char} {file : String} {tokens : List Token}
    (h : Token.scan source file = .ok tokens) :
    (ofTokens tokens).InOrder (Token.Starts tokens) ∧ (ofTokens tokens).IsAmong (Token.Starts tokens) := by
  have lossless := Token.scan_lossless source file
  rw [h] at lossless
  obtain ⟨⟨body, rfl, inside⟩, ordered, -⟩ := lossless
  have same : ofTokens (body ++ [.endOfInput ⟨byteLength source, file⟩]) =
      ⟨body, .endOfInput ⟨byteLength source, file⟩,
        ⟨0, fileOf (body ++ [.endOfInput ⟨byteLength source, file⟩])⟩⟩ := by
    simp [ofTokens, Token.endOfInput]
  rw [same]
  have starts : ∀ t ∈ body, Token.Starts (body ++ [.endOfInput ⟨byteLength source, file⟩]) t.span.start :=
    fun t member => ⟨t, List.mem_append_left _ member, rfl⟩
  refine ⟨⟨starts, fun t member => ?_, fun _ _ => Nat.zero_le _, ?_⟩,
    starts, _, List.mem_append_right _ (List.mem_singleton_self _), rfl⟩
  · obtain ⟨p, front, text, behind, -, -, span, size, -⟩ := inside t member
    rw [span]
    exact size
  · exact (List.pairwise_append.mp ordered).1.imp And.left

/-! ## Tables -/

/-- A function has its type only when its parameters and its result have theirs. -/
theorem SymbolTable.Sound.signs {t : SymbolTable} (h : t.Sound) (id : DeclId) : t.Signs (t.decl id) := by
  intro c held
  obtain ⟨sort, kind⟩ := Decl.kind_of_callable? held
  have sound := h.decls id
  rw [kind] at sound
  refine sound.type.imp_right fun signed => ⟨⟨c.result, ?_, signed.result.not_deferred⟩, fun p member => ?_⟩
  · simp [Decl.typeIn?, kind]
  · obtain ⟨type, settled, normal, -⟩ := signed.parameters p member
    exact ⟨type, by simp [Decl.typeIn?, settled], normal.not_deferred⟩

/-- A position inside a constant or an extension. -/
def SymbolTable.IsApart (t : SymbolTable) (p : Position) : Prop :=
  ∃ id, ((t.decl id).subject = .constDecl ∨ (t.decl id).subject = .extension) ∧
    (t.decl id).span.start.offset ≤ p.offset ∧ p.offset < (t.decl id).span.stop.offset

/-- The layout of a source by the spans of the declarations in its table. -/
def SymbolTable.layout (t : SymbolTable) (tokens : List Token) : Layout where
  token := Token.Starts tokens
  captured := Excerpt.Heads
  apart := t.IsApart
  low id := (t.decl id).span.start.offset
  high id := max (t.decl id).span.start.offset (t.decl id).span.stop.offset
  known _ _ := True
  ordered _ := Nat.le_max_left ..
  known_mono _ known := known
  known_next _ := trivial

theorem SymbolTable.maps_layout (t : SymbolTable) (tokens : List Token) : (t.layout tokens).Maps t where
  known _ _ := trivial
  captured _ heads := heads
  low _ := rfl
  high _ le := Nat.max_eq_right le
  apart id apart _ within := within.2.elim (fun inside => inside) fun ⟨le, lt⟩ =>
    ⟨id, apart, le, (lt_max_iff.mp lt).resolve_left (Nat.not_lt.mpr le)⟩

namespace SourceUnit

variable {tokens : List Token} {t : SymbolTable} {u : SourceUnit}

/-- What has been read into an empty table is laid out. -/
theorem laidOut_read {source : List Char} {file : String} (scanned : Token.scan source file = .ok tokens)
    (h : Resolution.Runs (read tokens) .empty (.ok u) t) :
    t.LaidOut ((t.layout tokens).holding (u.Captures t)) ∧
      ∃ hi, Stmt.AllLieIn ((t.layout tokens).holding (u.Captures t)) t.decls.size 0 hi u.body := by
  have sound := (appends_read SymbolTable.sound_empty h).1.sound
  obtain ⟨c, t₁, reads, -, rfl⟩ := runs_read.mp h
  have maps := t₁.leave.maps_layout tokens
  have ordered := (Cursor.inOrder_ofTokens scanned).1
  have situated := Grammar.situates_manyWithin (Grammar.situating_statement maps) _ _
    (Cursor.isScanned_ofTokens scanned).1 (Reader.peel_get reads)
  have lies := situated.holds ordered (fun _ _ _ => rfl) (Nat.zero_le _) (Nat.le_refl _)
  refine ⟨⟨fun id => ?_, fun _ => trivial, sound.signs⟩, c.mark,
    lies.holding fun e member f same => .inl ⟨e, member, same⟩⟩
  refine Decl.LiesIn.holding ?_ fun f held => .inr ⟨id, held⟩
  by_cases lt : id.index < t₁.decls.size
  · exact situated.decls ordered (fun _ _ _ => rfl) id (Nat.zero_le _) lt
  · have absent : (t₁.leave.decl id).kind = .typeParameter := kind_eq_typeParameter (Nat.not_lt.mp lt)
    refine ⟨by rw [absent]; trivial, fun constant => ?_, fun extension => ?_⟩
    · simp [Decl.subject, absent] at constant
    · simp [Decl.subject, absent] at extension

end SourceUnit

end Deferral
