import Deferral.Proofs.Phrase.Grouping
import Deferral.Proofs.Reading.Accepting
import Deferral.Token.Scan

/-!
# Units are read by the grammar and lose no token

The tokens of a source that form statements, and only these, are read as a unit. Printed from the table,
the unit is what was scanned, token by token.
-/

namespace Deferral

/-! ## What is scanned -/

namespace Token

/-- What a source starts with is spelled as its kind says. -/
theorem isSpelled_of_atFront? {source : List Char} {lexeme : Lexeme} {k : TokenKind}
    (front : Lexeme.atFront? source = some lexeme) (kind : lexeme.kind? = some k) (span : Span) :
    (Token.mk k (String.ofList lexeme.text) span).IsSpelled ∧ k ≠ .endOfInput := by
  unfold Lexeme.atFront? at front
  split at front
  · cases front
  split at front
  · -- A word is a keyword only if it is spelled as one.
    obtain rfl := Option.some.inj front
    simp only [Lexeme.word] at kind ⊢
    obtain rfl := Option.some.inj kind
    split
    · rename_i reserved
      exact ⟨Keyword.ofSpelling?_eq_some_iff.mp reserved, TokenKind.noConfusion⟩
    · exact ⟨trivial, TokenKind.noConfusion⟩
  split at front
  · obtain rfl := Option.some.inj front
    obtain rfl := Option.some.inj kind
    exact ⟨trivial, TokenKind.noConfusion⟩
  split at front
  · obtain rfl := Option.some.inj front
    cases kind
  split at front
  · obtain rfl := Option.some.inj front
    cases kind
  · obtain ⟨mark, -, rfl⟩ := Option.map_eq_some_iff.mp front
    obtain rfl := Option.some.inj kind
    exact ⟨by simp [IsSpelled], TokenKind.noConfusion⟩

theorem exists_eq_concat_of_scanFrom {file : String} (source : List Char) :
    ∀ {pending offset : Nat} {tokens : List Token}, scanFrom file pending offset source = .ok tokens →
    ∃ ts last, tokens = ts ++ [last] ∧ last.kind = .endOfInput ∧
      ∀ t ∈ ts, t.IsSpelled ∧ t.kind ≠ .endOfInput := by
  induction source with
  | nil =>
    intro pending offset tokens h
    unfold scanFrom at h
    obtain rfl := Except.ok.inj h
    exact ⟨[], .endOfInput ⟨offset, file⟩, rfl, rfl, fun _ none => (by cases none)⟩
  | cons c rest ih =>
    intro pending offset tokens h
    cases pending with
    | succ pending => exact ih h
    | zero =>
      unfold scanFrom at h
      split at h
      · cases h
      rename_i lexeme front
      obtain ⟨tokens', scanned, h⟩ := bind_eq_ok_iff.mp h
      obtain ⟨ts, last, rfl, ended, spelled⟩ := ih scanned
      split at h
      · obtain rfl := Except.ok.inj h
        exact ⟨ts, last, rfl, ended, spelled⟩
      · rename_i k kind
        obtain rfl := Except.ok.inj h
        refine ⟨_ :: ts, last, rfl, ended, fun t member => ?_⟩
        rcases List.mem_cons.mp member with rfl | member
        · exact isSpelled_of_atFront? front kind _
        · exact spelled t member

end Token

/-- A cursor before what has been scanned. -/
theorem Cursor.isScanned_ofTokens {source : List Char} {file : String} {tokens : List Token}
    (h : Token.scan source file = .ok tokens) :
    (ofTokens tokens).IsScanned ∧ (ofTokens tokens).upcoming = Token.beforeEnd tokens := by
  obtain ⟨ts, last, rfl, ended, spelled⟩ := Token.exists_eq_concat_of_scanFrom source h
  have upcoming : (ofTokens (ts ++ [last])).upcoming = ts := by simp [ofTokens, ended]
  have stop : (ofTokens (ts ++ [last])).stop = last := by simp [ofTokens, ended]
  refine ⟨⟨fun t member => ?_, fun t member => ?_, by rw [stop, ended]⟩, ?_⟩
  · exact (spelled t (upcoming ▸ member)).1
  · exact (spelled t (upcoming ▸ member)).2
  · rw [Token.beforeEnd_concat ts ended, Token.beforeEnd_eq_self fun t member => (spelled t member).2,
      upcoming]

/-! ## Units -/

namespace SourceUnit

open Reader Grammar

variable {tokens : List Token} {t t' : SymbolTable} {u : SourceUnit}

/-- A unit is what is read up to the end of the input, in the global scope. -/
theorem runs_read : Resolution.Runs (read tokens) t (.ok u) t' ↔
    ∃ c t₁, Reads (many (· ≠ .endOfInput) statement) (.ofTokens tokens) (t.enter .global) u.body c t₁ ∧
      u.scope = .global ∧ t' = t₁.leave := by
  constructor
  · intro h
    obtain ⟨t₁, run, rfl⟩ := Resolution.runs_under.mp h
    rcases Resolution.runs_bind.mp run with ⟨d, -, wrong⟩ | ⟨⟨body, c⟩, t₂, reads, last⟩
    · cases wrong
    obtain ⟨same, rfl⟩ := Resolution.runs_pure.mp last
    obtain rfl := Except.ok.inj same
    exact ⟨c, t₁, reads, rfl, rfl⟩
  · rintro ⟨c, t₁, reads, scope, rfl⟩
    refine Resolution.runs_under.mpr ⟨t₁, Resolution.runs_bind.mpr (.inr ⟨(u.body, c), t₁, reads, ?_⟩), rfl⟩
    exact Resolution.runs_pure.mpr ⟨by rw [← scope], rfl⟩

/-- Statements are read until the end of the input comes. -/
theorem upcoming_of_manyWithin {item : Reader Stmt} (copying : Copying item) :
    ∀ {bound : Nat} {c c' : Cursor} {t t' : SymbolTable} {body : List Stmt}, c.IsScanned →
    c.upcoming.length ≤ bound →
    Reads (manyWithin (· ≠ .endOfInput) item bound) c t body c' t' → c'.upcoming = []
  | 0, c, _, _, _, _, _, short, h => by
    obtain ⟨-, rfl, -⟩ := reads_pure.mp h
    exact List.length_eq_zero_iff.mp (Nat.le_zero.mp short)
  | bound + 1, c, c', _, _, _, scanned, short, h => by
    have h := peel_seen h
    split at h
    · obtain ⟨s, c₁, t₁, first, rest⟩ := reads_bind.mp h
      have copied := copying scanned first
      obtain ⟨others, c₂, t₂, second, last⟩ := reads_bind.mp rest
      have shorter := copied.grammar.length_lt
      have ended := upcoming_of_manyWithin copying (copied.copies.scanned scanned) (by omega) second
      obtain ⟨-, rfl, -⟩ := reads_pure.mp last
      exact ended
    · rename_i ended
      obtain ⟨-, rfl, -⟩ := reads_pure.mp h
      cases upcoming : c'.upcoming with
      | nil => rfl
      | cons t _ =>
        have kind : c'.kind = .endOfInput := by simpa using ended
        rw [scanned.kind_eq, upcoming, nextKind_cons] at kind
        exact absurd kind (scanned.before t (upcoming ▸ List.mem_cons_self ..))

/-- What has been read of a whole source are statements, and print as the source. -/
theorem copied_read (scanned : (Cursor.ofTokens tokens).IsScanned)
    (h : Resolution.Runs (read tokens) t (.ok u) t') :
    Surface.Statements true true (Cursor.ofTokens tokens).upcoming [] ∧
      u.pieces t' = (Cursor.ofTokens tokens).upcoming.map Token.piece := by
  obtain ⟨c, t₁, reads, -, rfl⟩ := runs_read.mp h
  have reads := peel_get reads
  have ended := upcoming_of_manyWithin copying_statement scanned (Nat.le_refl _) reads
  obtain ⟨grammar, copies⟩ := copied_manyWithin copying_statement _ _ scanned reads
  refine ⟨ended ▸ grammar, ?_⟩
  have printed := copies.prints t₁.leave t₁.leave.decls.size (fun _ _ _ => rfl) (Nat.sub_le ..)
  rw [printed, ended, List.map_nil, List.append_nil, pieces]

/-- Statements up to the end of the input are read as a unit. -/
theorem runs_read_of_statements (scanned : (Cursor.ofTokens tokens).IsScanned)
    (h : Surface.Statements true true (Cursor.ofTokens tokens).upcoming []) (t : SymbolTable) :
    ∃ u t', Resolution.Runs (read tokens) t (.ok u) t' := by
  have goesOn : ∀ k : TokenKind, k ≠ .endOfInput → k ≠ closeCurly → decide (k ≠ .endOfInput) = true :=
    fun _ ne _ => decide_eq_true ne
  have takes := takes_many (accepting_statement _) goesOn (Nat.le_refl _) rfl h
  obtain ⟨body, c, t₁, reads, -⟩ := takes (t := t.enter .global) scanned rfl
  exact ⟨⟨body, .global⟩, _, runs_read.mpr ⟨c, t₁, reads, rfl, rfl⟩⟩

/-- A scanned source is read exactly if it consists of statements, where nothing need be returned and an
`else` belongs to the nearest `if` in front of it. What has been read prints as the source: its tokens
have the same kinds and texts, in the same order. -/
theorem read_by_grammar {source : List Char} {file : String}
    (scanned : Token.scan source file = .ok tokens) (t : SymbolTable) :
    ((∃ u t', (read tokens).run.run t = (.ok u, t')) ↔
        Surface.Statements true true (Token.beforeEnd tokens) []) ∧
      ∀ u t', (read tokens).run.run t = (.ok u, t') →
        u.pieces t' = (Token.beforeEnd tokens).map Token.piece := by
  obtain ⟨isScanned, upcoming⟩ := Cursor.isScanned_ofTokens scanned
  rw [← upcoming]
  refine ⟨⟨?_, fun h => runs_read_of_statements isScanned h t⟩, fun u t' h => (copied_read isScanned h).2⟩
  rintro ⟨u, t', h⟩
  exact (copied_read isScanned h).1

/-- A class with an extension, and a function whose statements lie one inside the other. -/
def nestedForms : List Char :=
  "class C: type { super S: P; } extension C { var x: T[4] = f(0); }
   def f(a: T, b: auto) -> T { if (a) return (b); else { yield 1; } return; }".toList

theorem read_by_grammar_nestedForms : ∃ tokens u t, Token.scan nestedForms "shell" = .ok tokens ∧
    (read tokens).run.run .empty = (.ok u, t) ∧ (Token.beforeEnd tokens).length = 60 ∧
    Surface.Statements true true (Token.beforeEnd tokens) [] ∧
    u.pieces t = (Token.beforeEnd tokens).map Token.piece := by
  have ran : (Token.scan nestedForms "shell").toOption.map (fun tokens =>
      seen? tokens .empty fun _ _ => (Token.beforeEnd tokens).length) = some (some 60) := by
    unfold nestedForms
    rewrite [String.toList_ofList]
    decide +kernel
  obtain ⟨tokens, scanned, ran⟩ := map_toOption_eq_some_iff.mp ran
  obtain ⟨u, t, run, length⟩ := exists_of_seen? ran
  obtain ⟨grammar, prints⟩ := read_by_grammar scanned .empty
  exact ⟨tokens, u, t, scanned, run, length, grammar.mp ⟨u, t, run⟩, prints u t run⟩

/-- Where something must be returned, nothing goes on from `return;`. -/
theorem not_statement_of_return {nearest : Bool} {word mark : Token} {i r : List Token}
    (isReturn : word.kind = .keyword .returnKw) (bare : mark.kind = semicolon) :
    ¬Surface.Statement false nearest (word :: mark :: i) r := by
  intro h
  cases h with
  | block body =>
    have opened := nextKind_of_block body
    rw [nextKind_cons, isReturn] at opened
    cases opened
  | returning _ aside _ => exact (nextKind_of_aside aside).2 (by simp [bare])
  | returningNothing valueless _ _ => cases valueless
  | expression other _ _ =>
    have none := other word rfl
    rw [isReturn] at none
    cases none
  | callable introduced _ _ _ _ | classDecl introduced _ _ =>
    rw [isReturn] at introduced
    rcases introduced with wrong | wrong <;> cases wrong
  | yielding introduced _ _ | conditional introduced _ _ _ | alternative introduced _ _ _ _
  | whileLoop introduced _ _ | breaking introduced _ | continuing introduced _
  | «variable» introduced _ _ _ _ | initialized introduced _ _ _ _ _ _
  | constant introduced _ _ _ _ _ _ | kindedClass introduced _ _ _ _ | super introduced _ _ _ _ =>
    rw [isReturn] at introduced
    cases introduced

/-- A single token that is no bracket is a run where it does not end one. -/
theorem aside_single {ends : List TokenKind} {token : Token} {r : List Token}
    (plain : token.turn = 0) (inside : token.kind ∉ ends) : Aside ends (token :: r) r :=
  ⟨[token], ⟨by simp, by simp [Balanced.cons, Balanced.nil, plain, inside]⟩, rfl⟩

/-- Where something must be returned, or an `else` behind a statement may start another, the grammar is
not that of the units that are read. -/
theorem read_not_by_loose_grammar :
    (∃ tokens, Token.scan "return;".toList "shell" = .ok tokens ∧
      (∃ u t, (read tokens).run.run .empty = (.ok u, t)) ∧
      ¬Surface.Statements false false (Token.beforeEnd tokens) []) ∧
    ∃ tokens, Token.scan "if (c) x; else ;".toList "shell" = .ok tokens ∧
      Surface.Statements false false (Token.beforeEnd tokens) [] ∧
      ¬∃ u t, (read tokens).run.run .empty = (.ok u, t) := by
  constructor
  · have ran : (Token.scan "return;".toList "shell").toOption.map (fun tokens =>
        ((Token.beforeEnd tokens).map Token.kind, ((read tokens).run.run .empty).1.toOption.isSome)) =
          some ([.keyword .returnKw, semicolon], true) := by
      rewrite [String.toList_ofList]
      decide +kernel
    obtain ⟨tokens, scanned, holds⟩ := map_toOption_eq_some_iff.mp ran
    obtain ⟨kinds, accepted⟩ := Prod.mk.inj holds
    obtain ⟨u, accepted⟩ := Option.isSome_iff_exists.mp accepted
    refine ⟨tokens, scanned, ⟨u, _, Prod.ext (toOption_eq_some_iff.mp accepted) rfl⟩, fun h => ?_⟩
    simp only [List.map_eq_cons_iff, List.map_eq_nil_iff] at kinds
    obtain ⟨word, _, same, isReturn, mark, _, rfl, bare, rfl⟩ := kinds
    rw [same] at h
    cases h with
    | cons first _ => exact not_statement_of_return isReturn bare first
  · have ran : (Token.scan "if (c) x; else ;".toList "shell").toOption.map (fun tokens =>
        ((Token.beforeEnd tokens).map Token.kind, ((read tokens).run.run .empty).1.toOption.isSome)) =
          some ([.keyword .ifKw, openParen, .identifier, closeParen, .identifier, semicolon,
            .keyword .elseKw, semicolon], false) := by
      rewrite [String.toList_ofList]
      decide +kernel
    obtain ⟨tokens, scanned, holds⟩ := map_toOption_eq_some_iff.mp ran
    obtain ⟨kinds, refused⟩ := Prod.mk.inj holds
    refine ⟨tokens, scanned, ?_, fun ⟨u, t, run⟩ => ?_⟩
    · simp only [List.map_eq_cons_iff, List.map_eq_nil_iff] at kinds
      obtain ⟨word, _, same, isIf, left, _, rfl, opened, c, _, rfl, isC, right, _, rfl, closed,
        x, _, rfl, isX, mark, _, rfl, ended, other, _, rfl, isElse, last, _, rfl, ended', rfl⟩ := kinds
      rw [same]
      have single {ends : List TokenKind} {token : Token} {k : TokenKind} {r : List Token}
          (kind : token.kind = k) (plain : k.isOpening = false ∧ k.isClosing = false)
          (inside : k ∉ ends) : Aside ends (token :: r) r :=
        aside_single (by simp [Token.turn, kind, plain]) (kind ▸ inside)
      have condition : Surface.Condition [left, c, right, x, mark, other, last] [x, mark, other, last] :=
        .bracketed opened (single isC (by decide) (by decide)) closed
      have onTrue : Surface.Statement false false [x, mark, other, last] [other, last] := by
        refine .expression (fun t first => ?_) (single isX (by decide) (by decide)) ended
        obtain rfl := Option.some.inj first
        rw [isX]
        rfl
      have behind : Surface.Statement false false [other, last] [] := by
        refine .expression (fun t first => ?_) (single isElse (by decide) (by decide)) ended'
        obtain rfl := Option.some.inj first
        rw [isElse]
        rfl
      have alone : Surface.Statement false false _ [other, last] :=
        .conditional isIf condition onTrue fun wrong => by cases wrong
      exact .cons alone (.cons behind .nil)
    · rw [run] at refused
      cases refused

end SourceUnit

end Deferral
