import Deferral.Proofs.Conversion.NormalForm
import Deferral.Proofs.Execution.Resolving
import Deferral.Proofs.Phrase.Grouping
import Deferral.Proofs.Scanning.Spelling
import Deferral.Resolution.Definition

/-!
# Types are read back from their texts

The text of a type is an operand with its suffixes from the inside out. No suffix runs on from what stands in
front of it, except that the marks of two references would become one, and reading takes the suffixes one by
one in the order in which they were written.
-/

namespace Deferral

open Resolution

/-! ## Types that can be written -/

/-- The words of a layer of qualifiers. -/
def Qualifiers.lexemes (q : Qualifiers) : List Lexeme :=
  (if q.isConst then [.keyword .constKw] else []) ++ if q.isVolatile then [.keyword .volatileKw] else []

namespace Ty

/-- What the text of a type is put together from, blanks aside. -/
def lexemes : Ty → List Lexeme
  | .auto => [.keyword .autoKw]
  | .decltypeAuto => [.keyword .decltypeKw, .mark .openParen, .keyword .autoKw, .mark .closeParen]
  | .pointer t => t.lexemes ++ [.mark .star]
  | .reference t => t.lexemes ++ [.mark .ampersand]
  | .qualified t q => t.lexemes ++ q.lexemes
  | .sequence t => t.lexemes ++ [.mark .openBracket, .mark .closeBracket]
  | .array t n => t.lexemes ++ [.mark .openBracket, .natural n, .mark .closeBracket]
  | t => [.identifier t.shown]

/-- A type that is put together from types with names, `auto` and `decltype(auto)`, every layer where it may
stand. The name of a class is not that of a builtin type, and leads to the class from the innermost scope. -/
inductive Writable (table : SymbolTable) : Ty → Prop
  | builtin {name : String} {t : Ty} : builtin? name = some t → Writable table t
  | auto : Writable table .auto
  | decltypeAuto : Writable table .decltypeAuto
  | classType {name : String} {set : Overloads} {id : DeclId} :
      IsIdentifier name → builtin? name = none → table.find name = some set →
      set.find? (table.decl · |>.isPrimaryClass) = some id → Writable table (.named .classType id name)
  | pointer {t : Ty} : Writable table t → Writable table (.pointer t)
  | reference {t : Ty} : Writable table t → t.isReference = false → Writable table (.reference t)
  | qualified {t : Ty} {q : Qualifiers} : Writable table t → t.IsValue → q ≠ .empty →
      Writable table (.qualified t q)
  | sequence {t : Ty} : Writable table t → Writable table (.sequence t)
  | array {t : Ty} {n : Nat} : Writable table t → n ≤ greatestInteger → Writable table (.array t n)

/-- A builtin type is written as its name. -/
theorem written_of_builtin? {name : String} {t : Ty} (h : builtin? name = some t) :
    t.shown = name ∧ IsIdentifier name ∧ t.lexemes = [.identifier name] ∧ t.isReference = false := by
  obtain ⟨front, back, split, -⟩ := List.lookup_eq_some_iff.mp h
  have member : (name, t) ∈ front ++ (name, t) :: back := List.mem_append_right _ (List.mem_cons_self ..)
  rw [← split] at member
  simp only [List.mem_cons, Prod.mk.injEq, List.not_mem_nil, or_false] at member
  rcases member with ⟨rfl, rfl⟩ | ⟨rfl, rfl⟩ | ⟨rfl, rfl⟩ | ⟨rfl, rfl⟩ | ⟨rfl, rfl⟩ | ⟨rfl, rfl⟩ |
    ⟨rfl, rfl⟩ | ⟨rfl, rfl⟩ | ⟨rfl, rfl⟩ | ⟨rfl, rfl⟩ | ⟨rfl, rfl⟩ | ⟨rfl, rfl⟩ | ⟨rfl, rfl⟩ <;>
  exact ⟨rfl, by decide +kernel, rfl, rfl⟩

end Ty

/-! ## The text -/

/-- What may stand behind the text of a type: nothing that runs on from a word or a number, and no reference
mark behind a reference mark. -/
structure Ty.Follows (t : Ty) (rest : List Char) : Prop where
  apart : Apart rest
  marks : t.isReference = true → rest.head? ≠ some '&'

theorem Ty.Follows.cons (t : Ty) {c : Char} (part : isWordPart c = false) (point : c ≠ '.')
    (mark : t.isReference = true → c ≠ '&') (rest : List Char) : t.Follows (c :: rest) :=
  ⟨.cons part point rest, fun reference same => mark reference (Option.some.inj same)⟩

theorem Qualifiers.lexes_suffix (q : Qualifiers) {rest : List Char} (apart : Apart rest) :
    Lexes (q.suffix.toList ++ rest) q.lexemes rest := by
  have const {rest : List Char} (apart : Apart rest) :
      Lexes (" const".toList ++ rest) [.keyword .constKw] rest :=
    .append (.blank fun c head => by obtain rfl := Option.some.inj head; decide) (.keyword .constKw apart)
  have volatile {rest : List Char} (apart : Apart rest) :
      Lexes (" volatile".toList ++ rest) [.keyword .volatileKw] rest :=
    .append (.blank fun c head => by obtain rfl := Option.some.inj head; decide)
      (.keyword .volatileKw apart)
  obtain ⟨c, v⟩ := q
  cases c <;> cases v
  · exact .done
  · exact volatile apart
  · exact const apart
  · exact (const (.cons (by decide) (by decide) _)).append (volatile apart)

/-- The words of qualifiers stand apart. -/
theorem Qualifiers.follows_suffix (t : Ty) {q : Qualifiers} (some : q ≠ .empty) (rest : List Char) :
    t.Follows (q.suffix.toList ++ rest) := by
  have blank : ∃ tail, q.suffix.toList = ' ' :: tail := by
    obtain ⟨c, v⟩ := q
    cases c <;> cases v
    · exact absurd rfl some
    all_goals exact ⟨_, rfl⟩
  obtain ⟨tail, same⟩ := blank
  rw [same]
  exact .cons t (by decide) (by decide) (fun _ => by decide) _

namespace Ty

/-- By induction on the type: its text is its lexemes, in front of whatever may follow. -/
theorem Writable.lexes {table : SymbolTable} {t : Ty} (h : t.Writable table) :
    ∀ {rest : List Char}, t.Follows rest → Lexes (t.shown.toList ++ rest) t.lexemes rest := by
  induction h with
  | builtin named =>
    intro rest follows
    obtain ⟨rfl, word, lexemes, -⟩ := written_of_builtin? named
    rw [lexemes]
    exact .identifier word follows.apart
  | auto => exact fun follows => .keyword .autoKw follows.apart
  | decltypeAuto =>
    intro rest follows
    have text : Ty.decltypeAuto.shown.toList ++ rest = Keyword.decltypeKw.spelling.toList ++
        (Mark.openParen.spelling.toList ++ (Keyword.autoKw.spelling.toList ++
          (Mark.closeParen.spelling.toList ++ rest))) := rfl
    rw [text]
    exact (Lexes.keyword .decltypeKw (.cons (by decide) (by decide) _)).append <|
      (Lexes.plainMark (m := .openParen) rfl (by decide)).append <|
        (Lexes.keyword .autoKw (.cons (by decide) (by decide) _)).append <|
          .plainMark (m := .closeParen) rfl (by decide)
  | classType word => exact fun follows => .identifier word follows.apart
  | @pointer t _ ih =>
    intro rest follows
    rw [shown, String.toList_append, List.append_assoc]
    exact (ih (.cons t (by decide) (by decide) (fun _ => by decide) _)).append <|
      .plainMark (m := .star) rfl (by decide)
  | @reference t _ direct ih =>
    intro rest follows
    rw [shown, String.toList_append, List.append_assoc]
    have single : Mark.atFront? (Mark.ampersand.spelling.toList ++ rest) = some .ampersand := by
      have next := follows.marks rfl
      show Mark.atFront? ('&' :: rest) = _
      cases rest with
      | nil => rfl
      | cons c rest =>
        have other : c ≠ '&' := fun same => next (congrArg some same)
        simp [Mark.atFront?, other]
    exact (ih (.cons t (by decide) (by decide) (by simp [direct]) _)).append (.plainMark single (by decide))
  | @qualified t q _ _ some ih =>
    intro rest follows
    rw [shown, String.toList_append, List.append_assoc]
    exact (ih (Qualifiers.follows_suffix t some rest)).append (q.lexes_suffix follows.apart)
  | @sequence t _ ih =>
    intro rest follows
    rw [shown, String.toList_append, List.append_assoc]
    exact (ih (.cons t (by decide) (by decide) (fun _ => by decide) _)).append <|
      (Lexes.plainMark (m := .openBracket) rfl (by decide)).append <| .plainMark (m := .closeBracket) rfl (by decide)
  | @array t n _ _ ih =>
    intro rest follows
    simp only [shown, String.toList_append, List.append_assoc]
    exact (ih (.cons t (by decide) (by decide) (fun _ => by decide) _)).append <|
      (Lexes.plainMark (m := .openBracket) rfl (by decide)).append <|
        (Lexes.natural n (.cons (by decide) (by decide) _)).append <| .plainMark (m := .closeBracket) rfl (by decide)

end Ty

/-! ## Reading -/

namespace TypePhrase

/-- Some tokens are read as a type in front of any others, which are left to go on with as suffixes. -/
def Reads (ts : List Token) (p : TypePhrase) : Prop :=
  ∀ (rest : List Token) (stop : Token) (before : Position), stop.kind = .endOfInput →
    ∃ bound last, rest.length ≤ bound ∧
      read ⟨ts ++ rest, stop, before⟩ = suffixes bound p ⟨rest, stop, last⟩

variable {ts us : List Token} {t opening closing : Token} {p p' : TypePhrase}

/-- An operand is read first. -/
theorem Reads.operand (reads : ∀ (rest : List Token) (stop : Token) (before : Position),
    ∃ last, operand (us ++ rest).length ⟨us ++ rest, stop, before⟩ = .ok (p, ⟨rest, stop, last⟩)) :
    Reads us p := by
  intro rest stop before _
  obtain ⟨last, same⟩ := reads rest stop before
  refine ⟨rest.length, last, Nat.le_refl _, ?_⟩
  simp only [read, same]
  rfl

theorem Reads.name (kind : t.kind = .identifier) : Reads [t] (.name t) :=
  .operand fun rest stop before => ⟨t.span.stop, by simp [TypePhrase.operand, Cursor.kind, kind]⟩

theorem Reads.auto (kind : t.kind = .keyword .autoKw) : Reads [t] .auto :=
  .operand fun rest stop before => ⟨t.span.stop, by simp [TypePhrase.operand, Cursor.kind, kind]⟩

theorem expectBehind_of_kind (parts : List TypePart) {c : Cursor} {kind : TokenKind} (is : c.kind = kind) :
    expectBehind parts c kind = .ok (c.current, c.next) := by
  rw [expectBehind, Cursor.expect, if_pos is]
  rfl

theorem Reads.decltypeAuto {auto : Token} (kind : t.kind = .keyword .decltypeKw)
    (opens : opening.kind = .mark .openParen) (placeholder : auto.kind = .keyword .autoKw)
    (closes : closing.kind = .mark .closeParen) : Reads [t, opening, auto, closing] .decltypeAuto := by
  refine .operand fun rest stop before => ⟨closing.span.stop, ?_⟩
  have passed := expectBehind_of_kind [] (c := ⟨opening :: auto :: closing :: rest, stop, t.span.stop⟩) opens
  simp only [List.cons_append, List.nil_append, List.length_cons, TypePhrase.operand, Cursor.kind,
    Cursor.current_cons, kind, Cursor.next_cons, decltypeOperand, passed]
  simp [bind, Except.bind, pure, Except.pure, Cursor.secondKind, placeholder, closes]

/-- A suffix is taken if the bound lets in its tokens. -/
theorem Reads.suffix (h : Reads ts p)
    (step : ∀ (bound : Nat) (rest : List Token) (stop : Token) (last : Position), stop.kind = .endOfInput →
      (us ++ rest).length ≤ bound → ∃ bound' last', rest.length ≤ bound' ∧
        suffixes bound p ⟨us ++ rest, stop, last⟩ = suffixes bound' p' ⟨rest, stop, last'⟩) :
    Reads (ts ++ us) p' := by
  intro rest stop before ended
  obtain ⟨bound, last, enough, same⟩ := h (us ++ rest) stop before ended
  obtain ⟨bound', last', enough', taken⟩ := step bound rest stop last ended enough
  refine ⟨bound', last', enough', ?_⟩
  rw [List.append_assoc, same, taken]

/-- A suffix of one token. -/
theorem Reads.mark (h : Reads ts p) (step : ∀ (bound : Nat) (c : Cursor), c.kind = t.kind →
    suffixes (bound + 1) p c = suffixes bound p' c.next) : Reads (ts ++ [t]) p' := by
  refine h.suffix fun bound rest stop last _ enough => ?_
  obtain ⟨bound, rfl⟩ : ∃ n, bound = n + 1 := ⟨bound - 1, by simp at enough; omega⟩
  exact ⟨bound, t.span.stop, by simpa using enough, step bound ⟨t :: rest, stop, last⟩ rfl⟩

theorem Reads.pointer (h : Reads ts p) (kind : t.kind = .mark .star) : Reads (ts ++ [t]) (.pointer p) :=
  h.mark fun bound c same => by simp [suffixes, same, kind]

theorem Reads.reference (h : Reads ts p) (kind : t.kind = .mark .ampersand) :
    Reads (ts ++ [t]) (.reference p) :=
  h.mark fun bound c same => by simp [suffixes, same, kind]

theorem Reads.qualified {q : Qualifiers} (h : Reads ts p) (word : qualifier? t.kind = some q) :
    Reads (ts ++ [t]) (.qualified p q) := by
  refine h.mark fun bound c same => ?_
  have only : t.kind = .keyword .constKw ∨ t.kind = .keyword .volatileKw := by
    unfold qualifier? at word
    split at word
    · exact .inl ‹_›
    · exact .inr ‹_›
    · cases word
  rcases only with kind | kind <;> rw [kind] at word same <;> obtain rfl := Option.some.inj word <;>
    simp [suffixes, same, qualifier?]

theorem Reads.sequence (h : Reads ts p) (opens : opening.kind = .mark .openBracket)
    (closes : closing.kind = .mark .closeBracket) : Reads (ts ++ [opening, closing]) (.sequence p) := by
  refine h.suffix fun bound rest stop last _ enough => ?_
  obtain ⟨bound, rfl⟩ : ∃ n, bound = n + 1 := ⟨bound - 1, by simp at enough; omega⟩
  refine ⟨bound, closing.span.stop, by simp at enough; omega, ?_⟩
  simp [suffixes, Cursor.kind, opens, bracketed, closes, bind, Except.bind]

/-- The extent of an array is any expression that does not start as a sequence ends. -/
theorem Reads.array {extent : Phrase} (h : Reads ts p) (opens : opening.kind = .mark .openBracket)
    (first : ∃ u vs, us = u :: vs ∧ u.kind ≠ .mark .closeBracket) (derives : Derives .expression us extent)
    (closes : closing.kind = .mark .closeBracket) :
    Reads (ts ++ opening :: (us ++ [closing])) (.array p extent) := by
  refine h.suffix fun bound rest stop last ended enough => ?_
  obtain ⟨bound, rfl⟩ : ∃ n, bound = n + 1 := ⟨bound - 1, by simp at enough; omega⟩
  refine ⟨bound, closing.span.stop, by simp at enough; omega, ?_⟩
  have within : opening :: (us ++ [closing]) ++ rest = opening :: (us ++ closing :: rest) := by simp
  have whole : (us ++ closing :: rest).length ≤ (us ++ closing :: rest).length := Nat.le_refl _
  obtain ⟨last', found⟩ := (Phrase.found_of_derives derives).reads_to_none .lowest (closing :: rest)
    opening.span.stop rfl ended whole (congrArg Continuation.ofKind? closes)
  have read : Phrase.read ⟨us ++ closing :: rest, stop, opening.span.stop⟩ =
      .ok (extent, ⟨closing :: rest, stop, last'⟩) := found
  have array : bracketed p ⟨us ++ closing :: rest, stop, opening.span.stop⟩ =
      .ok (.array p extent, ⟨rest, stop, closing.span.stop⟩) := by
    obtain ⟨u, vs, rfl, other⟩ := first
    have extended : (Cursor.mk (u :: vs ++ closing :: rest) stop opening.span.stop).kind ≠
        .mark .closeBracket := other
    rw [bracketed, if_neg extended, expressionBehind, read]
    have passed := expectBehind_of_kind [.type p, .expression extent] (c := ⟨closing :: rest, stop, last'⟩) closes
    simp [Except.mapError, bind, Except.bind, passed, pure, Except.pure]
  rw [within]
  simp [suffixes, Cursor.kind, opens, array, bind, Except.bind]

/-- The whole of some tokens is a type. -/
theorem Reads.ofTokens (h : Reads ts p) (before : ∀ t ∈ ts, t.kind ≠ .endOfInput) :
    ofTokens ts = .ok p := by
  obtain ⟨stop, start, ended, same⟩ : ∃ stop start, stop.kind = .endOfInput ∧
      Cursor.ofTokens ts = ⟨ts, stop, start⟩ := by
    unfold Cursor.ofTokens
    split
    · rename_i none
      exact ⟨_, _, rfl, by rw [List.getLast?_eq_none_iff.mp none]⟩
    · rename_i last some
      rw [if_neg (before last (List.mem_of_getLast? some))]
      exact ⟨_, _, rfl, rfl⟩
  obtain ⟨bound, last, -, found⟩ := h [] stop start ended
  have read : read ⟨ts, stop, start⟩ = .ok (p, ⟨[], stop, last⟩) := by
    rw [← List.append_nil ts, found]
    cases bound <;> simp [suffixes, Cursor.kind, ended, qualifier?]
  have passed := expectBehind_of_kind [.type p] (c := ⟨[], stop, last⟩) ended
  simp [TypePhrase.ofTokens, same, read, bind, Except.bind, passed, pure, Except.pure]

end TypePhrase

/-! ## Meaning -/

namespace Ty

variable {table : SymbolTable} {t : Ty} {ts : List Token} {bind : DeclId → Resolution Unit}

/-- Some tokens are read as a type, which stands for `t`. -/
def IsReadFrom (bind : DeclId → Resolution Unit) (table : SymbolTable) (ts : List Token) (t : Ty) : Prop :=
  ∃ p, TypePhrase.Reads ts p ∧ Runs (p.resolved bind) table (.ok t) table

theorem IsReadFrom.map {f : TypePhrase → TypePhrase} {g : Ty → Ty} {us : List Token}
    (h : IsReadFrom bind table ts t) (reads : ∀ p, TypePhrase.Reads ts p → TypePhrase.Reads us (f p))
    (same : ∀ p, (f p).resolved bind = g <$> p.resolved bind) : IsReadFrom bind table us (g t) := by
  obtain ⟨p, read, run⟩ := h
  refine ⟨f p, reads p read, ?_⟩
  rw [same]
  exact runs_map.mpr ⟨_, run, rfl⟩

theorem addQualifiers_of_isValue (value : t.IsValue) {q : Qualifiers} (some : q ≠ .empty) :
    t.addQualifiers q = .qualified t q := by
  obtain ⟨reference, bare⟩ := value
  cases t <;> simp_all [addQualifiers, isReference, isQualified]

/-- The words of a layer of qualifiers come one after the other and join the layer. -/
theorem IsReadFrom.qualified {q : Qualifiers} (h : IsReadFrom bind table ts t) (value : t.IsValue)
    (some : q ≠ .empty) {us : List Token} (words : us.map Token.lexeme = q.lexemes) :
    IsReadFrom bind table (ts ++ us) (.qualified t q) := by
  have word {vs : List Token} {u : Ty} {q : Qualifiers} {w : Keyword} {word : Token}
      (h : IsReadFrom bind table vs u) (is : word.lexeme = .keyword w)
      (qualifier : TypePhrase.qualifier? (.keyword w) = Option.some q) :
      IsReadFrom bind table (vs ++ [word]) (u.addQualifiers q) :=
    have kind := (Token.lexeme_eq_iff.mp is).1
    h.map (fun _ read => read.qualified (kind ▸ qualifier)) fun _ => rfl
  obtain ⟨c, v⟩ := q
  cases c <;> cases v
  · exact absurd rfl some
  · obtain ⟨first, rfl, is⟩ := List.map_eq_singleton_iff.mp words
    rw [← addQualifiers_of_isValue value some]
    exact word h is rfl
  · obtain ⟨first, rfl, is⟩ := List.map_eq_singleton_iff.mp words
    rw [← addQualifiers_of_isValue value some]
    exact word h is rfl
  · obtain ⟨first, rest, rfl, is, others⟩ := List.map_eq_cons_iff.mp words
    obtain ⟨second, rfl, is'⟩ := List.map_eq_singleton_iff.mp others
    have joined : (t.addQualifiers .const).addQualifiers .volatile = .qualified t ⟨true, true⟩ := by
      rw [addQualifiers_of_isValue value (by decide)]
      rfl
    rw [← joined, ← List.singleton_append, ← List.append_assoc]
    exact word (word h is rfl) is' rfl

theorem IsReadFrom.array {n : Nat} {opening extent closing : Token} (h : IsReadFrom bind table ts t)
    (opens : opening.kind = .mark .openBracket) (number : extent.lexeme = .natural n)
    (closes : closing.kind = .mark .closeBracket) (small : n ≤ greatestInteger) :
    IsReadFrom bind table (ts ++ [opening, extent, closing]) (.array t n) := by
  obtain ⟨p, read, run⟩ := h
  obtain ⟨kind, text⟩ := Token.lexeme_eq_iff.mp number
  have derives : Derives .expression [extent] (.number extent) := (Derives.number kind).widen (by decide)
  refine ⟨_, read.array opens ⟨extent, [], rfl, by simp [kind]⟩ derives closes, ?_⟩
  refine runs_bind.mpr (.inr ⟨t, table, run, runs_bind.mpr (.inr ⟨Expr.ofInteger n extent.span, table, ?_, ?_⟩)⟩)
  · exact runs_bind_get.mpr (runs_ofExcept.mpr ⟨(Expr.ofNumber_repr text small).symm, rfl⟩)
  · exact runs_bind.mpr (.inr ⟨.integer n, table, runs_pure.mpr ⟨rfl, rfl⟩, runs_pure.mpr ⟨rfl, rfl⟩⟩)

theorem runs_namedType {p : Token} (kind : p.kind = .identifier) (named : table.namedType p = .ok t) :
    IsReadFrom bind table [p] t :=
  ⟨_, .name kind, runs_bind_get.mpr (runs_ofExcept.mpr ⟨named.symm, rfl⟩)⟩

/-- By induction on the type: tokens with its lexemes are read as it. -/
theorem Writable.isReadFrom (bind : DeclId → Resolution Unit) (h : t.Writable table) :
    ∀ {ts : List Token}, ts.map Token.lexeme = t.lexemes → IsReadFrom bind table ts t := by
  induction h with
  | @builtin name t named =>
    intro ts lexemes
    rw [(written_of_builtin? named).2.2.1] at lexemes
    obtain ⟨p, rfl, is⟩ := List.map_eq_singleton_iff.mp lexemes
    obtain ⟨kind, text⟩ := Token.lexeme_eq_iff.mp is
    exact runs_namedType kind (by rw [SymbolTable.namedType, text, named])
  | @classType name set id _ free found first =>
    intro ts lexemes
    obtain ⟨p, rfl, is⟩ := List.map_eq_singleton_iff.mp lexemes
    obtain ⟨kind, text⟩ : p.kind = .identifier ∧ p.text = name := Token.lexeme_eq_iff.mp is
    refine runs_namedType kind ?_
    have overloads : table.overloads p = .ok set := by rw [SymbolTable.overloads, text, found]
    have typed : table.typeOf? name set = some (.named .classType id name) := by
      rw [SymbolTable.typeOf?, first]
    rw [SymbolTable.namedType, text, free]
    exact bind_eq_ok_iff.mpr ⟨set, overloads, by rw [typed]; rfl⟩
  | auto =>
    intro ts lexemes
    obtain ⟨p, rfl, is⟩ := List.map_eq_singleton_iff.mp lexemes
    exact ⟨.auto, .auto (Token.lexeme_eq_iff.mp is).1, runs_pure.mpr ⟨rfl, rfl⟩⟩
  | decltypeAuto =>
    intro ts lexemes
    obtain ⟨first, rest, rfl, word, lexemes⟩ := List.map_eq_cons_iff.mp lexemes
    obtain ⟨opening, rest, rfl, opens, lexemes⟩ := List.map_eq_cons_iff.mp lexemes
    obtain ⟨placeholder, rest, rfl, auto, lexemes⟩ := List.map_eq_cons_iff.mp lexemes
    obtain ⟨closing, rfl, closes⟩ := List.map_eq_singleton_iff.mp lexemes
    exact ⟨.decltypeAuto, .decltypeAuto (Token.lexeme_eq_iff.mp word).1 (Token.lexeme_eq_iff.mp opens).1
      (Token.lexeme_eq_iff.mp auto).1 (Token.lexeme_eq_iff.mp closes).1, runs_pure.mpr ⟨rfl, rfl⟩⟩
  | pointer _ ih =>
    intro ts lexemes
    obtain ⟨ts, us, rfl, inner, outer⟩ := List.map_eq_append_iff.mp lexemes
    obtain ⟨star, rfl, is⟩ := List.map_eq_singleton_iff.mp outer
    exact (ih inner).map (fun _ read => read.pointer (Token.lexeme_eq_iff.mp is).1) fun _ => rfl
  | @reference t _ direct ih =>
    intro ts lexemes
    obtain ⟨ts, us, rfl, inner, outer⟩ := List.map_eq_append_iff.mp lexemes
    obtain ⟨mark, rfl, is⟩ := List.map_eq_singleton_iff.mp outer
    have single : t.toReference = .reference t := by
      cases t with
      | reference _ => cases direct
      | _ => rfl
    rw [← single]
    exact (ih inner).map (fun _ read => read.reference (Token.lexeme_eq_iff.mp is).1) fun _ => rfl
  | qualified _ value some ih =>
    intro ts lexemes
    obtain ⟨ts, us, rfl, inner, outer⟩ := List.map_eq_append_iff.mp lexemes
    exact (ih inner).qualified value some outer
  | sequence _ ih =>
    intro ts lexemes
    obtain ⟨ts, us, rfl, inner, outer⟩ := List.map_eq_append_iff.mp lexemes
    obtain ⟨opening, rest, rfl, opens, outer⟩ := List.map_eq_cons_iff.mp outer
    obtain ⟨closing, rfl, closes⟩ := List.map_eq_singleton_iff.mp outer
    exact (ih inner).map (fun _ read => read.sequence (Token.lexeme_eq_iff.mp opens).1
      (Token.lexeme_eq_iff.mp closes).1) fun _ => rfl
  | array _ small ih =>
    intro ts lexemes
    obtain ⟨ts, us, rfl, inner, outer⟩ := List.map_eq_append_iff.mp lexemes
    obtain ⟨opening, rest, rfl, opens, outer⟩ := List.map_eq_cons_iff.mp outer
    obtain ⟨extent, rest, rfl, number, outer⟩ := List.map_eq_cons_iff.mp outer
    obtain ⟨closing, rfl, closes⟩ := List.map_eq_singleton_iff.mp outer
    exact (ih inner).array (Token.lexeme_eq_iff.mp opens).1 number (Token.lexeme_eq_iff.mp closes).1 small

theorem Follows.nil (t : Ty) : t.Follows [] := ⟨.nil, fun _ head => by cases head⟩

/-- A type that can be written is read back from its text as it is, and the table stays as it is. -/
theorem Writable.typeOf_shown (h : t.Writable table) (file : String) :
    ∃ tokens stop, Token.scan t.shown.toList file = .ok (tokens ++ [stop]) ∧ stop.kind = .endOfInput ∧
      Runs (Resolution.typeOf tokens) table (.ok t) table := by
  have lexes := h.lexes (.nil t)
  rw [List.append_nil] at lexes
  obtain ⟨tokens, stop, scanned, ended, before, lexemes⟩ := lexes.scan file
  obtain ⟨p, reads, run⟩ := h.isReadFrom ensureConstant lexemes
  refine ⟨tokens, stop, scanned, ended, ?_⟩
  rw [Resolution.typeOf, TypePhrase.typeOf, reads.ofTokens before]
  exact run

/-- A table with a class. -/
def oneClass : SymbolTable :=
  SymbolTable.empty.declare ⟨"C", .classDecl .primary .metatype [], .global, .nowhere⟩

/-- A reference to an array of pointers to constants of the class. -/
def layered : Ty :=
  .reference (.array (.pointer (.qualified (.named .classType ⟨0⟩ "C") .const)) 3)

theorem writable_layered : layered.Writable oneClass := by
  have named : Writable oneClass (.named .classType ⟨0⟩ "C") :=
    @Writable.classType _ _ [⟨0⟩] ⟨0⟩ (by decide +kernel) (by decide +kernel) (by decide +kernel) rfl
  exact .reference (.array (.pointer (.qualified named ⟨rfl, rfl⟩ (by decide))) (by decide +kernel)) rfl

theorem typeOf_shown_layered : layered.Writable oneClass ∧ layered.shown = "C const*[3]&" ∧
    ∃ tokens stop, Token.scan layered.shown.toList "text" = .ok (tokens ++ [stop]) ∧
      stop.kind = .endOfInput ∧ Runs (Resolution.typeOf tokens) oneClass (.ok layered) oneClass :=
  ⟨writable_layered, by decide +kernel, writable_layered.typeOf_shown "text"⟩

end Ty

end Deferral
