import Deferral.Proofs.Phrase.Unplaced
import Deferral.Proofs.Scanning.Spelling

/-!
# Expressions are read back from their texts

The text of an expression is that of its tree, so that conversions leave no trace in it. Every binary operation
stands in brackets, so that its tokens form the same tree again, and typing a tree puts the same conversions
back. Only three things are written as something else is: an assignment among operands, a float, and a call of
a unary expression, whose operator would be read around the call.
-/

namespace Deferral

/-! ## The text of a tree -/

mutual

/-- The text of a tree. -/
def Outline.shown : Outline → String
  | .excerpt f => f.shown
  | .literal value => value.shown
  | .name text => text
  | .unary op operand => op.symbol ++ operand.shown
  | .binary op left right => "(" ++ left.shown ++ " " ++ op.symbol ++ " " ++ right.shown ++ ")"
  | .assign target value => target.shown ++ " = " ++ value.shown
  | .call callee arguments => callee.shown ++ "(" ++ Outline.allShown arguments ++ ")"

def Outline.allShown : List Outline → String
  | [] => ""
  | [o] => o.shown
  | o :: rest => o.shown ++ ", " ++ Outline.allShown rest

end

mutual

/-- The text of an expression is that of its tree. -/
theorem Expr.shown_outline : ∀ e : Expr, e.outline.shown = e.shown
  | ⟨.deferred _, _, _⟩ | ⟨.boolean _, _, _⟩ | ⟨.integer _, _, _⟩ | ⟨.float _, _, _⟩
  | ⟨.name _ _, _, _⟩ => rfl
  | ⟨.unary _ operand, _, _⟩ => by
    simp [Expr.outline, Outline.shown, Expr.shown, Node.shown, shown_outline operand]
  | ⟨.binary _ left right, _, _⟩ => by
    simp [Expr.outline, Outline.shown, Expr.shown, Node.shown, shown_outline left, shown_outline right]
  | ⟨.assign target value, _, _⟩ => by
    simp [Expr.outline, Outline.shown, Expr.shown, Node.shown, shown_outline target, shown_outline value]
  | ⟨.call callee arguments, _, _⟩ => by
    simp [Expr.outline, Outline.shown, Expr.shown, Node.shown, shown_outline callee,
      allShown_outlines arguments]
  | ⟨.converted _ source, _, _⟩ => shown_outline source

theorem Expr.allShown_outlines : ∀ es : List Expr, Outline.allShown (Expr.outlines es) = Expr.shownAll es
  | [] => rfl
  | [e] => shown_outline e
  | e :: e' :: rest => by
    simp only [Expr.outlines, Outline.allShown, Expr.shownAll, shown_outline e]
    exact congrArg _ (allShown_outlines (e' :: rest))

end

/-! ## Trees that can be written -/

/-- The mark that a binary operator is written with. -/
def BinaryOp.mark : BinaryOp → Mark
  | .arithmetic .add => .plus
  | .arithmetic .sub => .dash
  | .arithmetic .mul => .star
  | .arithmetic .div => .slash
  | .arithmetic .rem => .percent
  | .comparison .less => .less
  | .comparison .lessEquals => .lessEquals
  | .comparison .greater => .greater
  | .comparison .greaterEquals => .greaterEquals
  | .comparison .equals => .equals
  | .comparison .notEquals => .notEquals
  | .connective .and => .andMark
  | .connective .or => .orMark

namespace BinaryOp

theorem ofMark?_mark (op : BinaryOp) : ofMark? op.mark = some op := by
  obtain (op | op | op) := op <;> cases op <;> rfl

theorem spelling_mark (op : BinaryOp) : op.mark.spelling = op.symbol := by
  obtain (op | op | op) := op <;> cases op <;> rfl

end BinaryOp

theorem UnaryOp.spelling_mark (op : UnaryOp) : op.mark.spelling = op.symbol := by cases op <;> rfl

namespace Outline

def isUnary : Outline → Bool
  | .unary _ _ => true
  | _ => false

/-- The layer of the grammar that the text of a tree belongs to. -/
def layer : Outline → Layer
  | .unary _ _ => .unary
  | .call _ _ => .call
  | _ => .primary

mutual

/-- There is no assignment in a tree, no float, and no call of a unary expression. -/
def Plain : Outline → Prop
  | .excerpt _ | .literal (.boolean _) | .literal (.integer _) | .name _ => True
  | .literal (.float _) | .assign _ _ => False
  | .unary _ operand => operand.Plain
  | .binary _ left right => left.Plain ∧ right.Plain
  | .call callee arguments => callee.Plain ∧ callee.isUnary = false ∧ AllPlain arguments

def AllPlain : List Outline → Prop
  | [] => True
  | o :: rest => o.Plain ∧ AllPlain rest

end

mutual

def decidablePlain : ∀ o : Outline, Decidable o.Plain
  | .excerpt _ | .literal (.boolean _) | .literal (.integer _) | .name _ => .isTrue trivial
  | .literal (.float _) | .assign _ _ => .isFalse id
  | .unary _ operand => decidablePlain operand
  | .binary _ left right =>
    have := decidablePlain left
    have := decidablePlain right
    inferInstanceAs (Decidable (_ ∧ _))
  | .call callee arguments =>
    have := decidablePlain callee
    have := decidableAllPlain arguments
    inferInstanceAs (Decidable (_ ∧ _ ∧ _))

def decidableAllPlain : ∀ os : List Outline, Decidable (AllPlain os)
  | [] => .isTrue trivial
  | o :: rest =>
    have := decidablePlain o
    have := decidableAllPlain rest
    inferInstanceAs (Decidable (_ ∧ _))

end

instance : DecidablePred Plain := decidablePlain

mutual

/-- A plain tree that has been read to the end, with names that identifiers can have and integers without a
sign. -/
def Writable : Outline → Prop
  | .literal (.boolean _) => True
  | .literal (.integer n) => 0 ≤ n
  | .name text => IsIdentifier text
  | .unary _ operand => operand.Writable
  | .binary _ left right => left.Writable ∧ right.Writable
  | .call callee arguments => callee.Writable ∧ callee.isUnary = false ∧ AllWritable arguments
  | .excerpt _ | .literal (.float _) | .assign _ _ => False

def AllWritable : List Outline → Prop
  | [] => True
  | o :: rest => o.Writable ∧ AllWritable rest

end

mutual

/-- What the text of a tree is put together from, blanks aside. -/
def lexemes : Outline → List Lexeme
  | .literal (.boolean b) => [.keyword (if b then .trueKw else .falseKw)]
  | .literal (.integer n) => [.natural n.toNat]
  | .name text => [.identifier text]
  | .unary op operand => .mark op.mark :: operand.lexemes
  | .binary op left right =>
    .mark .openParen :: (left.lexemes ++ .mark op.mark :: (right.lexemes ++ [.mark .closeParen]))
  | .call callee arguments => callee.lexemes ++ .mark .openParen :: (allLexemes arguments ++ [.mark .closeParen])
  | .excerpt _ | .literal (.float _) | .assign _ _ => []

def allLexemes : List Outline → List Lexeme
  | [] => []
  | [o] => o.lexemes
  | o :: rest => o.lexemes ++ .mark .comma :: allLexemes rest

end

end Outline

/-! ## Reading the text -/

/-- How the text of an expression starts: not so that a mark in front of it would become a longer one, and with
no blank. -/
def Opens (text : List Char) : Prop :=
  ∃ c tail, text = c :: tail ∧ c ≠ '>' ∧ c ≠ '=' ∧ Text.isBlank c = false

theorem Opens.not_isBlank {text rest : List Char} (h : Opens text) :
    ∀ c, (text ++ rest).head? = some c → Text.isBlank c = false := by
  obtain ⟨first, tail, rfl, -, -, blank⟩ := h
  intro c head
  obtain rfl := Option.some.inj head
  exact blank

theorem Opens.append {text : List Char} (h : Opens text) (rest : List Char) : Opens (text ++ rest) := by
  obtain ⟨first, tail, rfl, facts⟩ := h
  exact ⟨first, tail ++ rest, rfl, facts⟩

namespace Outline

/-- The mark of a unary operator stands by itself in front of an operand. -/
theorem lexes_unaryMark (op : UnaryOp) {text : List Char} (opens : Opens text) :
    Lexes (op.symbol.toList ++ text) [.mark op.mark] text := by
  obtain ⟨c, tail, rfl, arrow, equals, -⟩ := opens
  rw [← op.spelling_mark]
  refine .plainMark ?_ (by cases op <;> decide)
  cases op with
  | negate =>
    show Mark.atFront? ('-' :: c :: tail) = _
    simp [Mark.atFront?, arrow, UnaryOp.mark]
  | not =>
    show Mark.atFront? ('!' :: c :: tail) = _
    simp [Mark.atFront?, equals, UnaryOp.mark]

/-- A binary operator stands between blanks. -/
theorem lexes_binaryMark (op : BinaryOp) {text : List Char} (opens : Opens text) :
    Lexes ((" " ++ op.symbol ++ " ").toList ++ text) [.mark op.mark] text := by
  have operator : Lexes (op.mark.spelling.toList ++ ' ' :: text) [.mark op.mark] (' ' :: text) :=
    .mark (by obtain (op | op | op) := op <;> cases op <;> rfl) fun _ => by simp
  have first : ∀ c, (op.mark.spelling.toList ++ ' ' :: text).head? = some c → Text.isBlank c = false := by
    obtain (op | op | op) := op <;> cases op <;>
      (intro c head; obtain rfl := Option.some.inj head; decide)
  have behind : Lexes (' ' :: text) [] text := .blank fun c head => by
    rw [← List.append_nil text] at head
    exact opens.not_isBlank c head
  have whole := (Lexes.blank first).append (operator.append behind)
  rw [op.spelling_mark] at whole
  simpa [String.toList_append] using whole

theorem opens_word {text : List Char} (word : Pattern.word.Matches text) : Opens text := by
  obtain ⟨first, tail, rfl, start, -⟩ := word
  refine ⟨first, tail, rfl, ?_, ?_, Bool.eq_false_iff.mpr (Pattern.not_isBlank_of_isWordStart start)⟩
  · rintro rfl
    exact absurd start (by decide)
  · rintro rfl
    exact absurd start (by decide)

theorem opens_natural (n : Nat) : Opens n.repr.toList := by
  have nonempty : n.repr.toList ≠ [] := by
    rw [Nat.toList_repr]
    exact Nat.toDigits_ne_nil
  obtain ⟨first, tail, same⟩ := List.exists_cons_of_ne_nil nonempty
  have digit : isDigit first = true := Lexes.isDigit_of_mem_repr (same ▸ List.mem_cons_self ..)
  refine ⟨first, tail, same, ?_, ?_, Bool.eq_false_iff.mpr (Pattern.not_isBlank_of_isDigit digit)⟩
  · rintro rfl
    exact absurd digit (by decide)
  · rintro rfl
    exact absurd digit (by decide)

/-- What stands in front of a bracket, a comma or a blank is not continued by it. -/
theorem apart_cons {c : Char} (mark : c = ' ' ∨ c = '(' ∨ c = ')' ∨ c = ',') (rest : List Char) :
    Apart (c :: rest) := by
  rcases mark with rfl | rfl | rfl | rfl <;> exact .cons (by decide) (by decide) rest

mutual

theorem Writable.opens : ∀ {o : Outline}, o.Writable → Opens o.shown.toList
  | .literal (.boolean b), _ => by cases b <;> exact opens_word (by decide +kernel)
  | .literal (.integer (.ofNat n)), _ => opens_natural n
  | .name _, h => opens_word h.1
  | .unary op _, _ => by
    rw [shown, String.toList_append]
    cases op <;> exact ⟨_, _, rfl, by decide, by decide, by decide⟩
  | .binary _ _ _, _ => by
    simp only [shown, String.toList_append, List.append_assoc]
    exact ⟨'(', _, rfl, by decide, by decide, by decide⟩
  | .call callee _, h => by
    simp only [shown, String.toList_append, List.append_assoc]
    exact (Writable.opens (o := callee) h.1).append _

end

mutual

/-- The text of a tree is its lexemes, in front of whatever does not continue it. -/
theorem Writable.lexes : ∀ {o : Outline}, o.Writable → ∀ {rest : List Char}, Apart rest →
    Lexes (o.shown.toList ++ rest) o.lexemes rest
  | .literal (.boolean b), _, _, apart => by
    cases b
    · exact .keyword .falseKw apart
    · exact .keyword .trueKw apart
  | .literal (.integer (.ofNat n)), _, _, apart => .natural n apart
  | .name _, h, _, apart => .identifier h apart
  | .unary op operand, h, rest, apart => by
    rw [shown, String.toList_append, List.append_assoc]
    exact (lexes_unaryMark op ((Writable.opens (o := operand) h).append rest)).append
      (Writable.lexes (o := operand) h apart)
  | .binary op left right, h, rest, apart => by
    have text : (binary op left right).shown.toList ++ rest = Mark.openParen.spelling.toList ++
        (left.shown.toList ++ ((" " ++ op.symbol ++ " ").toList ++ (right.shown.toList ++
          (Mark.closeParen.spelling.toList ++ rest)))) := by
      simp [shown, String.toList_append, Mark.spelling]
    have behind : Apart ((" " ++ op.symbol ++ " ").toList ++ (right.shown.toList ++
        (Mark.closeParen.spelling.toList ++ rest))) := by
      simp only [String.toList_append, List.append_assoc]
      exact apart_cons (.inl rfl) _
    rw [text]
    exact (Lexes.plainMark (m := .openParen) rfl (by decide)).append <|
      (Writable.lexes (o := left) h.1 behind).append <|
        (lexes_binaryMark op ((Writable.opens (o := right) h.2).append _)).append <|
          (Writable.lexes (o := right) h.2 (apart_cons (.inr (.inr (.inl rfl))) _)).append <|
            .plainMark (m := .closeParen) rfl (by decide)
  | .call callee arguments, h, rest, apart => by
    simp only [shown, String.toList_append, List.append_assoc]
    exact (Writable.lexes (o := callee) h.1 (apart_cons (.inr (.inl rfl)) _)).append <|
      (Lexes.plainMark (m := .openParen) rfl (by decide)).append <|
        (@AllWritable.lexes arguments h.2.2 rest).append <| .plainMark (m := .closeParen) rfl (by decide)

/-- Arguments stand in front of the bracket that closes them. -/
theorem AllWritable.lexes : ∀ {os : List Outline}, AllWritable os → ∀ rest : List Char,
    Lexes ((allShown os).toList ++ (")".toList ++ rest)) (allLexemes os) (")".toList ++ rest)
  | [], _, _ => .done
  | [o], h, rest => Writable.lexes (o := o) h.1 (apart_cons (.inr (.inr (.inl rfl))) rest)
  | o :: o' :: os, h, rest => by
    have text : (allShown (o :: o' :: os)).toList ++ (")".toList ++ rest) = o.shown.toList ++
        (Mark.comma.spelling.toList ++ (' ' :: ((allShown (o' :: os)).toList ++ (")".toList ++ rest)))) := by
      simp [allShown, String.toList_append, Mark.spelling]
    have opens : ∀ c, ((allShown (o' :: os)).toList ++ (")".toList ++ rest)).head? = some c →
        Text.isBlank c = false := by
      have first := Writable.opens (o := o') h.2.1
      cases os with
      | nil => exact first.not_isBlank
      | cons _ _ =>
        simp only [allShown, String.toList_append, List.append_assoc]
        exact first.not_isBlank
    rw [text]
    exact (Writable.lexes (o := o) h.1 (apart_cons (.inr (.inr (.inr rfl))) _)).append <|
      (Lexes.plainMark (m := .comma) rfl (by decide)).append <|
        (Lexes.blank opens).append (@AllWritable.lexes (o' :: os) h.2 rest)

end

/-! ## The tree of the text -/

theorem rank_unary_le_layer (o : Outline) : Layer.unary.rank ≤ o.layer.rank := by
  cases o <;> simp [layer, Layer.rank]

theorem rank_call_le_layer {o : Outline} (h : o.isUnary = false) : Layer.call.rank ≤ o.layer.rank := by
  cases o with
  | unary => cases h
  | _ => simp [layer, Layer.rank]

theorem ofNumber?_repr (n : Nat) : Constant.ofNumber? n.repr = some (.integer n) := by
  rw [Constant.ofNumber?, if_neg (by rw [contains_point_repr]; exact Bool.false_ne_true), natural?_repr]
  rfl

mutual

/-- Tokens with the lexemes of a tree form a phrase of its layer, which has that tree. -/
theorem Writable.derives : ∀ {o : Outline}, o.Writable → ∀ {ts : List Token},
    ts.map Token.lexeme = o.lexemes → ∃ p, Derives o.layer ts p ∧ p.outline? = some o
  | .literal (.boolean b), _, ts, lexemes => by
    obtain ⟨t, rfl, is⟩ := List.map_eq_singleton_iff.mp lexemes
    cases b with
    | false => exact ⟨.truth false t, .false (Token.lexeme_eq_iff.mp is).1, rfl⟩
    | true => exact ⟨.truth true t, .true (Token.lexeme_eq_iff.mp is).1, rfl⟩
  | .literal (.integer (.ofNat n)), _, ts, lexemes => by
    obtain ⟨t, rfl, is⟩ := List.map_eq_singleton_iff.mp lexemes
    obtain ⟨kind, text⟩ : t.kind = .number ∧ t.text = n.repr := Token.lexeme_eq_iff.mp is
    exact ⟨.number t, .number kind, by rw [Phrase.outline?, text, ofNumber?_repr]; rfl⟩
  | .name text, _, ts, lexemes => by
    obtain ⟨t, rfl, is⟩ := List.map_eq_singleton_iff.mp lexemes
    obtain ⟨kind, rfl⟩ := Token.lexeme_eq_iff.mp is
    exact ⟨.name t, .name kind, rfl⟩
  | .unary op operand, h, ts, lexemes => by
    obtain ⟨t, us, rfl, is, inner⟩ := List.map_eq_cons_iff.mp lexemes
    obtain ⟨p, derives, tree⟩ := Writable.derives (o := operand) h inner
    exact ⟨.unary op t.span.start p,
      .unary (Token.lexeme_eq_iff.mp is).1 (derives.widen operand.rank_unary_le_layer),
      by simp [Phrase.outline?, tree]⟩
  | .binary op left right, h, ts, lexemes => by
    obtain ⟨opening, ts, rfl, opens, lexemes⟩ := List.map_eq_cons_iff.mp lexemes
    obtain ⟨ts, rest, rfl, first, lexemes⟩ := List.map_eq_append_iff.mp lexemes
    obtain ⟨t, rest, rfl, is, lexemes⟩ := List.map_eq_cons_iff.mp lexemes
    obtain ⟨us, rest, rfl, second, lexemes⟩ := List.map_eq_append_iff.mp lexemes
    obtain ⟨closing, rfl, closes⟩ := List.map_eq_singleton_iff.mp lexemes
    obtain ⟨l, derivesLeft, treeLeft⟩ := Writable.derives (o := left) h.1 first
    obtain ⟨r, derivesRight, treeRight⟩ := Writable.derives (o := right) h.2 second
    have outer : (Layer.ofBinary op).rank ≤ Layer.unary.rank ∧
        (Layer.ofBinary op).next.rank ≤ Layer.unary.rank := by
      obtain (op | op | op) := op <;> cases op <;> decide
    have whole : Derives (.ofBinary op) (ts ++ t :: us) (.binary op l r) :=
      .binary (derivesLeft.widen (outer.1.trans left.rank_unary_le_layer)) (Token.lexeme_eq_iff.mp is).1
        op.ofMark?_mark (derivesRight.widen (outer.2.trans right.rank_unary_le_layer))
    -- Whatever layer the operator belongs to, the brackets make an innermost phrase of the operation.
    have group : Derives .primary (opening :: (ts ++ t :: us ++ [closing])) (.binary op l r) :=
      .group (Token.lexeme_eq_iff.mp opens).1 (whole.widen (Nat.zero_le _)) (Token.lexeme_eq_iff.mp closes).1
    refine ⟨.binary op l r, ?_, by simp [Phrase.outline?, treeLeft, treeRight]⟩
    simpa [layer] using group
  | .call callee arguments, h, ts, lexemes => by
    obtain ⟨ts, rest, rfl, first, lexemes⟩ := List.map_eq_append_iff.mp lexemes
    obtain ⟨opening, rest, rfl, opens, lexemes⟩ := List.map_eq_cons_iff.mp lexemes
    obtain ⟨us, rest, rfl, second, lexemes⟩ := List.map_eq_append_iff.mp lexemes
    obtain ⟨closing, rfl, closes⟩ := List.map_eq_singleton_iff.mp lexemes
    obtain ⟨f, derivesCallee, treeCallee⟩ := Writable.derives (o := callee) h.1 first
    obtain ⟨es, derivesAll, treeAll⟩ := @AllWritable.derives arguments h.2.2 _ second
    exact ⟨.call f es closing.span.stop,
      .call (derivesCallee.widen (rank_call_le_layer h.2.1)) (Token.lexeme_eq_iff.mp opens).1 derivesAll
        (Token.lexeme_eq_iff.mp closes).1,
      by simp [Phrase.outline?, treeCallee, treeAll]⟩

theorem AllWritable.derives : ∀ {os : List Outline}, AllWritable os → ∀ {ts : List Token},
    ts.map Token.lexeme = allLexemes os → ∃ ps, DerivesAll ts ps ∧ Phrase.outlines? ps = some os
  | [], _, ts, lexemes => by
    obtain rfl := List.map_eq_nil_iff.mp lexemes
    exact ⟨[], .none, rfl⟩
  | [o], h, ts, lexemes => by
    obtain ⟨p, derives, tree⟩ := Writable.derives (o := o) h.1 lexemes
    exact ⟨[p], .some (.one (derives.widen (Nat.zero_le _))), by simp [Phrase.outlines?, tree]⟩
  | o :: o' :: os, h, ts, lexemes => by
    obtain ⟨ts, rest, rfl, first, lexemes⟩ := List.map_eq_append_iff.mp lexemes
    obtain ⟨comma, us, rfl, is, others⟩ := List.map_eq_cons_iff.mp lexemes
    obtain ⟨p, derives, tree⟩ := Writable.derives (o := o) h.1 first
    obtain ⟨ps, derivesAll, treeAll⟩ := @AllWritable.derives (o' :: os) h.2 _ others
    cases derivesAll with
    | none => cases treeAll
    | some derivesSome =>
      exact ⟨p :: ps,
        .some (.more (derives.widen (Nat.zero_le _)) (Token.lexeme_eq_iff.mp is).1 derivesSome),
        by simp [Phrase.outlines?, tree, treeAll]⟩

end

end Outline

/-! ## What has been read can be written -/

mutual

/-- A plain tree of tokens of a text can be written. By recursion on how the tokens form it. -/
theorem Derives.writable {layer : Layer} {ts : List Token} {p : Phrase} : Derives layer ts p →
    (∀ t ∈ ts, t.IsScanned) → ∀ {o : Outline}, p.outline? = some o → o.Plain → o.Writable
  | .next h, scanned, _, tree, plain => h.writable scanned tree plain
  | .assign _ _ _, _, o, tree, plain => by
    obtain ⟨_, _, -, -, rfl⟩ := Phrase.outline?_assign.mp tree
    exact plain.elim
  | .binary h _ _ h', scanned, o, tree, plain => by
    obtain ⟨l, r, first, second, rfl⟩ := Phrase.outline?_binary.mp tree
    obtain ⟨front, behind⟩ := List.forall_mem_append.mp scanned
    exact ⟨h.writable front first plain.1,
      h'.writable (List.forall_mem_cons.mp behind).2 second plain.2⟩
  | .unary _ h, scanned, o, tree, plain => by
    obtain ⟨operand, inner, rfl⟩ := Phrase.outline?_unary.mp tree
    show operand.Writable
    exact h.writable (List.forall_mem_cons.mp scanned).2 inner plain
  | .call h _ hs _, scanned, o, tree, plain => by
    obtain ⟨f, es, first, second, rfl⟩ := Phrase.outline?_call.mp tree
    obtain ⟨front, behind⟩ := List.forall_mem_append.mp scanned
    obtain ⟨inside, -⟩ := List.forall_mem_append.mp (List.forall_mem_cons.mp behind).2
    exact ⟨h.writable front first plain.1, plain.2.1, hs.writable inside second plain.2.2⟩
  | .number _, _, o, tree, plain => by
    obtain ⟨value, read, rfl⟩ := Phrase.outline?_number.mp tree
    rcases Expr.ofNumber?_eq_some read with ⟨-, x, -, rfl⟩ | ⟨-, n, -, rfl⟩
    · exact plain.elim
    · exact Int.natCast_nonneg n
  | .name kind, scanned, o, tree, _ => by
    obtain rfl := Option.some.inj tree
    exact (scanned _ (List.mem_cons_self ..)).isIdentifier kind
  | .true _, _, o, tree, _ | .false _, _, o, tree, _ => by
    obtain rfl := Option.some.inj tree
    trivial
  | .group _ h _, scanned, _, tree, plain =>
    h.writable (List.forall_mem_append.mp (List.forall_mem_cons.mp scanned).2).1 tree plain

theorem DerivesAll.writable {ts : List Token} {ps : List Phrase} : DerivesAll ts ps →
    (∀ t ∈ ts, t.IsScanned) → ∀ {os : List Outline}, Phrase.outlines? ps = some os →
    Outline.AllPlain os → Outline.AllWritable os
  | .none, _, os, tree, _ => by
    obtain rfl := Option.some.inj tree
    trivial
  | .some hs, scanned, _, tree, plain => hs.writable scanned tree plain

theorem DerivesSome.writable {ts : List Token} {ps : List Phrase} : DerivesSome ts ps →
    (∀ t ∈ ts, t.IsScanned) → ∀ {os : List Outline}, Phrase.outlines? ps = some os →
    Outline.AllPlain os → Outline.AllWritable os
  | .one h, scanned, os, tree, plain => by
    obtain ⟨o, _, first, last, rfl⟩ := Phrase.outlines?_cons.mp tree
    obtain rfl := Option.some.inj last
    exact ⟨h.writable scanned first plain.1, trivial⟩
  | .more h _ hs, scanned, os, tree, plain => by
    obtain ⟨o, os, first, others, rfl⟩ := Phrase.outlines?_cons.mp tree
    obtain ⟨front, behind⟩ := List.forall_mem_append.mp scanned
    exact ⟨h.writable front first plain.1,
      hs.writable (List.forall_mem_cons.mp behind).2 others plain.2⟩

end

/-! ## The main statement -/

/-- A tree that can be written is that of the phrase which its text is. -/
theorem Outline.Writable.scan {o : Outline} (h : o.Writable) (file : String) :
    ∃ tokens stop p, Token.scan o.shown.toList file = .ok (tokens ++ [stop]) ∧ stop.kind = .endOfInput ∧
      Derives .expression (Token.beforeEnd tokens) p ∧ p.outline? = some o := by
  have lexes := h.lexes .nil
  rw [List.append_nil] at lexes
  obtain ⟨tokens, stop, scanned, ended, before, lexemes⟩ := lexes.scan file
  obtain ⟨p, derives, tree⟩ := h.derives lexemes
  refine ⟨tokens, stop, p, scanned, ended, ?_, tree⟩
  rw [Token.beforeEnd_eq_self before]
  exact derives.widen (Nat.zero_le _)

/-- An expression that has been read from tokens of texts is read back from its own text, wherever that stands,
with the same bindings, types and conversions, unless there is an assignment in it, a float or a call of a
unary expression. -/
theorem SymbolTable.expressionOf_shown {table : SymbolTable} {tokens : List Token} {e : Expr}
    (scanned : ∀ t ∈ tokens, t.IsScanned) (read : table.expressionOf tokens = .ok e) (plain : e.outline.Plain)
    (file : String) :
    ∃ tokens' stop e', Token.scan e.shown.toList file = .ok (tokens' ++ [stop]) ∧ stop.kind = .endOfInput ∧
      table.expressionOf tokens' = .ok e' ∧ e.Moved e' := by
  obtain ⟨p, derives, typed⟩ := exists_derives_of_expressionOf read
  have tree : p.outline? = some e.outline := (p.meant_typed table).of_ok typed
  have writable := derives.writable (fun t member => scanned t ((List.takeWhile_sublist _).mem member)) tree plain
  obtain ⟨tokens', stop, p', scanned', ended, derives', tree'⟩ := writable.scan file
  rw [Expr.shown_outline] at scanned'
  -- The two phrases differ in the places of their tokens only, and in brackets that leave no trace.
  obtain ⟨e', typed', moved⟩ := (p.paired_typed table tree tree').exists_of_ok typed
  exact ⟨tokens', stop, e', scanned', ended, (expressionOf_of_derives derives').trans typed', moved⟩

/-- A table with a variable and a function. -/
def variableAndFunction : SymbolTable :=
  ((SymbolTable.empty.declare ⟨"x", .object .var (.int 32) none, .global, .nowhere⟩).addUnnamed
    ⟨"n", .parameter (.int 64), .global, .nowhere⟩).declare
      ⟨"f", .callable .function ⟨[⟨1⟩], .bool, .function [.int 64] .bool, .absent, []⟩, .global, .nowhere⟩

/-- An argument is widened and operands are read as truth values, both times in the same way. -/
theorem SymbolTable.expressionOf_shown_call : ∃ tokens e,
    Token.scan "f(1 - -x * 2) && !x || 7".toList "shell" = .ok tokens ∧
    variableAndFunction.expressionOf tokens = .ok e ∧ e.outline.Plain ∧
    e.shown = "((f((1 - (-x * 2))) && !x) || 7)" ∧
    ∃ tokens' stop e', Token.scan e.shown.toList "text" = .ok (tokens' ++ [stop]) ∧
      stop.kind = .endOfInput ∧ variableAndFunction.expressionOf tokens' = .ok e' ∧ e.Moved e' := by
  have ran : ((Token.scan "f(1 - -x * 2) && !x || 7".toList "shell" >>=
      variableAndFunction.expressionOf).toOption.map fun e =>
        decide (e.outline.Plain ∧ e.shown = "((f((1 - (-x * 2))) && !x) || 7)")) = some true := by
    rewrite [String.toList_ofList]
    decide +kernel
  obtain ⟨e, ok, holds⟩ := map_toOption_eq_some_iff.mp ran
  obtain ⟨tokens, scanned, read⟩ := bind_eq_ok_iff.mp ok
  obtain ⟨plain, shown⟩ := of_decide_eq_true holds
  exact ⟨tokens, e, scanned, read, plain, shown,
    expressionOf_shown (fun t member => ⟨_, _, _, scanned, member⟩) read plain "text"⟩

end Deferral
