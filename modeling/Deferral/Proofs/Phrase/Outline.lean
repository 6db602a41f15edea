import Deferral.Constant.Basic
import Deferral.Proofs.Phrase.Grouping
import Deferral.Proofs.Typing.References
import Deferral.Resolution.Expression
import Deferral.Token.Scan

/-!
# The tree of an expression

Erasing the conversions of an expression leaves its outline: which operators it has, in which order,
around which names and literals. The outline of what is read is that of the phrase which the tokens
form, and typing a phrase fails only over its numbers, its names and their types.
-/

namespace Deferral

/-- What an expression says by itself: its tree without types, places and conversions. -/
inductive Outline where
  | excerpt (excerpt : Excerpt)
  | literal (value : Constant)
  | name (name : String)
  | unary (op : UnaryOp) (operand : Outline)
  | binary (op : BinaryOp) (left right : Outline)
  | assign (target value : Outline)
  | call (callee : Outline) (arguments : List Outline)

mutual

/-- The tree of an expression with its conversions erased. -/
def Expr.outline : Expr → Outline
  | ⟨.deferred excerpt, _, _⟩ => .excerpt excerpt
  | ⟨.boolean b, _, _⟩ => .literal (.boolean b)
  | ⟨.integer n, _, _⟩ => .literal (.integer n)
  | ⟨.float x, _, _⟩ => .literal (.float x)
  | ⟨.name _ name, _, _⟩ => .name name
  | ⟨.unary op operand, _, _⟩ => .unary op operand.outline
  | ⟨.binary op left right, _, _⟩ => .binary op left.outline right.outline
  | ⟨.assign target value, _, _⟩ => .assign target.outline value.outline
  | ⟨.call callee arguments, _, _⟩ => .call callee.outline (outlines arguments)
  | ⟨.converted _ source, _, _⟩ => source.outline

def Expr.outlines : List Expr → List Outline
  | [] => []
  | e :: rest => e.outline :: outlines rest

end

/-- The value that the text of a number stands for: a float if it has a point, and an integer
otherwise. -/
def Constant.ofNumber? (text : String) : Option Constant :=
  if text.toList.contains '.' then (Decimal.float? text).map .float
  else (Decimal.natural? text.toList).map fun n => .integer n

mutual

/-- The tree that a phrase is, if all its numbers stand for values. -/
def Phrase.outline? : Phrase → Option Outline
  | .number t => (Constant.ofNumber? t.text).map .literal
  | .truth value _ => some (.literal (.boolean value))
  | .name t => some (.name t.text)
  | .unary op _ operand => do
    let e ← operand.outline?
    return .unary op e
  | .binary op left right => do
    let l ← left.outline?
    let r ← right.outline?
    return .binary op l r
  | .assign target value => do
    let t ← target.outline?
    let v ← value.outline?
    return .assign t v
  | .call callee arguments _ => do
    let f ← callee.outline?
    let es ← outlines? arguments
    return .call f es

def Phrase.outlines? : List Phrase → Option (List Outline)
  | [] => some []
  | p :: rest => do
    let e ← p.outline?
    let es ← outlines? rest
    return e :: es

end

namespace Expr

attribute [local simp] outline outlines

variable {e e' l r : Expr}

theorem outline_of_wraps (h : e.Wraps e') : e'.outline = e.outline := h.eq fun _ _ _ => rfl

theorem outlines_map_asValue (es : List Expr) : outlines (es.map asValue) = outlines es := by
  induction es with
  | nil => rfl
  | cons e rest ih => simp [ih, outline_of_wraps e.wraps_asValue]

theorem meant_checkArithmetic (e : Expr) : Meant (fun _ => True) e.checkArithmetic := by
  unfold checkArithmetic
  split
  · trivial
  · rfl

/-! ## Operations -/

theorem meant_ofNumber (t : Token) :
    Meant (fun e => (Constant.ofNumber? t.text).map .literal = some e.outline) (ofNumber t) := by
  unfold ofNumber Constant.ofNumber?
  dsimp only
  split
  · split
    · rename_i x is
      simp [Meant, is]
    · rfl
  · split
    · rename_i n is
      split
      · simp [Meant, is, ofInteger]
      · rfl
    · rfl

theorem meant_ofUnary (op : UnaryOp) (e : Expr) (span : Span) :
    Meant (fun e' => e'.outline = .unary op e.outline) (ofUnary op e span) := by
  have value := outline_of_wraps e.wraps_asValue
  unfold ofUnary
  split
  · dsimp only
    split
    · exact (meant_checkArithmetic _).bind fun _ _ => by simp [Meant, pure, Except.pure, value]
    · simp [Meant, pure, Except.pure, value]
  · refine e.meant_asCondition.bind fun e' wraps => ?_
    simp [Meant, pure, Except.pure, outline_of_wraps wraps]

theorem meant_ofConnective (op : Connective) (l r : Expr) :
    Meant (fun e => e.outline = .binary (.connective op) l.outline r.outline)
      (ofConnective op l r) := by
  refine l.meant_asCondition.bind fun l' left => r.meant_asCondition.bind fun r' right => ?_
  simp [Meant, pure, Except.pure, outline_of_wraps left, outline_of_wraps right]

theorem meant_ofOperands (op : BinaryOp) (l r : Expr) :
    Meant (fun e => e.outline = .binary op l.outline r.outline) (ofOperands op l r) := by
  have left := outline_of_wraps l.wraps_asValue
  have right := outline_of_wraps r.wraps_asValue
  have met : Meant (fun e : Expr => e.outline = .binary op l.outline r.outline)
      (l.asValue.common r.asValue >>= fun both =>
        pure ⟨.binary op both.1 both.2, resultType op both.1.type, l.span.upTo r.span⟩) := by
    refine (meant_common _ _).bind fun both wraps => ?_
    simp [Meant, pure, Except.pure, outline_of_wraps wraps.1, outline_of_wraps wraps.2,
      left, right]
  unfold ofOperands
  dsimp only
  split
  · simp [Meant, pure, Except.pure, left, right]
  split
  · simp [Meant, pure, Except.pure, left, right]
  split
  · exact (meant_checkArithmetic _).bind fun _ _ => (meant_checkArithmetic _).bind fun _ _ => met
  · exact met

theorem meant_ofBinary (op : BinaryOp) (l r : Expr) :
    Meant (fun e => e.outline = .binary op l.outline r.outline) (ofBinary op l r) := by
  cases op with
  | connective op => exact meant_ofConnective op l r
  | arithmetic | comparison => exact meant_ofOperands _ l r

theorem meant_bindArguments : ∀ (arguments : List Expr) (parameters : List Ty),
    arguments.length = parameters.length →
    Meant (fun bound => outlines bound = outlines arguments) (bindArguments arguments parameters)
  | [], [], _ => rfl
  | e :: arguments, parameter :: parameters, same => by
    refine (e.meant_initializer parameter).bind fun first wraps =>
      (meant_bindArguments arguments parameters (by simpa using same)).bind fun rest outlined => ?_
    simp [Meant, pure, Except.pure, outline_of_wraps wraps, outlined]
  | [], _ :: _, same | _ :: _, [], same => by simp at same

theorem meant_ofCall (callee : Expr) (arguments : List Expr) (span : Span) :
    Meant (fun e => e.outline = .call callee.outline (outlines arguments))
      (ofCall callee arguments span) := by
  unfold ofCall
  split
  · rename_i parameters result _
    dsimp only
    split
    · rfl
    rename_i notMore
    split
    · rfl
    rename_i notFewer
    refine (meant_bindArguments arguments parameters (by omega)).bind fun bound outlined => ?_
    simp [Meant, pure, Except.pure, outlined]
  · split
    · simp [Meant, outlines_map_asValue]
    · rfl

theorem meant_ofAssign (target value : Expr) :
    Meant (fun e => e.outline = .assign target.outline value.outline) (ofAssign target value) := by
  refine (meant_initializer _ _).bind fun bound wraps => ?_
  simp [Meant, pure, Except.pure, outline_of_wraps (value.wraps_asValue.trans wraps)]

end Expr

theorem SymbolTable.meant_reference (table : SymbolTable) (t : Token) :
    Meant (fun e => e.outline = .name t.text) (table.reference t) := by
  have found : Meant (fun _ => True) (table.overloads t) := by
    unfold overloads
    split
    · trivial
    · rfl
  refine found.bind fun set _ => ?_
  split
  · rfl
  dsimp only
  split
  · rfl
  · rfl

/-! ## Phrases -/

namespace Phrase

mutual

/-- Typing keeps the tree of a phrase. -/
theorem meant_typed (table : SymbolTable) : ∀ p : Phrase,
    Meant (fun e => p.outline? = some e.outline) (p.typed table)
  | .number t => Expr.meant_ofNumber t
  | .truth value t => rfl
  | .name t => (table.meant_reference t).mono fun e same => by rw [outline?, same]
  | .unary op start operand =>
    (meant_typed table operand).bind fun e typed =>
      (Expr.meant_ofUnary op e _).mono fun e' same => by simp [outline?, typed, same]
  | .binary op left right =>
    (meant_typed table left).bind fun l typedLeft =>
      (meant_typed table right).bind fun r typedRight =>
        (Expr.meant_ofBinary op l r).mono fun e same => by
          simp [outline?, typedLeft, typedRight, same]
  | .assign target value =>
    (meant_typed table target).bind fun t typedTarget =>
      (meant_typed table value).bind fun v typedValue =>
        (Expr.meant_ofAssign t v).mono fun e same => by
          simp [outline?, typedTarget, typedValue, same]
  | .call callee arguments stop =>
    (meant_typed table callee).bind fun f typedCallee =>
      (meant_typedAll table arguments).bind fun es typedArguments =>
        (Expr.meant_ofCall f es _).mono fun e same => by
          simp [outline?, typedCallee, typedArguments, same]

theorem meant_typedAll (table : SymbolTable) : ∀ ps : List Phrase,
    Meant (fun es => outlines? ps = some (Expr.outlines es)) (typedAll table ps)
  | [] => rfl
  | p :: rest =>
    (meant_typed table p).bind fun e typed =>
      (meant_typedAll table rest).bind fun es typedRest => by
        simp [Meant, pure, Except.pure, outlines?, Expr.outlines, typed, typedRest]

end

end Phrase

namespace SymbolTable

variable {table : SymbolTable} {tokens : List Token}

theorem expressionOf_of_derives {p : Phrase} (h : Derives .expression (Token.beforeEnd tokens) p) :
    table.expressionOf tokens = p.typed table := by
  rw [expressionOf, Phrase.ofTokens_eq_ok_iff.mpr h]

theorem exists_derives_of_expressionOf {e : Expr} (h : table.expressionOf tokens = .ok e) :
    ∃ p, Derives .expression (Token.beforeEnd tokens) p ∧ p.typed table = .ok e := by
  unfold expressionOf at h
  split at h
  · rename_i p read
    exact ⟨p, Phrase.ofTokens_eq_ok_iff.mp read, h⟩
  · obtain ⟨_, -, broken⟩ := bind_eq_ok_iff.mp h
    cases broken

/-- Reading some tokens as an expression succeeds only where the grammar derives them, and then yields
the tree of their one derivation, its conversions aside. Where the grammar derives them, reading fails
only over numbers, names and types. -/
theorem expressionOf_by_grammar (table : SymbolTable) (tokens : List Token) :
    (∀ e, table.expressionOf tokens = .ok e →
      ∃ p, Derives .expression (Token.beforeEnd tokens) p ∧
        (∀ q, Derives .expression (Token.beforeEnd tokens) q → q = p) ∧
        p.outline? = some e.outline) ∧
    (∀ p d, Derives .expression (Token.beforeEnd tokens) p → table.expressionOf tokens = .error d →
      d.cause.isOfMeaning = true) := by
  constructor
  · intro e h
    obtain ⟨p, derives, typed⟩ := exists_derives_of_expressionOf h
    exact ⟨p, derives, fun q derives' => derives'.unique derives,
      (p.meant_typed table).of_ok typed⟩
  · intro p d derives h
    have meant := p.meant_typed table
    rw [← expressionOf_of_derives derives, h] at meant
    exact meant

/-- Operators of every layer around literals are read, and a name that nothing declares is refused
for want of a declaration. -/
theorem expressionOf_by_grammar_literals :
    (∃ tokens e, Token.scan "!(1 + 2 * 3 < -4.5) || 6 == 7".toList "shell" = .ok tokens ∧
      empty.expressionOf tokens = .ok e ∧
      ∃ p, Derives .expression (Token.beforeEnd tokens) p ∧
        (∀ q, Derives .expression (Token.beforeEnd tokens) q → q = p) ∧
        p.outline? = some e.outline) ∧
    ∃ tokens p d, Token.scan "x = 1 - f(2)".toList "shell" = .ok tokens ∧
      Derives .expression (Token.beforeEnd tokens) p ∧ empty.expressionOf tokens = .error d ∧
      d.cause.isOfMeaning = true := by
  constructor
  · have ran : ((Token.scan "!(1 + 2 * 3 < -4.5) || 6 == 7".toList "shell" >>=
        empty.expressionOf).toOption.map fun _ => ()) = some () := by
      rewrite [String.toList_ofList]
      decide +kernel
    obtain ⟨e, ok, -⟩ := map_toOption_eq_some_iff.mp ran
    obtain ⟨tokens, scanned, read⟩ := bind_eq_ok_iff.mp ok
    exact ⟨tokens, e, scanned, read, (expressionOf_by_grammar empty tokens).1 e read⟩
  · have ran : ((Token.scan "x = 1 - f(2)".toList "shell").toOption.map fun tokens =>
        ((Phrase.ofTokens tokens).toOption.isSome, (empty.expressionOf tokens).toOption.isSome)) =
          some (true, false) := by
      rewrite [String.toList_ofList]
      decide +kernel
    obtain ⟨tokens, scanned, holds⟩ := map_toOption_eq_some_iff.mp ran
    obtain ⟨formed, refused⟩ := Prod.mk.inj holds
    obtain ⟨p, formed⟩ := Option.isSome_iff_exists.mp formed
    have derives := Phrase.ofTokens_eq_ok_iff.mp (toOption_eq_some_iff.mp formed)
    cases read : empty.expressionOf tokens with
    | ok e =>
      rw [read] at refused
      cases refused
    | error d =>
      exact ⟨tokens, p, d, scanned, derives, read,
        (expressionOf_by_grammar empty tokens).2 p d derives read⟩

end SymbolTable

end Deferral
