import Deferral.Phrase.Basic
import Deferral.Token.Cursor

/-!
# The grammar of expressions

Operators bind by power. From the weakest: assignment, which groups to the right; the connectives;
comparisons; sums; products; the prefix operators; calls. All but assignment group to the left. The
depth of an expression and the length of each of its chains are bounded by the number of tokens to
come.
-/

namespace Deferral

/-- How tightly operators bind. -/
inductive Power where
  | lowest | comma | assignment | logical | relational | additive | multiplicative | unary | call
deriving DecidableEq, Repr

namespace Power

def rank : Power → Nat
  | .lowest => 0
  | .comma => 1
  | .assignment => 2
  | .logical => 3
  | .relational => 4
  | .additive => 5
  | .multiplicative => 6
  | .unary => 7
  | .call => 8

/-- How tightly a binary operator binds. -/
def ofBinary : BinaryOp → Power
  | .connective _ => .logical
  | .comparison _ => .relational
  | .arithmetic .add | .arithmetic .sub => .additive
  | .arithmetic _ => .multiplicative

end Power

/-- What may follow a complete operand. -/
inductive Continuation where
  | binary (op : BinaryOp)
  | assign
  | call
deriving DecidableEq, Repr

namespace Continuation

/-- The continuation that a token of a kind announces. -/
def ofKind? : TokenKind → Option Continuation
  | .mark .assignment => some .assign
  | .mark .openParen => some .call
  | .mark mark => (BinaryOp.ofMark? mark).map .binary
  | _ => none

def power : Continuation → Power
  | .binary op => .ofBinary op
  | .assign => .assignment
  | .call => .call

end Continuation

namespace Phrase

/-- The outcome of reading, which may break off behind some phrases. -/
abbrev Reading := Except (Broken Phrase)

/-- Passes a token of one kind behind some parts. -/
def expectBehind (parts : List Phrase) (c : Cursor) (kind : TokenKind) : Reading (Token × Cursor) :=
  (c.expect kind).mapError fun fault => ⟨parts, fault⟩

/-- Reads an operand; `expression` reads what it contains. -/
def operand (expression : Power → Cursor → Reading (Phrase × Cursor)) (c : Cursor) :
    Reading (Phrase × Cursor) :=
  match c.kind with
  | .number => .ok (.number c.current, c.next)
  | .keyword .trueKw => .ok (.truth true c.current, c.next)
  | .keyword .falseKw => .ok (.truth false c.current, c.next)
  | .identifier => .ok (.name c.current, c.next)
  | .mark .dash => do
    let (e, after) ← expression .unary c.next
    return (.unary .negate c.position e, after)
  | .mark .notMark => do
    let (e, after) ← expression .unary c.next
    return (.unary .not c.position e, after)
  | .mark .openParen => do
    let (e, after) ← expression .lowest c.next
    let (_, after) ← expectBehind [e] after (.mark .closeParen)
    return (e, after)
  | _ => .error ⟨[], c.unexpected⟩

/-- Reads the arguments of a call up to its closing bracket; `expression` reads each, and `isFirst`
says that no comma has to come before. -/
def arguments (expression : Power → Cursor → Reading (Phrase × Cursor)) :
    (bound : Nat) → (isFirst : Bool) → Cursor → Reading (List Phrase × Cursor)
  | 0, _, c => .error ⟨[], c.unexpected⟩
  | bound + 1, isFirst, c =>
    if c.kind = .mark .closeParen then .ok ([], c)
    else do
      let c ← if isFirst then .ok c else (·.2) <$> expectBehind [] c (.mark .comma)
      let (e, c) ← expression .lowest c
      let (rest, c) ← (arguments expression bound false c).mapError (·.behind [e])
      return (e :: rest, c)

/-- Reads what a continuation adds to the operand `left`. The cursor stands before the token that
announces it. -/
def continueWith (expression : Power → Cursor → Reading (Phrase × Cursor)) (form : Continuation)
    (left : Phrase) (c : Cursor) : Reading (Phrase × Cursor) :=
  match form with
  | .binary op => do
    let (right, after) ← (expression (.ofBinary op) c.next).mapError (·.behind [left])
    return (.binary op left right, after)
  | .assign => do
    -- One step below assignment, so that assignments group to the right.
    let (value, after) ← (expression .comma c.next).mapError (·.behind [left])
    return (.assign left value, after)
  | .call => do
    let (es, after) ←
      (arguments expression c.next.upcoming.length true c.next).mapError (·.behind [left])
    let (close, after) ← expectBehind (left :: es) after (.mark .closeParen)
    return (.call left es close.span.stop, after)

/-- Reads the continuations of `left` that bind tighter than `power`. -/
def extend (expression : Power → Cursor → Reading (Phrase × Cursor)) (power : Power) :
    (bound : Nat) → (left : Phrase) → Cursor → Reading (Phrase × Cursor)
  | 0, left, c => .ok (left, c)
  | bound + 1, left, c =>
    match Continuation.ofKind? c.kind with
    | none => .ok (left, c)
    | some form =>
      if form.power.rank ≤ power.rank then .ok (left, c)
      else do
        let (left, c) ← continueWith expression form left c
        extend expression power bound left c

/-- Reads an expression whose operators bind tighter than `power` and that nests at most `depth`
deep. -/
def expression : (depth : Nat) → Power → Cursor → Reading (Phrase × Cursor)
  | 0, _, c => .error ⟨[], c.unexpected⟩
  | depth + 1, power, c => do
    let (left, c) ← operand (expression depth) c
    extend (expression depth) power c.upcoming.length left c

/-- Reads an expression. No expression nests deeper than it has tokens. -/
def read (c : Cursor) : Reading (Phrase × Cursor) := expression c.upcoming.length .lowest c

/-- The expression that some tokens form. -/
def ofTokens (tokens : List Token) : Reading Phrase := do
  let (e, c) ← read (.ofTokens tokens)
  let _ ← expectBehind [e] c .endOfInput
  return e

end Phrase

end Deferral
