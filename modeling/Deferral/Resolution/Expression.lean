import Deferral.Decimal.Read
import Deferral.Phrase.Expression
import Deferral.Resolution.Name
import Deferral.Typing.Operation

/-!
# From phrases to expressions

Names are bound and operations typed from left to right, operands before what they are operands of.
-/

namespace Deferral

/-- The greatest integer literal. -/
def greatestInteger : Nat := twoTo 63 - 1

namespace Expr

/-- An integer literal has 32 bits if they suffice, and 64 otherwise. -/
def ofInteger (n : Nat) (span : Span) : Expr :=
  ⟨.integer n, if n < twoTo 31 then .int 32 else .int 64, span⟩

/-- A number is a float if it has a point, and an integer otherwise. -/
def ofNumber (t : Token) : Except Diagnostic Expr :=
  let fault : Diagnostic := { cause := .badNumber t.text, position := t.span.start }
  if t.text.toList.contains '.' then
    match Decimal.float? t.text with
    | some x => .ok ⟨.float x, .float 64, t.span⟩
    | none => .error fault
  else
    match Decimal.natural? t.text.toList with
    | some n => if n ≤ greatestInteger then .ok (ofInteger n t.span) else .error fault
    | none => .error fault

end Expr

namespace Phrase

mutual

/-- The typed expression of a phrase, its names bound as seen from the innermost scope. -/
def typed (table : SymbolTable) : Phrase → Except Diagnostic Expr
  | .number t => Expr.ofNumber t
  | .truth value t => .ok ⟨.boolean value, .bool, t.span⟩
  | .name t => table.reference t
  | .unary op start operand => do
    let e ← operand.typed table
    Expr.ofUnary op e ⟨start, e.span.stop⟩
  | .binary op left right => do
    let l ← left.typed table
    let r ← right.typed table
    Expr.ofBinary op l r
  | .assign target value => do
    let t ← target.typed table
    let v ← value.typed table
    Expr.ofAssign t v
  | .call callee arguments stop => do
    let f ← callee.typed table
    let es ← typedAll table arguments
    Expr.ofCall f es ⟨f.span.start, stop⟩

/-- Phrases typed one after the other. -/
def typedAll (table : SymbolTable) : List Phrase → Except Diagnostic (List Expr)
  | [] => .ok []
  | p :: rest => do
    let e ← p.typed table
    let es ← typedAll table rest
    return e :: es

end

end Phrase

namespace SymbolTable

/-- The expression that some tokens form, seen from the innermost scope. Where the grammar fails,
what is wrong with the parts in front is reported first. -/
def expressionOf (table : SymbolTable) (tokens : List Token) : Except Diagnostic Expr :=
  match Phrase.ofTokens tokens with
  | .ok phrase => phrase.typed table
  | .error broken => do
    let _ ← Phrase.typedAll table broken.parts
    .error broken.fault

end SymbolTable

end Deferral
