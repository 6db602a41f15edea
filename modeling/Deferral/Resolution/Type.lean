import Deferral.Constant.Evaluation
import Deferral.Phrase.Type
import Deferral.Resolution.Expression

/-!
# From phrases to types

Names of types are bound, and the extents of arrays evaluated on the way, which may give constants
their values.
-/

namespace Deferral

namespace TypePhrase

/-- The type of an expression, which is kept itself while its type is dependent. -/
def ofDecltype (e : Expr) : Ty := if e.type.isDependent then .decltype e else e.type

/-- The array type of an extent, which is a natural number. -/
def arrayOf (element : Ty) (extent : Constant) (position : Position) : Resolution Ty :=
  match extent with
  | .integer (.ofNat n) => return .array element n
  | value => Resolution.fail (.notEvaluable (.extent value.shown)) position

/-- The typed expression of a phrase inside a type. -/
def typedIn (e : Phrase) : Resolution Expr := do
  Resolution.ofExcept (e.typed (← get))

/-- The type that a phrase stands for, seen from the innermost scope. -/
def resolved (bind : DeclId → Resolution Unit) : TypePhrase → Resolution Ty
  | .name t => do Resolution.ofExcept ((← get).namedType t)
  | .auto => return .auto
  | .decltype e => ofDecltype <$> typedIn e
  | .decltypeAuto => return .decltypeAuto
  | .qualified inner q => (·.addQualifiers q) <$> inner.resolved bind
  | .pointer target => .pointer <$> target.resolved bind
  | .reference target => .toReference <$> target.resolved bind
  | .sequence element => .sequence <$> element.resolved bind
  | .array element extent => do
    let t ← element.resolved bind
    let e ← typedIn extent
    arrayOf t (← e.evaluateWith bind) e.start

/-- Resolves a part of a type for its faults only. -/
def check (bind : DeclId → Resolution Unit) : TypePart → Resolution Unit
  | .type t => discard (t.resolved bind)
  | .expression e => discard (typedIn e)

/-- The type that some tokens form, seen from the innermost scope. Where the grammar fails, what is
wrong with the parts in front is reported first. -/
def typeOf (bind : DeclId → Resolution Unit) (tokens : List Token) : Resolution Ty :=
  match TypePhrase.ofTokens tokens with
  | .ok phrase => phrase.resolved bind
  | .error broken => do
    broken.parts.forM (check bind)
    throw broken.fault

end TypePhrase

end Deferral
