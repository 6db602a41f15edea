import Deferral.Resolution.Type
import Deferral.Typing.Initializer

/-!
# Resolving excerpts and defining objects

What was deferred is read under the innermost scope and put in its place; what has been read stays
as it is. Defining an object resolves its type and its initializer and checks the one against the
other. A constant is defined when its value is first needed, and a constant whose value is being
computed is not entered again, so that constants nest no deeper than there are declarations.
-/

namespace Deferral

/-- Reports a fault of the grammar inside an excerpt as a fault of the excerpt, where it was set
aside. Faults of names, types and values keep their own places. -/
def Excerpt.faulted (f : Excerpt) (what : String) (d : Diagnostic) : Diagnostic :=
  if d.cause.isGrammatical then
    { cause := .badExcerpt what d.cause.message, position := f.position }
  else d

namespace SymbolTable

/-- An expression with its excerpt read, if it is deferred. -/
def forceExpression (table : SymbolTable) (e : Expr) : Except Diagnostic Expr :=
  match e.excerpt? with
  | none => .ok e
  | some f => (table.expressionOf f.tokens).mapError (f.faulted "expression")

end SymbolTable

namespace Resolution

/-- An expression with its excerpt read, if it is deferred. -/
def forceExpression (e : Expr) : Resolution Expr := do
  ofExcept ((← get).forceExpression e)

/-- A type with its excerpt read, if it is deferred. -/
def forceTypeWith (bind : DeclId → Resolution Unit) : Ty → Resolution Ty
  | .deferred f => tryCatch (TypePhrase.typeOf bind f.tokens) fun d => throw (f.faulted "type" d)
  | type => return type

/-- Resolves the type in a slot of a declaration. -/
def forceSlotWith (bind : DeclId → Resolution Unit) (id : DeclId) (slot : TypeSlot) :
    Resolution Unit := do
  match ← look fun t => (t.decl id).typeIn? slot with
  | none => fail (.internal (.noTypeHeld id.index)) .nowhere
  | some type =>
    if type.isDeferred then
      let resolved ← forceTypeWith bind type
      modify (·.modifyDecl id (·.withTypeIn slot resolved))

/-- Takes a deduced type from an expression: `auto` reads a value, and `decltype(auto)` keeps the
expression as it is. No other type is deduced. -/
def deduce? (placeholder : Ty) (e : Expr) : Option Expr :=
  match placeholder with
  | .auto => some e.asValue
  | .decltypeAuto => some e
  | _ => none

/-- Checks an initializer against the declared type of an object, or gives the object its type. -/
def settleType (id : DeclId) (declared : Ty) (init : Expr) : Resolution Expr :=
  match deduce? declared init with
  | some init => do
    modify (·.modifyDecl id (·.withTypeIn .declared init.type))
    return init
  | none => ofExcept (init.definingInitializer declared)

/-- Resolves the declared type and the initializer of an object in the object's own scope. -/
def forceObjectWith (bind : DeclId → Resolution Unit) (id : DeclId) (scope : ScopeId)
    (init : Expr) : Resolution Expr :=
  under scope do
    forceSlotWith bind id .declared
    forceExpression init

/-- Defines an object that has an initializer; a constant also gets its value. The declared type is
resolved first, since a constant may be needed before its turn. -/
def settleObjectWith (bind : DeclId → Resolution Unit) (id : DeclId) : Resolution Unit := do
  let d ← look (·.decl id)
  match d.initializer? with
  | none => return
  | some init =>
    let init ← forceObjectWith bind id d.scope init
    match ← look fun t => (t.decl id).ownType? with
    | none => unexpectedDecl (← look (·.decl id))
    | some declared =>
      let init ← settleType id declared init
      if d.isConstant then
        let value ← init.evaluateWith bind
        modify (·.setConstant id value)
      modify (·.modifyDecl id (·.withInitializer init))

/-- The fault of a constant whose value is asked for while it is being computed. -/
def selfDependent (id : DeclId) : Resolution Unit := do
  let d ← look (·.decl id)
  fail (.notEvaluable (.selfDependent d.name)) d.span.start

/-- Runs `settle` on a constant while it is marked as being computed. -/
def enterConstant (settle : DeclId → Resolution Unit) (id : DeclId) : Resolution Unit := do
  match (← get).startBinding? id with
  | none => selfDependent id
  | some table =>
    set table
    ending (settle id) (·.finishBinding id)

/-- Makes sure that a constant has its value, with at most `level` constants nested inside it. All
declarations are being bound once there is no level left, so that any constant needed then depends
on itself. -/
def ensureConstantWithin : (level : Nat) → (id : DeclId) → Resolution Unit
  | 0, id => do
    if (← look (·.constant? id)).isSome then return
    selfDependent id
  | level + 1, id => do
    if (← look (·.constant? id)).isSome then return
    enterConstant (settleObjectWith (ensureConstantWithin level)) id

/-- Makes sure that a constant has its value, computing it if need be. -/
def ensureConstant (id : DeclId) : Resolution Unit := do
  ensureConstantWithin (← look (·.decls.size)) id

/-- The value of an expression. -/
def evaluate (e : Expr) : Resolution Constant := e.evaluateWith ensureConstant

/-- The type that some tokens form, seen from the innermost scope. -/
def typeOf (tokens : List Token) : Resolution Ty := TypePhrase.typeOf ensureConstant tokens

/-- A type with its excerpt read, if it is deferred. -/
def forceType (type : Ty) : Resolution Ty := forceTypeWith ensureConstant type

/-- Resolves the type in a slot of a declaration. -/
def forceSlot (id : DeclId) (slot : TypeSlot) : Resolution Unit :=
  forceSlotWith ensureConstant id slot

/-- Defines an object that has an initializer; a constant also gets its value. -/
def settleObject (id : DeclId) : Resolution Unit := settleObjectWith ensureConstant id

end Resolution

end Deferral
