import Deferral.Unit.Basic
import Deferral.Unit.Reader

/-!
# The grammar of statements

Statements and declarations are read at once, but every type and expression in them is set aside as
an excerpt. A function, coroutine, class or extension is declared as soon as its name is read, so
that it is visible from inside; every other declaration at the end of its statement. The scopes they
open are saved, to be entered again when the excerpts are read.
-/

namespace Deferral

namespace Grammar

def semicolon : TokenKind := .mark .semicolon
def comma : TokenKind := .mark .comma
def assignment : TokenKind := .mark .assignment
def openCurly : TokenKind := .mark .openCurly
def closeCurly : TokenKind := .mark .closeCurly
def openParen : TokenKind := .mark .openParen
def closeParen : TokenKind := .mark .closeParen

/-- A type up to one of `ends`. -/
def typeUpTo (ends : List TokenKind) : Reader Ty := .deferred <$> Reader.setAside ends

/-- An expression up to one of `ends`. -/
def expressionUpTo (ends : List TokenKind) : Reader Expr := .deferred <$> Reader.setAside ends

/-- The semicolon that ends a statement, and the span from `start` to it. -/
def endStatement (start : Position) : Reader Span := do
  let last ← Reader.expect semicolon
  return ⟨start, last.span.stop⟩

/-- `var name: type;` or `var name: type = initializer;` -/
def variableStatement : Reader Stmt := do
  let start := (← Reader.advance).span.start
  let name := (← Reader.identifierFor "variable declaration").text
  let _ ← Reader.expect (.mark .colon)
  let type ← typeUpTo [assignment, semicolon]
  let init ← if ← Reader.accept assignment then some <$> expressionUpTo [semicolon] else pure none
  let span ← endStatement start
  let id ← Reader.declare name (.object .var type init) span
  return .declaration id span

/-- The rest of `def name: type = initializer;` -/
def constantStatement (start : Position) (name : String) : Reader Stmt := do
  let _ ← Reader.expect (.mark .colon)
  let type ← typeUpTo [assignment, semicolon]
  let _ ← Reader.expect assignment
  let init ← expressionUpTo [semicolon]
  let span ← endStatement start
  let id ← Reader.declare name (.object .constant type (some init)) span
  return .declaration id span

/-- `super name: type;` -/
def superStatement : Reader Stmt := do
  let start := (← Reader.advance).span.start
  let name := (← Reader.identifierFor "super declaration").text
  let _ ← Reader.expect (.mark .colon)
  let type ← typeUpTo [semicolon]
  let span ← endStatement start
  let id ← Reader.declare name (.super type) span
  return .declaration id span

/-- `name: type` among the parameters of a function. -/
def parameter : Reader DeclId := do
  let token ← Reader.identifierFor "parameter declaration"
  let _ ← Reader.expect (.mark .colon)
  let type ← typeUpTo [comma, closeParen]
  Reader.declare token.text (.parameter type) ⟨token.span.start, ← Reader.endOfLast⟩

/-- One parameter, and the others each behind a comma. -/
def parameterList : Reader (List DeclId) := do
  let first ← parameter
  let others ← Reader.many (· ≠ closeParen) do
    let _ ← Reader.expect comma
    parameter
  return first :: others

/-- The parameters of a function in their brackets. -/
def parameters : Reader (List DeclId) := do
  let _ ← Reader.expect openParen
  let all ← if (← Reader.kind) = closeParen then pure [] else parameterList
  let _ ← Reader.expect closeParen
  return all

/-- The result type behind an arrow, if there is one. -/
def resultType : Reader (Option Ty) := do
  if ← Reader.accept (.mark .arrow) then
    some <$> typeUpTo [openCurly, assignment, semicolon]
  else return none

/-- `{ statements }` in the innermost scope. -/
def blockBody (statement : Reader Stmt) : Reader (List Stmt) := do
  let _ ← Reader.expect openCurly
  let body ← Reader.many (fun kind => kind ≠ .endOfInput ∧ kind ≠ closeCurly) statement
  let _ ← Reader.expect closeCurly
  return body

/-- A block with a scope of its own. -/
def blockStatement (statement : Reader Stmt) : Reader Stmt := do
  let start ← Reader.position
  let id ← Reader.takeBlock
  let scope ← Reader.newScope (.block id)
  let body ← Reader.under scope (blockBody statement)
  return .block id body ⟨start, ← Reader.endOfLast⟩

/-- The body of a function: a block, `= expression;` in a scope of its own, or nothing but a
semicolon. -/
def functionBody (statement : Reader Stmt) (id : DeclId) : Reader Body := do
  let c ← get
  if c.kind = openCurly then .statement <$> blockStatement statement
  else if c.kind = assignment then
    let _ ← Reader.advance
    let _ ← Reader.newScope (.body id)
    let e ← expressionUpTo [semicolon]
    let _ ← Reader.expect semicolon
    return .expression e
  else if c.kind = semicolon then
    let _ ← Reader.advance
    return .absent
  else throw (c.unexpectedFor "expected a function body")

/-- The result type of a function that names none: only that of an expression is deduced. -/
def impliedResult : Body → Ty
  | .expression _ => .auto
  | _ => .void

/-- The parameters, result type and body of a function. -/
def functionParts (statement : Reader Stmt) (id : DeclId) : Reader Callable := do
  let parameters ← parameters
  let result ← resultType
  let body ← functionBody statement id
  return ⟨parameters, result.getD (impliedResult body), .auto, body, []⟩

/-- The rest of a function or coroutine behind its name. -/
def functionStatement (statement : Reader Stmt) (sort : CallableSort) (start : Position)
    (name : String) : Reader Stmt := do
  let id ← Reader.declare name (.callable sort .announced) (.point start)
  let scope ← Reader.newScope (.decl id)
  let callable ← Reader.under scope (functionParts statement id)
  let span := ⟨start, ← Reader.endOfLast⟩
  Reader.change fun t =>
    t.modifyDecl id fun d => { d.mapCallable (fun _ => callable) with span }
  return .declaration id span

/-- `def`, which introduces a constant or a function. -/
def definitionStatement (statement : Reader Stmt) : Reader Stmt := do
  let start := (← Reader.advance).span.start
  let name := (← Reader.identifierFor "definition").text
  let c ← get
  if c.kind = .mark .colon then constantStatement start name
  else if c.kind = openParen then functionStatement statement .function start name
  else throw (c.unexpectedFor "expected `:` or `(` after the defined name")

/-- `coroutine name(...) ...` -/
def coroutineStatement (statement : Reader Stmt) : Reader Stmt := do
  let start := (← Reader.advance).span.start
  let name := (← Reader.identifierFor "coroutine declaration").text
  functionStatement statement .coroutine start name

/-- The kind behind the colon of a class; without one it is `type`, as for every extension. -/
def classKind (sort : ClassSort) : Reader Ty := do
  if sort = .primary then
    if ← Reader.accept (.mark .colon) then return ← typeUpTo [openCurly]
  return .metatype

/-- A class, or an extension of one. -/
def classStatement (statement : Reader Stmt) (sort : ClassSort) : Reader Stmt := do
  let keyword ← Reader.advance
  let name := (← Reader.identifierFor "class declaration").text
  let kind ← classKind sort
  let id ← Reader.declare name (.classDecl sort kind []) keyword.span
  let scope ← Reader.newScope (.decl id)
  let body ← Reader.under scope (blockBody statement)
  let span := ⟨keyword.span.start, ← Reader.endOfLast⟩
  Reader.change fun t =>
    t.modifyDecl id fun d => { d.mapMembers (fun _ => body) with span }
  return .declaration id span

/-- `return;` or `return expression;` -/
def returnStatement : Reader Stmt := do
  let start := (← Reader.advance).span.start
  let value ←
    if (← Reader.kind) = semicolon then pure none else some <$> expressionUpTo [semicolon]
  return .returning value (← endStatement start)

/-- `yield expression;` -/
def yieldStatement : Reader Stmt := do
  let start := (← Reader.advance).span.start
  let value ← expressionUpTo [semicolon]
  return .yielding value (← endStatement start)

/-- A condition in its brackets. -/
def condition : Reader Expr := do
  let _ ← Reader.expect openParen
  let e ← expressionUpTo [closeParen]
  let _ ← Reader.expect closeParen
  return e

/-- `if (condition) statement`, and `else statement` if that follows. -/
def ifStatement (statement : Reader Stmt) : Reader Stmt := do
  let start := (← Reader.advance).span.start
  let condition ← condition
  let onTrue ← statement
  let onFalse ← if ← Reader.accept (.keyword .elseKw) then some <$> statement else pure none
  return .conditional condition onTrue onFalse ⟨start, ← Reader.endOfLast⟩

/-- `while (condition) statement` -/
def whileStatement (statement : Reader Stmt) : Reader Stmt := do
  let start := (← Reader.advance).span.start
  let condition ← condition
  let body ← statement
  return .whileLoop condition body ⟨start, ← Reader.endOfLast⟩

/-- `break;` or `continue;` -/
def jumpStatement (form : Span → Stmt) : Reader Stmt := do
  let start := (← Reader.advance).span.start
  return form (← endStatement start)

/-- An expression up to its semicolon. -/
def expressionStatement : Reader Stmt := do
  let e ← expressionUpTo [semicolon]
  let _ ← Reader.expect semicolon
  return .expression e

/-- The statement that a token of some kind starts; `statement` reads those inside it. Whatever
starts no other statement starts an expression. -/
def statementOf (statement : Reader Stmt) : TokenKind → Reader Stmt
  | .keyword .varKw => variableStatement
  | .keyword .defKw => definitionStatement statement
  | .keyword .coroutineKw => coroutineStatement statement
  | .keyword .classKw => classStatement statement .primary
  | .keyword .extensionKw => classStatement statement .extension
  | .keyword .superKw => superStatement
  | .mark .openCurly => blockStatement statement
  | .keyword .returnKw => returnStatement
  | .keyword .yieldKw => yieldStatement
  | .keyword .ifKw => ifStatement statement
  | .keyword .whileKw => whileStatement statement
  | .keyword .breakKw => jumpStatement .breaking
  | .keyword .continueKw => jumpStatement .continuing
  | _ => expressionStatement

/-- Reads a statement that nests at most `depth` deep. -/
def statementWithin : (depth : Nat) → Reader Stmt
  | 0 => do throw (← get).unexpected
  | depth + 1 => do statementOf (statementWithin depth) (← Reader.kind)

/-- Reads a statement. No statement nests deeper than it has tokens. -/
def statement : Reader Stmt := do statementWithin (← get).upcoming.length

end Grammar

namespace SourceUnit

/-- Reads the unit that some tokens form and declares what it declares in the global scope. -/
def read (tokens : List Token) : Resolution SourceUnit :=
  Resolution.under .global do
    let (body, _) ← (Reader.many (· ≠ .endOfInput) Grammar.statement).run (.ofTokens tokens)
    return ⟨body, .global⟩

end SourceUnit

end Deferral
