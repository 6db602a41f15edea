import Deferral.Unit.Signature

/-!
# The second pass: definitions

Initializers, bodies, conditions and the other expressions of a unit are resolved, types declared
`auto` are deduced, and constants get their values. A statement that fails keeps what has been
resolved of it by then.
-/

namespace Deferral

namespace Definition

/-- Something that has been worked on as far as it went, and the fault that ended the work. -/
abbrev Worked (α : Type) := α × Option Diagnostic

/-- Resolves an expression in its place and then changes it by `finish`. Where `finish` fails the
expression stays resolved. -/
def settle (finish : Expr → Resolution Expr) (e : Expr) : Reporting (Worked Expr) := do
  match ← Reporting.attempt (Resolution.forceExpression e) with
  | .error d => return (e, some d)
  | .ok resolved =>
    match ← Reporting.attempt (finish resolved) with
    | .error d => return (resolved, some d)
    | .ok finished => return (finished, none)

/-! ## Results -/

/-- The result type of a function. -/
def resultOf (id : DeclId) : Resolution Ty := do
  let d ← Resolution.look (·.decl id)
  match d.callable? with
  | some c => return c.result
  | none => Resolution.unexpectedDecl d

/-- Gives a function whose result type is a placeholder the result type `deduced`, and rebuilds its
type. -/
def deduceResult (id : DeclId) (deduced : Ty) : Resolution Unit := do
  if (← resultOf id).isPlaceholder then
    modify (·.modifyDecl id (·.mapCallable fun c => { c with result := deduced }))
    modify (Signature.rebuildType · id)

/-- An expression returned by a function, converted to its result type or taken to deduce it. -/
def asResult (id : DeclId) (e : Expr) : Resolution Expr := do
  let result ← resultOf id
  match Resolution.deduce? result e with
  | some e => do
    deduceResult id e.type
    return e
  | none => Resolution.ofExcept (e.definingInitializer result)

/-- A return without a value makes a result type to be deduced `void`, and fits no other. -/
def withoutResult (id : DeclId) (position : Position) : Resolution Unit := do
  match ← resultOf id with
  | .auto | .decltypeAuto => deduceResult id .void
  | .void => return
  | result =>
    if result.isDependent then return
    else Resolution.fail (.noConversion Ty.void.shown result.shown) position

/-- A yielded expression has the result type, and deduces none. -/
def yielded (id : DeclId) (e : Expr) : Resolution Expr := do
  Resolution.ofExcept (e.asValue.initializer (← resultOf id))

/-- What is done to an expression inside a function; outside of any it is left as it is. -/
def inside (function : Option DeclId) (finish : DeclId → Expr → Resolution Expr) :
    Expr → Resolution Expr :=
  match function with
  | some id => finish id
  | none => pure

/-! ## Statements -/

/-- Reports a fault that a statement ended in. -/
def reportStatement (worked : Worked Stmt) : Reporting Stmt := do
  Reporting.reportWithin .statement worked.2
  return worked.1

mutual

/-- The second pass over a statement in the body of `function`, if it is in one; `define` is the
pass over a declaration. -/
def statement (define : DeclId → Reporting Unit) (function : Option DeclId) :
    Stmt → Reporting (Worked Stmt)
  | .block id body span => do
    match ← Reporting.attempt (Resolution.scopeOf (.block id)) with
    | .error d => return (.block id body span, some d)
    | .ok scope =>
      let body ← Reporting.under scope (statements define function body)
      return (.block id body span, none)
  | .returning (some e) span => do
    let (e, fault?) ← settle (inside function asResult) e
    return (.returning (some e) span, fault?)
  | .returning none span => do
    match function with
    | none => return (.returning none span, none)
    | some id =>
      let fault? ← (Faulting.resolve (withoutResult id span.start)).fault?
      return (.returning none span, fault?)
  | .yielding e span => do
    let (e, fault?) ← settle (inside function yielded) e
    return (.yielding e span, fault?)
  | .conditional e onTrue onFalse span => do
    match ← settle (Resolution.ofExcept ·.asCondition) e with
    | (e, some d) => return (.conditional e onTrue onFalse span, some d)
    | (e, none) =>
      match ← statement define function onTrue with
      | (onTrue, some d) => return (.conditional e onTrue onFalse span, some d)
      | (onTrue, none) =>
        let (onFalse, fault?) ← alternative define function onFalse
        return (.conditional e onTrue onFalse span, fault?)
  | .whileLoop e body span => do
    match ← settle (Resolution.ofExcept ·.asCondition) e with
    | (e, some d) => return (.whileLoop e body span, some d)
    | (e, none) =>
      let (body, fault?) ← statement define function body
      return (.whileLoop e body span, fault?)
  | .breaking span => return (.breaking span, none)
  | .continuing span => return (.continuing span, none)
  | .declaration id span => do
    define id
    return (.declaration id span, none)
  | .expression e => do
    let (e, fault?) ← settle pure e
    return (.expression e, fault?)

/-- The second pass over statements, each of which fails by itself. -/
def statements (define : DeclId → Reporting Unit) (function : Option DeclId) :
    List Stmt → Reporting (List Stmt)
  | [] => return []
  | s :: rest => do
    let s ← reportStatement (← statement define function s)
    let rest ← statements define function rest
    return s :: rest

/-- The second pass over the statement behind an `else`. -/
def alternative (define : DeclId → Reporting Unit) (function : Option DeclId) :
    Option Stmt → Reporting (Worked (Option Stmt))
  | none => return (none, none)
  | some s => do
    let (s, fault?) ← statement define function s
    return (some s, fault?)

end

/-! ## Declarations -/

/-- The second pass over an object. One whose declared type has not been resolved was reported by
the first pass. -/
def object (id : DeclId) : Resolution Unit := do
  let d ← Resolution.look (·.decl id)
  match d.ownType? with
  | none => Resolution.unexpectedDecl d
  | some type =>
    if type.isDeferred then return
    else if d.isConstant then Resolution.ensureConstant id
    else Resolution.settleObject id

/-- The second pass over the body of a function; that of an expression is returned as if by a
statement. -/
def body (walk : Stmt → Reporting (Worked Stmt)) (id : DeclId) : Body → Reporting (Worked Body)
  | .absent => return (.absent, none)
  | .statement s => do
    let (s, fault?) ← walk s
    return (.statement s, fault?)
  | .expression e => do
    match ← Reporting.attempt (Resolution.scopeOf (.body id)) with
    | .error d => return (.expression e, some d)
    | .ok scope =>
      let (e, fault?) ← Reporting.under scope (settle (asResult id) e)
      return (.expression e, fault?)

/-- The second pass over a function. One that has not got its type was reported by the first
pass. -/
def function (walk : Stmt → Reporting (Worked Stmt)) (id : DeclId) : Faulting Unit := do
  let d ← Faulting.look (·.decl id)
  match d.callable? with
  | none => Faulting.resolve (Resolution.unexpectedDecl d)
  | some c =>
    if let .auto := c.type then return
    let scope ← Faulting.resolve (Resolution.scopeOf (.decl id))
    Faulting.change (Signature.withoutBody · id)
    let (worked, fault?) ← (Reporting.under scope (body walk id c.body) :)
    Faulting.change (Signature.withBody · id worked)
    match fault? with
    | none => return
    | some d => throw d

/-- The second pass over a class: over its members, each of which fails by itself. -/
def classMembers (walk : List Stmt → Reporting (List Stmt)) (id : DeclId) : Faulting Unit := do
  let scope ← Faulting.resolve (Resolution.scopeOf (.decl id))
  let body ← Faulting.look (·.members id)
  Faulting.change (·.modifyDecl id (·.mapMembers fun _ => []))
  let body ← (Reporting.under scope (walk body) :)
  Faulting.change (·.modifyDecl id (·.mapMembers fun _ => body))

/-- The second pass over a declaration; `define` is the pass over those inside it. -/
def declaration (define : DeclId → Reporting Unit) (id : DeclId) : Faulting Unit := do
  let d ← Faulting.look (·.decl id)
  match d.kind with
  | .object _ _ _ => Faulting.resolve (object id)
  | .callable _ _ => function (statement define (some id)) id
  | .classDecl .primary _ _ => classMembers (statements define none) id
  | .super _ | .classDecl .extension _ _ => return
  | .parameter _ | .typeParameter => Faulting.resolve (Resolution.unexpectedDecl d)

/-- The second pass over a declaration and at most `level` levels of declarations inside it. Each
declaration fails by itself. -/
def defineWithin : (level : Nat) → DeclId → Reporting Unit
  | 0, _ => return
  | level + 1, id => do
    let fault? ← (declaration (defineWithin level) id).fault?
    Reporting.reportWithin (← Reporting.look fun t => (t.decl id).subject) fault?

/-- The second pass over a declaration. Its body is taken out meanwhile, so that declarations nest
no deeper than there are declarations. -/
def define (id : DeclId) : Reporting Unit := do
  defineWithin ((← Reporting.look (·.decls.size)) + 1) id

end Definition

namespace SourceUnit

/-- The second pass over a unit, and the diagnostics it reports. -/
def resolveDefinitions (u : SourceUnit) : StateM SymbolTable (SourceUnit × List Diagnostic) :=
  Reporting.collect do
    let body ← Reporting.under u.scope (Definition.statements Definition.define none u.body)
    return { u with body }

/-- Both passes over a unit, and the diagnostics they report. -/
def resolve (u : SourceUnit) : StateM SymbolTable (SourceUnit × List Diagnostic) := do
  let (u, first) ← u.resolveSignatures
  let (u, second) ← u.resolveDefinitions
  return (u, first ++ second)

end SourceUnit

end Deferral
