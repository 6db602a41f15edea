import Deferral.Unit.Basic
import Deferral.Unit.Extension

/-!
# The first pass: signatures

Every declared type of a unit is resolved: those of objects and super declarations, of parameters
and results, and the kinds of classes. Extensions are merged into their classes. After this pass
declarations can refer to each other in any order.
-/

namespace Deferral

namespace Signature

/-! ## Type parameters -/

/-- Whether a parameter's type is `auto` under its references and qualifiers. -/
def isUntyped : Ty → Bool
  | .auto => true
  | .reference t | .qualified t _ => isUntyped t
  | _ => false

/-- Replaces the `auto` under the references and qualifiers of a parameter's type. -/
def replaceAuto (replacement : Ty) : Ty → Ty
  | .auto => replacement
  | .reference t => (replaceAuto replacement t).toReference
  | .qualified t q => (replaceAuto replacement t).addQualifiers q
  | t => t

/-- Adds the type parameter that comes behind `count` others; no name leads to it yet. -/
def addTypeParameter (scope : ScopeId) (position : Position) (count : Nat) (t : SymbolTable) :
    SymbolTable :=
  t.addUnnamed
    { name := "T" ++ count.repr, kind := .typeParameter, scope, span := .point position }

/-- Resolves the type of a parameter. A type declared `auto` becomes a new type parameter, which is
added to those that the function has got so far. -/
def parameter (scope : ScopeId) (made : List DeclId) (id : DeclId) : Resolution (List DeclId) := do
  let subject ← Resolution.look fun t => (t.decl id).subject
  tryCatch (Resolution.forceSlot id .declared) fun d => throw (d.within subject)
  let d ← Resolution.look (·.decl id)
  match d.ownType? with
  | none => Resolution.unexpectedDecl d
  | some type =>
    let fresh ← Resolution.look (·.nextDecl)
    let replacement := .named .typeParameter fresh ("T" ++ made.length.repr)
    if isUntyped type then modify (addTypeParameter scope d.span.start made.length)
    modify (·.modifyDecl id (·.withTypeIn .declared (replaceAuto replacement type)))
    return if isUntyped type then made ++ [fresh] else made

/-- Resolves the parameters of a function one after the other. -/
def parametersFrom (scope : ScopeId) : (made : List DeclId) → List DeclId → Resolution (List DeclId)
  | made, [] => return made
  | made, id :: rest => do parametersFrom scope (← parameter scope made id) rest

/-! ## Functions -/

/-- The type of a function with some parameters and a result. -/
def signatureType (t : SymbolTable) (c : Callable) : Ty :=
  .function (c.parameters.map fun id => (t.decl id).ownType?.getD .auto) c.result

/-- Rebuilds the type of a function from its parameters and its result. -/
def rebuildType (t : SymbolTable) (id : DeclId) : SymbolTable :=
  t.modifyDecl id (·.mapCallable fun c => { c with type := signatureType t c })

/-- Resolves parameters and result of a function, and gives the function its type. The type
parameters made on the way become visible only once the whole signature has resolved. -/
def functionSignature (id : DeclId) (scope : ScopeId) (c : Callable) : Resolution Unit := do
  let made ← Resolution.under scope do
    let made ← parametersFrom scope [] c.parameters
    Resolution.forceSlot id .result
    return made
  made.forM fun p => modify fun t => t.bindName scope (t.decl p).name p
  modify (rebuildType · id)
  modify (·.modifyDecl id (·.mapCallable fun c =>
    { c with typeParameters := c.typeParameters ++ made }))

/-- Takes the body out of a function. -/
def withoutBody (t : SymbolTable) (id : DeclId) : SymbolTable :=
  t.modifyDecl id (·.mapCallable fun c => { c with body := .absent })

/-- Gives a function a body. -/
def withBody (t : SymbolTable) (id : DeclId) (body : Body) : SymbolTable :=
  t.modifyDecl id (·.mapCallable fun c => { c with body })

/-- The first pass over a function. Its body is walked in a fresh scope inside that of its
parameters. -/
def function (walk : Stmt → Reporting Stmt) (id : DeclId) : Faulting Unit := do
  let scope ← Faulting.resolve (Resolution.scopeOf (.decl id))
  let d ← Faulting.look (·.decl id)
  match d.callable? with
  | none => Faulting.resolve (Resolution.unexpectedDecl d)
  | some c =>
    Faulting.resolve (functionSignature id scope c)
    Faulting.change (withoutBody · id)
    let body ← match c.body with
      | .statement s =>
        Body.statement <$> (Reporting.under scope (Reporting.underFresh (walk s)) :)
      | body => pure body
    Faulting.change (withBody · id body)

/-! ## Other declarations -/

/-- The first pass over an object or a super declaration. -/
def object (id : DeclId) : Resolution Unit := do
  Resolution.under (← Resolution.look fun t => (t.decl id).scope) do
    Resolution.forceSlot id .declared

/-- The first pass over the members that a class has, which are taken out meanwhile. -/
def members (walk : List Stmt → Reporting (List Stmt)) (id : DeclId) (scope : ScopeId) :
    Reporting Unit := do
  let body ← Reporting.look (·.members id)
  Reporting.change (·.modifyDecl id (·.mapMembers fun _ => []))
  let body ← Reporting.under scope (walk body)
  Reporting.change (·.modifyDecl id (·.mapMembers fun _ => body))

/-- The first pass over a class: its kind, and its members together with those of its extensions. -/
def classMembers (walk : List Stmt → Reporting (List Stmt)) (id : DeclId) : Faulting Unit := do
  let enclosing ← Faulting.look fun t => (t.decl id).scope
  Faulting.resolve (Resolution.under enclosing (Resolution.forceSlot id .kind))
  let scope ← Faulting.resolve (Resolution.scopeOf (.decl id))
  Faulting.withExtensions enclosing id (members walk id scope)

/-- Leaves out the declarations of extensions. -/
def withoutExtensions (t : SymbolTable) (body : List Stmt) : List Stmt :=
  body.filter fun s => !s.declaration?.any fun id => (t.decl id).isExtension

/-! ## Statements -/

mutual

/-- The first pass over a statement; `declare` is the pass over a declaration. -/
def statement (declare : DeclId → Reporting Unit) : Stmt → Reporting Stmt
  | .block id body span => do
    match ← Reporting.attempt (Resolution.scopeOf (.block id)) with
    | .error d =>
      Reporting.report d
      return .block id body span
    | .ok scope =>
      let walked ← Reporting.under scope do
        let walked ← statements declare body
        Reporting.look (withoutExtensions · walked)
      return .block id walked span
  | .declaration id span => do
    declare id
    return .declaration id span
  | .conditional condition onTrue onFalse span => do
    let onTrue ← statement declare onTrue
    let onFalse ← alternative declare onFalse
    return .conditional condition onTrue onFalse span
  | .whileLoop condition body span => do
    let body ← statement declare body
    return .whileLoop condition body span
  | s => return s

/-- The first pass over statements, one after the other. -/
def statements (declare : DeclId → Reporting Unit) : List Stmt → Reporting (List Stmt)
  | [] => return []
  | s :: rest => do
    let s ← statement declare s
    let rest ← statements declare rest
    return s :: rest

/-- The first pass over the statement behind an `else`. -/
def alternative (declare : DeclId → Reporting Unit) : Option Stmt → Reporting (Option Stmt)
  | none => return none
  | some s => some <$> statement declare s

end

/-- The first pass over a sequence of statements, which then lacks the extensions declared in it:
their members belong to the classes they extend. -/
def sequence (declare : DeclId → Reporting Unit) (body : List Stmt) : Reporting (List Stmt) := do
  let walked ← statements declare body
  Reporting.look (withoutExtensions · walked)

/-- The first pass over a declaration; `declare` is the pass over those inside it. An extension is
left to its class, and a parameter to its function. -/
def declaration (declare : DeclId → Reporting Unit) (id : DeclId) : Faulting Unit := do
  let d ← Faulting.look (·.decl id)
  match d.kind with
  | .object _ _ _ | .super _ => Faulting.resolve (object id)
  | .callable _ _ => function (statement declare) id
  | .classDecl .primary _ _ => classMembers (sequence declare) id
  | .classDecl .extension _ _ => return
  | .parameter _ | .typeParameter => Faulting.resolve (Resolution.unexpectedDecl d)

/-- The first pass over a declaration and at most `level` levels of declarations inside it. Each
declaration fails by itself. -/
def declareWithin : (level : Nat) → DeclId → Reporting Unit
  | 0, _ => return
  | level + 1, id => do
    let fault? ← (declaration (declareWithin level) id).fault?
    Reporting.reportWithin (← Reporting.look fun t => (t.decl id).subject) fault?

/-- The first pass over a declaration. Its body is taken out meanwhile, so that declarations nest no
deeper than there are declarations. -/
def declare (id : DeclId) : Reporting Unit := do
  declareWithin ((← Reporting.look (·.decls.size)) + 1) id

end Signature

namespace SourceUnit

/-- The first pass over a unit, and the diagnostics it reports. -/
def resolveSignatures (u : SourceUnit) : StateM SymbolTable (SourceUnit × List Diagnostic) :=
  Reporting.collect do
    let body ← Reporting.under u.scope (Signature.sequence Signature.declare u.body)
    return { u with body }

end SourceUnit

end Deferral
