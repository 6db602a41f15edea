import Deferral.SymbolTable.Basic
import Deferral.Tree.Shape

/-!
# Names in expressions and types

A name is looked up from the innermost scope. In an expression the first declaration of its overload
set that is not an extension counts, in a type the class before its extensions and these before type
parameters.
-/

namespace Deferral

namespace SymbolTable

/-- The fault of a name that no enclosing scope has. -/
def undeclared (t : Token) : Diagnostic :=
  { cause := .undeclared t.text, position := t.span.start }

/-- The overload set that an identifier names. -/
def overloads (table : SymbolTable) (t : Token) : Except Diagnostic Overloads :=
  match table.find t.text with
  | some set => .ok set
  | none => .error (undeclared t)

/-- The declaration that stands for an overload set in an expression. -/
def preferred? (table : SymbolTable) (set : Overloads) : Option DeclId :=
  (set.find? fun d => !(table.decl d).isExtension).or set.head?

/-- The type of a use of a declared object: `auto` while the declared type is still deferred. -/
def useType (declared : Ty) : Ty := if declared.isDeferred then .auto else declared

/-- The type of an expression that names a declaration, if that has a value. -/
def typeOfUse? (d : Decl) : Option Ty :=
  match d.kind with
  | .object _ type _ | .parameter type => some (useType type)
  | .callable _ c => some c.type
  | _ => none

/-- The expression that an identifier stands for. -/
def reference (table : SymbolTable) (t : Token) : Except Diagnostic Expr := do
  let set ← table.overloads t
  match table.preferred? set with
  | none => .error (undeclared t)
  | some id =>
    let d := table.decl id
    match typeOfUse? d with
    | some type => return ⟨.name id t.text, type, t.span⟩
    | none =>
      .error { cause := .notAValue t.text d.subject.text, position := t.span.start }

/-- The type that an overload set stands for, under a name. -/
def typeOf? (table : SymbolTable) (name : String) (set : Overloads) : Option Ty :=
  match set.find? (table.decl · |>.isPrimaryClass) with
  | some id => some (.named .classType id name)
  | none =>
    match set.find? (table.decl · |>.isExtension) with
    | some id => some (.named .classType id name)
    | none =>
      (set.find? (table.decl · |>.isTypeParameter)).map fun id => .named .typeParameter id name

/-- The type that an identifier stands for. The names of the builtin types cannot be taken. -/
def namedType (table : SymbolTable) (t : Token) : Except Diagnostic Ty :=
  match Ty.builtin? t.text with
  | some type => .ok type
  | none => do
    let set ← table.overloads t
    match table.typeOf? t.text set with
    | some type => return type
    | none => .error { cause := .unknownType t.text, position := t.span.start }

end SymbolTable

end Deferral
