import Deferral.Declaration.Statement
import Deferral.Diagnostic

/-!
# Declarations

A declaration has a name, the scope it was declared in, a span, and what it declares: an object, a
parameter, a super type, a function or coroutine, a class or an extension of one, or a type
parameter.
-/

namespace Deferral

/-- Objects are variables or constants. -/
inductive ObjectSort where
  | var | constant
deriving DecidableEq, Repr

/-- What can be called: functions and coroutines. -/
inductive CallableSort where
  | function | coroutine
deriving DecidableEq, Repr

/-- Class declarations proper, and extensions that add members to the class of their name. -/
inductive ClassSort where
  | primary | extension
deriving DecidableEq, Repr

/-- The body of a function: none, a statement, or the expression it returns. -/
inductive Body where
  | absent
  | statement (s : Stmt)
  | expression (e : Expr)

/-- The parts of a function. `type` is rebuilt from the parameters and the result once these are
known, and `auto` before; `typeParameters` are those made for parameters declared `auto`. -/
structure Callable where
  parameters : List DeclId
  result : Ty
  type : Ty
  body : Body
  typeParameters : List DeclId

namespace Callable

/-- A function of which only the name has been read. -/
def announced : Callable := ⟨[], .auto, .auto, .absent, []⟩

def isGeneric (c : Callable) : Bool := !c.typeParameters.isEmpty

end Callable

/-- What a declaration declares. -/
inductive Declared where
  | object (sort : ObjectSort) (type : Ty) (initializer : Option Expr)
  | parameter (type : Ty)
  | super (type : Ty)
  | callable (sort : CallableSort) (callable : Callable)
  | classDecl (sort : ClassSort) (kind : Ty) (body : List Stmt)
  | typeParameter

structure Decl where
  name : String
  kind : Declared
  scope : ScopeId
  span : Span

/-- The parts of a declaration that hold a type. -/
inductive TypeSlot where
  | declared | result | kind
deriving DecidableEq, Repr

namespace Decl

/-- What stands for a declaration that was never made. -/
instance : Inhabited Decl := ⟨⟨"", .typeParameter, .global, .nowhere⟩⟩

/-- The subject that faults in a declaration are reported against. -/
def subject (d : Decl) : Subject :=
  match d.kind with
  | .object .var _ _ => .varDecl
  | .object .constant _ _ => .constDecl
  | .parameter _ => .parameter
  | .super _ => .superDecl
  | .callable .function _ => .function
  | .callable .coroutine _ => .coroutine
  | .classDecl .primary _ _ => .classDecl
  | .classDecl .extension _ _ => .extension
  | .typeParameter => .typeParameter

def isExtension (d : Decl) : Bool :=
  match d.kind with
  | .classDecl .extension _ _ => true
  | _ => false

def isPrimaryClass (d : Decl) : Bool :=
  match d.kind with
  | .classDecl .primary _ _ => true
  | _ => false

def isTypeParameter (d : Decl) : Bool :=
  match d.kind with
  | .typeParameter => true
  | _ => false

def isConstant (d : Decl) : Bool :=
  match d.kind with
  | .object .constant _ _ => true
  | _ => false

/-- The type held in a slot, if the declaration has that slot. -/
def typeIn? (d : Decl) : TypeSlot → Option Ty
  | .declared =>
    match d.kind with
    | .object _ type _ | .parameter type | .super type => some type
    | _ => none
  | .result =>
    match d.kind with
    | .callable _ c => some c.result
    | _ => none
  | .kind =>
    match d.kind with
    | .classDecl _ kind _ => some kind
    | _ => none

/-- The declared type of an object, a parameter or a super declaration. -/
def ownType? (d : Decl) : Option Ty := d.typeIn? .declared

/-- Puts a type into a slot; a declaration without that slot is left alone. -/
def withTypeIn (d : Decl) (slot : TypeSlot) (type : Ty) : Decl :=
  match slot, d.kind with
  | .declared, .object sort _ initializer => { d with kind := .object sort type initializer }
  | .declared, .parameter _ => { d with kind := .parameter type }
  | .declared, .super _ => { d with kind := .super type }
  | .result, .callable sort c => { d with kind := .callable sort { c with result := type } }
  | .kind, .classDecl sort _ body => { d with kind := .classDecl sort type body }
  | _, _ => d

/-- The initializer of an object that has one. -/
def initializer? (d : Decl) : Option Expr :=
  match d.kind with
  | .object _ _ initializer => initializer
  | _ => none

/-- Replaces the initializer of an object that has one. -/
def withInitializer (d : Decl) (e : Expr) : Decl :=
  match d.kind with
  | .object sort type (some _) => { d with kind := .object sort type (some e) }
  | _ => d

def callable? (d : Decl) : Option Callable :=
  match d.kind with
  | .callable _ c => some c
  | _ => none

/-- Changes the parts of a function. -/
def mapCallable (d : Decl) (f : Callable → Callable) : Decl :=
  match d.kind with
  | .callable sort c => { d with kind := .callable sort (f c) }
  | _ => d

/-- The members of a class or an extension. -/
def members? (d : Decl) : Option (List Stmt) :=
  match d.kind with
  | .classDecl _ _ body => some body
  | _ => none

/-- Changes the members of a class or an extension. -/
def mapMembers (d : Decl) (f : List Stmt → List Stmt) : Decl :=
  match d.kind with
  | .classDecl sort kind body => { d with kind := .classDecl sort kind (f body) }
  | _ => d

end Decl

end Deferral
