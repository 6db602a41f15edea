import Deferral.Declaration.Id
import Deferral.Token.Basic
import Deferral.Tree.Operator
import Deferral.Tree.Qualifiers

/-!
# Types and expressions

A type may be deferred (its excerpt has not been read yet), a placeholder to be deduced, or known.
Every expression carries its type and its span; a conversion is an expression around another. Types
and expressions contain each other, since `decltype` keeps an expression.
-/

namespace Deferral

/-- What the declaration behind a named type is. -/
inductive NameSort where
  | classType | unionType | enumType | typeParameter
deriving DecidableEq, Repr

/-- The standard conversions. `value` reads what a reference refers to. -/
inductive Conversion where
  | value | boolean | integer | float | qualification
deriving DecidableEq, Repr

def Conversion.name : Conversion → String
  | .value => "Value"
  | .boolean => "Boolean"
  | .integer => "Integer"
  | .float => "Float"
  | .qualification => "Qualification"

mutual

/-- A type. `metatype` is the type of types. -/
inductive Ty where
  | void
  | bool
  | integer (precision : Nat) (signed : Bool)
  | float (precision : Nat)
  | auto
  | decltype (e : Expr)
  | decltypeAuto
  | function (parameters : List Ty) (result : Ty)
  | reference (target : Ty)
  | qualified (inner : Ty) (q : Qualifiers)
  | pointer (target : Ty)
  | array (element : Ty) (extent : Nat)
  | sequence (element : Ty)
  | named (sort : NameSort) (decl : DeclId) (name : String)
  | metatype
  | deferred (excerpt : Excerpt)

/-- What an expression does, apart from its type and place. -/
inductive Node where
  | deferred (excerpt : Excerpt)
  | boolean (b : Bool)
  | integer (n : Int)
  | float (x : Float)
  | name (decl : DeclId) (name : String)
  | unary (op : UnaryOp) (operand : Expr)
  | binary (op : BinaryOp) (left right : Expr)
  | call (callee : Expr) (arguments : List Expr)
  | assign (target value : Expr)
  | converted (conversion : Conversion) (source : Expr)

/-- An expression: its node, its type and its span. -/
inductive Expr where
  | mk (node : Node) (type : Ty) (span : Span)

end

instance : Inhabited Ty := ⟨.auto⟩

namespace Expr

def node : Expr → Node
  | ⟨node, _, _⟩ => node

def type : Expr → Ty
  | ⟨_, type, _⟩ => type

def span : Expr → Span
  | ⟨_, _, span⟩ => span

@[simp] theorem node_mk (n : Node) (t : Ty) (s : Span) : (Expr.mk n t s).node = n := rfl

@[simp] theorem type_mk (n : Node) (t : Ty) (s : Span) : (Expr.mk n t s).type = t := rfl

@[simp] theorem span_mk (n : Node) (t : Ty) (s : Span) : (Expr.mk n t s).span = s := rfl

instance : Inhabited Expr := ⟨⟨.boolean false, .bool, .nowhere⟩⟩

/-- The position at which faults of an expression are reported. -/
def start (e : Expr) : Position := e.span.start

/-- An expression that is still to be read. -/
def deferred (f : Excerpt) : Expr := ⟨.deferred f, .auto, f.span⟩

/-- The excerpt of an expression that is still to be read. -/
def excerpt? : Expr → Option Excerpt
  | ⟨.deferred f, _, _⟩ => some f
  | _ => none

/-- An expression converted to the type `target`; a conversion has no place of its own. -/
def convert (e : Expr) (conversion : Conversion) (target : Ty) : Expr :=
  ⟨.converted conversion e, target, e.span⟩

@[simp] theorem type_convert (e : Expr) (conversion : Conversion) (target : Ty) :
    (e.convert conversion target).type = target := rfl

@[simp] theorem span_convert (e : Expr) (conversion : Conversion) (target : Ty) :
    (e.convert conversion target).span = e.span := rfl

end Expr

end Deferral
