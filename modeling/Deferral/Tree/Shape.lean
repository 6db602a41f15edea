import Deferral.Tree.Basic

/-!
# The outer shape of types

Building types layer by layer and looking at their outer layers. `reference` and `qualified` keep
types in a normal form: no reference to a reference, one layer of qualifiers at a time, and none
around a reference.
-/

namespace Deferral

namespace Ty

/-- The signed integers of a width. -/
def int (precision : Nat) : Ty := .integer precision true

/-- The unsigned integers of a width. -/
def uint (precision : Nat) : Ty := .integer precision false

/-- A reference to a type; a reference to a reference is the same reference. -/
def toReference : Ty → Ty
  | .reference t => .reference t
  | t => .reference t

@[simp] theorem toReference_toReference (t : Ty) : t.toReference.toReference = t.toReference := by
  cases t <;> rfl

/-- Adds qualifiers to a type. They join an outer layer of qualifiers, and a reference takes
none. -/
def addQualifiers (t : Ty) (q : Qualifiers) : Ty :=
  if q = .empty then t
  else match t with
    | .qualified inner present => .qualified inner (present.union q)
    | .reference target => .reference target
    | t => .qualified t q

@[simp] theorem addQualifiers_empty (t : Ty) : t.addQualifiers .empty = t := by
  simp [addQualifiers]

/-- A type without its outer layer of qualifiers. -/
def unqualified : Ty → Ty
  | .qualified inner _ => inner
  | t => t

/-- The qualifiers of the outer layer. -/
def qualifiers : Ty → Qualifiers
  | .qualified _ q => q
  | _ => .empty

/-- A type without its outer reference. -/
def referent : Ty → Ty
  | .reference target => target
  | t => t

@[simp] theorem referent_toReference (t : Ty) : t.toReference.referent = t.referent := by
  cases t <;> rfl

/-- The type of a value read from an expression of this type. -/
def valueType (t : Ty) : Ty := t.referent.unqualified

def isReference : Ty → Bool
  | .reference _ => true
  | _ => false

def isBoolean (t : Ty) : Bool :=
  match t.unqualified with
  | .bool => true
  | _ => false

def isInteger (t : Ty) : Bool :=
  match t.unqualified with
  | .integer _ _ => true
  | _ => false

def isFloat (t : Ty) : Bool :=
  match t.unqualified with
  | .float _ => true
  | _ => false

def isArithmetic (t : Ty) : Bool := t.isInteger || t.isFloat

def isDeferred : Ty → Bool
  | .deferred _ => true
  | _ => false

/-- Whether a type is a placeholder for one to be deduced. -/
def isPlaceholder : Ty → Bool
  | .auto | .decltypeAuto => true
  | _ => false

mutual

/-- Whether a type mentions a placeholder or a type parameter, so that its meaning is known only
once those are. -/
def isDependent : Ty → Bool
  | .auto | .decltypeAuto => true
  | .named .typeParameter _ _ => true
  | .decltype ⟨_, t, _⟩ => t.isDependent
  | .function parameters result => result.isDependent || anyDependent parameters
  | .reference t | .qualified t _ | .pointer t | .array t _ | .sequence t => t.isDependent
  | _ => false

/-- Whether one of several types is dependent. -/
def anyDependent : List Ty → Bool
  | [] => false
  | t :: rest => t.isDependent || anyDependent rest

end

/-- The types with a name of their own. -/
def builtin? (name : String) : Option Ty :=
  [("void", .void), ("bool", .bool), ("int8", .int 8), ("int16", .int 16), ("int32", .int 32),
   ("int64", .int 64), ("uint8", .uint 8), ("uint16", .uint 16), ("uint32", .uint 32),
   ("uint64", .uint 64), ("float32", .float 32), ("float64", .float 64), ("type", .metatype)].lookup
    name

end Ty

end Deferral
