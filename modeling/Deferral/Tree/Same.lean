import Deferral.Tree.Basic

/-!
# Sameness of types and expressions

Two trees are the same when they agree in every part, places included. Floats are compared as
numbers: one that is not a number differs from itself, and the two zeros are the same.
-/

namespace Deferral

mutual

def Ty.same : Ty → Ty → Bool
  | .void, .void | .bool, .bool | .auto, .auto | .decltypeAuto, .decltypeAuto => true
  | .metatype, .metatype => true
  | .integer p s, .integer p' s' => p == p' && s == s'
  | .float p, .float p' => p == p'
  | .decltype e, .decltype e' => e.same e'
  | .function ts t, .function ts' t' => Ty.sameAll ts ts' && t.same t'
  | .reference t, .reference t' | .pointer t, .pointer t' | .sequence t, .sequence t' => t.same t'
  | .qualified t q, .qualified t' q' => t.same t' && q == q'
  | .array t n, .array t' n' => t.same t' && n == n'
  | .named sort decl name, .named sort' decl' name' =>
    sort == sort' && decl == decl' && name == name'
  | .deferred f, .deferred f' => f == f'
  | _, _ => false
termination_by structural t => t

def Ty.sameAll : List Ty → List Ty → Bool
  | [], [] => true
  | t :: ts, t' :: ts' => t.same t' && Ty.sameAll ts ts'
  | _, _ => false
termination_by structural ts => ts

def Node.same : Node → Node → Bool
  | .deferred f, .deferred f' => f == f'
  | .boolean b, .boolean b' => b == b'
  | .integer n, .integer n' => n == n'
  | .float x, .float x' => x == x'
  | .name decl name, .name decl' name' => decl == decl' && name == name'
  | .unary op e, .unary op' e' => op == op' && e.same e'
  | .binary op l r, .binary op' l' r' => op == op' && l.same l' && r.same r'
  | .call c es, .call c' es' => c.same c' && Expr.sameAll es es'
  | .assign t v, .assign t' v' => t.same t' && v.same v'
  | .converted c e, .converted c' e' => c == c' && e.same e'
  | _, _ => false
termination_by structural n => n

def Expr.same : Expr → Expr → Bool
  | ⟨n, t, s⟩, ⟨n', t', s'⟩ => n.same n' && t.same t' && s == s'
termination_by structural e => e

def Expr.sameAll : List Expr → List Expr → Bool
  | [], [] => true
  | e :: es, e' :: es' => e.same e' && Expr.sameAll es es'
  | _, _ => false
termination_by structural es => es

end

theorem Ty.eq_named_of_same {type : Ty} {sort : NameSort} {decl : DeclId} {name : String}
    (same : type.same (.named sort decl name) = true) : type = .named sort decl name := by
  cases type <;> simp_all [Ty.same]

/-- What is found to be the same as a named type is that type. -/
theorem Ty.any_same_named {type? : Option Ty} {sort : NameSort} {decl : DeclId} {name : String}
    (same : type?.any (·.same (.named sort decl name)) = true) :
    type? = some (.named sort decl name) := by
  obtain ⟨type, rfl, same⟩ := Option.any_eq_true _ _ |>.mp same
  exact congrArg some (Ty.eq_named_of_same same)

end Deferral
