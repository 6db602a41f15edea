import Deferral.Tree.Same
import Deferral.Tree.Shape

/-!
# Equivalence, similarity and qualification

Equivalent types are interchangeable. Similar types agree once the qualifiers of every layer are
forgotten; which of two similar types converts to the other is decided by their signatures, the
lists of their layers' qualifiers.
-/

namespace Deferral

namespace Ty

mutual

/-- Whether two types denote the same type. A named type is its declaration, whatever name it is
called by; deferred types are equivalent to none. -/
def equivalent : Ty → Ty → Bool
  | .void, .void | .bool, .bool | .auto, .auto | .decltypeAuto, .decltypeAuto => true
  | .metatype, .metatype => true
  | .integer p s, .integer p' s' => p == p' && s == s'
  | .float p, .float p' => p == p'
  | .decltype e, .decltype e' => e.same e'
  | .function ts t, .function ts' t' => equivalentAll ts ts' && t.equivalent t'
  | .reference t, .reference t' | .pointer t, .pointer t' | .sequence t, .sequence t' =>
    t.equivalent t'
  | .qualified t q, .qualified t' q' => q == q' && t.equivalent t'
  | .array t n, .array t' n' => n == n' && t.equivalent t'
  | .named sort decl _, .named sort' decl' _ => sort == sort' && decl == decl'
  | _, _ => false
termination_by structural t => t

/-- Whether two lists of types agree one by one. -/
def equivalentAll : List Ty → List Ty → Bool
  | [], [] => true
  | t :: ts, t' :: ts' => t.equivalent t' && equivalentAll ts ts'
  | _, _ => false
termination_by structural ts => ts

end

/-- Whether two types without outer qualifiers have the same shape once the qualifiers of the layers
below are forgotten. -/
def similarBare : Ty → Ty → Bool
  | .pointer (.qualified t _), .pointer u | .sequence (.qualified t _), .sequence u =>
    t.similarBare u.unqualified
  | .pointer t, .pointer u | .sequence t, .sequence u => t.similarBare u.unqualified
  | .array (.qualified t _) n, .array u m => n == m && t.similarBare u.unqualified
  | .array t n, .array u m => n == m && t.similarBare u.unqualified
  | t, u => t.equivalent u
termination_by structural t => t

theorem similarBare_pointer (t u : Ty) :
    (pointer t).similarBare (pointer u) = t.unqualified.similarBare u.unqualified := by
  cases t <;> rfl

theorem similarBare_sequence (t u : Ty) :
    (sequence t).similarBare (sequence u) = t.unqualified.similarBare u.unqualified := by
  cases t <;> rfl

theorem similarBare_array (t u : Ty) (n m : Nat) :
    (array t n).similarBare (array u m) =
      (n == m && t.unqualified.similarBare u.unqualified) := by
  cases t <;> rfl

/-- Whether the outer layers of two types are both pointers, both sequences or both arrays. -/
def layersAgree : Ty → Ty → Bool
  | .pointer _, .pointer _ | .sequence _, .sequence _ | .array _ _, .array _ _ => true
  | _, _ => false

theorem layersAgree_eq_false {t u : Ty}
    (pointers : ∀ t' u', t = pointer t' → u = pointer u' → False)
    (sequences : ∀ t' u', t = sequence t' → u = sequence u' → False)
    (arrays : ∀ t' n u' m, t = array t' n → u = array u' m → False) : t.layersAgree u = false := by
  unfold layersAgree
  split
  · exact (pointers _ _ rfl rfl).elim
  · exact (sequences _ _ rfl rfl).elim
  · exact (arrays _ _ _ _ rfl rfl).elim
  · rfl

/-- Where the outer layers do not agree, there is no shape to compare below them. -/
theorem similarBare_eq_equivalent {t u : Ty} (unlike : t.layersAgree u = false) :
    t.similarBare u = t.equivalent u := by
  unfold similarBare
  split
  case h_7 => rfl
  all_goals cases unlike

/-- Whether two types have the same shape once the qualifiers of every layer are forgotten. -/
def similar (t u : Ty) : Bool := t.unqualified.similarBare u.unqualified

/-- The qualifiers of each layer of a type, the outermost first. -/
def signature : Ty → List Qualifiers
  | .qualified (.pointer t) q | .qualified (.array t _) q | .qualified (.sequence t) q =>
    q :: t.signature
  | .qualified _ q => [q]
  | .pointer t | .array t _ | .sequence t => .empty :: t.signature
  | _ => [.empty]

end Ty

namespace Qualifiers

/-- Whether every qualifier of one layer is on another. -/
def within (q r : Qualifiers) : Bool :=
  (!q.isConst || r.isConst) && (!q.isVolatile || r.isVolatile)

/-- Whether the layers below the top convert: none drops a qualifier, and above a layer that gains
one every layer is `const` in the target. -/
def lowerConvertible : (source target : List Qualifiers) → Bool
  | [], [] => true
  | q :: source, r :: target =>
    q.within r && (source == target || r.isConst) && lowerConvertible source target
  | _, _ => false

/-- Whether a value whose type has one signature converts to a similar type with another by gaining
qualifiers. The top layer belongs to the value itself, which is copied, and may differ freely. -/
def convertible : (source target : List Qualifiers) → Bool
  | [], [] => true
  | _ :: source, _ :: target => lowerConvertible source target
  | _, _ => false

end Qualifiers

end Deferral
