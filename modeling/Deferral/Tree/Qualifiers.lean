/-!
# Qualifiers

One layer of a type may be `const`, `volatile`, both or neither.
-/

namespace Deferral

structure Qualifiers where
  isConst : Bool
  isVolatile : Bool
deriving DecidableEq, Repr, Inhabited

namespace Qualifiers

def empty : Qualifiers := ⟨false, false⟩
def const : Qualifiers := ⟨true, false⟩
def volatile : Qualifiers := ⟨false, true⟩

/-- The qualifiers of either of two layers. -/
def union (q r : Qualifiers) : Qualifiers :=
  ⟨q.isConst || r.isConst, q.isVolatile || r.isVolatile⟩

/-- The words that follow a type in its text. -/
def suffix (q : Qualifiers) : String :=
  (if q.isConst then " const" else "") ++ (if q.isVolatile then " volatile" else "")

end Qualifiers

end Deferral
