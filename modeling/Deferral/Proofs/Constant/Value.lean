import Deferral.Constant.Evaluation
import Deferral.Proofs.Execution.Outcome

/-!
# Values under a store

The value of an expression when the values of constants are given and nothing has to be defined on
the way. A value stays the same while the store grows.
-/

namespace Deferral

/-- The truth value that a constant is. -/
def Constant.truth? : Constant → Option Bool
  | .boolean b => some b
  | _ => none

namespace Expr

/-- The value of an expression whose constants have their values in `store`. -/
def value? (store : DeclId → Option Constant) : Expr → Option Constant
  | ⟨.boolean b, _, _⟩ => some (.boolean b)
  | ⟨.integer n, _, _⟩ => some (.integer n)
  | ⟨.float x, _, _⟩ => some (.float x)
  | ⟨.name d _, _, _⟩ => store d
  | ⟨.unary op e, type, _⟩ => do
    let c ← value? store e
    (Constant.unary op type c).toOption
  | ⟨.binary (.connective op) left right, _, _⟩ => do
    let l ← (← value? store left).truth?
    if l = (op = .or) then return .boolean l
    let r ← (← value? store right).truth?
    return .boolean r
  | ⟨.binary (.arithmetic op) left right, type, _⟩ => do
    let l ← value? store left
    let r ← value? store right
    (Constant.arithmetic op type l r).toOption
  | ⟨.binary (.comparison op) left right, _, _⟩ => do
    let l ← value? store left
    let r ← value? store right
    (Constant.comparison op l r).toOption
  | ⟨.converted conversion e, type, _⟩ => do
    let c ← value? store e
    (Constant.convert conversion type c).toOption
  | ⟨.call _ _, _, _⟩ | ⟨.assign _ _, _, _⟩ | ⟨.deferred _, _, _⟩ => none

/-- What has a value has been read. -/
theorem excerpt?_of_value? {store : DeclId → Option Constant} {e : Expr} {v : Constant}
    (value : e.value? store = some v) : e.excerpt? = none := by
  obtain ⟨node, type, span⟩ := e
  cases node with
  | deferred f => simp [value?] at value
  | _ => rfl

/-- The constants that the value of an expression may hang on, from left to right. -/
def constantNames : Expr → List DeclId
  | ⟨.name d _, _, _⟩ => [d]
  | ⟨.unary _ e, _, _⟩ | ⟨.converted _ e, _, _⟩ => e.constantNames
  | ⟨.binary _ left right, _, _⟩ => left.constantNames ++ right.constantNames
  | _ => []

/-- A store that knows more gives the same values. -/
theorem value?_mono {store store' : DeclId → Option Constant}
    (grows : ∀ d v, store d = some v → store' d = some v) :
    ∀ (e : Expr) (v : Constant), e.value? store = some v → e.value? store' = some v
  | ⟨.boolean _, _, _⟩, _, h | ⟨.integer _, _, _⟩, _, h | ⟨.float _, _, _⟩, _, h => h
  | ⟨.name _ _, _, _⟩, _, h => grows _ _ h
  | ⟨.unary _ e, _, _⟩, _, h | ⟨.converted _ e, _, _⟩, _, h => by
    obtain ⟨c, operand, h⟩ := Option.bind_eq_some_iff.mp h
    exact Option.bind_eq_some_iff.mpr ⟨c, value?_mono grows e c operand, h⟩
  | ⟨.binary (.arithmetic _) left right, _, _⟩, _, h
  | ⟨.binary (.comparison _) left right, _, _⟩, _, h => by
    obtain ⟨l, first, h⟩ := Option.bind_eq_some_iff.mp h
    obtain ⟨r, second, h⟩ := Option.bind_eq_some_iff.mp h
    exact Option.bind_eq_some_iff.mpr ⟨l, value?_mono grows left l first,
      Option.bind_eq_some_iff.mpr ⟨r, value?_mono grows right r second, h⟩⟩
  | ⟨.binary (.connective _) left right, _, _⟩, _, h => by
    obtain ⟨l, first, h⟩ := Option.bind_eq_some_iff.mp h
    refine Option.bind_eq_some_iff.mpr ⟨l, value?_mono grows left l first, ?_⟩
    obtain ⟨b, truth, h⟩ := Option.bind_eq_some_iff.mp h
    refine Option.bind_eq_some_iff.mpr ⟨b, truth, ?_⟩
    split at h
    · rename_i decided
      rw [if_pos decided]
      exact h
    · rename_i undecided
      rw [if_neg undecided]
      obtain ⟨r, second, h⟩ := Option.bind_eq_some_iff.mp h
      exact Option.bind_eq_some_iff.mpr ⟨r, value?_mono grows right r second, h⟩
  | ⟨.call _ _, _, _⟩, _, h | ⟨.assign _ _, _, _⟩, _, h | ⟨.deferred _, _, _⟩, _, h => by cases h

end Expr

end Deferral
