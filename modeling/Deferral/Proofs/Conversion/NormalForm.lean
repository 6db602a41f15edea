import Deferral.Conversion.Equivalence
import Deferral.Resolution.Type

/-!
# Types in normal form

Types that have been read are in normal form: nothing in them is deferred, a reference refers to no
reference, qualifiers stand once around something that is no reference, and `decltype` is kept only
while its expression is dependent. A value type is neither a reference nor qualified.
-/

namespace Deferral

namespace Ty

def isQualified : Ty → Bool
  | .qualified _ _ => true
  | _ => false

/-- Neither a reference nor qualified. -/
structure IsValue (t : Ty) : Prop where
  reference : t.isReference = false
  qualified : t.isQualified = false

/-- The widths of the integer types that have a name. -/
def IsWidth (precision : Nat) : Prop :=
  precision = 8 ∨ precision = 16 ∨ precision = 32 ∨ precision = 64

end Ty

mutual

/-- Nothing is deferred, and every layer stands where it may. -/
def Ty.Normal : Ty → Prop
  | .integer precision _ => Ty.IsWidth precision
  | .decltype e => e.Normal ∧ e.type.isDependent = true
  | .function parameters result => Ty.NormalAll parameters ∧ result.Normal
  | .reference t => t.Normal ∧ t.isReference = false
  | .qualified t q => t.Normal ∧ t.IsValue ∧ q ≠ .empty
  | .pointer t | .array t _ | .sequence t => t.Normal
  | .deferred _ => False
  | _ => True

def Ty.NormalAll : List Ty → Prop
  | [] => True
  | t :: rest => t.Normal ∧ Ty.NormalAll rest

/-- Nothing is deferred in a node, and all types in it are in normal form. -/
def Node.Normal : Node → Prop
  | .deferred _ => False
  | .boolean _ | .integer _ | .float _ | .name _ _ => True
  | .unary _ e | .converted _ e => e.Normal
  | .binary _ l r | .assign l r => l.Normal ∧ r.Normal
  | .call callee arguments => callee.Normal ∧ Expr.NormalAll arguments

def Expr.Normal : Expr → Prop
  | ⟨node, type, _⟩ => node.Normal ∧ type.Normal

def Expr.NormalAll : List Expr → Prop
  | [] => True
  | e :: rest => e.Normal ∧ Expr.NormalAll rest

end

theorem Expr.Normal.type {e : Expr} (h : e.Normal) : e.type.Normal := by
  obtain ⟨node, type, span⟩ := e
  exact h.2

theorem Expr.normalAll_iff {es : List Expr} : NormalAll es ↔ ∀ e ∈ es, e.Normal := by
  induction es with
  | nil => exact iff_of_true trivial (List.forall_mem_nil _)
  | cons e rest ih => exact (and_congr_right' ih).trans List.forall_mem_cons.symm

namespace Ty

theorem normalAll_iff {ts : List Ty} : NormalAll ts ↔ ∀ t ∈ ts, t.Normal := by
  induction ts with
  | nil => exact iff_of_true trivial (List.forall_mem_nil _)
  | cons t rest ih => exact (and_congr_right' ih).trans List.forall_mem_cons.symm

theorem Normal.not_deferred {t : Ty} (h : t.Normal) : t.isDeferred = false := by
  cases t with
  | deferred _ => exact h.elim
  | _ => rfl

/-! ## Layers -/

theorem Normal.toReference {t : Ty} (h : t.Normal) : t.toReference.Normal := by
  cases t with
  | reference t => exact h
  | _ => exact ⟨h, rfl⟩

theorem Normal.addQualifiers {t : Ty} (h : t.Normal) (q : Qualifiers) :
    (t.addQualifiers q).Normal := by
  unfold Ty.addQualifiers
  split
  · exact h
  · rename_i hq
    split
    · rename_i inner present
      obtain ⟨hinner, hvalue, hpresent⟩ := h
      refine ⟨hinner, hvalue, fun empty => hpresent ?_⟩
      obtain ⟨c, v⟩ := present
      obtain ⟨c', v'⟩ := q
      simp_all [Qualifiers.union, Qualifiers.empty]
    · exact h
    · rename_i hqualified hreference
      refine ⟨h, ⟨?_, ?_⟩, hq⟩
      · cases t <;> simp_all [isReference]
      · cases t <;> simp_all [isQualified]

theorem Normal.referent {t : Ty} (h : t.Normal) : t.referent.Normal := by
  cases t with
  | reference t => exact h.1
  | _ => exact h

theorem Normal.unqualified {t : Ty} (h : t.Normal) : t.unqualified.Normal := by
  cases t with
  | qualified inner q => exact h.1
  | _ => exact h

theorem Normal.valueType {t : Ty} (h : t.Normal) : t.valueType.Normal := h.referent.unqualified

theorem Normal.isReference_referent {t : Ty} (h : t.Normal) : t.referent.isReference = false := by
  cases t with
  | reference t => exact h.2
  | _ => rfl

theorem Normal.isValue_unqualified {t : Ty} (h : t.Normal) (hr : t.isReference = false) :
    t.unqualified.IsValue := by
  cases t <;> first
    | exact ⟨hr, rfl⟩
    | exact h.2.1

theorem Normal.isValue_valueType {t : Ty} (h : t.Normal) : t.valueType.IsValue :=
  h.referent.isValue_unqualified h.isReference_referent

theorem IsValue.valueType_eq {t : Ty} (h : t.IsValue) : t.valueType = t := by
  obtain ⟨hr, hq⟩ := h
  cases t <;> simp_all [Ty.valueType, Ty.referent, Ty.unqualified, isReference, isQualified]

theorem IsValue.unqualified_eq {t : Ty} (h : t.IsValue) : t.unqualified = t := by
  obtain ⟨-, hq⟩ := h
  cases t <;> simp_all [Ty.unqualified, isQualified]

/-- An integer type or a float type. -/
def IsNumber (t : Ty) : Prop := (∃ p s, t = .integer p s) ∨ ∃ p, t = .float p

theorem IsNumber.isValue {t : Ty} (h : t.IsNumber) : t.IsValue := by
  rcases h with ⟨p, s, rfl⟩ | ⟨p, rfl⟩ <;> exact ⟨rfl, rfl⟩

theorem IsNumber.isArithmetic {t : Ty} (h : t.IsNumber) : t.isArithmetic = true := by
  rcases h with ⟨p, s, rfl⟩ | ⟨p, rfl⟩ <;> rfl

theorem IsNumber.isDependent {t : Ty} (h : t.IsNumber) : t.isDependent = false := by
  rcases h with ⟨p, s, rfl⟩ | ⟨p, rfl⟩ <;> rfl

theorem IsValue.isNumber {t : Ty} (h : t.IsValue) (ha : t.isArithmetic = true) : t.IsNumber := by
  cases t <;> simp_all [Ty.isArithmetic, isInteger, isFloat, Ty.unqualified, IsNumber]
  exact absurd h.qualified (by simp [isQualified])

/-! ## Equivalence -/

attribute [local simp] equivalent equivalentAll

theorem eq_bool_of_equivalent {t : Ty} (h : t.equivalent .bool = true) : t = .bool := by
  cases t <;> simp at h ⊢

theorem IsNumber.eq_of_equivalent {t u : Ty} (h : t.IsNumber) (same : t.equivalent u = true) :
    u = t := by
  rcases h with ⟨p, s, rfl⟩ | ⟨p, rfl⟩ <;> cases u <;> simp_all

theorem equivalent.unqualified {t u : Ty} (h : t.equivalent u = true) :
    t.unqualified.equivalent u.unqualified = true := by
  cases t <;> cases u <;> simp_all [Ty.unqualified]

theorem IsValue.of_equivalent {t u : Ty} (h : u.IsValue) (same : t.equivalent u = true) :
    t.IsValue := by
  obtain ⟨hr, hq⟩ := h
  refine ⟨?_, ?_⟩
  · cases t <;> cases u <;> simp_all [isReference]
  · cases t <;> cases u <;> simp_all [isQualified]

mutual

/-- Only a dependent type may differ from itself, since its expressions are compared as they are
written. -/
theorem Normal.equivalent_self : ∀ t : Ty, t.Normal → t.isDependent = false →
    t.equivalent t = true
  | .void, _, _ | .bool, _, _ | .auto, _, _ | .decltypeAuto, _, _ | .metatype, _, _
  | .integer _ _, _, _ | .float _, _, _ | .named _ _ _, _, _ => by simp
  | .decltype ⟨_, type, _⟩, h, hd => by
    have dependent : type.isDependent = true := h.2
    simp_all [isDependent]
  | .function ts t, h, hd => by
    simp only [isDependent, Bool.or_eq_false_iff] at hd
    simp [Normal.equivalentAll_self ts h.1 hd.2, Normal.equivalent_self t h.2 hd.1]
  | .reference t, h, hd => by simpa using Normal.equivalent_self t h.1 hd
  | .pointer t, h, hd | .sequence t, h, hd => by
    simpa using Normal.equivalent_self t h hd
  | .qualified t _, h, hd => by simpa using Normal.equivalent_self t h.1 hd
  | .array t _, h, hd => by simpa using Normal.equivalent_self t h hd
  | .deferred _, h, _ => h.elim

theorem Normal.equivalentAll_self : ∀ ts : List Ty, NormalAll ts → anyDependent ts = false →
    equivalentAll ts ts = true
  | [], _, _ => rfl
  | t :: ts, h, hd => by
    simp only [anyDependent, Bool.or_eq_false_iff] at hd
    simp [Normal.equivalent_self t h.1 hd.1,
      Normal.equivalentAll_self ts h.2 hd.2]

end

/-! ## Dependency -/

@[simp] theorem isDependent_reference (t : Ty) : (Ty.reference t).isDependent = t.isDependent := rfl

@[simp] theorem isDependent_qualified (t : Ty) (q : Qualifiers) :
    (Ty.qualified t q).isDependent = t.isDependent := rfl

@[simp] theorem isDependent_referent (t : Ty) : t.referent.isDependent = t.isDependent := by
  cases t <;> simp [Ty.referent]

@[simp] theorem isDependent_unqualified (t : Ty) : t.unqualified.isDependent = t.isDependent := by
  cases t <;> simp [Ty.unqualified]

@[simp] theorem isDependent_valueType (t : Ty) : t.valueType.isDependent = t.isDependent := by
  simp [Ty.valueType]

theorem isDependent_of_isPlaceholder {t : Ty} (h : t.isPlaceholder = true) :
    t.isDependent = true := by
  cases t <;> simp_all [isPlaceholder, isDependent]

theorem not_isPlaceholder {t : Ty} (h : t.isDependent = false) : t.isPlaceholder = false := by
  cases hp : t.isPlaceholder with
  | false => rfl
  | true => rw [isDependent_of_isPlaceholder hp] at h; cases h

theorem normal_of_builtin? {name : String} {t : Ty} (h : builtin? name = some t) : t.Normal := by
  obtain ⟨before, after, split, -⟩ := List.lookup_eq_some_iff.mp h
  have member : (name, t) ∈ before ++ (name, t) :: after := by simp
  rw [← split] at member
  simp only [List.mem_cons, Prod.mk.injEq, List.not_mem_nil, or_false] at member
  rcases member with h | h | h | h | h | h | h | h | h | h | h | h | h <;>
    (rw [h.2]; simp [Normal, IsWidth, int, uint])

end Ty

end Deferral
