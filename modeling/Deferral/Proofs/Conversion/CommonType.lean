import Deferral.Conversion.CommonType
import Deferral.Proofs.Conversion.NormalForm

/-!
# The common type is a join

Numbers of any two types meet in one that depends on the two types only: a float type if either is one, as
wide as the wider float, and else an integer type as wide as the wider operand, signed if both are. This is
commutative, associative and idempotent, so that the type of a chain of operands does not depend on how they
are grouped or ordered. No other types have a common type unless they are equivalent.
-/

namespace Deferral

namespace Ty

variable {t u v : Ty}

/-- The type in which numbers of two types meet. -/
def join : Ty → Ty → Ty
  | .float p, .float p' => .float (max p p')
  | .float p, _ => .float p
  | _, .float p => .float p
  | .integer p s, .integer p' s' => .integer (max p p') (s && s')
  | t, _ => t

theorem IsNumber.join (h : t.IsNumber) (h' : u.IsNumber) : (t.join u).IsNumber := by
  rcases h with ⟨p, s, rfl⟩ | ⟨p, rfl⟩ <;> rcases h' with ⟨p', s', rfl⟩ | ⟨p', rfl⟩
  · exact .inl ⟨_, _, rfl⟩
  all_goals exact .inr ⟨_, rfl⟩

theorem join_self (h : t.IsNumber) : t.join t = t := by
  rcases h with ⟨p, s, rfl⟩ | ⟨p, rfl⟩ <;> simp [join]

theorem join_comm (h : t.IsNumber) (h' : u.IsNumber) : t.join u = u.join t := by
  rcases h with ⟨p, s, rfl⟩ | ⟨p, rfl⟩ <;> rcases h' with ⟨p', s', rfl⟩ | ⟨p', rfl⟩ <;>
    simp [join, Nat.max_comm, Bool.and_comm]

theorem join_assoc (h : t.IsNumber) (h' : u.IsNumber) (h'' : v.IsNumber) :
    (t.join u).join v = t.join (u.join v) := by
  rcases h with ⟨p, s, rfl⟩ | ⟨p, rfl⟩ <;> rcases h' with ⟨p', s', rfl⟩ | ⟨p', rfl⟩ <;>
    rcases h'' with ⟨p'', s'', rfl⟩ | ⟨p'', rfl⟩ <;> simp [join, Nat.max_assoc, Bool.and_assoc]

/-! ## Truth values -/

theorem isBoolean_eq_of_equivalent (same : t.equivalent u = true) : t.isBoolean = u.isBoolean := by
  have inner := equivalent.unqualified same
  unfold isBoolean
  split
  · next left =>
    rw [left] at inner
    cases right : u.unqualified <;> simp_all [equivalent]
  · next other =>
    split
    · next right => exact (other (eq_bool_of_equivalent (right ▸ inner))).elim
    · rfl

theorem isArithmetic_of_isBoolean (h : t.isBoolean = true) : t.isArithmetic = false := by
  unfold isBoolean at h
  unfold isArithmetic isInteger isFloat
  cases inner : t.unqualified <;> simp_all

end Ty

namespace Expr

/-- An operand that has a type, or a conversion of its number to that type. -/
inductive Brought (e : Expr) (t : Ty) : Expr → Prop
  | same : e.type = t → Brought e t e
  | converted {kind : Conversion} : kind = .integer ∨ kind = .float → e.type ≠ t →
      Brought e t ⟨.converted kind e, t, e.span⟩

theorem Brought.type {e e' : Expr} {t : Ty} (h : Brought e t e') : e'.type = t := by
  cases h with
  | same type => exact type
  | converted _ _ => rfl

variable {l r : Expr} {p p' : Nat} {s s' : Bool}

/-- Two operands that have met in a type. -/
def MeetIn (l r : Expr) (t : Ty) : Except Diagnostic (Expr × Expr) → Prop
  | .ok (l', r') => Brought l t l' ∧ Brought r t r'
  | .error _ => False

/-- An integer widens, or changes its sign where the width is the same. -/
theorem brought_toInteger {e : Expr} (type : e.type = .integer p s) (le : p ≤ p')
    (ne : p = p' → s ≠ s') : Brought e (.integer p' s') (e.toInteger (.integer p' s')) := by
  have steps : p < p' ∨ p = p' ∧ s ≠ s' :=
    (Nat.lt_or_eq_of_le le).imp_right fun same => ⟨same, ne same⟩
  have different : e.type ≠ .integer p' s' := by
    rw [type]
    rintro ⟨⟩
    simp at steps
  unfold toInteger
  rw [type]
  simp only [Ty.unqualified, if_pos steps]
  exact .converted (.inl rfl) different

theorem brought_toWiderFloat {e : Expr} (type : e.type = .float p) (lt : p < p') :
    Brought e (.float p') (e.toWiderFloat (.float p')) := by
  unfold toWiderFloat
  rw [type]
  simp only [Ty.unqualified, if_pos lt]
  exact .converted (.inr rfl) (by simp [type, Nat.ne_of_lt lt])

theorem brought_integerToFloat {e : Expr} (type : e.type = .integer p s) :
    Brought e (.float p') (e.integerToFloat (.float p')) := by
  unfold integerToFloat
  rw [type]
  exact .converted (.inr rfl) (by simp [type])

/-- Of a signed and an unsigned integer the unsigned one wins, at the larger width. -/
theorem meetIn_commonInteger (left : l.type = .integer p s) (right : r.type = .integer p' s') :
    MeetIn l r (.integer (max p p') (s && s')) (.ok (l.commonInteger r p s p' s')) := by
  unfold commonInteger
  dsimp only
  split
  · rename_i same
    subst same
    rw [Bool.and_self]
    split
    · rename_i lt
      rw [Nat.max_eq_right (Nat.le_of_lt lt)]
      exact ⟨brought_toInteger left (Nat.le_of_lt lt) (absurd · (Nat.ne_of_lt lt)), .same right⟩
    · split
      · rename_i ge gt
        rw [Nat.max_eq_left (Nat.not_lt.mp ge)]
        exact ⟨.same left, brought_toInteger right (Nat.le_of_lt gt) (absurd · (Nat.ne_of_lt gt))⟩
      · rename_i ge le
        obtain rfl : p = p' := by omega
        rw [Nat.max_self]
        exact ⟨.same left, .same right⟩
  · rename_i mixed
    have unsigned : (s && s') = false := by cases s <;> cases s' <;> simp_all
    rw [unsigned]
    split
    · rename_i wins
      obtain rfl : s = false := by simpa using wins.1
      rw [Nat.max_eq_left wins.2]
      exact ⟨.same left, brought_toInteger right wins.2 fun _ same => mixed same.symm⟩
    · split
      · rename_i _ wins
        obtain rfl : s' = false := by simpa using wins.1
        rw [Nat.max_eq_right wins.2]
        exact ⟨brought_toInteger left wins.2 fun _ => mixed, .same right⟩
      · -- The signed operand is the wider one, and lends the unsigned type its width.
        rename_i loses loses'
        cases s with
        | false =>
          obtain rfl : s' = true := by simpa using mixed
          have lt : p < p' := by simpa using loses
          rw [Nat.max_eq_right (Nat.le_of_lt lt)]
          exact ⟨brought_toInteger left (Nat.le_of_lt lt) (absurd · (Nat.ne_of_lt lt)),
            brought_toInteger right (Nat.le_refl _) fun _ => by decide⟩
        | true =>
          obtain rfl : s' = false := by simpa using mixed
          have lt : p' < p := by simpa using loses'
          rw [Nat.max_eq_left (Nat.le_of_lt lt)]
          exact ⟨brought_toInteger left (Nat.le_refl _) fun _ => by decide,
            brought_toInteger right (Nat.le_of_lt lt) (absurd · (Nat.ne_of_lt lt))⟩

theorem meetIn_common (left : l.type.IsNumber) (right : r.type.IsNumber) :
    MeetIn l r (l.type.join r.type) (l.common r) := by
  unfold common
  split
  · rename_i same
    have equal := left.eq_of_equivalent same
    rw [equal, Ty.join_self left]
    exact ⟨.same rfl, .same equal⟩
  rename_i different
  rcases left with ⟨p, s, left⟩ | ⟨p, left⟩ <;> rcases right with ⟨p', s', right⟩ | ⟨p', right⟩
  · simp only [left, right, Ty.unqualified]
    exact meetIn_commonInteger left right
  · simp only [left, right, Ty.unqualified]
    exact ⟨brought_integerToFloat left, .same right⟩
  · simp only [left, right, Ty.unqualified]
    exact ⟨.same left, brought_integerToFloat right⟩
  · simp only [left, right, Ty.unqualified, Ty.join]
    split
    · rename_i lt
      rw [Nat.max_eq_right (Nat.le_of_lt lt)]
      exact ⟨brought_toWiderFloat left lt, .same right⟩
    · split
      · rename_i ge gt
        rw [Nat.max_eq_left (Nat.not_lt.mp ge)]
        exact ⟨.same left, brought_toWiderFloat right gt⟩
      · rename_i ge le
        obtain rfl : p = p' := by omega
        exact absurd (by simp [left, right, Ty.equivalent]) different

/-! ## Operands without a common type -/

/-- Operands that cannot be exchanged and are not both numbers are refused. -/
theorem common_of_not_arithmetic (different : l.type.equivalent r.type = false)
    (odd : l.type.isArithmetic = false ∨ r.type.isArithmetic = false) :
    l.common r = .error { cause := .noCommonType l.type.shown r.type.shown, position := l.start } := by
  unfold common
  rw [different]
  simp only [Ty.isArithmetic, Ty.isInteger, Ty.isFloat] at odd
  cases left : l.type.unqualified <;> cases right : r.type.unqualified <;> simp_all

/-- Numbers of any types meet in their join, each operand as it is or inside one conversion, and the join is
commutative, associative and idempotent. A truth value has no common type with anything else, nor have
operands that are not both numbers unless their types are equivalent. -/
theorem common_type_is_join :
    (∀ l r : Expr, l.type.IsNumber → r.type.IsNumber → (l.type.join r.type).IsNumber ∧
      ∃ l' r', l.common r = .ok (l', r') ∧
        Brought l (l.type.join r.type) l' ∧ Brought r (l.type.join r.type) r') ∧
    (∀ t u : Ty, t.IsNumber → u.IsNumber → t.join u = u.join t) ∧
    (∀ t u v : Ty, t.IsNumber → u.IsNumber → v.IsNumber → (t.join u).join v = t.join (u.join v)) ∧
    (∀ t : Ty, t.IsNumber → t.join t = t) ∧
    ∀ l r : Expr, l.type.isBoolean ≠ r.type.isBoolean ∨ l.type.equivalent r.type = false ∧
        (l.type.isArithmetic = false ∨ r.type.isArithmetic = false) →
      l.common r = .error { cause := .noCommonType l.type.shown r.type.shown, position := l.start } := by
  refine ⟨fun l r left right => ⟨left.join right, ?_⟩, fun t u => Ty.join_comm, fun t u v => Ty.join_assoc,
    fun t => Ty.join_self, fun l r odd => ?_⟩
  · have met := meetIn_common left right
    cases outcome : l.common r with
    | ok both =>
      rw [outcome] at met
      exact ⟨both.1, both.2, rfl, met⟩
    | error d =>
      rw [outcome] at met
      exact met.elim
  · rcases odd with truth | ⟨different, odd⟩
    · have different : l.type.equivalent r.type = false :=
        Bool.eq_false_iff.mpr fun same => truth (Ty.isBoolean_eq_of_equivalent same)
      refine common_of_not_arithmetic different ?_
      cases left : l.type.isBoolean with
      | true => exact .inl (Ty.isArithmetic_of_isBoolean left)
      | false =>
        have right : r.type.isBoolean = true := by simpa [left] using truth.symm
        exact .inr (Ty.isArithmetic_of_isBoolean right)
    · exact common_of_not_arithmetic different odd

/-- An `int64` and a `uint16` meet in `uint64`, which is the type of neither. -/
theorem common_type_of_mixedSigns : ∃ l' r',
    common ⟨.integer 1, .int 64, .nowhere⟩ ⟨.integer 2, .uint 16, .nowhere⟩ = .ok (l', r') ∧
      l'.type = .uint 64 ∧ r'.type = .uint 64 := by
  obtain ⟨meet, -⟩ := common_type_is_join
  obtain ⟨-, l', r', met, left, right⟩ := meet ⟨.integer 1, .int 64, .nowhere⟩
    ⟨.integer 2, .uint 16, .nowhere⟩ (.inl ⟨_, _, rfl⟩) (.inl ⟨_, _, rfl⟩)
  exact ⟨l', r', met, left.type, right.type⟩

end Expr

end Deferral
