import Mathlib.Data.Int.ModEq
import Mathlib.Tactic.Linarith
import Deferral.Proofs.Constant.Fitting

/-!
# Constant arithmetic is modular

Sums, differences, products and negations of integers narrower than a word, and conversions between their
types, are computed exactly and then reduced to the width and sign of their type. Every node of such an
expression has one reduced value, and evaluation finds it, unless a product of two `uint32` comes to two to
the 63 or more: that is refused, since the exact product has to fit a signed word.
-/

namespace Deferral

instance (precision : Nat) (signed : Bool) (n : Int) : Decidable (Ty.InRange precision signed n) :=
  inferInstanceAs (Decidable (if signed then _ else _))

/-- The widths of the integer types that are narrower than a word. -/
def Ty.IsNarrow (precision : Nat) : Prop := precision = 8 ∨ precision = 16 ∨ precision = 32

/-- What an integer is reduced to for a type: the integer in its range that agrees with it modulo two to the
width. -/
structure Residue (precision : Nat) (signed : Bool) (n m : Int) : Prop where
  inRange : Ty.InRange precision signed m
  agrees : m ≡ n [ZMOD 2 ^ precision]

/-- The exact result of a sum, a difference or a product. -/
inductive Arithmetic.Exact : Arithmetic → Int → Int → Int → Prop
  | add (a b : Int) : Exact .add a b (a + b)
  | sub (a b : Int) : Exact .sub a b (a - b)
  | mul (a b : Int) : Exact .mul a b (a * b)

namespace Expr

/-- Arithmetic on narrow integers, each node being of the type of its operands. -/
inductive IsModular : Expr → Prop
  | literal {n : Int} {p : Nat} {s : Bool} {span : Span} : Ty.IsNarrow p → Ty.InRange p s n →
      IsModular ⟨.integer n, .integer p s, span⟩
  | negate {e : Expr} {p : Nat} {s : Bool} {span : Span} : IsModular e → e.type = .integer p s →
      IsModular ⟨.unary .negate e, .integer p s, span⟩
  | arithmetic {op : Arithmetic} {l r : Expr} {p : Nat} {s : Bool} {span : Span} :
      op = .add ∨ op = .sub ∨ op = .mul → IsModular l → IsModular r → l.type = .integer p s →
      r.type = .integer p s → IsModular ⟨.binary (.arithmetic op) l r, .integer p s, span⟩
  | converted {e : Expr} {p : Nat} {s : Bool} {span : Span} : IsModular e → Ty.IsNarrow p →
      IsModular ⟨.converted .integer e, .integer p s, span⟩

/-- The exact result of each node, reduced to the type of the node. -/
inductive Reduces : Expr → Int → Prop
  | literal {n : Int} {p : Nat} {s : Bool} {span : Span} : Reduces ⟨.integer n, .integer p s, span⟩ n
  | negate {e : Expr} {n m : Int} {p : Nat} {s : Bool} {span : Span} : Reduces e n →
      Residue p s (-n) m → Reduces ⟨.unary .negate e, .integer p s, span⟩ m
  | arithmetic {op : Arithmetic} {l r : Expr} {a b n m : Int} {p : Nat} {s : Bool} {span : Span} :
      Reduces l a → Reduces r b → op.Exact a b n → Residue p s n m →
      Reduces ⟨.binary (.arithmetic op) l r, .integer p s, span⟩ m
  | converted {e : Expr} {n m : Int} {p : Nat} {s : Bool} {span : Span} : Reduces e n →
      Residue p s n m → Reduces ⟨.converted .integer e, .integer p s, span⟩ m

/-- Somewhere in an expression the exact product of two `uint32` does not fit a signed word. -/
inductive Outgrows : Expr → Prop
  | product {l r : Expr} {a b : Int} {type : Ty} {span : Span} : l.type = .uint 32 → r.type = .uint 32 →
      Reduces l a → Reduces r b → 2 ^ 63 ≤ a * b →
      Outgrows ⟨.binary (.arithmetic .mul) l r, type, span⟩
  | operand {op : UnaryOp} {e : Expr} {type : Ty} {span : Span} : Outgrows e →
      Outgrows ⟨.unary op e, type, span⟩
  | left {op : BinaryOp} {l r : Expr} {type : Ty} {span : Span} : Outgrows l →
      Outgrows ⟨.binary op l r, type, span⟩
  | right {op : BinaryOp} {l r : Expr} {type : Ty} {span : Span} : Outgrows r →
      Outgrows ⟨.binary op l r, type, span⟩
  | source {conversion : Conversion} {e : Expr} {type : Ty} {span : Span} : Outgrows e →
      Outgrows ⟨.converted conversion e, type, span⟩

end Expr

/-! ## Residues -/

theorem residue_wrapTo (p : Nat) (s : Bool) (n : Int) : Residue p s n (wrapTo p s n) := by
  refine ⟨Ty.inRange_wrapTo p s n, ?_⟩
  have same : ((twoTo p : Nat) : Int) = 2 ^ p := by simp [twoTo]
  unfold wrapTo
  split
  · rw [← same]
    exact Int.bmod_emod ..
  · rw [← same]
    exact Int.emod_emod_of_dvd n (dvd_refl _)

/-- A range holds no two integers that agree. -/
theorem Residue.unique {p : Nat} {s : Bool} {n m m' : Int} (narrow : Ty.IsNarrow p)
    (h : Residue p s n m) (h' : Residue p s n m') : m = m' := by
  have agrees := h.agrees.trans h'.agrees.symm
  obtain ⟨k, step⟩ := (Int.modEq_iff_dvd.mp agrees)
  have low := h.inRange
  have low' := h'.inRange
  rcases narrow with rfl | rfl | rfl <;> cases s <;>
    simp [Ty.InRange, twoTo] at low low' step <;> omega

theorem Ty.wrap_of_isNarrow {p : Nat} {s : Bool} (narrow : IsNarrow p) (n : Int) :
    (integer p s).wrap n = wrapTo p s n := by
  have lt : p < 64 := by rcases narrow with rfl | rfl | rfl <;> decide
  simp [wrap, Ty.unqualified, lt]

/-! ## Words -/

theorem checkWord_of_fits {n : Int} (low : -2 ^ 63 ≤ n) (high : n < 2 ^ 63) : checkWord n = .ok n := by
  refine checkWord_eq_ok_iff.mpr ⟨?_, rfl⟩
  simp only [fitsWord, Bool.and_eq_true, decide_eq_true_eq]
  exact ⟨low, high⟩

theorem checkWord_of_large {n : Int} (large : 2 ^ 63 ≤ n) : checkWord n = .error .overflow := by
  unfold checkWord
  have outside : fitsWord n = false := by
    simp only [fitsWord, Bool.and_eq_false_iff, decide_eq_false_iff_not, Int.not_lt]
    exact .inr large
  rw [outside]
  rfl

theorem abs_mul_le {a b c : Int} (left : |a| ≤ c) (right : |b| ≤ c) : |a * b| ≤ c * c := by
  rw [abs_mul]
  exact mul_le_mul left right (abs_nonneg b) ((abs_nonneg a).trans left)

/-- Only a product of two `uint32` can be too large for a word, and nothing is too small for one. -/
theorem Arithmetic.Exact.fits {op : Arithmetic} {p : Nat} {s : Bool} {a b n : Int} (exact : op.Exact a b n)
    (narrow : Ty.IsNarrow p) (left : Ty.InRange p s a) (right : Ty.InRange p s b) :
    -2 ^ 63 ≤ n ∧ (n < 2 ^ 63 ∨ op = .mul ∧ p = 32 ∧ s = false ∧ 2 ^ 63 ≤ a * b) := by
  have bounds : -2 ^ 31 ≤ a ∧ a < 2 ^ 32 ∧ -2 ^ 31 ≤ b ∧ b < 2 ^ 32 := by
    rcases narrow with rfl | rfl | rfl <;> cases s <;> simp [Ty.InRange, twoTo] at left right <;> omega
  cases exact with
  | add | sub => omega
  | mul =>
    by_cases wide : p = 32 ∧ s = false
    · obtain ⟨rfl, rfl⟩ := wide
      simp only [Ty.InRange, Bool.false_eq_true, if_false] at left right
      have nonneg : 0 ≤ a * b := mul_nonneg left.1 right.1
      refine ⟨by omega, ?_⟩
      rcases Int.lt_or_le (a * b) (2 ^ 63) with small | large
      · exact .inl small
      · exact .inr ⟨rfl, rfl, rfl, large⟩
    · have small : |a| ≤ 2 ^ 31 ∧ |b| ≤ 2 ^ 31 := by
        rw [abs_le, abs_le]
        rcases narrow with rfl | rfl | rfl <;> cases s <;> simp [Ty.InRange, twoTo] at left right wide <;>
          omega
      have product := abs_le.mp (abs_mul_le small.1 small.2)
      omega

theorem Arithmetic.Exact.onIntegers {op : Arithmetic} {a b n : Int} (exact : op.Exact a b n) :
    op.onIntegers a b = checkWord n := by
  cases exact <;> rfl

theorem Arithmetic.exists_exact {op : Arithmetic} (ring : op = .add ∨ op = .sub ∨ op = .mul) (a b : Int) :
    ∃ n, op.Exact a b n := by
  rcases ring with rfl | rfl | rfl
  · exact ⟨_, .add a b⟩
  · exact ⟨_, .sub a b⟩
  · exact ⟨_, .mul a b⟩

theorem Arithmetic.Exact.unique {op : Arithmetic} {a b n m : Int} (h : op.Exact a b n)
    (h' : op.Exact a b m) : n = m := by
  cases h <;> cases h' <;> rfl

/-! ## Evaluation -/

namespace Expr

open Resolution

variable {bind : DeclId → Resolution Unit} {t : SymbolTable} {e l r : Expr} {n : Int} {p : Nat} {s : Bool}

/-- Evaluation ends in an integer, or in an overflow if an expression outgrows words. -/
inductive EndsIn (bind : DeclId → Resolution Unit) (t : SymbolTable) (e : Expr) (n : Int) : Prop
  | value : ¬ e.Outgrows → Runs (e.evaluateWith bind) t (.ok (.integer n)) t → EndsIn bind t e n
  | overflow {d : Diagnostic} : e.Outgrows → d.cause = .notEvaluable .overflow →
      Runs (e.evaluateWith bind) t (.error d) t → EndsIn bind t e n

/-- The one reduced value that an expression has is what it evaluates to. -/
structure HasResidue (bind : DeclId → Resolution Unit) (t : SymbolTable) (e : Expr) (p : Nat) (s : Bool)
    (n : Int) : Prop where
  narrow : Ty.IsNarrow p
  type : e.type = .integer p s
  inRange : Ty.InRange p s n
  reduces : e.Reduces n
  unique : ∀ m, e.Reduces m → m = n
  ends : EndsIn bind t e n

theorem HasResidue.negate {span : Span} (h : HasResidue bind t e p s n) :
    HasResidue bind t ⟨.unary .negate e, .integer p s, span⟩ p s (wrapTo p s (-n)) := by
  have residue := residue_wrapTo p s (-n)
  refine ⟨h.narrow, rfl, residue.inRange, .negate h.reduces residue, fun m reduces => ?_, ?_⟩
  · cases reduces with
    | negate inner other =>
      obtain rfl := h.unique _ inner
      exact other.unique h.narrow residue
  · cases h.ends with
    | value fits run =>
      have fitsWord : checkWord (-n) = .ok (-n) := by
        have range := h.inRange
        refine checkWord_of_fits ?_ ?_ <;> rcases h.narrow with rfl | rfl | rfl <;> cases s <;>
          simp [Ty.InRange, twoTo] at range <;> omega
      refine .value (fun outgrows => ?_) (runs_bind.mpr (.inr ⟨_, t, run, ?_⟩))
      · cases outgrows with
        | operand inner => exact fits inner
      · simp only [Constant.unary, fitsWord, Except.map, Ty.wrap_of_isNarrow h.narrow]
        exact runs_pure.mpr ⟨rfl, rfl⟩
    | overflow outgrows cause run =>
      exact .overflow (.operand outgrows) cause (runs_bind.mpr (.inl ⟨_, run, rfl⟩))

theorem HasResidue.converted {p' : Nat} {s' : Bool} {span : Span} (h : HasResidue bind t e p s n)
    (narrow : Ty.IsNarrow p') :
    HasResidue bind t ⟨.converted .integer e, .integer p' s', span⟩ p' s' (wrapTo p' s' n) := by
  have residue := residue_wrapTo p' s' n
  refine ⟨narrow, rfl, residue.inRange, .converted h.reduces residue, fun m reduces => ?_, ?_⟩
  · cases reduces with
    | converted inner other =>
      obtain rfl := h.unique _ inner
      exact other.unique narrow residue
  · cases h.ends with
    | value fits run =>
      refine .value (fun outgrows => ?_) (runs_bind.mpr (.inr ⟨_, t, run, ?_⟩))
      · cases outgrows with
        | source inner => exact fits inner
      · simp only [Constant.convert, Ty.wrap_of_isNarrow narrow]
        exact runs_pure.mpr ⟨rfl, rfl⟩
    | overflow outgrows cause run =>
      exact .overflow (.source outgrows) cause (runs_bind.mpr (.inl ⟨_, run, rfl⟩))

theorem HasResidue.arithmetic {op : Arithmetic} {a b : Int} {span : Span} (hl : HasResidue bind t l p s a)
    (hr : HasResidue bind t r p s b) (exact' : op.Exact a b n) :
    HasResidue bind t ⟨.binary (.arithmetic op) l r, .integer p s, span⟩ p s (wrapTo p s n) := by
  have residue := residue_wrapTo p s n
  refine ⟨hl.narrow, rfl, residue.inRange, .arithmetic hl.reduces hr.reduces exact' residue,
    fun m reduces => ?_, ?_⟩
  · cases reduces with
    | arithmetic left right result other =>
      obtain rfl := hl.unique _ left
      obtain rfl := hr.unique _ right
      obtain rfl := exact'.unique result
      exact other.unique hl.narrow residue
  cases hl.ends with
  | overflow outgrows cause run =>
    exact .overflow (.left outgrows) cause (runs_bind.mpr (.inl ⟨_, run, rfl⟩))
  | value fitsLeft runLeft =>
  cases hr.ends with
  | overflow outgrows cause run =>
    exact .overflow (.right outgrows) cause
      (runs_bind.mpr (.inr ⟨_, t, runLeft, runs_bind.mpr (.inl ⟨_, run, rfl⟩)⟩))
  | value fitsRight runRight =>
  have andThen {outcome : Except Diagnostic Constant}
      (run : Runs (computed span (Constant.arithmetic op (.integer p s) (.integer a) (.integer b))) t outcome t) :
      Runs (evaluateWith bind ⟨.binary (.arithmetic op) l r, .integer p s, span⟩) t outcome t :=
    runs_bind.mpr (.inr ⟨_, t, runLeft, runs_bind.mpr (.inr ⟨_, t, runRight, run⟩)⟩)
  obtain ⟨low, small | ⟨rfl, rfl, rfl, large⟩⟩ := exact'.fits hl.narrow hl.inRange hr.inRange
  · refine .value (fun outgrows => ?_) (andThen ?_)
    · cases outgrows with
      | product _ _ left right large =>
        obtain rfl := hl.unique _ left
        obtain rfl := hr.unique _ right
        cases exact'
        exact absurd large (Int.not_le.mpr small)
      | left inner => exact fitsLeft inner
      | right inner => exact fitsRight inner
    · simp only [Constant.arithmetic, exact'.onIntegers, checkWord_of_fits low small, Except.map,
        Ty.wrap_of_isNarrow hl.narrow]
      exact runs_pure.mpr ⟨rfl, rfl⟩
  · have overflow : Constant.arithmetic .mul (.integer 32 false) (.integer a) (.integer b) = .error .overflow := by
      simp only [Constant.arithmetic, Arithmetic.onIntegers, checkWord_of_large large, Except.map]
    refine .overflow (.product hl.type hr.type hl.reduces hr.reduces large)
      (d := { cause := .notEvaluable .overflow, position := span.start }) rfl (andThen ?_)
    rw [overflow]
    exact runs_fail.mpr ⟨rfl, rfl⟩

/-- By induction on the expression, operands first. -/
theorem hasResidue_of_isModular (bind : DeclId → Resolution Unit) (t : SymbolTable) (h : e.IsModular) :
    ∃ p s n, HasResidue bind t e p s n := by
  induction h with
  | @literal n p s span narrow inRange =>
    refine ⟨p, s, n, narrow, rfl, inRange, .literal, fun m reduces => ?_, .value (fun outgrows => ?_) ?_⟩
    · cases reduces
      rfl
    · cases outgrows
    · exact runs_pure.mpr ⟨rfl, rfl⟩
  | negate _ type ih =>
    obtain ⟨p, s, n, h⟩ := ih
    obtain ⟨rfl, rfl⟩ := Ty.integer.inj (h.type.symm.trans type)
    exact ⟨_, _, _, h.negate⟩
  | arithmetic ring _ _ left right ihl ihr =>
    obtain ⟨p, s, a, hl⟩ := ihl
    obtain ⟨p', s', b, hr⟩ := ihr
    obtain ⟨rfl, rfl⟩ := Ty.integer.inj (hl.type.symm.trans left)
    obtain ⟨rfl, rfl⟩ := Ty.integer.inj (hr.type.symm.trans right)
    obtain ⟨n, exact'⟩ := Arithmetic.exists_exact ring a b
    exact ⟨_, _, _, hl.arithmetic hr exact'⟩
  | converted _ narrow ih =>
    obtain ⟨p, s, n, h⟩ := ih
    exact ⟨_, _, _, h.converted narrow⟩

/-- Every node of modular arithmetic has one reduced value, in the range of its type, and evaluation returns it
and leaves the table alone. Only if the exact product of two `uint32` somewhere does not fit a signed word does
it report an overflow, and then it always does. -/
theorem evaluate_reduces_unless_outgrown (h : e.IsModular) :
    ∃ p s n, Ty.IsNarrow p ∧ e.type = .integer p s ∧ Ty.InRange p s n ∧ e.Reduces n ∧
      (∀ m, e.Reduces m → m = n) ∧
      ∀ t, (¬ e.Outgrows → Runs (evaluate e) t (.ok (.integer n)) t) ∧
        (e.Outgrows → ∃ d : Diagnostic, d.cause = .notEvaluable .overflow ∧
          Runs (evaluate e) t (.error d) t) := by
  obtain ⟨p, s, n, value⟩ := hasResidue_of_isModular ensureConstant default h
  refine ⟨p, s, n, value.narrow, value.type, value.inRange, value.reduces, value.unique, fun t => ?_⟩
  obtain ⟨_, _, m, value'⟩ := hasResidue_of_isModular ensureConstant t h
  obtain rfl := value.unique m value'.reduces
  cases value'.ends with
  | value fits run => exact ⟨fun _ => run, fun outgrows => absurd outgrows fits⟩
  | overflow outgrows cause run => exact ⟨fun fits => absurd outgrows fits, fun _ => ⟨_, cause, run⟩⟩

/-- A sum of two `int8`, of 100 each. -/
def sumOfHundreds : Expr :=
  let hundred : Expr := ⟨.integer 100, .int 8, default⟩
  ⟨.binary (.arithmetic .add) hundred hundred, .int 8, default⟩

theorem sumOfHundreds_isModular : sumOfHundreds.IsModular :=
  have hundred : IsModular ⟨.integer 100, .int 8, default⟩ := .literal (.inl rfl) (by decide)
  .arithmetic (.inl rfl) hundred hundred rfl rfl

theorem not_outgrows_sumOfHundreds : ¬ sumOfHundreds.Outgrows := by
  intro outgrows
  cases outgrows with
  | left inner | right inner => cases inner

theorem sumOfHundreds_reduces : sumOfHundreds.Reduces (-56) :=
  .arithmetic .literal .literal (.add 100 100) ⟨by decide, by decide⟩

/-- The sum is -56, in every table. -/
theorem evaluate_reduces_sumOfHundreds :
    sumOfHundreds.IsModular ∧ ∀ t, Runs (evaluate sumOfHundreds) t (.ok (.integer (-56))) t := by
  refine ⟨sumOfHundreds_isModular, fun t => ?_⟩
  obtain ⟨_, _, n, -, -, -, -, unique, ends⟩ := evaluate_reduces_unless_outgrown sumOfHundreds_isModular
  obtain rfl := unique _ sumOfHundreds_reduces
  exact (ends t).1 not_outgrows_sumOfHundreds

/-- The square of the largest `uint32`. -/
def largestSquare : Expr :=
  let largest : Expr := ⟨.integer 4294967295, .uint 32, default⟩
  ⟨.binary (.arithmetic .mul) largest largest, .uint 32, default⟩

/-- The square comes to 1 modulo two to the 32, but is reported as an overflow. -/
theorem not_evaluates_largestSquare :
    largestSquare.IsModular ∧ largestSquare.Reduces 1 ∧
      ∀ t, Runs (evaluate largestSquare) t
        (.error { cause := .notEvaluable .overflow, position := largestSquare.span.start }) t := by
  have largest : IsModular ⟨.integer 4294967295, .uint 32, default⟩ :=
    .literal (.inr (.inr rfl)) (by decide)
  refine ⟨.arithmetic (.inr (.inr rfl)) largest largest rfl rfl, ?_, fun t => rfl⟩
  exact .arithmetic .literal .literal (.mul _ _) ⟨by decide, by decide⟩

end Expr

end Deferral
