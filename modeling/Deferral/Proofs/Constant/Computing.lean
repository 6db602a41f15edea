import Deferral.Proofs.Constant.Fitting
import Deferral.Proofs.Typing.References

/-!
# Evaluating expressions of known types

An expression in which no type is dependent evaluates to a value of its type, or to a fault that no
typing can rule out: an integer out of range, a division by zero, or something that is no constant.
The constants it reads have their values already, so that nothing has to be defined on the way.
-/

namespace Deferral

open Resolution

/-! ## Values of scalar types -/

namespace Ty

/-- The types that evaluation computes in. -/
def IsScalar (t : Ty) : Prop := t = .bool ∨ t.IsNumber

/-- A constant is a value of a scalar type: of its kind, and in range if that is a narrow integer
type. -/
structure HasValue (t : Ty) (c : Constant) : Prop where
  scalar : t.IsScalar
  admits : t.Admits c

theorem IsScalar.isValue {t : Ty} (h : t.IsScalar) : t.IsValue := by
  rcases h with rfl | number
  · exact ⟨rfl, rfl⟩
  · exact number.isValue

theorem IsScalar.eq_of_equivalent {t u : Ty} (h : t.IsScalar) (h' : u.IsScalar)
    (same : t.equivalent u = true) : u = t := by
  rcases h with rfl | number
  · rcases h' with rfl | ⟨p, s, rfl⟩ | ⟨p, rfl⟩
    · rfl
    all_goals cases same
  · exact number.eq_of_equivalent same

theorem HasValue.boolean (b : Bool) : Ty.bool.HasValue (.boolean b) := ⟨.inl rfl, b, rfl⟩

theorem HasValue.eq_boolean {c : Constant} (h : Ty.bool.HasValue c) : ∃ b, c = .boolean b := h.admits

/-- A value of an integer type is an integer. -/
theorem HasValue.eq_integer {t : Ty} {c : Constant} (h : t.HasValue c) (integer : t.isInteger = true) :
    ∃ n, c = .integer n := by
  rcases h.scalar with rfl | ⟨p, s, rfl⟩ | ⟨p, rfl⟩
  · cases integer
  · obtain ⟨n, same, -⟩ := h.admits
    exact ⟨n, same⟩
  · cases integer

theorem HasValue.isNumber {t : Ty} {c : Constant} (h : t.HasValue c)
    (arithmetic : t.isArithmetic = true) : t.IsNumber :=
  h.scalar.isValue.isNumber arithmetic

end Ty

/-! ## Outcomes -/

/-- The faults that evaluation may end in although everything is well typed. -/
def EvaluationFault.IsInherent : EvaluationFault → Prop
  | .overflow | .divisionByZero | .notConstant _ | .call | .assignment => True
  | .booleanOperator symbol => symbol ∈ ["<", "<=", ">", ">="]
  | _ => False

/-- Arithmetic ends in a value of the type `t` or in an inherent fault. -/
def Computes (t : Ty) : Except EvaluationFault Constant → Prop
  | .ok c => t.HasValue c
  | .error fault => fault.IsInherent

/-- Evaluation ends in a value of the type `t` or in an inherent fault. -/
def Evaluates (t : Ty) : Except Diagnostic Constant → Prop
  | .ok c => t.HasValue c
  | .error d => ∃ fault, d.cause = .notEvaluable fault ∧ fault.IsInherent

namespace Constant

variable {t : Ty} {l r c : Constant}

theorem checkWord_cases (n : Int) : checkWord n = .ok n ∨ checkWord n = .error .overflow := by
  unfold checkWord
  split
  · exact .inl rfl
  · exact .inr rfl

theorem computes_negation (number : t.IsNumber) (admits : t.Admits c) :
    Computes t (unary .negate t c) := by
  rcases outcome : unary .negate t c with fault | c'
  · rcases number with ⟨p, s, rfl⟩ | ⟨p, rfl⟩
    · obtain ⟨n, rfl, -⟩ := admits
      rcases checkWord_cases (-n) with fits | overflow
      · simp [unary, fits, Except.map] at outcome
      · obtain rfl : EvaluationFault.overflow = fault := by
          simpa [unary, overflow, Except.map] using outcome
        trivial
    · obtain ⟨x, rfl⟩ := admits
      cases outcome
  · exact ⟨.inr number, admits_unary number admits outcome⟩

/-- Division checks its divisor first, and every result is checked to fit. -/
theorem onIntegers_cases (op : Arithmetic) (a b : Int) :
    (∃ n, op.onIntegers a b = .ok n) ∨ op.onIntegers a b = .error .overflow ∨
      op.onIntegers a b = .error .divisionByZero := by
  have checked (n : Int) : (∃ m, checkWord n = .ok m) ∨ checkWord n = .error .overflow :=
    (checkWord_cases n).imp_left fun fits => ⟨n, fits⟩
  cases op with
  | add => exact (checked _).imp_right .inl
  | sub => exact (checked _).imp_right .inl
  | mul => exact (checked _).imp_right .inl
  | div =>
    by_cases zero : b = 0
    · exact .inr (.inr (if_pos zero))
    · simp only [Arithmetic.onIntegers, if_neg zero]
      exact (checked _).imp_right .inl
  | rem =>
    by_cases zero : b = 0
    · exact .inr (.inr (if_pos zero))
    · simp only [Arithmetic.onIntegers, if_neg zero]
      rcases checked (a.tdiv b) with ⟨m, fits⟩ | overflow
      · exact .inl ⟨a.tmod b, by simp [fits, Except.map]⟩
      · exact .inr (.inl (by simp [overflow, Except.map]))

theorem computes_arithmetic {op : Arithmetic} (number : t.IsNumber) (left : t.Admits l)
    (right : t.Admits r) : Computes t (arithmetic op t l r) := by
  rcases outcome : arithmetic op t l r with fault | c'
  · rcases number with ⟨p, s, rfl⟩ | ⟨p, rfl⟩
    · obtain ⟨a, rfl, -⟩ := left
      obtain ⟨b, rfl, -⟩ := right
      rcases onIntegers_cases op a b with ⟨n, fits⟩ | overflow | zero
      · simp [arithmetic, fits, Except.map] at outcome
      · obtain rfl : EvaluationFault.overflow = fault := by
          simpa [arithmetic, overflow, Except.map] using outcome
        trivial
      · obtain rfl : EvaluationFault.divisionByZero = fault := by
          simpa [arithmetic, zero, Except.map] using outcome
        trivial
    · obtain ⟨x, rfl⟩ := left
      obtain ⟨y, rfl⟩ := right
      cases outcome
  · exact ⟨.inr number, admits_arithmetic number left right outcome⟩

/-- Truth values have no order, and numbers of one type can all be compared. -/
theorem computes_comparison {op : Comparison} (left : t.HasValue l) (right : t.Admits r) :
    Computes .bool (comparison op l r) := by
  obtain ⟨scalar, left⟩ := left
  rcases scalar with rfl | ⟨p, s, rfl⟩ | ⟨p, rfl⟩
  · obtain ⟨a, rfl⟩ := left
    obtain ⟨b, rfl⟩ := right
    cases op with
    | equals => exact .boolean _
    | notEquals => exact .boolean _
    | less => simp [comparison, Computes, EvaluationFault.IsInherent, BinaryOp.symbol]
    | lessEquals => simp [comparison, Computes, EvaluationFault.IsInherent, BinaryOp.symbol]
    | greater => simp [comparison, Computes, EvaluationFault.IsInherent, BinaryOp.symbol]
    | greaterEquals => simp [comparison, Computes, EvaluationFault.IsInherent, BinaryOp.symbol]
  · obtain ⟨a, rfl, -⟩ := left
    obtain ⟨b, rfl, -⟩ := right
    exact .boolean _
  · obtain ⟨x, rfl⟩ := left
    obtain ⟨y, rfl⟩ := right
    exact .boolean _

end Constant

/-! ## Runs of evaluation -/

namespace Expr

variable {bind : DeclId → Resolution Unit} {t : SymbolTable} {e e' l r : Expr} {type type' : Ty}

/-- Evaluating an expression leaves the table as it is, and ends in a value of `type` or in an
inherent fault. -/
def Yields (bind : DeclId → Resolution Unit) (t : SymbolTable) (e : Expr) (type : Ty) : Prop :=
  ∃ r, Runs (e.evaluateWith bind) t r t ∧ Evaluates type r

theorem runs_computed_of_computes {x : Except EvaluationFault Constant} (span : Span)
    (h : Computes type x) : ∃ r, Runs (computed span x) t r t ∧ Evaluates type r := by
  cases x with
  | ok c => exact ⟨.ok c, runs_pure.mpr ⟨rfl, rfl⟩, h⟩
  | error fault => exact ⟨_, runs_fail.mpr ⟨rfl, rfl⟩, fault, rfl, h⟩

theorem evaluates_notEvaluable {fault : EvaluationFault} (span : Span) (h : fault.IsInherent) :
    ∃ r, Runs (notEvaluable fault span) t r t ∧ Evaluates type r :=
  ⟨_, runs_fail.mpr ⟨rfl, rfl⟩, fault, rfl, h⟩

/-- What comes behind an operand is asked for its values only. -/
theorem Yields.andThen {f : Constant → Resolution Constant} (h : e.Yields bind t type)
    (step : ∀ c, type.HasValue c → ∃ r, Runs (f c) t r t ∧ Evaluates type' r) :
    ∃ r, Runs (e.evaluateWith bind >>= f) t r t ∧ Evaluates type' r := by
  obtain ⟨outcome, run, evaluates⟩ := h
  cases outcome with
  | error d => exact ⟨_, runs_bind.mpr (.inl ⟨d, run, rfl⟩), evaluates⟩
  | ok c =>
    obtain ⟨r, rest, evaluates'⟩ := step c evaluates
    exact ⟨r, runs_bind.mpr (.inr ⟨c, t, run, rest⟩), evaluates'⟩

/-- A value of a scalar type is what is read from an object of the type. -/
theorem Yields.valueType (h : e.Yields bind t type) : e.Yields bind t type.valueType := by
  obtain ⟨outcome, run, evaluates⟩ := h
  refine ⟨outcome, run, ?_⟩
  cases outcome with
  | error d => exact evaluates
  | ok c =>
    have value : type.HasValue c := evaluates
    rw [value.scalar.isValue.valueType_eq]
    exact value

/-! ## Conversions -/

theorem Yields.convert {conversion : Conversion} (h : e.Yields bind t type)
    (step : ∀ c, type.HasValue c → Computes type' (Constant.convert conversion type' c)) :
    (e.convert conversion type').Yields bind t type' :=
  h.andThen fun c value => runs_computed_of_computes _ (step c value)

/-- Reading a value out of an object computes nothing. -/
theorem Yields.read {conversion : Conversion} {target : Ty} (h : e.Yields bind t type)
    (reads : conversion = .value ∨ conversion = .qualification) :
    (e.convert conversion target).Yields bind t type := by
  refine h.andThen fun c value => runs_computed_of_computes _ ?_
  rcases reads with rfl | rfl <;> exact value

theorem Yields.dereferenced (h : e.Yields bind t type) : e.dereferenced.Yields bind t type := by
  unfold Expr.dereferenced
  split
  · exact h.read (.inl rfl)
  · exact h

theorem Yields.withoutQualifiers (h : e.Yields bind t type) :
    e.withoutQualifiers.Yields bind t type := by
  unfold Expr.withoutQualifiers
  split
  · exact h.read (.inr rfl)
  · exact h

/-- What has been read as a value has the type of the value. -/
theorem Yields.asValue (h : e.Yields bind t e.type.valueType) :
    e.asValue.Yields bind t e.asValue.type := by
  rw [type_asValue]
  exact h.dereferenced.withoutQualifiers

/-- A reference has no value of its own type. -/
theorem Yields.categoryConverted (h : e.Yields bind t e.type) (target : Ty) :
    (e.categoryConverted target).Yields bind t (e.categoryConverted target).type := by
  unfold Expr.categoryConverted Expr.dereferenced
  split
  · exact h
  · split
    · rename_i referenced reference
      refine Yields.convert (reference ▸ h) fun c value => ?_
      exact absurd value.scalar.isValue.reference (by simp [Ty.isReference])
    · exact h

theorem Yields.toBoolean (h : e.Yields bind t e.type) :
    (e.toBoolean .bool).Yields bind t (e.toBoolean .bool).type := by
  unfold Expr.toBoolean
  split
  · rename_i integer
    refine h.convert fun c value => ?_
    obtain ⟨n, rfl⟩ := value.eq_integer integer
    exact .boolean _
  · exact h

/-- Between integers, so that a truth value is left alone. -/
theorem Yields.toInteger (h : e.Yields bind t e.type) (integer : e.type.isInteger = true)
    (p : Nat) (s : Bool) :
    (e.toInteger (.integer p s)).Yields bind t (e.toInteger (.integer p s)).type := by
  have widened : (e.convert .integer (.integer p s)).Yields bind t (.integer p s) := by
    refine h.convert fun c value => ?_
    obtain ⟨n, rfl⟩ := value.eq_integer integer
    exact ⟨.inr (.inl ⟨p, s, rfl⟩), Ty.admits_wrap p s n⟩
  unfold Expr.toInteger
  split
  · split
    · exact widened
    · exact h
  · exact widened
  · exact h

/-- A number becomes a float of any width. -/
theorem Yields.convertedFloat (h : e.Yields bind t e.type) (arithmetic : e.type.isArithmetic = true)
    (p : Nat) : (e.convert .float (.float p)).Yields bind t (.float p) := by
  refine h.convert fun c value => ?_
  have admits := value.admits
  rcases value.isNumber arithmetic with ⟨p', s, same⟩ | ⟨p', same⟩
  · rw [same] at admits
    obtain ⟨n, rfl, -⟩ := admits
    exact ⟨.inr (.inr ⟨p, rfl⟩), _, rfl⟩
  · rw [same] at admits
    obtain ⟨x, rfl⟩ := admits
    exact ⟨.inr (.inr ⟨p, rfl⟩), x, rfl⟩

theorem Yields.toWiderFloat (h : e.Yields bind t e.type) (p : Nat) :
    (e.toWiderFloat (.float p)).Yields bind t (e.toWiderFloat (.float p)).type := by
  unfold Expr.toWiderFloat
  split
  · rename_i target source
    obtain rfl := Ty.float.inj target
    split
    · exact h.convertedFloat (by simp [Ty.isArithmetic, Ty.isFloat, source]) p
    · exact h
  · exact h

theorem Yields.integerToFloat (h : e.Yields bind t e.type) (p : Nat) :
    (e.integerToFloat (.float p)).Yields bind t (e.integerToFloat (.float p)).type := by
  unfold Expr.integerToFloat
  split
  · rename_i both
    have integer := (Bool.and_eq_true_iff.mp both).1
    exact h.convertedFloat (by simp [Ty.isArithmetic, integer]) p
  · exact h

/-- Only truth values are similar to truth values. -/
theorem Yields.qualificationConverted (h : e.Yields bind t e.type) :
    (e.qualificationConverted .bool).Yields bind t (e.qualificationConverted .bool).type := by
  unfold Expr.qualificationConverted
  split
  · rename_i both
    have similar := (Bool.and_eq_true_iff.mp both).1
    refine h.convert fun c value => ?_
    rcases value.scalar with bool | ⟨p, s, same⟩ | ⟨p, same⟩
    · exact bool ▸ value
    · rw [same] at similar
      cases similar
    · rw [same] at similar
      cases similar
  · exact h

theorem Yields.convertTo (h : e.Yields bind t e.type) (converted : e.convertTo .bool = .ok e') :
    e'.Yields bind t .bool := by
  have first := h.categoryConverted .bool
  have second : ((e.categoryConverted .bool).valueConverted .bool).Yields bind t
      ((e.categoryConverted .bool).valueConverted .bool).type := by
    unfold Expr.valueConverted
    split
    · exact first
    · exact first.toBoolean
  have third := second.qualificationConverted
  have type := Ty.eq_bool_of_equivalent (equivalent_of_convertTo converted)
  rw [← type]
  unfold Expr.convertTo at converted
  dsimp only at converted
  split at converted
  · exact Except.ok.inj converted ▸ first
  split at converted
  · exact Except.ok.inj converted ▸ second
  split at converted
  · exact Except.ok.inj converted ▸ third
  · cases converted

/-- A condition is a truth value, unless its type is not known. -/
theorem Yields.asCondition (h : e.Yields bind t e.type.valueType)
    (known : e'.type.isDependent = false) (read : e.asCondition = .ok e') :
    e'.Yields bind t .bool := by
  unfold Expr.asCondition at read
  dsimp only at read
  split at read
  · rename_i dependent
    obtain rfl := Except.ok.inj read
    rw [dependent] at known
    cases known
  · exact h.asValue.convertTo read

/-- Two operands in a common type yield values of their types. If these are scalar they are one
type, and that of numbers if the operands were numbers. -/
structure Agree (bind : DeclId → Resolution Unit) (t : SymbolTable) (l l' r' : Expr) : Prop where
  left : l'.Yields bind t l'.type
  right : r'.Yields bind t r'.type
  same : l'.type.IsScalar → r'.type.IsScalar →
    r'.type = l'.type ∧ (l.type.isArithmetic = true → l'.type.IsNumber)

theorem Yields.of_toInteger {p₁ p₂ : Nat} (h : e.Yields bind t e.type)
    (integer : e.type.isInteger = true)
    (step : e' = e ∨ ∃ p s, (p = p₁ ∨ p = p₂) ∧ e' = e.toInteger (.integer p s)) :
    e'.Yields bind t e'.type := by
  rcases step with rfl | ⟨p, s, -, rfl⟩
  · exact h
  · exact h.toInteger integer p s

theorem agree_of_common {l' r' : Expr} (hl : l.Yields bind t l.type) (hr : r.Yields bind t r.type)
    (met : l.common r = .ok (l', r')) : Agree bind t l l' r' := by
  have bare {u v : Ty} (scalar : u.IsScalar) (source : u.unqualified = v) : u = v := by
    rw [← source, scalar.isValue.unqualified_eq]
  unfold common at met
  split at met
  · rename_i same
    obtain ⟨rfl, rfl⟩ := Prod.mk.inj (Except.ok.inj met)
    exact ⟨hl, hr, fun scalar scalar' => ⟨scalar.eq_of_equivalent scalar' same,
      scalar.isValue.isNumber⟩⟩
  split at met
  · rename_i p₁ p₂ left right
    split at met
    · rename_i lt
      obtain ⟨rfl, rfl⟩ := Prod.mk.inj (Except.ok.inj met)
      have type := type_toWiderFloat_of_lt left lt
      exact ⟨hl.toWiderFloat p₂, hr, fun _ scalar =>
        ⟨by rw [type, bare scalar right], fun _ => .inr ⟨p₂, type⟩⟩⟩
    split at met
    · rename_i gt
      obtain ⟨rfl, rfl⟩ := Prod.mk.inj (Except.ok.inj met)
      have type := type_toWiderFloat_of_lt right gt
      exact ⟨hl, hr.toWiderFloat p₁, fun scalar _ =>
        ⟨by rw [type, bare scalar left], scalar.isValue.isNumber⟩⟩
    · have same : p₂ = p₁ := by omega
      obtain ⟨rfl, rfl⟩ := Prod.mk.inj (Except.ok.inj met)
      exact ⟨hl, hr, fun scalar scalar' =>
        ⟨by rw [bare scalar left, bare scalar' right, same], scalar.isValue.isNumber⟩⟩
  · rename_i p s p' left right
    obtain ⟨rfl, rfl⟩ := Prod.mk.inj (Except.ok.inj met)
    have type := type_integerToFloat (e := l) (p := p') (by simp [Ty.isInteger, left])
    exact ⟨hl.integerToFloat p', hr, fun _ scalar =>
      ⟨by rw [type, bare scalar right], fun _ => .inr ⟨p', type⟩⟩⟩
  · rename_i p p' s left right
    obtain ⟨rfl, rfl⟩ := Prod.mk.inj (Except.ok.inj met)
    have type := type_integerToFloat (e := r) (p := p) (by simp [Ty.isInteger, right])
    exact ⟨hl, hr.integerToFloat p, fun scalar _ =>
      ⟨by rw [type, bare scalar left], scalar.isValue.isNumber⟩⟩
  · rename_i p₁ s₁ p₂ s₂ left right
    have sources := commonInteger_cases l r p₁ p₂ s₁ s₂
    obtain ⟨p, s, typeLeft, typeRight⟩ := type_commonInteger left right
    rw [Except.ok.inj met] at sources typeLeft typeRight
    refine ⟨hl.of_toInteger (by simp [Ty.isInteger, left]) sources.1,
      hr.of_toInteger (by simp [Ty.isInteger, right]) sources.2, fun scalar scalar' => ?_⟩
    have type := bare scalar typeLeft
    exact ⟨by rw [type, bare scalar' typeRight], fun _ => .inl ⟨p, s, type⟩⟩
  · cases met

/-! ## Operations -/

theorem Yields.negate {span : Span} (h : e.Yields bind t e.type)
    (arithmetic : e.type.isArithmetic = true) :
    Yields bind t ⟨.unary .negate e, e.type, span⟩ e.type :=
  h.andThen fun _ value => runs_computed_of_computes _ <|
    Constant.computes_negation (value.isNumber arithmetic) value.admits

theorem Yields.not {span : Span} (h : e.Yields bind t .bool) :
    Yields bind t ⟨.unary .not e, .bool, span⟩ .bool := by
  refine h.andThen fun c value => runs_computed_of_computes _ ?_
  obtain ⟨b, rfl⟩ := value.eq_boolean
  exact .boolean _

/-- The first operand may decide alone. -/
theorem Yields.connective {op : Connective} {span : Span} (hl : l.Yields bind t .bool)
    (hr : r.Yields bind t .bool) :
    Yields bind t ⟨.binary (.connective op) l r, .bool, span⟩ .bool := by
  refine hl.andThen fun c value => ?_
  obtain ⟨b, rfl⟩ := value.eq_boolean
  by_cases decided : b = true ↔ op = .or
  · exact ⟨.ok (.boolean b), by simp [truth, decided, runs_pure], .boolean b⟩
  · have second : ∃ r', Runs (r.evaluateWith bind >>= fun c => truth r.span c >>= fun b =>
        pure (.boolean b)) t r' t ∧ Evaluates .bool r' := by
      refine hr.andThen fun c value => ?_
      obtain ⟨b, rfl⟩ := value.eq_boolean
      exact ⟨.ok (.boolean b), by simp [truth, runs_pure], .boolean b⟩
    simpa [truth, decided] using second

theorem Yields.operation {op : BinaryOp} {l' r' : Expr} {span : Span}
    (agree : Agree bind t l l' r') (noConnective : ∀ connective, op ≠ .connective connective)
    (arithmetic : ∀ arithmetic, op = .arithmetic arithmetic → l.type.isArithmetic = true) :
    Yields bind t ⟨.binary op l' r', resultType op l'.type, span⟩ (resultType op l'.type) := by
  cases op with
  | arithmetic op =>
    refine agree.left.andThen fun a left => agree.right.andThen fun b right => ?_
    obtain ⟨same, number⟩ := agree.same left.scalar right.scalar
    exact runs_computed_of_computes _ <| Constant.computes_arithmetic (number (arithmetic op rfl))
      left.admits (same ▸ right.admits)
  | comparison op =>
    refine agree.left.andThen fun a left => agree.right.andThen fun b right => ?_
    obtain ⟨same, -⟩ := agree.same left.scalar right.scalar
    exact runs_computed_of_computes _ (Constant.computes_comparison left (same ▸ right.admits))
  | connective op => exact absurd rfl (noConnective op)

end Expr

end Deferral
