import Deferral.Proofs.Execution.Outcome
import Deferral.Proofs.Typing.WellTyped
import Deferral.Resolution.Definition

/-!
# Typing operations and phrases

Every operation makes a well-typed expression of well-typed operands, so that a phrase that is typed
at all is well typed, whichever declarations its names were bound to.
-/

namespace Deferral

namespace Expr

variable {table : SymbolTable}

/-! ## The common type -/

/-- Operands `l` and `r` that have met as `l'` and `r'`: these are well typed, and either the old
operands with types that can be exchanged, or have the same numeric type. -/
structure Met (table : SymbolTable) (l r l' r' : Expr) : Prop where
  left : l'.WellTyped table
  right : r'.WellTyped table
  agree : l' = l ∧ r' = r ∧ l.type.equivalent r.type = true ∨
    l'.type.IsNumber ∧ r'.type = l'.type

theorem type_toInteger_of_lt {e : Expr} {p p' : Nat} {s s' : Bool}
    (source : e.type.unqualified = .integer p' s') (wider : p' < p ∨ p' = p ∧ s' ≠ s) :
    (e.toInteger (.integer p s)).type = .integer p s := by
  unfold toInteger
  rw [source]
  simp only [Ty.unqualified]
  rw [if_pos wider]
  rfl

theorem type_toWiderFloat_of_lt {e : Expr} {p p' : Nat}
    (source : e.type.unqualified = .float p') (wider : p' < p) :
    (e.toWiderFloat (.float p)).type = .float p := by
  unfold toWiderFloat
  rw [source]
  simp only [Ty.unqualified]
  rw [if_pos wider]
  rfl

theorem type_integerToFloat {e : Expr} {p : Nat} (source : e.type.isInteger = true) :
    (e.integerToFloat (.float p)).type = .float p := by
  unfold integerToFloat
  simp [source, Ty.isFloat, Ty.unqualified]

theorem isValue_toInteger {e : Expr} (h : e.type.IsValue) (p : Nat) (s : Bool) :
    (e.toInteger (.integer p s)).type.IsValue := by
  unfold toInteger
  split
  · split
    · exact ⟨rfl, rfl⟩
    · exact h
  · exact ⟨rfl, rfl⟩
  · exact h

/-- Two integer operands get one integer type, whichever of their widths and signs wins. -/
theorem type_commonInteger {l r : Expr} {p₁ p₂ : Nat} {s₁ s₂ : Bool}
    (left : l.type.unqualified = .integer p₁ s₁) (right : r.type.unqualified = .integer p₂ s₂) :
    ∃ p s, (l.commonInteger r p₁ s₁ p₂ s₂).1.type.unqualified = .integer p s ∧
      (l.commonInteger r p₁ s₁ p₂ s₂).2.type.unqualified = .integer p s := by
  have became {e : Expr} {p p' : Nat} {s s' : Bool} (source : e.type.unqualified = .integer p' s')
      (wider : p' < p ∨ p' = p ∧ s' ≠ s) :
      (e.toInteger (.integer p s)).type.unqualified = .integer p s := by
    rw [type_toInteger_of_lt source wider]
    rfl
  unfold commonInteger
  dsimp only
  split
  · rename_i same
    subst same
    split
    · rename_i lt
      exact ⟨_, _, became left (.inl lt), right⟩
    · split
      · rename_i gt
        exact ⟨_, _, left, became right (.inl gt)⟩
      · have same : p₁ = p₂ := by omega
        exact ⟨_, _, left, same ▸ right⟩
  · rename_i ne
    split
    · rename_i wins
      refine ⟨_, _, left, became right ?_⟩
      have order := wins.2
      rcases Nat.lt_or_eq_of_le order with lt | same
      · exact .inl lt
      · exact .inr ⟨same, fun h => ne h.symm⟩
    · split
      · rename_i wins
        refine ⟨_, _, became left ?_, right⟩
        rcases Nat.lt_or_eq_of_le wins.2 with lt | same
        · exact .inl lt
        · exact .inr ⟨same, ne⟩
      · rename_i notLeft notRight
        -- The signed operand is the wider one, and lends the unsigned type its width.
        refine ⟨_, _, became left ?_, became right ?_⟩ <;>
          (cases s₁ <;> cases s₂ <;> simp_all)

/-- Either operand stays as it is or becomes an integer of the width of one of the two. -/
theorem commonInteger_cases (l r : Expr) (p₁ p₂ : Nat) (s₁ s₂ : Bool) :
    ((l.commonInteger r p₁ s₁ p₂ s₂).1 = l ∨ ∃ p s, (p = p₁ ∨ p = p₂) ∧
        (l.commonInteger r p₁ s₁ p₂ s₂).1 = l.toInteger (.integer p s)) ∧
      ((l.commonInteger r p₁ s₁ p₂ s₂).2 = r ∨ ∃ p s, (p = p₁ ∨ p = p₂) ∧
        (l.commonInteger r p₁ s₁ p₂ s₂).2 = r.toInteger (.integer p s)) := by
  unfold commonInteger
  dsimp only
  split
  · split
    · exact ⟨.inr ⟨_, _, .inr rfl, rfl⟩, .inl rfl⟩
    · split
      · exact ⟨.inl rfl, .inr ⟨_, _, .inl rfl, rfl⟩⟩
      · exact ⟨.inl rfl, .inl rfl⟩
  · split
    · exact ⟨.inl rfl, .inr ⟨_, _, .inl rfl, rfl⟩⟩
    · split
      · exact ⟨.inr ⟨_, _, .inr rfl, rfl⟩, .inl rfl⟩
      · have width : (if s₁ then p₁ else p₂) = p₁ ∨ (if s₁ then p₁ else p₂) = p₂ := by
          split
          · exact .inl rfl
          · exact .inr rfl
        exact ⟨.inr ⟨_, _, width, rfl⟩, .inr ⟨_, _, width, rfl⟩⟩

theorem WellTyped.of_toInteger {e e' : Expr} {p₁ p₂ : Nat} (h : e.WellTyped table)
    (value : e.type.IsValue) (width₁ : Ty.IsWidth p₁) (width₂ : Ty.IsWidth p₂)
    (step : e' = e ∨ ∃ p s, (p = p₁ ∨ p = p₂) ∧ e' = e.toInteger (.integer p s)) :
    e'.WellTyped table ∧ e'.type.IsValue := by
  rcases step with rfl | ⟨p, s, width, rfl⟩
  · exact ⟨h, value⟩
  · have width : Ty.IsWidth p := by rcases width with rfl | rfl <;> assumption
    exact ⟨h.toInteger' width, isValue_toInteger value p s⟩

/-- Two values that have a common type meet in it. -/
theorem met_of_common {l r l' r' : Expr} (hl : l.WellTyped table) (hr : r.WellTyped table)
    (vl : l.type.IsValue) (vr : r.type.IsValue) (met : l.common r = .ok (l', r')) :
    Met table l r l' r' := by
  unfold common at met
  split at met
  · rename_i agree
    obtain ⟨rfl, rfl⟩ := Prod.mk.inj (Except.ok.inj met)
    exact ⟨hl, hr, .inl ⟨rfl, rfl, agree⟩⟩
  · split at met
    · rename_i p₁ p₂ left right
      rw [vl.unqualified_eq] at left
      rw [vr.unqualified_eq] at right
      split at met
      · rename_i lt
        obtain ⟨rfl, rfl⟩ := Prod.mk.inj (Except.ok.inj met)
        have type := type_toWiderFloat_of_lt (by rw [left]; rfl) lt
        exact ⟨hl.toWiderFloat _, hr, .inr ⟨.inr ⟨_, type⟩, by rw [type, right]⟩⟩
      · split at met
        · rename_i gt
          obtain ⟨rfl, rfl⟩ := Prod.mk.inj (Except.ok.inj met)
          have type := type_toWiderFloat_of_lt (by rw [right]; rfl) gt
          exact ⟨hl, hr.toWiderFloat _, .inr ⟨.inr ⟨_, left⟩, by rw [type, left]⟩⟩
        · have same : p₂ = p₁ := by omega
          obtain ⟨rfl, rfl⟩ := Prod.mk.inj (Except.ok.inj met)
          exact ⟨hl, hr, .inr ⟨.inr ⟨_, left⟩, by rw [left, right, same]⟩⟩
    · rename_i p s p' left right
      rw [vr.unqualified_eq] at right
      obtain ⟨rfl, rfl⟩ := Prod.mk.inj (Except.ok.inj met)
      have type := type_integerToFloat (e := l) (p := p') (by simp [Ty.isInteger, left])
      exact ⟨hl.integerToFloat _, hr, .inr ⟨.inr ⟨_, type⟩, by rw [type, right]⟩⟩
    · rename_i p p' s left right
      rw [vl.unqualified_eq] at left
      obtain ⟨rfl, rfl⟩ := Prod.mk.inj (Except.ok.inj met)
      have type := type_integerToFloat (e := r) (p := p) (by simp [Ty.isInteger, right])
      exact ⟨hl, hr.integerToFloat _, .inr ⟨.inr ⟨_, left⟩, by rw [type, left]⟩⟩
    · rename_i p₁ s₁ p₂ s₂ left right
      have width₁ := hl.normal_type.unqualified
      have width₂ := hr.normal_type.unqualified
      rw [left] at width₁
      rw [right] at width₂
      have sources := commonInteger_cases l r p₁ p₂ s₁ s₂
      obtain ⟨p, s, typeLeft, typeRight⟩ := type_commonInteger left right
      rw [Except.ok.inj met] at sources typeLeft typeRight
      obtain ⟨wellLeft, valueLeft⟩ := hl.of_toInteger vl width₁ width₂ sources.1
      obtain ⟨wellRight, valueRight⟩ := hr.of_toInteger vr width₁ width₂ sources.2
      rw [valueLeft.unqualified_eq] at typeLeft
      rw [valueRight.unqualified_eq] at typeRight
      exact ⟨wellLeft, wellRight, .inr ⟨.inl ⟨_, _, typeLeft⟩, by rw [typeRight, typeLeft]⟩⟩
    · cases met

/-! ## Operations -/

theorem checkArithmetic_eq_ok {e : Expr} {u : Unit} (h : e.checkArithmetic = .ok u) :
    e.type.isArithmetic = true := by
  unfold checkArithmetic at h
  split at h
  · assumption
  · cases h

theorem WellTyped.ofUnary {op : UnaryOp} {e e' : Expr} {span : Span} (h : e.WellTyped table)
    (typed : Expr.ofUnary op e span = .ok e') : e'.WellTyped table := by
  cases op with
  | negate =>
    simp only [Expr.ofUnary] at typed
    have value := h.isValue_asValue
    cases dependent : e.asValue.type.isDependent with
    | true =>
      simp only [dependent] at typed
      obtain rfl := Except.ok.inj typed
      exact .negate h.asValue value (.inl dependent)
    | false =>
      simp only [dependent] at typed
      obtain ⟨_, arithmetic, typed⟩ := bind_eq_ok_iff.mp typed
      obtain rfl := Except.ok.inj typed
      exact .negate h.asValue value (.inr (checkArithmetic_eq_ok arithmetic))
  | not =>
    obtain ⟨operand, read, typed⟩ := bind_eq_ok_iff.mp typed
    obtain rfl := Except.ok.inj typed
    obtain ⟨well, truth⟩ := h.asCondition read
    exact .not well truth

theorem WellTyped.ofConnective {op : Connective} {l r e : Expr} (hl : l.WellTyped table)
    (hr : r.WellTyped table) (typed : Expr.ofConnective op l r = .ok e) : e.WellTyped table := by
  obtain ⟨l', left, typed⟩ := bind_eq_ok_iff.mp typed
  obtain ⟨r', right, typed⟩ := bind_eq_ok_iff.mp typed
  obtain rfl := Except.ok.inj typed
  obtain ⟨wellLeft, truthLeft⟩ := hl.asCondition left
  obtain ⟨wellRight, truthRight⟩ := hr.asCondition right
  exact .connective wellLeft wellRight truthLeft truthRight

/-- Two values whose types meet, or can be compared, make an operation. -/
theorem WellTyped.operation {op : BinaryOp} {l r : Expr} {span : Span} {t : Ty}
    (hl : l.WellTyped table) (hr : r.WellTyped table) (vl : l.type.IsValue) (vr : r.type.IsValue)
    (noConnective : ∀ connective, op ≠ .connective connective)
    (meet : ∀ arithmetic, op = .arithmetic arithmetic → Ty.Meet l.type r.type t)
    (compare : Ty.Comparable l.type r.type) :
    Expr.WellTyped table ⟨.binary op l r, resultType op t, span⟩ := by
  cases op with
  | arithmetic op => exact .arithmetic hl hr vl vr (meet op rfl)
  | comparison op => exact .comparison hl hr vl vr compare
  | connective op => exact absurd rfl (noConnective op)

/-- How two operands make an operation: they stay as they are while one of their types is open, and
are brought to a common type otherwise, numbers in arithmetic. -/
theorem ofOperands_cases {op : BinaryOp} {l r e : Expr} (typed : Expr.ofOperands op l r = .ok e) :
    (e = ⟨.binary op l.asValue r.asValue, resultType op l.asValue.type, l.span.upTo r.span⟩ ∧
      l.asValue.type.isDependent = true) ∨
    (e = ⟨.binary op l.asValue r.asValue, resultType op r.asValue.type, l.span.upTo r.span⟩ ∧
      l.asValue.type.isDependent = false ∧ r.asValue.type.isDependent = true) ∨
    ∃ l' r', e = ⟨.binary op l' r', resultType op l'.type, l.span.upTo r.span⟩ ∧
      l.asValue.common r.asValue = .ok (l', r') ∧
      l.asValue.type.isDependent = false ∧ r.asValue.type.isDependent = false ∧
      ∀ arithmetic, op = .arithmetic arithmetic →
        l.asValue.type.isArithmetic = true ∧ r.asValue.type.isArithmetic = true := by
  unfold Expr.ofOperands at typed
  dsimp only at typed
  split at typed
  · exact .inl ⟨(Except.ok.inj typed).symm, by assumption⟩
  rename_i left
  split at typed
  · exact .inr (.inl ⟨(Except.ok.inj typed).symm, Bool.eq_false_iff.mpr left, by assumption⟩)
  rename_i right
  refine .inr (.inr ?_)
  split at typed
  · obtain ⟨_, checkLeft, typed⟩ := bind_eq_ok_iff.mp typed
    obtain ⟨_, checkRight, typed⟩ := bind_eq_ok_iff.mp typed
    obtain ⟨⟨l', r'⟩, met, typed⟩ := bind_eq_ok_iff.mp typed
    exact ⟨l', r', (Except.ok.inj typed).symm, met, Bool.eq_false_iff.mpr left,
      Bool.eq_false_iff.mpr right,
      fun _ _ => ⟨checkArithmetic_eq_ok checkLeft, checkArithmetic_eq_ok checkRight⟩⟩
  · rename_i other
    obtain ⟨⟨l', r'⟩, met, typed⟩ := bind_eq_ok_iff.mp typed
    exact ⟨l', r', (Except.ok.inj typed).symm, met, Bool.eq_false_iff.mpr left,
      Bool.eq_false_iff.mpr right, fun arithmetic same => absurd same (other arithmetic)⟩

theorem WellTyped.ofOperands {op : BinaryOp} {l r e : Expr} (hl : l.WellTyped table)
    (hr : r.WellTyped table) (noConnective : ∀ connective, op ≠ .connective connective)
    (typed : Expr.ofOperands op l r = .ok e) : e.WellTyped table := by
  have vl := hl.isValue_asValue
  have vr := hr.isValue_asValue
  rcases ofOperands_cases typed with ⟨rfl, left⟩ | ⟨rfl, left, right⟩ |
    ⟨l', r', rfl, met, left, right, arithmetic⟩
  · exact hl.asValue.operation hr.asValue vl vr noConnective (fun _ _ => .left left) (.inl left)
  · exact hl.asValue.operation hr.asValue vl vr noConnective (fun _ _ => .right left right)
      (.inr (.inl right))
  -- Both types are known now, and arithmetic has been made sure of numbers.
  have numbers : ∀ a, op = .arithmetic a → l.asValue.type.IsNumber ∧ r.asValue.type.IsNumber :=
    fun a same => ⟨vl.isNumber (arithmetic a same).1, vr.isNumber (arithmetic a same).2⟩
  obtain ⟨wellLeft, wellRight, agree⟩ := met_of_common hl.asValue hr.asValue vl vr met
  rcases agree with ⟨rfl, rfl, agree⟩ | ⟨number, same⟩
  · refine wellLeft.operation wellRight vl vr noConnective (fun op arithmetic => ?_)
      (.inr (.inr agree))
    have number := (numbers op arithmetic).1
    exact .both number.isDependent number.isArithmetic (number.eq_of_equivalent agree)
  · have value := number.isValue
    refine wellLeft.operation wellRight value (same ▸ value) noConnective
      (fun _ _ => .both number.isDependent number.isArithmetic same) (.inr (.inr ?_))
    rw [same]
    exact wellLeft.normal_type.equivalent_self _ number.isDependent

theorem WellTyped.ofBinary {op : BinaryOp} {l r e : Expr} (hl : l.WellTyped table)
    (hr : r.WellTyped table) (typed : Expr.ofBinary op l r = .ok e) : e.WellTyped table := by
  cases op with
  | arithmetic op => exact hl.ofOperands hr (fun _ h => by cases h) typed
  | comparison op => exact hl.ofOperands hr (fun _ h => by cases h) typed
  | connective op => exact hl.ofConnective hr typed

/-- As many arguments as parameters are bound one by one. -/
theorem WellTyped.bindArguments {arguments bound : List Expr} {parameters : List Ty}
    (well : ∀ e ∈ arguments, e.WellTyped table) (normal : ∀ t ∈ parameters, t.Normal)
    (length : arguments.length = parameters.length)
    (typed : Expr.bindArguments arguments parameters = .ok bound) :
    (∀ e ∈ bound, e.WellTyped table) ∧
      List.Forall₂ (fun e => Ty.Fits e.type) bound parameters := by
  induction arguments generalizing parameters bound with
  | nil =>
    obtain rfl := List.length_eq_zero_iff.mp length.symm
    obtain rfl := Except.ok.inj typed
    exact ⟨by simp, .nil⟩
  | cons e rest ih =>
    cases parameters with
    | nil => cases length
    | cons t parameters =>
      obtain ⟨e', initialized, typed⟩ := bind_eq_ok_iff.mp typed
      obtain ⟨rest', others, typed⟩ := bind_eq_ok_iff.mp typed
      obtain rfl := Except.ok.inj typed
      obtain ⟨first, fits⟩ := (well e (by simp)).initializer (normal t (by simp)) initialized
      obtain ⟨wellRest, fitRest⟩ := ih (fun e member => well e (by simp [member]))
        (fun t member => normal t (by simp [member])) (Nat.succ.inj length) others
      refine ⟨?_, .cons fits fitRest⟩
      intro other member
      rcases List.mem_cons.mp member with rfl | member
      · exact first
      · exact wellRest other member

theorem WellTyped.ofCall {callee e : Expr} {arguments : List Expr} {span : Span}
    (h : callee.WellTyped table) (well : ∀ e ∈ arguments, e.WellTyped table)
    (typed : Expr.ofCall callee arguments span = .ok e) : e.WellTyped table := by
  unfold Expr.ofCall at typed
  split at typed
  · rename_i parameters result function
    have normal := h.normal_type.valueType
    rw [function] at normal
    dsimp only at typed
    split at typed
    · cases typed
    split at typed
    · cases typed
    rename_i notMore notFewer
    obtain ⟨bound, bind, typed⟩ := bind_eq_ok_iff.mp typed
    obtain rfl := Except.ok.inj typed
    have length : arguments.length = parameters.length := by omega
    obtain ⟨wellBound, fit⟩ := WellTyped.bindArguments well (Ty.normalAll_iff.mp normal.1) length bind
    exact .call h wellBound function fit
  · rename_i noFunction
    split at typed
    · rename_i dependent
      obtain rfl := Except.ok.inj typed
      rw [Ty.isDependent_valueType] at dependent
      refine .callUnknown h ?_ (fun ps t same => noFunction ps t same) dependent
      intro e member
      obtain ⟨argument, argumentMember, rfl⟩ := List.mem_map.mp member
      exact (well argument argumentMember).asValue
    · cases typed

theorem WellTyped.ofAssign {target value e : Expr} (ht : target.WellTyped table)
    (hv : value.WellTyped table) (typed : Expr.ofAssign target value = .ok e) :
    e.WellTyped table := by
  obtain ⟨bound, initialized, typed⟩ := bind_eq_ok_iff.mp typed
  obtain rfl := Except.ok.inj typed
  have bare := ht.normal_type.isValue_valueType
  obtain ⟨comparable, kept⟩ := comparable_of_initializer bare.reference initialized
  obtain ⟨well, -⟩ := hv.asValue.initializer ht.normal_type.valueType initialized
  refine .assign ht well ?_ comparable
  rcases kept with same | rfl
  · exact bare.of_equivalent same
  · exact hv.isValue_asValue

/-! ## Phrases -/

theorem WellTyped.ofNumber {t : Token} {e : Expr} (typed : Expr.ofNumber t = .ok e) :
    e.WellTyped table := by
  unfold Expr.ofNumber at typed
  dsimp only at typed
  split at typed
  · split at typed
    · obtain rfl := Except.ok.inj typed
      exact .float
    · cases typed
  · split at typed
    · split at typed
      · rename_i n _ small
        obtain rfl := Except.ok.inj typed
        exact .integer small rfl
      · cases typed
    · cases typed

end Expr

namespace SymbolTable

/-- Whatever names a declaration with a value has a type in normal form. -/
def NormalUses (table : SymbolTable) : Prop :=
  ∀ id type, typeOfUse? (table.decl id) = some type → type.Normal

theorem wellTyped_of_reference {table : SymbolTable} (uses : table.NormalUses) {t : Token}
    {e : Expr} (typed : table.reference t = .ok e) : e.WellTyped table := by
  obtain ⟨set, -, typed⟩ := bind_eq_ok_iff.mp typed
  split at typed
  · cases typed
  · rename_i id _
    dsimp only at typed
    split at typed
    · rename_i type use
      obtain rfl := Except.ok.inj typed
      exact .name use (uses id type use) (.inr rfl)
    · cases typed

end SymbolTable

namespace Phrase

variable {table : SymbolTable}

mutual

theorem wellTyped_of_typed (uses : table.NormalUses) :
    ∀ (p : Phrase) (e : Expr), p.typed table = .ok e → e.WellTyped table
  | .number _, _, typed => .ofNumber typed
  | .truth _ _, _, typed => Except.ok.inj typed ▸ .boolean
  | .name _, _, typed => SymbolTable.wellTyped_of_reference uses typed
  | .unary _ _ operand, _, typed => by
    obtain ⟨e, first, typed⟩ := bind_eq_ok_iff.mp typed
    exact (wellTyped_of_typed uses operand e first).ofUnary typed
  | .binary _ left right, _, typed => by
    obtain ⟨l, first, typed⟩ := bind_eq_ok_iff.mp typed
    obtain ⟨r, second, typed⟩ := bind_eq_ok_iff.mp typed
    exact (wellTyped_of_typed uses left l first).ofBinary (wellTyped_of_typed uses right r second)
      typed
  | .assign target value, _, typed => by
    obtain ⟨t, first, typed⟩ := bind_eq_ok_iff.mp typed
    obtain ⟨v, second, typed⟩ := bind_eq_ok_iff.mp typed
    exact (wellTyped_of_typed uses target t first).ofAssign (wellTyped_of_typed uses value v second)
      typed
  | .call callee arguments _, _, typed => by
    obtain ⟨f, first, typed⟩ := bind_eq_ok_iff.mp typed
    obtain ⟨es, others, typed⟩ := bind_eq_ok_iff.mp typed
    exact (wellTyped_of_typed uses callee f first).ofCall
      (wellTyped_of_typedAll uses arguments es others) typed

theorem wellTyped_of_typedAll (uses : table.NormalUses) :
    ∀ (ps : List Phrase) (es : List Expr), typedAll table ps = .ok es →
      ∀ e ∈ es, e.WellTyped table
  | [], _, typed => by
    obtain rfl := Except.ok.inj typed
    simp
  | p :: rest, _, typed => by
    obtain ⟨e, first, typed⟩ := bind_eq_ok_iff.mp typed
    obtain ⟨es, others, typed⟩ := bind_eq_ok_iff.mp typed
    obtain rfl := Except.ok.inj typed
    intro other member
    rcases List.mem_cons.mp member with rfl | member
    · exact wellTyped_of_typed uses p _ first
    · exact wellTyped_of_typedAll uses rest es others other member

end

end Phrase

theorem SymbolTable.wellTyped_of_expressionOf {table : SymbolTable} (uses : table.NormalUses)
    {tokens : List Token} {e : Expr} (typed : table.expressionOf tokens = .ok e) :
    e.WellTyped table := by
  unfold expressionOf at typed
  split at typed
  · rename_i phrase _
    exact Phrase.wellTyped_of_typed uses phrase e typed
  · obtain ⟨_, -, typed⟩ := bind_eq_ok_iff.mp typed
    cases typed

theorem SymbolTable.wellTyped_of_forceExpression {table : SymbolTable} (uses : table.NormalUses)
    {e e' : Expr} (well : e.excerpt? = none → e.WellTyped table)
    (forced : table.forceExpression e = .ok e') : e'.WellTyped table := by
  unfold forceExpression at forced
  split at forced
  · rename_i read
    exact Except.ok.inj forced ▸ well read
  · exact wellTyped_of_expressionOf uses (mapError_eq_ok_iff.mp forced)

end Deferral
