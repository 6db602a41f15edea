import Deferral.Proofs.Constant.Computing

/-!
# Evaluating what has been read

Reading some tokens as an expression gives every operand the type that its operation computes in, so
that evaluation finds no value of the wrong kind: as long as every type is known, and as long as the
values that are stored for what the expression refers to are of their declared types.
-/

namespace Deferral

open Resolution

/-! ## The types of nodes -/

mutual

/-- The types of all nodes of an expression. -/
def Expr.nodeTypes : Expr → List Ty
  | ⟨.unary _ e, type, _⟩ | ⟨.converted _ e, type, _⟩ => type :: e.nodeTypes
  | ⟨.binary _ l r, type, _⟩ | ⟨.assign l r, type, _⟩ => type :: (l.nodeTypes ++ r.nodeTypes)
  | ⟨.call callee arguments, type, _⟩ => type :: (callee.nodeTypes ++ nodeTypesIn arguments)
  | ⟨.deferred _, type, _⟩ | ⟨.boolean _, type, _⟩ | ⟨.integer _, type, _⟩
  | ⟨.float _, type, _⟩ | ⟨.name _ _, type, _⟩ => [type]

def Expr.nodeTypesIn : List Expr → List Ty
  | [] => []
  | e :: rest => e.nodeTypes ++ nodeTypesIn rest

end

namespace Expr

variable {e e' l r : Expr}

/-- The type of no node is dependent. -/
def Known (e : Expr) : Prop := ∀ type ∈ e.nodeTypes, type.isDependent = false

theorem Known.type (h : e.Known) : e.type.isDependent = false := by
  obtain ⟨node, type, span⟩ := e
  cases node <;> exact h type (List.mem_cons_self ..)

theorem known_convert {conversion : Conversion} {target : Ty} :
    (e.convert conversion target).Known ↔ target.isDependent = false ∧ e.Known :=
  List.forall_mem_cons

theorem known_unary {op : UnaryOp} {type : Ty} {span : Span} :
    Known ⟨.unary op e, type, span⟩ ↔ type.isDependent = false ∧ e.Known :=
  List.forall_mem_cons

theorem known_binary {op : BinaryOp} {type : Ty} {span : Span} :
    Known ⟨.binary op l r, type, span⟩ ↔ type.isDependent = false ∧ l.Known ∧ r.Known :=
  List.forall_mem_cons.trans (and_congr_right' List.forall_mem_append)

/-- What is known with conversions around it is known without them. -/
theorem Known.of_wraps (wraps : e.Wraps e') (h : e'.Known) : e.Known := by
  induction wraps with
  | refl => exact h
  | convert conversion target _ ih => exact ih (known_convert.mp h).2

theorem Known.of_asValue (h : e.asValue.Known) : e.Known := h.of_wraps e.wraps_asValue

theorem Known.of_asCondition (h : e'.Known) (read : e.asCondition = .ok e') : e.Known :=
  h.of_wraps (e.meant_asCondition.of_ok read)

theorem Known.of_common {l' r' : Expr} (hl : l'.Known) (hr : r'.Known)
    (met : l.common r = .ok (l', r')) : l.Known ∧ r.Known :=
  have ⟨left, right⟩ := (l.meant_common r).of_ok met
  ⟨hl.of_wraps left, hr.of_wraps right⟩

end Expr

/-! ## What is stored -/

/-- Every constant that an expression refers to has a value, and whatever it refers to has none but
of its declared type. -/
structure SymbolTable.Supplies (t : SymbolTable) (e : Expr) : Prop where
  constants : ∀ ref ∈ e.references, (t.decl ref.1).isConstant = true →
    (t.constant? ref.1).isSome = true
  values : ∀ ref ∈ e.references, ∀ v type, t.constant? ref.1 = some v →
    typeOfUse? (t.decl ref.1) = some type → type.valueType.HasValue v

namespace SymbolTable

variable {t : SymbolTable} {e : Expr}

theorem Supplies.mono {e' : Expr} (h : t.Supplies e)
    (part : ∀ ref ∈ e'.references, ref ∈ e.references) : t.Supplies e' :=
  ⟨fun ref member => h.constants ref (part ref member),
    fun ref member => h.values ref (part ref member)⟩

/-- A constant that has its value is not computed again. -/
theorem runs_ensureConstant_of_isSome {id : DeclId} (h : (t.constant? id).isSome = true) :
    Runs (ensureConstant id) t (.ok ()) t := by
  unfold ensureConstant
  rw [runs_bind_look]
  cases t.decls.size with
  | zero =>
    unfold ensureConstantWithin
    rw [runs_bind_look, if_pos h]
    exact runs_pure.mpr ⟨rfl, rfl⟩
  | succ level =>
    unfold ensureConstantWithin
    rw [runs_bind_look, if_pos h]
    exact runs_pure.mpr ⟨rfl, rfl⟩

theorem runs_evaluateName_of_supplied {id : DeclId} (name : String) (span : Span)
    (supplied : (t.decl id).isConstant = true → (t.constant? id).isSome = true) :
    Runs (Expr.evaluateName ensureConstant id name span) t
      (match t.constant? id with
        | some c => .ok c
        | none => .error { cause := .notEvaluable (.notConstant name), position := span.start })
      t := by
  have stored : Runs (look (·.constant? id) >>= fun
      | some c => pure c
      | none => Expr.notEvaluable (.notConstant name) span) t
      (match t.constant? id with
        | some c => .ok c
        | none => .error { cause := .notEvaluable (.notConstant name), position := span.start })
      t := by
    rw [runs_bind_look]
    split
    · exact runs_pure.mpr ⟨rfl, rfl⟩
    · exact runs_fail.mpr ⟨rfl, rfl⟩
  unfold Expr.evaluateName
  rw [runs_bind_look]
  split
  · rename_i constant
    exact runs_bind.mpr (.inr ⟨(), t, runs_ensureConstant_of_isSome (supplied constant), stored⟩)
  · exact stored

/-- A name is a value of its type if one is stored for it, and no constant otherwise. -/
theorem yields_of_reference {token : Token} (typed : t.reference token = .ok e)
    (supplies : t.Supplies e) : e.Yields ensureConstant t e.type.valueType := by
  obtain ⟨set, -, typed⟩ := bind_eq_ok_iff.mp typed
  split at typed
  · cases typed
  rename_i id _
  dsimp only at typed
  split at typed
  · rename_i type use
    obtain rfl := Except.ok.inj typed
    have here : (id, token.text) ∈ Expr.references ⟨.name id token.text, type, token.span⟩ :=
      List.mem_singleton_self _
    refine ⟨_, runs_evaluateName_of_supplied token.text token.span
      (supplies.constants _ here), ?_⟩
    cases known : t.constant? id with
    | some v => exact supplies.values _ here v type known use
    | none => exact ⟨_, rfl, trivial⟩
  · cases typed

end SymbolTable

/-! ## Phrases -/

/-- A literal is a value of its type. -/
theorem Expr.yields_of_number {bind : DeclId → Resolution Unit} {t : SymbolTable} {token : Token}
    {e : Expr} (typed : Expr.ofNumber token = .ok e) : e.Yields bind t e.type.valueType := by
  unfold Expr.ofNumber at typed
  dsimp only at typed
  split at typed
  · split at typed
    · rename_i x _
      obtain rfl := Except.ok.inj typed
      exact ⟨.ok (.float x), runs_pure.mpr ⟨rfl, rfl⟩, .inr (.inr ⟨64, rfl⟩), x, rfl⟩
    · cases typed
  split at typed
  · rename_i n _
    split at typed
    · obtain rfl := Except.ok.inj typed
      refine ⟨.ok (.integer n), runs_pure.mpr ⟨rfl, rfl⟩, ?_⟩
      unfold Expr.ofInteger
      dsimp only [Expr.type_mk]
      split
      · rename_i narrow
        refine ⟨.inr (.inl ⟨32, true, rfl⟩), n, rfl, fun _ => ?_⟩
        have bound : n < twoTo (32 - 1) := narrow
        simp only [Ty.InRange, if_true]
        omega
      · exact ⟨.inr (.inl ⟨64, true, rfl⟩), n, rfl, fun narrow => absurd narrow (by decide)⟩
    · cases typed
  · cases typed

namespace Expr

variable {bind : DeclId → Resolution Unit} {t : SymbolTable} {e l r : Expr}

theorem Yields.ofUnary {operand : Expr} {op : UnaryOp} {span : Span} (known : e.Known)
    (h : operand.Known → operand.Yields bind t operand.type.valueType)
    (typed : Expr.ofUnary op operand span = .ok e) : e.Yields bind t e.type.valueType := by
  refine Yields.valueType ?_
  cases op with
  | negate =>
    simp only [Expr.ofUnary] at typed
    cases dependent : operand.asValue.type.isDependent with
    | true =>
      simp only [dependent] at typed
      obtain rfl := Except.ok.inj typed
      rw [(known_unary.mp known).2.type] at dependent
      cases dependent
    | false =>
      simp only [dependent] at typed
      obtain ⟨_, arithmetic, typed⟩ := bind_eq_ok_iff.mp typed
      obtain rfl := Except.ok.inj typed
      exact (h (known_unary.mp known).2.of_asValue).asValue.negate (checkArithmetic_eq_ok arithmetic)
  | not =>
    obtain ⟨condition, read, typed⟩ := bind_eq_ok_iff.mp typed
    obtain rfl := Except.ok.inj typed
    have inner := (known_unary.mp known).2
    exact ((h (inner.of_asCondition read)).asCondition inner.type read).not

theorem Yields.ofBinary {op : BinaryOp} (known : e.Known)
    (hl : l.Known → l.Yields bind t l.type.valueType)
    (hr : r.Known → r.Yields bind t r.type.valueType)
    (typed : Expr.ofBinary op l r = .ok e) : e.Yields bind t e.type.valueType := by
  refine Yields.valueType ?_
  have operands (noConnective : ∀ connective, op ≠ .connective connective)
      (typed : Expr.ofOperands op l r = .ok e) : e.Yields bind t e.type := by
    rcases ofOperands_cases typed with ⟨rfl, left⟩ | ⟨rfl, -, right⟩ |
      ⟨l', r', rfl, met, -, -, arithmetic⟩
    · rw [(known_binary.mp known).2.1.type] at left
      cases left
    · rw [(known_binary.mp known).2.2.type] at right
      cases right
    · obtain ⟨-, left, right⟩ := known_binary.mp known
      obtain ⟨knownLeft, knownRight⟩ := left.of_common right met
      have agree := agree_of_common (hl knownLeft.of_asValue).asValue
        (hr knownRight.of_asValue).asValue met
      exact Yields.operation agree noConnective fun op same => (arithmetic op same).1
  cases op with
  | arithmetic op => exact operands (fun _ h => by cases h) typed
  | comparison op => exact operands (fun _ h => by cases h) typed
  | connective op =>
    obtain ⟨l', left, typed⟩ := bind_eq_ok_iff.mp typed
    obtain ⟨r', right, typed⟩ := bind_eq_ok_iff.mp typed
    obtain rfl := Except.ok.inj typed
    obtain ⟨-, knownLeft, knownRight⟩ := known_binary.mp known
    exact ((hl (knownLeft.of_asCondition left)).asCondition knownLeft.type left).connective
      ((hr (knownRight.of_asCondition right)).asCondition knownRight.type right)

end Expr

/-- By induction on the phrase. What is inside a call or an assignment is not evaluated. -/
theorem Phrase.yields_of_typed {t : SymbolTable} : ∀ (p : Phrase) {e : Expr},
    p.typed t = .ok e → e.Known → t.Supplies e →
      e.Yields ensureConstant t e.type.valueType
  | .number _, _, typed, _, _ => Expr.yields_of_number typed
  | .truth value _, _, typed, _, _ => by
    obtain rfl := Except.ok.inj typed
    exact ⟨.ok (.boolean value), runs_pure.mpr ⟨rfl, rfl⟩, .boolean value⟩
  | .name _, _, typed, _, supplies => SymbolTable.yields_of_reference typed supplies
  | .unary _ _ operand, _, typed, known, supplies => by
    obtain ⟨e, first, typed⟩ := bind_eq_ok_iff.mp typed
    have part := supplies.mono fun ref member => Expr.references_ofUnary typed ▸ member
    exact Expr.Yields.ofUnary known (fun known => yields_of_typed operand first known part) typed
  | .binary _ left right, _, typed, known, supplies => by
    obtain ⟨l, first, typed⟩ := bind_eq_ok_iff.mp typed
    obtain ⟨r, second, typed⟩ := bind_eq_ok_iff.mp typed
    have names := Expr.references_ofBinary typed
    have partLeft : t.Supplies l := supplies.mono fun ref member => by simp [names, member]
    have partRight : t.Supplies r := supplies.mono fun ref member => by simp [names, member]
    exact Expr.Yields.ofBinary known (fun known => yields_of_typed left first known partLeft)
      (fun known => yields_of_typed right second known partRight) typed
  | .assign _ _, _, typed, _, _ => by
    obtain ⟨target, -, typed⟩ := bind_eq_ok_iff.mp typed
    obtain ⟨value, -, typed⟩ := bind_eq_ok_iff.mp typed
    obtain ⟨bound, -, typed⟩ := bind_eq_ok_iff.mp typed
    obtain rfl := Except.ok.inj typed
    exact Expr.evaluates_notEvaluable _ trivial
  | .call _ _ _, _, typed, _, _ => by
    obtain ⟨f, -, typed⟩ := bind_eq_ok_iff.mp typed
    obtain ⟨es, -, typed⟩ := bind_eq_ok_iff.mp typed
    unfold Expr.ofCall at typed
    split at typed
    · dsimp only at typed
      split at typed
      · cases typed
      split at typed
      · cases typed
      obtain ⟨bound, -, typed⟩ := bind_eq_ok_iff.mp typed
      obtain rfl := Except.ok.inj typed
      exact Expr.evaluates_notEvaluable _ trivial
    · split at typed
      · obtain rfl := Except.ok.inj typed
        exact Expr.evaluates_notEvaluable _ trivial
      · cases typed

/-- An expression that is read from some tokens and of which every type is known evaluates to a value
of its value type, or to a fault that no typing rules out, and leaves the table as it is. -/
theorem SymbolTable.evaluates_of_expressionOf {t : SymbolTable} {tokens : List Token} {e : Expr}
    (read : t.expressionOf tokens = .ok e) (known : e.Known) (supplies : t.Supplies e) :
    ∃ r, Runs (evaluate e) t r t ∧ Evaluates e.type.valueType r := by
  unfold expressionOf at read
  split at read
  · rename_i phrase _
    exact phrase.yields_of_typed read known supplies
  · obtain ⟨_, -, read⟩ := bind_eq_ok_iff.mp read
    cases read

/-! A constant of a narrow type and a truth value, both with their values stored. -/

def narrowAndTruth : SymbolTable :=
  ((SymbolTable.empty.declare
      ⟨"N", .object .constant (.int 8) (some ⟨.integer 100, .int 8, .nowhere⟩), .global, .nowhere⟩).declare
      ⟨"T", .object .constant .bool (some ⟨.boolean true, .bool, .nowhere⟩), .global, .nowhere⟩)
    |>.setConstant ⟨0⟩ (.integer 100) |>.setConstant ⟨1⟩ (.boolean true)

/-- An integer is read as a truth value, another one widened and a narrow sum reduced. -/
def mixedOperands : List Char := "T && (N + N < -2.5 * N || 7)".toList

theorem SymbolTable.supplies_narrowAndTruth {e : Expr}
    (names : ∀ ref ∈ e.references, ref.1 = ⟨0⟩ ∨ ref.1 = ⟨1⟩) : narrowAndTruth.Supplies e := by
  refine ⟨fun ref member _ => ?_, fun ref member v type known use => ?_⟩
  · rcases names ref member with same | same <;> rw [same] <;> rfl
  · rcases names ref member with same | same <;> rw [same] at known use
    · obtain rfl := Option.some.inj known
      obtain rfl := Option.some.inj use
      exact ⟨.inr (.inl ⟨8, true, rfl⟩), 100, rfl, fun _ => by simp [Ty.InRange, twoTo]⟩
    · obtain rfl := Option.some.inj known
      obtain rfl := Option.some.inj use
      exact .boolean true

/-- Every operand is converted on the way to a truth value. -/
theorem SymbolTable.evaluates_of_mixedOperands : ∃ tokens e r,
    Token.scan mixedOperands "shell" = .ok tokens ∧ narrowAndTruth.expressionOf tokens = .ok e ∧
      e.Known ∧ narrowAndTruth.Supplies e ∧
      Runs (evaluate e) narrowAndTruth r narrowAndTruth ∧ Evaluates e.type.valueType r := by
  have ran : ((Token.scan mixedOperands "shell" >>= narrowAndTruth.expressionOf).toOption.map
      fun e => decide ((∀ type ∈ e.nodeTypes, type.isDependent = false) ∧
        ∀ ref ∈ e.references, ref.1 = ⟨0⟩ ∨ ref.1 = ⟨1⟩)) = some true := by
    unfold mixedOperands
    rewrite [String.toList_ofList]
    decide +kernel
  obtain ⟨e, ok, holds⟩ := map_toOption_eq_some_iff.mp ran
  obtain ⟨tokens, scanned, read⟩ := bind_eq_ok_iff.mp ok
  obtain ⟨known, names⟩ := of_decide_eq_true holds
  have supplies := supplies_narrowAndTruth names
  obtain ⟨r, run, evaluates⟩ := evaluates_of_expressionOf read known supplies
  exact ⟨tokens, e, r, scanned, read, known, supplies, run, evaluates⟩

/-! A variable for which a value of another kind than its own is stored. -/

def storedVariable : SymbolTable :=
  (SymbolTable.empty.declare ⟨"x", .object .var (.int 32) none, .global, .nowhere⟩).setConstant ⟨0⟩
    (.boolean true)

/-- The cause of a fault of evaluation, if evaluating some tokens ends in one. -/
def SymbolTable.faultOf (t : SymbolTable) (e : Expr) : Option EvaluationFault :=
  match ((evaluate e).run.run t).1 with
  | .error ⟨.notEvaluable fault, _, _⟩ => some fault
  | _ => none

/-- No constant is referred to at all, and still the operands do not match: it takes more than the
constants to be of their types. -/
theorem SymbolTable.mismatched_of_storedVariable : ∃ tokens e r t',
    Token.scan "x + 1".toList "shell" = .ok tokens ∧ storedVariable.expressionOf tokens = .ok e ∧
      e.Known ∧ (∀ ref ∈ e.references, (storedVariable.decl ref.1).isConstant = false) ∧
      Runs (evaluate e) storedVariable (.error r) t' ∧
      r.cause = .notEvaluable (.mismatched "true" "1") ∧
      ¬ Evaluates e.type.valueType (.error r) := by
  have ran : ((Token.scan "x + 1".toList "shell" >>= storedVariable.expressionOf).toOption.map
      fun e => decide ((∀ type ∈ e.nodeTypes, type.isDependent = false) ∧
        (∀ ref ∈ e.references, (storedVariable.decl ref.1).isConstant = false) ∧
        storedVariable.faultOf e = some (.mismatched "true" "1"))) = some true := by
    rewrite [String.toList_ofList]
    decide +kernel
  obtain ⟨e, ok, holds⟩ := map_toOption_eq_some_iff.mp ran
  obtain ⟨tokens, scanned, read⟩ := bind_eq_ok_iff.mp ok
  obtain ⟨known, names, faulted⟩ := of_decide_eq_true holds
  unfold faultOf at faulted
  split at faulted
  · rename_i fault position subject ended
    obtain rfl := Option.some.inj faulted
    have run := Runs.of_run (evaluate e) storedVariable
    rw [ended] at run
    refine ⟨tokens, e, _, _, scanned, read, known, names, run, rfl, ?_⟩
    rintro ⟨fault, cause, inherent⟩
    obtain rfl := Cause.notEvaluable.inj cause
    exact inherent
  · cases faulted

end Deferral
