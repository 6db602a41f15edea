import Deferral.Proofs.Phrase.Outline

/-!
# Expressions apart from their places

Typing looks at the types of operands and never at their spans. So two phrases with one tree, wherever their
tokens stand, get the same expressions up to spans: the same bindings, types and conversions.
-/

namespace Deferral

/-! ## The same expression elsewhere -/

mutual

/-- An expression without the spans of its nodes. Types are left as they are. -/
def Expr.unplaced : Expr → Expr
  | ⟨.deferred excerpt, type, _⟩ => ⟨.deferred excerpt, type, .nowhere⟩
  | ⟨.boolean b, type, _⟩ => ⟨.boolean b, type, .nowhere⟩
  | ⟨.integer n, type, _⟩ => ⟨.integer n, type, .nowhere⟩
  | ⟨.float x, type, _⟩ => ⟨.float x, type, .nowhere⟩
  | ⟨.name decl name, type, _⟩ => ⟨.name decl name, type, .nowhere⟩
  | ⟨.unary op operand, type, _⟩ => ⟨.unary op operand.unplaced, type, .nowhere⟩
  | ⟨.binary op left right, type, _⟩ => ⟨.binary op left.unplaced right.unplaced, type, .nowhere⟩
  | ⟨.assign target value, type, _⟩ => ⟨.assign target.unplaced value.unplaced, type, .nowhere⟩
  | ⟨.call callee arguments, type, _⟩ =>
    ⟨.call callee.unplaced (allUnplaced arguments), type, .nowhere⟩
  | ⟨.converted conversion source, type, _⟩ => ⟨.converted conversion source.unplaced, type, .nowhere⟩

def Expr.allUnplaced : List Expr → List Expr
  | [] => []
  | e :: rest => e.unplaced :: allUnplaced rest

end

namespace Expr

attribute [local simp] unplaced allUnplaced

@[simp] theorem type_unplaced (e : Expr) : e.unplaced.type = e.type := by
  obtain ⟨node, type, span⟩ := e
  cases node <;> rfl

/-- Two expressions are the same up to the spans of their nodes. -/
def Moved (e e' : Expr) : Prop := e.unplaced = e'.unplaced

theorem allUnplaced_iff_forall₂ : ∀ {es es' : List Expr},
    allUnplaced es = allUnplaced es' ↔ List.Forall₂ Moved es es'
  | [], [] | [], _ :: _ | _ :: _, [] => by simp
  | _ :: es, _ :: es' => by simp [Moved, @allUnplaced_iff_forall₂ es es']

end Expr

/-- Two outcomes are both faults, or both values, which are related. -/
inductive Paired {ε ε' α β : Type} (R : α → β → Prop) : Except ε α → Except ε' β → Prop
  | ok {a : α} {b : β} : R a b → Paired R (.ok a) (.ok b)
  | error {d : ε} {d' : ε'} : Paired R (.error d) (.error d')

namespace Paired

variable {ε ε' α β γ δ : Type} {R : α → β → Prop} {S : γ → δ → Prop} {x : Except ε α} {y : Except ε' β}

theorem bind {f : α → Except ε γ} {g : β → Except ε' δ} (h : Paired R x y)
    (next : ∀ a b, R a b → Paired S (f a) (g b)) : Paired S (x >>= f) (y >>= g) := by
  cases h with
  | ok related => exact next _ _ related
  | error => exact .error

theorem exists_of_ok {a : α} (h : Paired R x y) (value : x = .ok a) : ∃ b, y = .ok b ∧ R a b := by
  cases h with
  | ok related =>
    obtain rfl := Except.ok.inj value
    exact ⟨_, rfl, related⟩
  | error => cases value

end Paired

namespace Expr

variable {e e' l l' r r' : Expr}

namespace Moved

theorem type (h : e.Moved e') : e.type = e'.type := by
  rw [← type_unplaced e, ← type_unplaced e', h]

theorem convert (h : e.Moved e') (conversion : Conversion) (target : Ty) :
    (e.convert conversion target).Moved (e'.convert conversion target) := by
  unfold Moved at h ⊢
  simp only [Expr.convert, unplaced, h]

theorem unary (h : e.Moved e') (op : UnaryOp) (type : Ty) (span span' : Span) :
    Moved ⟨.unary op e, type, span⟩ ⟨.unary op e', type, span'⟩ := by
  unfold Moved at h ⊢
  simp only [unplaced, h]

theorem binary (hl : l.Moved l') (hr : r.Moved r') (op : BinaryOp) (type : Ty) (span span' : Span) :
    Moved ⟨.binary op l r, type, span⟩ ⟨.binary op l' r', type, span'⟩ := by
  unfold Moved at hl hr ⊢
  simp only [unplaced, hl, hr]

theorem assign (hl : l.Moved l') (hr : r.Moved r') (type : Ty) (span span' : Span) :
    Moved ⟨.assign l r, type, span⟩ ⟨.assign l' r', type, span'⟩ := by
  unfold Moved at hl hr ⊢
  simp only [unplaced, hl, hr]

theorem call {es es' : List Expr} (h : e.Moved e') (hs : List.Forall₂ Moved es es') (type : Ty)
    (span span' : Span) : Moved ⟨.call e es, type, span⟩ ⟨.call e' es', type, span'⟩ := by
  unfold Moved at h ⊢
  simp only [unplaced, h, allUnplaced_iff_forall₂.mpr hs]

/-! ## Conversions -/

theorem dereferenced (h : e.Moved e') : e.dereferenced.Moved e'.dereferenced := by
  unfold Expr.dereferenced
  rw [h.type]
  split
  · exact h.convert ..
  · exact h

theorem withoutQualifiers (h : e.Moved e') : e.withoutQualifiers.Moved e'.withoutQualifiers := by
  unfold Expr.withoutQualifiers
  rw [h.type]
  split
  · exact h.convert ..
  · exact h

theorem asValue (h : e.Moved e') : e.asValue.Moved e'.asValue := h.dereferenced.withoutQualifiers

theorem categoryConverted (h : e.Moved e') (target : Ty) :
    (e.categoryConverted target).Moved (e'.categoryConverted target) := by
  unfold Expr.categoryConverted
  split
  · exact h
  · exact h.dereferenced

theorem toBoolean (h : e.Moved e') (target : Ty) : (e.toBoolean target).Moved (e'.toBoolean target) := by
  unfold Expr.toBoolean
  rw [h.type]
  split
  · exact h.convert ..
  · exact h

theorem toInteger (h : e.Moved e') (target : Ty) : (e.toInteger target).Moved (e'.toInteger target) := by
  unfold Expr.toInteger
  rw [h.type]
  split
  · split
    · exact h.convert ..
    · exact h
  · exact h.convert ..
  · exact h

theorem toWiderFloat (h : e.Moved e') (target : Ty) :
    (e.toWiderFloat target).Moved (e'.toWiderFloat target) := by
  unfold Expr.toWiderFloat
  rw [h.type]
  split
  · split
    · exact h.convert ..
    · exact h
  · exact h

theorem integerToFloat (h : e.Moved e') (target : Ty) :
    (e.integerToFloat target).Moved (e'.integerToFloat target) := by
  unfold Expr.integerToFloat
  rw [h.type]
  split
  · exact h.convert ..
  · exact h

theorem toFloat (h : e.Moved e') (target : Ty) : (e.toFloat target).Moved (e'.toFloat target) := by
  unfold Expr.toFloat
  rw [h.type]
  split
  · exact h.toWiderFloat target
  · split
    · exact h.integerToFloat target
    · exact h

theorem valueConverted (h : e.Moved e') (target : Ty) :
    (e.valueConverted target).Moved (e'.valueConverted target) := by
  unfold Expr.valueConverted
  rw [h.type]
  split
  · exact h
  · split
    · exact h.toBoolean _
    · exact h.toInteger _
    · exact h.toFloat _
    · exact h

theorem qualificationConverted (h : e.Moved e') (target : Ty) :
    (e.qualificationConverted target).Moved (e'.qualificationConverted target) := by
  unfold Expr.qualificationConverted
  rw [h.type]
  split
  · exact h.convert ..
  · exact h

/-- The steps of a conversion stop at the same one. -/
theorem convertTo (h : e.Moved e') (target : Ty) : Paired Moved (e.convertTo target) (e'.convertTo target) := by
  have first := h.categoryConverted target
  have second := first.valueConverted target
  have third := second.qualificationConverted target
  simp only [Expr.convertTo, first.type, second.type, third.type]
  split
  · exact .ok first
  · split
    · exact .ok second
    · split
      · exact .ok third
      · exact .error

theorem asCondition (h : e.Moved e') : Paired Moved e.asCondition e'.asCondition := by
  simp only [Expr.asCondition, h.asValue.type]
  split
  · exact .ok h.asValue
  · exact h.asValue.convertTo .bool

theorem initializer (h : e.Moved e') (target : Ty) :
    Paired Moved (e.initializer target) (e'.initializer target) := by
  unfold Expr.initializer
  rw [h.type]
  split
  · exact .ok h
  · split
    · split
      · exact .ok h
      · exact .error
    · exact h.convertTo target

theorem commonInteger (hl : l.Moved l') (hr : r.Moved r') (p₁ p₂ : Nat) (s₁ s₂ : Bool) :
    (Expr.commonInteger l r p₁ s₁ p₂ s₂).1.Moved (Expr.commonInteger l' r' p₁ s₁ p₂ s₂).1 ∧
      (Expr.commonInteger l r p₁ s₁ p₂ s₂).2.Moved (Expr.commonInteger l' r' p₁ s₁ p₂ s₂).2 := by
  unfold Expr.commonInteger
  dsimp only
  repeat' split
  all_goals
    first
    | exact ⟨hl, hr⟩
    | exact ⟨hl.toInteger _, hr⟩
    | exact ⟨hl, hr.toInteger _⟩
    | exact ⟨hl.toInteger _, hr.toInteger _⟩

theorem common (hl : l.Moved l') (hr : r.Moved r') :
    Paired (fun both both' => both.1.Moved both'.1 ∧ both.2.Moved both'.2) (l.common r) (l'.common r') := by
  unfold Expr.common
  rw [hl.type, hr.type]
  split
  · exact .ok ⟨hl, hr⟩
  · split
    · split
      · exact .ok ⟨hl.toWiderFloat _, hr⟩
      · split
        · exact .ok ⟨hl, hr.toWiderFloat _⟩
        · exact .ok ⟨hl, hr⟩
    · exact .ok ⟨hl.integerToFloat _, hr⟩
    · exact .ok ⟨hl, hr.integerToFloat _⟩
    · exact .ok (hl.commonInteger hr ..)
    · exact .error

/-! ## Operations -/

theorem checkArithmetic (h : e.Moved e') :
    Paired (fun _ _ => True) e.checkArithmetic e'.checkArithmetic := by
  unfold Expr.checkArithmetic
  rw [h.type]
  split
  · exact .ok trivial
  · exact .error

theorem ofUnary (h : e.Moved e') (op : UnaryOp) (span span' : Span) :
    Paired Moved (Expr.ofUnary op e span) (Expr.ofUnary op e' span') := by
  cases op with
  | negate =>
    unfold Expr.ofUnary
    dsimp only
    rw [h.asValue.type]
    split
    · exact h.asValue.checkArithmetic.bind fun _ _ _ => .ok (h.asValue.unary ..)
    · exact .ok (h.asValue.unary ..)
  | not => exact h.asCondition.bind fun _ _ condition => .ok (condition.unary ..)

theorem ofConnective (hl : l.Moved l') (hr : r.Moved r') (op : Connective) :
    Paired Moved (Expr.ofConnective op l r) (Expr.ofConnective op l' r') :=
  hl.asCondition.bind fun _ _ left => hr.asCondition.bind fun _ _ right => .ok (left.binary right ..)

theorem ofOperands (hl : l.Moved l') (hr : r.Moved r') (op : BinaryOp) :
    Paired Moved (Expr.ofOperands op l r) (Expr.ofOperands op l' r') := by
  have left := hl.asValue
  have right := hr.asValue
  have meet : Paired Moved
      (l.asValue.common r.asValue >>= fun both =>
        .ok ⟨.binary op both.1 both.2, resultType op both.1.type, l.span.upTo r.span⟩ : Except Diagnostic Expr)
      (l'.asValue.common r'.asValue >>= fun both =>
        .ok ⟨.binary op both.1 both.2, resultType op both.1.type, l'.span.upTo r'.span⟩ :
          Except Diagnostic Expr) :=
    (left.common right).bind fun both both' moved => by
      rw [moved.1.type]
      exact .ok (moved.1.binary moved.2 ..)
  unfold Expr.ofOperands
  dsimp only
  rw [left.type, right.type]
  split
  · exact .ok (left.binary right ..)
  split
  · exact .ok (left.binary right ..)
  split
  · exact left.checkArithmetic.bind fun _ _ _ => right.checkArithmetic.bind fun _ _ _ => meet
  · exact meet

theorem ofBinary (hl : l.Moved l') (hr : r.Moved r') (op : BinaryOp) :
    Paired Moved (Expr.ofBinary op l r) (Expr.ofBinary op l' r') := by
  cases op with
  | connective op => exact hl.ofConnective hr op
  | arithmetic | comparison => exact hl.ofOperands hr _

theorem bindArguments {es es' : List Expr} (h : List.Forall₂ Moved es es') (parameters : List Ty) :
    Paired (List.Forall₂ Moved) (Expr.bindArguments es parameters) (Expr.bindArguments es' parameters) := by
  induction h generalizing parameters with
  | nil => exact .ok .nil
  | cons first _ ih =>
    cases parameters with
    | nil => exact .ok .nil
    | cons parameter parameters =>
      exact (first.initializer parameter).bind fun _ _ bound =>
        (ih parameters).bind fun _ _ rest => .ok (.cons bound rest)

theorem ofCall {es es' : List Expr} (h : e.Moved e') (hs : List.Forall₂ Moved es es') (span span' : Span) :
    Paired Moved (Expr.ofCall e es span) (Expr.ofCall e' es' span') := by
  unfold Expr.ofCall
  rw [h.type]
  split
  · dsimp only
    rw [hs.length_eq]
    split
    · exact .error
    split
    · exact .error
    exact (bindArguments hs _).bind fun _ _ bound => .ok (h.call bound ..)
  · split
    · refine .ok (h.call ?_ ..)
      exact List.forall₂_map_left_iff.mpr <| List.forall₂_map_right_iff.mpr <|
        hs.imp fun _ _ moved => moved.asValue
    · exact .error

theorem ofAssign (hl : l.Moved l') (hr : r.Moved r') :
    Paired Moved (Expr.ofAssign l r) (Expr.ofAssign l' r') := by
  unfold Expr.ofAssign
  rw [hl.type]
  exact (hr.asValue.initializer _).bind fun _ _ bound => .ok (hl.assign bound ..)

end Moved

/-- The text of an integer has no point, and that of a float has one. -/
theorem ofNumber?_eq_some {text : String} {value : Constant} (h : Constant.ofNumber? text = some value) :
    (text.toList.contains '.' = true ∧ ∃ x, Decimal.float? text = some x ∧ value = .float x) ∨
      (text.toList.contains '.' = false ∧ ∃ n, Decimal.natural? text.toList = some n ∧ value = .integer n) := by
  unfold Constant.ofNumber? at h
  split at h
  · rename_i point
    obtain ⟨x, read, rfl⟩ := Option.map_eq_some_iff.mp h
    exact .inl ⟨point, x, read, rfl⟩
  · rename_i whole
    cases read : Decimal.natural? text.toList with
    | none => simp [read] at h
    | some n => exact .inr ⟨Bool.eq_false_iff.mpr whole, n, rfl, by simpa [read] using h.symm⟩

/-- Numbers of one value. -/
theorem paired_ofNumber {t t' : Token} {value : Constant} (h : Constant.ofNumber? t.text = some value)
    (h' : Constant.ofNumber? t'.text = some value) : Paired Moved (ofNumber t) (ofNumber t') := by
  unfold ofNumber
  rcases ofNumber?_eq_some h with ⟨point, x, read, rfl⟩ | ⟨whole, n, read, rfl⟩
  · rcases ofNumber?_eq_some h' with ⟨point', y, read', same⟩ | ⟨-, m, -, same⟩
    · obtain rfl := Constant.float.inj same
      simp only [point, point', read, read', if_true]
      exact .ok rfl
    · cases same
  · rcases ofNumber?_eq_some h' with ⟨-, y, -, same⟩ | ⟨whole', m, read', same⟩
    · cases same
    · obtain rfl := Int.ofNat.inj (Constant.integer.inj same)
      simp only [whole, whole', read, read', Bool.false_eq_true, if_false]
      split
      · exact .ok rfl
      · exact .error

end Expr

/-- Identifiers of one text. -/
theorem SymbolTable.paired_reference (table : SymbolTable) {t t' : Token} (same : t.text = t'.text) :
    Paired Expr.Moved (table.reference t) (table.reference t') := by
  have sets : Paired (· = ·) (table.overloads t) (table.overloads t') := by
    unfold overloads
    rw [same]
    split
    · exact .ok rfl
    · exact .error
  refine sets.bind fun set _ equal => ?_
  subst equal
  split
  · exact .error
  dsimp only
  split
  · refine .ok ?_
    rw [same]
    rfl
  · exact .error

/-! ## Phrases of one tree -/

namespace Phrase

variable {o : Outline} {p left right callee : Phrase} {ps : List Phrase} {os : List Outline}

/-! The tree of a phrase is made of those of its parts. -/

theorem outline?_number {t : Token} :
    (number t).outline? = some o ↔ ∃ value, Constant.ofNumber? t.text = some value ∧ .literal value = o :=
  Option.map_eq_some_iff

theorem outline?_unary {op : UnaryOp} {start : Position} :
    (unary op start p).outline? = some o ↔ ∃ e, p.outline? = some e ∧ .unary op e = o := by
  simp [outline?, Option.bind_eq_some_iff]

theorem outline?_binary {op : BinaryOp} : (binary op left right).outline? = some o ↔
    ∃ l r, left.outline? = some l ∧ right.outline? = some r ∧ .binary op l r = o := by
  simp [outline?, Option.bind_eq_some_iff]

theorem outline?_assign : (assign left right).outline? = some o ↔
    ∃ l r, left.outline? = some l ∧ right.outline? = some r ∧ .assign l r = o := by
  simp [outline?, Option.bind_eq_some_iff]

theorem outline?_call {stop : Position} : (call callee ps stop).outline? = some o ↔
    ∃ f es, callee.outline? = some f ∧ outlines? ps = some es ∧ .call f es = o := by
  simp [outline?, Option.bind_eq_some_iff]

theorem outlines?_cons : outlines? (p :: ps) = some os ↔
    ∃ e es, p.outline? = some e ∧ outlines? ps = some es ∧ e :: es = os := by
  simp [outlines?, Option.bind_eq_some_iff]

/-- What a phrase is by its tree. -/
theorem of_outline? {p : Phrase} {o : Outline} (h : p.outline? = some o) :
    match o with
    | .excerpt _ => False
    | .literal value => (∃ t, p = .number t ∧ Constant.ofNumber? t.text = some value) ∨
      ∃ b t, p = .truth b t ∧ value = .boolean b
    | .name text => ∃ t, p = .name t ∧ t.text = text
    | .unary op o => ∃ start operand, p = .unary op start operand ∧ operand.outline? = some o
    | .binary op l r => ∃ left right, p = .binary op left right ∧ left.outline? = some l ∧
      right.outline? = some r
    | .assign t v => ∃ target value, p = .assign target value ∧ target.outline? = some t ∧
      value.outline? = some v
    | .call f es => ∃ callee arguments stop, p = .call callee arguments stop ∧
      callee.outline? = some f ∧ outlines? arguments = some es := by
  cases p with
  | number t =>
    obtain ⟨value, read, rfl⟩ := outline?_number.mp h
    exact .inl ⟨t, rfl, read⟩
  | truth b t =>
    obtain rfl := Option.some.inj h
    exact .inr ⟨b, t, rfl, rfl⟩
  | name t =>
    obtain rfl := Option.some.inj h
    exact ⟨t, rfl, rfl⟩
  | unary op start operand =>
    obtain ⟨e, inner, rfl⟩ := outline?_unary.mp h
    exact ⟨start, operand, rfl, inner⟩
  | binary op left right =>
    obtain ⟨l, r, first, second, rfl⟩ := outline?_binary.mp h
    exact ⟨left, right, rfl, first, second⟩
  | assign target value =>
    obtain ⟨t, v, first, second, rfl⟩ := outline?_assign.mp h
    exact ⟨target, value, rfl, first, second⟩
  | call callee arguments stop =>
    obtain ⟨f, es, first, second, rfl⟩ := outline?_call.mp h
    exact ⟨callee, arguments, stop, rfl, first, second⟩

theorem ofNumber?_ne_boolean {text : String} {b : Bool} : Constant.ofNumber? text ≠ some (.boolean b) :=
  fun h => by rcases Expr.ofNumber?_eq_some h with ⟨-, _, -, same⟩ | ⟨-, _, -, same⟩ <;> cases same

mutual

/-- Phrases of one tree get the same expressions up to spans. By recursion on the first. -/
theorem paired_typed (table : SymbolTable) : ∀ (p : Phrase) {p' : Phrase} {o : Outline},
    p.outline? = some o → p'.outline? = some o → Paired Expr.Moved (p.typed table) (p'.typed table)
  | .number t, _, _, h, h' => by
    obtain ⟨value, read, rfl⟩ := outline?_number.mp h
    rcases of_outline? h' with ⟨t', rfl, read'⟩ | ⟨b, t', rfl, rfl⟩
    · exact Expr.paired_ofNumber read read'
    · exact absurd read ofNumber?_ne_boolean
  | .truth b t, _, _, h, h' => by
    obtain rfl := Option.some.inj h
    rcases of_outline? h' with ⟨t', rfl, read'⟩ | ⟨b', t', rfl, same⟩
    · exact absurd read' ofNumber?_ne_boolean
    · obtain rfl := Constant.boolean.inj same
      exact .ok rfl
  | .name t, _, _, h, h' => by
    obtain rfl := Option.some.inj h
    obtain ⟨t', rfl, text⟩ := of_outline? h'
    exact table.paired_reference text.symm
  | .unary op start operand, _, _, h, h' => by
    obtain ⟨o, inner, rfl⟩ := outline?_unary.mp h
    obtain ⟨start', operand', rfl, inner'⟩ := of_outline? h'
    exact (paired_typed table operand inner inner').bind fun _ _ moved => moved.ofUnary op _ _
  | .binary op left right, _, _, h, h' => by
    obtain ⟨l, r, first, second, rfl⟩ := outline?_binary.mp h
    obtain ⟨left', right', rfl, first', second'⟩ := of_outline? h'
    exact (paired_typed table left first first').bind fun _ _ movedLeft =>
      (paired_typed table right second second').bind fun _ _ movedRight => movedLeft.ofBinary movedRight op
  | .assign target value, _, _, h, h' => by
    obtain ⟨t, v, first, second, rfl⟩ := outline?_assign.mp h
    obtain ⟨target', value', rfl, first', second'⟩ := of_outline? h'
    exact (paired_typed table target first first').bind fun _ _ movedTarget =>
      (paired_typed table value second second').bind fun _ _ movedValue => movedTarget.ofAssign movedValue
  | .call callee arguments stop, _, _, h, h' => by
    obtain ⟨f, es, first, second, rfl⟩ := outline?_call.mp h
    obtain ⟨callee', arguments', stop', rfl, first', second'⟩ := of_outline? h'
    exact (paired_typed table callee first first').bind fun _ _ movedCallee =>
      (paired_typedAll table arguments second second').bind fun _ _ movedArguments =>
        movedCallee.ofCall movedArguments _ _

theorem paired_typedAll (table : SymbolTable) : ∀ (ps : List Phrase) {ps' : List Phrase} {os : List Outline},
    outlines? ps = some os → outlines? ps' = some os →
    Paired (List.Forall₂ Expr.Moved) (typedAll table ps) (typedAll table ps')
  | [], ps', _, h, h' => by
    obtain rfl := Option.some.inj h
    cases ps' with
    | nil => exact .ok .nil
    | cons p rest =>
      obtain ⟨_, _, -, -, same⟩ := outlines?_cons.mp h'
      cases same
  | p :: rest, ps', _, h, h' => by
    obtain ⟨e, es, first, second, rfl⟩ := outlines?_cons.mp h
    cases ps' with
    | nil => cases h'
    | cons p' rest' =>
      obtain ⟨e', es', first', second', same⟩ := outlines?_cons.mp h'
      obtain ⟨rfl, rfl⟩ := List.cons.inj same
      exact (paired_typed table p first first').bind fun _ _ moved =>
        (paired_typedAll table rest second second').bind fun _ _ movedRest => .ok (.cons moved movedRest)

end

end Phrase

end Deferral
