import Deferral.Proofs.Execution.Outcome
import Deferral.Resolution.Name
import Deferral.Typing.Operation

/-!
# What types and expressions are made of

A typed expression names declarations, in its nodes and in their types, and every node of it starts
somewhere in the source. Converting an expression and putting expressions together adds no declaration
that none of the parts names, no place where none of them starts and nothing that has not been read, and
where this fails the fault is one of types, reported where a part starts.
-/

namespace Deferral

mutual

/-- A type that has been read names only declarations of `S`, in the expressions in it too. -/
def Ty.IsMade (S : DeclId → Prop) : Ty → Prop
  | .named _ id _ => S id
  | .decltype e => e.IsMade S fun _ => True
  | .function parameters result => Ty.AllMade S parameters ∧ result.IsMade S
  | .reference t | .qualified t _ | .pointer t | .array t _ | .sequence t => t.IsMade S
  | .deferred _ => False
  | .void | .bool | .integer _ _ | .float _ | .auto | .decltypeAuto | .metatype => True

def Ty.AllMade (S : DeclId → Prop) : List Ty → Prop
  | [] => True
  | t :: rest => t.IsMade S ∧ Ty.AllMade S rest

def Node.IsMade (S : DeclId → Prop) : (A : Position → Prop) → Node → Prop
  | _, .name id _ => S id
  | A, .unary _ e | A, .converted _ e => e.IsMade S A
  | A, .binary _ l r | A, .assign l r => l.IsMade S A ∧ r.IsMade S A
  | A, .call callee arguments => callee.IsMade S A ∧ Expr.AllMade S A arguments
  | _, .deferred _ => False
  | _, .boolean _ | _, .integer _ | _, .float _ => True

/-- An expression that has been read names only declarations of `S`, and all its nodes start in `A`. -/
def Expr.IsMade (S : DeclId → Prop) : (A : Position → Prop) → Expr → Prop
  | A, ⟨node, type, span⟩ => node.IsMade S A ∧ type.IsMade S ∧ A span.start

def Expr.AllMade (S : DeclId → Prop) : (A : Position → Prop) → List Expr → Prop
  | _, [] => True
  | A, e :: rest => e.IsMade S A ∧ Expr.AllMade S A rest

end

section

variable {S S' : DeclId → Prop} {A A' : Position → Prop}

theorem Ty.allMade_iff {ts : List Ty} : AllMade S ts ↔ ∀ t ∈ ts, t.IsMade S := by
  induction ts with
  | nil => exact iff_of_true trivial (List.forall_mem_nil _)
  | cons t rest ih => exact (and_congr_right' ih).trans List.forall_mem_cons.symm

theorem Expr.allMade_iff {es : List Expr} : AllMade S A es ↔ ∀ e ∈ es, e.IsMade S A := by
  induction es with
  | nil => exact iff_of_true trivial (List.forall_mem_nil _)
  | cons e rest ih => exact (and_congr_right' ih).trans List.forall_mem_cons.symm

mutual

theorem Ty.IsMade.mono (known : ∀ id, S id → S' id) : ∀ {t : Ty}, t.IsMade S → t.IsMade S'
  | .named _ id _, h => known id h
  | .decltype _, h => Expr.IsMade.mono known (fun _ => id) h
  | .function _ _, h => ⟨Ty.AllMade.mono known h.1, Ty.IsMade.mono known h.2⟩
  | .reference t, h | .qualified t _, h | .pointer t, h | .array t _, h | .sequence t, h =>
    Ty.IsMade.mono known (t := t) h
  | .deferred _, h => h.elim
  | .void, _ | .bool, _ | .integer _ _, _ | .float _, _ | .auto, _ | .decltypeAuto, _ => trivial
  | .metatype, _ => trivial

theorem Ty.AllMade.mono (known : ∀ id, S id → S' id) : ∀ {ts : List Ty}, Ty.AllMade S ts →
    Ty.AllMade S' ts
  | [], _ => trivial
  | _ :: _, h => ⟨Ty.IsMade.mono known h.1, Ty.AllMade.mono known h.2⟩

theorem Node.IsMade.mono (known : ∀ id, S id → S' id) {A A' : Position → Prop}
    (placed : ∀ p, A p → A' p) : ∀ {n : Node}, n.IsMade S A → n.IsMade S' A'
  | .name id _, h => known id h
  | .unary _ e, h | .converted _ e, h => Expr.IsMade.mono known placed (e := e) h
  | .binary _ _ _, h | .assign _ _, h =>
    ⟨Expr.IsMade.mono known placed h.1, Expr.IsMade.mono known placed h.2⟩
  | .call _ _, h => ⟨Expr.IsMade.mono known placed h.1, Expr.AllMade.mono known placed h.2⟩
  | .deferred _, h => h.elim
  | .boolean _, _ | .integer _, _ | .float _, _ => trivial

theorem Expr.IsMade.mono (known : ∀ id, S id → S' id) {A A' : Position → Prop}
    (placed : ∀ p, A p → A' p) : ∀ {e : Expr}, e.IsMade S A → e.IsMade S' A'
  | ⟨_, _, span⟩, h =>
    ⟨Node.IsMade.mono known placed h.1, Ty.IsMade.mono known h.2.1, placed span.start h.2.2⟩

theorem Expr.AllMade.mono (known : ∀ id, S id → S' id) {A A' : Position → Prop}
    (placed : ∀ p, A p → A' p) : ∀ {es : List Expr}, Expr.AllMade S A es → Expr.AllMade S' A' es
  | [], _ => trivial
  | _ :: _, h => ⟨Expr.IsMade.mono known placed h.1, Expr.AllMade.mono known placed h.2⟩

end

/-! ## Types -/

namespace Ty

variable {t : Ty}

theorem IsMade.not_deferred (h : t.IsMade S) : t.isDeferred = false := by
  cases t with
  | deferred _ => exact h.elim
  | _ => rfl

theorem IsMade.referent (h : t.IsMade S) : t.referent.IsMade S := by
  cases t <;> exact h

theorem IsMade.unqualified (h : t.IsMade S) : t.unqualified.IsMade S := by
  cases t <;> exact h

theorem IsMade.valueType (h : t.IsMade S) : t.valueType.IsMade S := h.referent.unqualified

theorem IsMade.toReference (h : t.IsMade S) : t.toReference.IsMade S := by
  cases t <;> exact h

theorem IsMade.addQualifiers (h : t.IsMade S) (q : Qualifiers) : (t.addQualifiers q).IsMade S := by
  unfold Ty.addQualifiers
  split
  · exact h
  · split <;> exact h

theorem isMade_builtin? {name : String} (h : builtin? name = some t) : t.IsMade S := by
  obtain ⟨before, after, split, -⟩ := List.lookup_eq_some_iff.mp h
  have member : (name, t) ∈ before ++ (name, t) :: after := by simp
  rw [← split] at member
  simp only [List.mem_cons, Prod.mk.injEq, List.not_mem_nil, or_false] at member
  rcases member with h | h | h | h | h | h | h | h | h | h | h | h | h <;> exact h.2 ▸ trivial

end Ty

/-! ## Outcomes -/

/-- Whether a cause lies in names, types or values, and is reported as it is. -/
def Cause.isPlain : Cause → Bool
  | .undeclared _ | .unknownType _ | .notAValue _ _ | .typeMismatch _ _ | .tooManyArguments _ _
  | .tooFewArguments _ _ | .noConversion _ _ | .noCommonType _ _ | .notEvaluable _ => true
  | _ => false

/-- A fault of names, types or values in `A`. -/
structure Diagnostic.IsPlainAt (A : Position → Prop) (d : Diagnostic) : Prop where
  plain : d.cause.isPlain = true
  place : A d.position

/-- An outcome is of a kind, or else the fault is. -/
def Comes {α : Type} (E : Diagnostic → Prop) (P : α → Prop) : Except Diagnostic α → Prop
  | .ok a => P a
  | .error d => E d

namespace Comes

variable {α β : Type} {E E' : Diagnostic → Prop} {P Q : α → Prop}

theorem bind {Q : β → Prop} {x : Except Diagnostic α} {f : α → Except Diagnostic β} (h : Comes E P x)
    (h' : ∀ a, P a → Comes E Q (f a)) : Comes E Q (x >>= f) := by
  cases x with
  | error d => exact h
  | ok a => exact h' a h

theorem mono {x : Except Diagnostic α} (h : Comes E P x) (faults : ∀ d, E d → E' d)
    (values : ∀ a, P a → Q a) : Comes E' Q x := by
  cases x with
  | error d => exact faults d h
  | ok a => exact values a h

end Comes

/-- An outcome is of a kind, or else names, types or values in `A` are at fault. -/
abbrev ComesFrom {α : Type} (A : Position → Prop) (P : α → Prop) : Except Diagnostic α → Prop :=
  Comes (Diagnostic.IsPlainAt A) P

/-! ## Expressions -/

namespace Expr

variable {e l r : Expr} {target : Ty}

namespace IsMade

theorem start (h : e.IsMade S A) : A e.start := by
  obtain ⟨node, type, span⟩ := e
  exact h.2.2

theorem type (h : e.IsMade S A) : e.type.IsMade S := by
  obtain ⟨node, type, span⟩ := e
  exact h.2.1

theorem not_excerpt (h : e.IsMade S A) : e.excerpt? = none := by
  obtain ⟨node, type, span⟩ := e
  cases node with
  | deferred _ => exact h.1.elim
  | _ => rfl

theorem convert (h : e.IsMade S A) (conversion : Conversion) (known : target.IsMade S) :
    (e.convert conversion target).IsMade S A :=
  ⟨h, known, h.start⟩

/-! ### Each step -/

theorem dereferenced (h : e.IsMade S A) : e.dereferenced.IsMade S A := by
  unfold Expr.dereferenced
  split
  · rename_i target same
    have known := h.type
    rw [same] at known
    exact h.convert _ known
  · exact h

theorem withoutQualifiers (h : e.IsMade S A) : e.withoutQualifiers.IsMade S A := by
  unfold Expr.withoutQualifiers
  split
  · rename_i inner q same
    have known := h.type
    rw [same] at known
    exact h.convert _ known
  · exact h

theorem asValue (h : e.IsMade S A) : e.asValue.IsMade S A := h.dereferenced.withoutQualifiers

theorem categoryConverted (h : e.IsMade S A) (target : Ty) : (e.categoryConverted target).IsMade S A := by
  unfold Expr.categoryConverted
  split
  · exact h
  · exact h.dereferenced

theorem toBoolean (h : e.IsMade S A) (known : target.IsMade S) : (e.toBoolean target).IsMade S A := by
  unfold Expr.toBoolean
  split
  · exact h.convert _ known
  · exact h

theorem toInteger (h : e.IsMade S A) (known : target.IsMade S) : (e.toInteger target).IsMade S A := by
  unfold Expr.toInteger
  split
  · split
    · exact h.convert _ known
    · exact h
  · exact h.convert _ known
  · exact h

theorem toWiderFloat (h : e.IsMade S A) (known : target.IsMade S) :
    (e.toWiderFloat target).IsMade S A := by
  unfold Expr.toWiderFloat
  split
  · split
    · exact h.convert _ known
    · exact h
  · exact h

theorem integerToFloat (h : e.IsMade S A) (known : target.IsMade S) :
    (e.integerToFloat target).IsMade S A := by
  unfold Expr.integerToFloat
  split
  · exact h.convert _ known
  · exact h

theorem toFloat (h : e.IsMade S A) (known : target.IsMade S) : (e.toFloat target).IsMade S A := by
  unfold Expr.toFloat
  split
  · exact h.toWiderFloat known
  split
  · exact h.integerToFloat known
  · exact h

theorem valueConverted (h : e.IsMade S A) (target : Ty) : (e.valueConverted target).IsMade S A := by
  unfold Expr.valueConverted
  split
  · exact h
  split
  · exact h.toBoolean trivial
  · exact h.toInteger trivial
  · exact h.toFloat trivial
  · exact h

theorem qualificationConverted (h : e.IsMade S A) (known : target.IsMade S) :
    (e.qualificationConverted target).IsMade S A := by
  unfold Expr.qualificationConverted
  split
  · exact h.convert _ known
  · exact h

theorem commonInteger (left : l.IsMade S A) (right : r.IsMade S A) (p₁ p₂ : Nat) (s₁ s₂ : Bool) :
    (l.commonInteger r p₁ s₁ p₂ s₂).1.IsMade S A ∧ (l.commonInteger r p₁ s₁ p₂ s₂).2.IsMade S A := by
  have made {e : Expr} (h : e.IsMade S A) (p : Nat) (s : Bool) : (e.toInteger (.integer p s)).IsMade S A :=
    h.toInteger trivial
  unfold Expr.commonInteger
  dsimp only
  split
  · split
    · exact ⟨made left .., right⟩
    split
    · exact ⟨left, made right ..⟩
    · exact ⟨left, right⟩
  split
  · exact ⟨left, made right ..⟩
  split
  · exact ⟨made left .., right⟩
  · exact ⟨made left .., made right ..⟩

end IsMade

/-! ### Conversions to a type -/

theorem comes_convertTo (h : e.IsMade S A) (known : target.IsMade S) :
    ComesFrom A (IsMade S A) (e.convertTo target) := by
  have first := h.categoryConverted target
  have second := first.valueConverted target
  have third := second.qualificationConverted known
  unfold convertTo
  dsimp only
  split
  · exact first
  split
  · exact second
  split
  · exact third
  · exact ⟨rfl, third.start⟩

theorem comes_asCondition (h : e.IsMade S A) : ComesFrom A (IsMade S A) e.asCondition := by
  unfold asCondition
  dsimp only
  split
  · exact h.asValue
  · exact comes_convertTo h.asValue trivial

theorem comes_initializer (h : e.IsMade S A) (known : target.IsMade S) :
    ComesFrom A (IsMade S A) (e.initializer target) := by
  unfold initializer
  split
  · exact h
  split
  · split
    · exact h
    · exact ⟨rfl, h.start⟩
  · exact comes_convertTo h known

theorem comes_definingInitializer (h : e.IsMade S A) (known : target.IsMade S) :
    ComesFrom A (IsMade S A) (e.definingInitializer target) := by
  unfold definingInitializer
  split
  · exact comes_initializer h known
  · exact comes_initializer h.asValue known

theorem comes_common (left : l.IsMade S A) (right : r.IsMade S A) :
    ComesFrom A (fun both => both.1.IsMade S A ∧ both.2.IsMade S A) (l.common r) := by
  unfold common
  split
  · exact ⟨left, right⟩
  split
  · split
    · exact ⟨left.toWiderFloat trivial, right⟩
    split
    · exact ⟨left, right.toWiderFloat trivial⟩
    · exact ⟨left, right⟩
  · exact ⟨left.integerToFloat trivial, right⟩
  · exact ⟨left, right.integerToFloat trivial⟩
  · exact left.commonInteger right ..
  · exact ⟨rfl, left.start⟩

/-! ### Operations -/

theorem comes_checkArithmetic (h : e.IsMade S A) : ComesFrom A (fun _ => True) e.checkArithmetic := by
  unfold checkArithmetic
  split
  · trivial
  · exact ⟨rfl, h.start⟩

theorem comes_ofUnary {op : UnaryOp} {span : Span} (h : e.IsMade S A) (start : A span.start) :
    ComesFrom A (IsMade S A) (ofUnary op e span) := by
  cases op with
  | negate =>
    have made : IsMade S A ⟨.unary .negate e.asValue, e.asValue.type, span⟩ :=
      ⟨h.asValue, h.asValue.type, start⟩
    unfold ofUnary
    dsimp only
    split
    · exact (comes_checkArithmetic h.asValue).bind fun _ _ => made
    · exact made
  | not =>
    exact (comes_asCondition h).bind fun operand made => ⟨made, trivial, start⟩

theorem comes_ofConnective {op : Connective} (left : l.IsMade S A) (right : r.IsMade S A) :
    ComesFrom A (IsMade S A) (ofConnective op l r) :=
  (comes_asCondition left).bind fun _ madeLeft => (comes_asCondition right).bind fun _ madeRight =>
    ⟨⟨madeLeft, madeRight⟩, trivial, left.start⟩

theorem isMade_resultType {op : BinaryOp} {type : Ty} (known : type.IsMade S) :
    (resultType op type).IsMade S := by
  unfold resultType
  split
  · exact known
  · exact trivial

theorem comes_ofOperands {op : BinaryOp} (left : l.IsMade S A) (right : r.IsMade S A) :
    ComesFrom A (IsMade S A) (ofOperands op l r) := by
  have joined (both : Expr × Expr) (made : both.1.IsMade S A ∧ both.2.IsMade S A) :
      IsMade S A ⟨.binary op both.1 both.2, resultType op both.1.type, l.span.upTo r.span⟩ :=
    ⟨made, isMade_resultType made.1.type, left.start⟩
  unfold ofOperands
  dsimp only
  split
  · exact ⟨⟨left.asValue, right.asValue⟩, isMade_resultType left.asValue.type, left.start⟩
  split
  · exact ⟨⟨left.asValue, right.asValue⟩, isMade_resultType right.asValue.type, left.start⟩
  split
  · exact (comes_checkArithmetic left.asValue).bind fun _ _ =>
      (comes_checkArithmetic right.asValue).bind fun _ _ =>
        (comes_common left.asValue right.asValue).bind joined
  · exact (comes_common left.asValue right.asValue).bind joined

theorem comes_ofBinary {op : BinaryOp} (left : l.IsMade S A) (right : r.IsMade S A) :
    ComesFrom A (IsMade S A) (ofBinary op l r) := by
  unfold ofBinary
  split
  · exact comes_ofConnective left right
  · exact comes_ofOperands left right

theorem comes_bindArguments {arguments : List Expr} {parameters : List Ty}
    (all : AllMade S A arguments) (known : Ty.AllMade S parameters) :
    ComesFrom A (AllMade S A) (bindArguments arguments parameters) := by
  induction arguments generalizing parameters with
  | nil =>
    unfold bindArguments
    trivial
  | cons e rest ih =>
    cases parameters with
    | nil =>
      unfold bindArguments
      trivial
    | cons t parameters =>
      unfold bindArguments
      exact (comes_initializer all.1 known.1).bind fun _ made =>
        (ih all.2 known.2).bind fun _ madeRest => ⟨made, madeRest⟩

theorem comes_ofCall {callee : Expr} {arguments : List Expr} {span : Span}
    (made : callee.IsMade S A) (all : AllMade S A arguments) (start : A span.start) :
    ComesFrom A (IsMade S A) (ofCall callee arguments span) := by
  have known := made.type.valueType
  unfold ofCall
  split
  · rename_i parameters result same
    rw [same] at known
    have bound : ComesFrom A (IsMade S A) (do
        let bound ← bindArguments arguments parameters
        return ⟨.call callee bound, result, span⟩) :=
      (comes_bindArguments all known.1).bind fun es madeAll => ⟨⟨made, madeAll⟩, known.2, start⟩
    dsimp only
    split
    · exact ⟨rfl, start⟩
    split
    · exact ⟨rfl, start⟩
    · exact bound
  · split
    · refine ⟨⟨made, allMade_iff.mpr fun e member => ?_⟩, trivial, start⟩
      obtain ⟨e, inside, rfl⟩ := List.mem_map.mp member
      exact (allMade_iff.mp all e inside).asValue
    · exact ⟨rfl, made.start⟩

theorem comes_ofAssign {target value : Expr} (made : target.IsMade S A) (madeValue : value.IsMade S A) :
    ComesFrom A (IsMade S A) (ofAssign target value) :=
  (comes_initializer madeValue.asValue made.type.valueType).bind fun _ bound =>
    ⟨⟨made, bound⟩, made.type, made.start⟩

end Expr

end

end Deferral
