import Mathlib.Data.List.Forall2
import Deferral.Phrase.Type
import Deferral.Proofs.Execution.Parallel
import Deferral.Proofs.Matching.Labelled
import Deferral.Resolution.Expression
import Deferral.Typing.Operation

/-!
# Typing labelled operands

Converting labelled expressions and typing operations on them gives the labelled outcome, as long as the
types of the operands are tame: equivalence looks into no other types than those that are known.
-/

namespace Deferral

variable {l : DeclId → DeclId}

namespace Expr

/-- An expression of tame type and the one with labels for declarations. -/
structure Echoes (l : DeclId → DeclId) (e e' : Expr) : Prop where
  tame : e.type.Tame
  eq : e' = e.labelled l

/-! ## Conversions -/

@[simp] theorem labelled_dereferenced (e : Expr) :
    e.dereferenced.labelled l = (e.labelled l).dereferenced := by
  obtain ⟨node, type, span⟩ := e
  cases type <;> rfl

@[simp] theorem labelled_withoutQualifiers (e : Expr) :
    e.withoutQualifiers.labelled l = (e.labelled l).withoutQualifiers := by
  obtain ⟨node, type, span⟩ := e
  cases type <;> rfl

@[simp] theorem labelled_asValue (e : Expr) : e.asValue.labelled l = (e.labelled l).asValue := by
  simp [asValue]

theorem labelled_categoryConverted (e : Expr) (target : Ty) :
    (e.categoryConverted target).labelled l =
      (e.labelled l).categoryConverted (target.labelled l) := by
  unfold categoryConverted
  rw [Ty.isReference_labelled]
  split <;> simp

theorem labelled_toBoolean (e : Expr) (target : Ty) :
    (e.toBoolean target).labelled l = (e.labelled l).toBoolean (target.labelled l) := by
  unfold toBoolean
  rw [type_labelled, Ty.isInteger_labelled]
  split <;> simp

theorem labelled_toInteger (e : Expr) (target : Ty) :
    (e.toInteger target).labelled l = (e.labelled l).toInteger (target.labelled l) := by
  unfold toInteger
  rw [type_labelled, ← Ty.labelled_unqualified, ← Ty.labelled_unqualified]
  generalize target.unqualified = wanted
  generalize e.type.unqualified = present
  cases wanted with
  | integer wide signed =>
    cases present with
    | integer precision signed' =>
      show (if _ then _ else _ : Expr).labelled l = if _ then _ else _
      split <;> simp
    | bool => exact labelled_convert ..
    | _ => rfl
  | _ => rfl

theorem labelled_toWiderFloat (e : Expr) (target : Ty) :
    (e.toWiderFloat target).labelled l = (e.labelled l).toWiderFloat (target.labelled l) := by
  unfold toWiderFloat
  rw [type_labelled, ← Ty.labelled_unqualified, ← Ty.labelled_unqualified]
  generalize target.unqualified = wanted
  generalize e.type.unqualified = present
  cases wanted with
  | float wide =>
    cases present with
    | float precision =>
      show (if _ then _ else _ : Expr).labelled l = if _ then _ else _
      split <;> simp
    | _ => rfl
  | _ => rfl

theorem labelled_integerToFloat (e : Expr) (target : Ty) :
    (e.integerToFloat target).labelled l = (e.labelled l).integerToFloat (target.labelled l) := by
  unfold integerToFloat
  rw [type_labelled, Ty.isInteger_labelled, Ty.isFloat_labelled]
  split <;> simp

theorem labelled_toFloat (e : Expr) (target : Ty) :
    (e.toFloat target).labelled l = (e.labelled l).toFloat (target.labelled l) := by
  unfold toFloat
  rw [type_labelled, Ty.isInteger_labelled, Ty.isFloat_labelled]
  split
  · exact labelled_toWiderFloat e target
  · split
    · exact labelled_integerToFloat e target
    · rfl

theorem labelled_valueConverted (e : Expr) (target : Ty) :
    (e.valueConverted target).labelled l = (e.labelled l).valueConverted (target.labelled l) := by
  unfold valueConverted
  rw [type_labelled, Ty.isReference_labelled, ← Ty.labelled_unqualified]
  split
  · rfl
  · cases target.unqualified with
    | bool => exact labelled_toBoolean e .bool
    | integer p s => exact labelled_toInteger e (.integer p s)
    | float p => exact labelled_toFloat e (.float p)
    | _ => rfl

theorem labelled_qualificationConverted (distinct : Function.Injective l) {e : Expr}
    (tame : e.type.Tame) (known : e.type.isDependent = false) (target : Ty) :
    (e.qualificationConverted target).labelled l =
      (e.labelled l).qualificationConverted (target.labelled l) := by
  unfold qualificationConverted
  rw [type_labelled, Ty.similar_labelled distinct _ _ tame known, Ty.signature_labelled,
    Ty.signature_labelled]
  split <;> simp

/-! ## Known operands -/

end Expr

/-- A type that can be compared with others, since it is tame and not dependent. -/
structure Ty.Known (t : Ty) : Prop where
  tame : t.Tame
  known : t.isDependent = false

namespace Ty.Known

variable {t : Ty}

theorem referent (h : t.Known) : t.referent.Known := ⟨h.tame.referent, by simpa using h.known⟩

theorem unqualified (h : t.Known) : t.unqualified.Known := ⟨h.tame.unqualified, by simpa using h.known⟩

theorem valueType (h : t.Known) : t.valueType.Known := h.referent.unqualified

theorem labelled_equivalent (h : t.Known) (distinct : Function.Injective l) (u : Ty) :
    (t.labelled l).equivalent (u.labelled l) = t.equivalent u :=
  equivalent_labelled distinct t u h.tame h.known

end Ty.Known

namespace Expr

variable {e : Expr} {target : Ty}

theorem known_categoryConverted (h : e.type.Known) (target : Ty) :
    (e.categoryConverted target).type.Known := by
  unfold categoryConverted
  split
  · exact h
  · rw [type_dereferenced]
    exact h.referent

theorem known_toInteger (h : e.type.Known) (p : Nat) (s : Bool) :
    (e.toInteger (.integer p s)).type.Known := by
  unfold toInteger
  repeat' split
  all_goals first | exact h | exact ⟨trivial, rfl⟩

theorem known_toWiderFloat (h : e.type.Known) (p : Nat) : (e.toWiderFloat (.float p)).type.Known := by
  unfold toWiderFloat
  repeat' split
  all_goals first | exact h | exact ⟨trivial, rfl⟩

theorem known_integerToFloat (h : e.type.Known) (p : Nat) :
    (e.integerToFloat (.float p)).type.Known := by
  unfold integerToFloat
  split
  · exact ⟨trivial, rfl⟩
  · exact h

theorem known_valueConverted (h : e.type.Known) (target : Ty) :
    (e.valueConverted target).type.Known := by
  unfold valueConverted
  split
  · exact h
  · split
    · unfold toBoolean
      split
      · exact ⟨trivial, rfl⟩
      · exact h
    · exact known_toInteger h ..
    · unfold toFloat
      split
      · exact known_toWiderFloat h ..
      · split
        · exact known_integerToFloat h ..
        · exact h
    · exact h

theorem known_qualificationConverted (h : e.type.Known) (wanted : target.Known) :
    (e.qualificationConverted target).type.Known := by
  unfold qualificationConverted
  split
  · exact wanted
  · exact h

theorem parallel_convertTo (distinct : Function.Injective l) (h : e.type.Known) (wanted : target.Known) :
    Parallel (Echoes l) (e.convertTo target) ((e.labelled l).convertTo (target.labelled l)) := by
  have first := known_categoryConverted h target
  have second := known_valueConverted first target
  have third := known_qualificationConverted second wanted
  unfold convertTo
  simp only [← labelled_categoryConverted, ← labelled_valueConverted,
    ← labelled_qualificationConverted distinct second.tame second.known, type_labelled,
    first.labelled_equivalent distinct, second.labelled_equivalent distinct,
    third.labelled_equivalent distinct, Ty.shown_labelled]
  split
  · exact .ok ⟨first.tame, rfl⟩
  · split
    · exact .ok ⟨second.tame, rfl⟩
    · split
      · exact .ok ⟨third.tame, rfl⟩
      · exact .fault _ _ _

/-! ## Conditions and initializers -/

variable {source : Expr}

theorem tame_asValue (h : e.type.Tame) : e.asValue.type.Tame := by
  rw [type_asValue]
  exact h.valueType

theorem parallel_asCondition (distinct : Function.Injective l) (h : e.type.Tame) :
    Parallel (Echoes l) e.asCondition (e.labelled l).asCondition := by
  have tame := tame_asValue h
  unfold asCondition
  simp only [← labelled_asValue, type_labelled, Ty.isDependent_labelled]
  split
  · exact .ok ⟨tame, rfl⟩
  · rename_i known
    exact parallel_convertTo distinct ⟨tame, by simpa using known⟩ ⟨trivial, rfl⟩

theorem parallel_initializer (distinct : Function.Injective l) (h : e.type.Tame) (wanted : target.Tame) :
    Parallel (Echoes l) (e.initializer target) ((e.labelled l).initializer (target.labelled l)) := by
  unfold initializer
  rw [type_labelled, Ty.isDependent_labelled, Ty.isDependent_labelled]
  split
  · exact .ok ⟨h, rfl⟩
  · rename_i both
    obtain ⟨known, wantedKnown⟩ := Bool.or_eq_false_iff.mp (by simpa using both)
    have converts := parallel_convertTo (l := l) distinct ⟨h, known⟩ ⟨wanted, wantedKnown⟩
    cases target with
    | reference referenced =>
      have same : (e.type.labelled l).valueType.equivalent (referenced.labelled l).valueType =
          e.type.valueType.equivalent referenced.valueType := by
        rw [← Ty.labelled_valueType, ← Ty.labelled_valueType]
        exact (Ty.Known.mk h known).valueType.labelled_equivalent distinct _
      show Parallel _ (if _ then _ else _)
        (if (e.type.labelled l).valueType.equivalent (referenced.labelled l).valueType then _ else _)
      rw [same, ← Ty.shown_labelled (l := l) e.type, ← Ty.shown_labelled (l := l) (.reference referenced)]
      split
      · exact .ok ⟨h, rfl⟩
      · exact .fault _ _ _
    | _ => exact converts

theorem parallel_definingInitializer (distinct : Function.Injective l) (h : e.type.Tame)
    (wanted : target.Tame) : Parallel (Echoes l) (e.definingInitializer target)
      ((e.labelled l).definingInitializer (target.labelled l)) := by
  unfold definingInitializer
  rw [type_labelled, Ty.isReference_labelled, Ty.isReference_labelled]
  split
  · exact parallel_initializer distinct h wanted
  · rw [← labelled_asValue]
    exact parallel_initializer distinct (tame_asValue h) wanted

/-! ## Operations -/

variable {left right : Expr}

theorem labelled_commonInteger (left right : Expr) (p₁ p₂ : Nat) (s₁ s₂ : Bool) :
    commonInteger (left.labelled l) (right.labelled l) p₁ s₁ p₂ s₂ =
      (commonInteger left right p₁ s₁ p₂ s₂).map (·.labelled l) (·.labelled l) := by
  have toInteger (e : Expr) (p : Nat) (s : Bool) :
      (e.labelled l).toInteger (.integer p s) = (e.toInteger (.integer p s)).labelled l :=
    (labelled_toInteger e (.integer p s)).symm
  unfold commonInteger Ty.uint
  simp only [toInteger]
  repeat' split
  all_goals rfl

theorem known_commonInteger (hl : left.type.Known) (hr : right.type.Known) (p₁ p₂ : Nat) (s₁ s₂ : Bool) :
    (commonInteger left right p₁ s₁ p₂ s₂).1.type.Known ∧
      (commonInteger left right p₁ s₁ p₂ s₂).2.type.Known := by
  unfold commonInteger Ty.uint
  dsimp only
  repeat' split
  all_goals exact ⟨by first | exact hl | exact known_toInteger hl .., by
    first | exact hr | exact known_toInteger hr ..⟩

/-- Two operands of tame types, and both with labels for declarations. -/
def BothEcho (l : DeclId → DeclId) (p p' : Expr × Expr) : Prop :=
  Echoes l p.1 p'.1 ∧ Echoes l p.2 p'.2

theorem parallel_common (distinct : Function.Injective l) (hl : left.type.Known) (hr : right.type.Known) :
    Parallel (BothEcho l) (left.common right) ((left.labelled l).common (right.labelled l)) := by
  have same (e : Expr) (h : e.type.Known) : Echoes l e (e.labelled l) := ⟨h.tame, rfl⟩
  have fault : Parallel (BothEcho l)
      (.error { cause := .noCommonType left.type.shown right.type.shown, position := left.start })
      (.error {
        cause := .noCommonType (left.type.labelled l).shown (right.type.labelled l).shown
        position := (left.labelled l).start }) := by
    rw [Ty.shown_labelled, Ty.shown_labelled]
    exact .fault _ _ _
  unfold common
  rw [type_labelled, type_labelled, hl.labelled_equivalent distinct]
  split
  · exact .ok ⟨same _ hl, same _ hr⟩
  · rw [← Ty.labelled_unqualified, ← Ty.labelled_unqualified]
    cases left.type.unqualified with
    | float p₁ =>
      cases right.type.unqualified with
      | float p₂ =>
        have widened (e : Expr) (h : e.type.Known) (p : Nat) :
            Echoes l (e.toWiderFloat (.float p)) ((e.labelled l).toWiderFloat (.float p)) :=
          ⟨(known_toWiderFloat h p).tame, (labelled_toWiderFloat e (.float p)).symm⟩
        simp only [Ty.labelled]
        split
        · exact .ok ⟨widened _ hl _, same _ hr⟩
        · split
          · exact .ok ⟨same _ hl, widened _ hr _⟩
          · exact .ok ⟨same _ hl, same _ hr⟩
      | integer p₂ s₂ =>
        exact .ok ⟨same _ hl, (known_integerToFloat hr p₁).tame,
          (labelled_integerToFloat right (.float p₁)).symm⟩
      | _ => exact fault
    | integer p₁ s₁ =>
      cases right.type.unqualified with
      | float p₂ =>
        exact .ok ⟨⟨(known_integerToFloat hl p₂).tame,
          (labelled_integerToFloat left (.float p₂)).symm⟩, same _ hr⟩
      | integer p₂ s₂ =>
        obtain ⟨first, second⟩ := known_commonInteger hl hr p₁ p₂ s₁ s₂
        have both := labelled_commonInteger (l := l) left right p₁ p₂ s₁ s₂
        exact .ok ⟨⟨first.tame, congrArg Prod.fst both⟩, second.tame, congrArg Prod.snd both⟩
      | _ => exact fault
    | _ => cases right.type.unqualified <;> exact fault

theorem alike_mismatch (wanted : String) (e : Expr) :
    (e.mismatch wanted).Alike ((e.labelled l).mismatch wanted) := by
  unfold mismatch
  rw [type_labelled, Ty.shown_labelled]
  exact .of_cause _ _ _

theorem parallel_checkArithmetic (e : Expr) :
    Parallel (fun _ _ => True) e.checkArithmetic (e.labelled l).checkArithmetic := by
  unfold checkArithmetic
  rw [type_labelled, Ty.isArithmetic_labelled]
  split
  · exact .ok trivial
  · exact .error (alike_mismatch _ e)

theorem parallel_ofUnary (distinct : Function.Injective l) (op : UnaryOp) (h : e.type.Tame)
    (span : Span) : Parallel (Echoes l) (ofUnary op e span) (ofUnary op (e.labelled l) .nowhere) := by
  cases op with
  | negate =>
    have tame := tame_asValue h
    unfold ofUnary
    dsimp only
    rw [← labelled_asValue, type_labelled, Ty.isDependent_labelled]
    cases e.asValue.type.isDependent with
    | true => exact .ok ⟨tame, rfl⟩
    | false => exact (parallel_checkArithmetic e.asValue).bind fun _ _ _ => .ok ⟨tame, rfl⟩
  | not =>
    refine (parallel_asCondition distinct h).bind fun e₁ _ same => ?_
    obtain ⟨tame, rfl⟩ := same
    exact .ok ⟨trivial, rfl⟩

theorem parallel_ofConnective (distinct : Function.Injective l) (op : Connective) (hl : left.type.Tame)
    (hr : right.type.Tame) : Parallel (Echoes l) (ofConnective op left right)
      (ofConnective op (left.labelled l) (right.labelled l)) := by
  unfold ofConnective
  rw [span_labelled, span_labelled]
  refine (parallel_asCondition distinct hl).bind fun _ _ first =>
    (parallel_asCondition distinct hr).bind fun _ _ second => ?_
  obtain ⟨-, rfl⟩ := first
  obtain ⟨-, rfl⟩ := second
  exact .ok ⟨trivial, rfl⟩

theorem labelled_resultType (op : BinaryOp) (t : Ty) :
    resultType op (t.labelled l) = (resultType op t).labelled l := by
  cases op <;> rfl

theorem tame_resultType (op : BinaryOp) {t : Ty} (h : t.Tame) : (resultType op t).Tame := by
  cases op <;> first | exact h | trivial

theorem parallel_ofOperands (distinct : Function.Injective l) (op : BinaryOp) (hl : left.type.Tame)
    (hr : right.type.Tame) : Parallel (Echoes l) (ofOperands op left right)
      (ofOperands op (left.labelled l) (right.labelled l)) := by
  have tameLeft := tame_asValue hl
  have tameRight := tame_asValue hr
  -- The operands in their common type.
  have meet : ∀ p p' : Expr × Expr, BothEcho l p p' → Parallel (Echoes l)
      (.ok ⟨.binary op p.1 p.2, resultType op p.1.type, left.span.upTo right.span⟩)
      (.ok ⟨.binary op p'.1 p'.2, resultType op p'.1.type, Span.nowhere.upTo .nowhere⟩) := by
    rintro ⟨e₁, e₂⟩ ⟨_, _⟩ ⟨⟨tame, rfl⟩, -, rfl⟩
    refine .ok ⟨tame_resultType op tame, ?_⟩
    dsimp only
    rw [type_labelled, labelled_resultType]
    rfl
  unfold ofOperands
  simp only [← labelled_asValue, type_labelled, span_labelled, Ty.isDependent_labelled,
    labelled_resultType]
  split
  · exact .ok ⟨tame_resultType op tameLeft, rfl⟩
  · rename_i knownLeft
    split
    · exact .ok ⟨tame_resultType op tameRight, rfl⟩
    · rename_i knownRight
      have common := parallel_common (l := l) distinct ⟨tameLeft, by simpa using knownLeft⟩
        ⟨tameRight, by simpa using knownRight⟩
      cases op with
      | arithmetic op =>
        exact (parallel_checkArithmetic left.asValue).bind fun _ _ _ =>
          (parallel_checkArithmetic right.asValue).bind fun _ _ _ => common.bind meet
      | _ => exact common.bind meet

theorem parallel_ofBinary (distinct : Function.Injective l) (op : BinaryOp) (hl : left.type.Tame)
    (hr : right.type.Tame) : Parallel (Echoes l) (ofBinary op left right)
      (ofBinary op (left.labelled l) (right.labelled l)) := by
  cases op with
  | connective op => exact parallel_ofConnective distinct op hl hr
  | _ => exact parallel_ofOperands distinct _ hl hr

theorem parallel_bindArguments (distinct : Function.Injective l) : ∀ (es : List Expr) (ts : List Ty),
    (∀ e ∈ es, e.type.Tame) → Ty.AllTame ts →
    Parallel (fun bound bound' => bound' = allLabelled l bound) (bindArguments es ts)
      (bindArguments (allLabelled l es) (Ty.allLabelled l ts))
  | [], _, _, _ | _ :: _, [], _, _ => .ok rfl
  | e :: es, t :: ts, tame, wanted => by
    refine (parallel_initializer distinct (tame e (List.mem_cons_self ..)) wanted.1).bind
      fun _ _ same => ?_
    obtain ⟨-, rfl⟩ := same
    refine (parallel_bindArguments distinct es ts (fun e member => tame e (List.mem_cons_of_mem _ member))
      wanted.2).bind fun _ _ same => ?_
    subst same
    exact .ok rfl

theorem parallel_ofCall (distinct : Function.Injective l) {callee : Expr} (h : callee.type.Tame)
    {es : List Expr} (tame : ∀ e ∈ es, e.type.Tame) (span : Span) :
    Parallel (Echoes l) (ofCall callee es span)
      (ofCall (callee.labelled l) (allLabelled l es) .nowhere) := by
  have values : (allLabelled l es).map asValue = allLabelled l (es.map asValue) := by
    simp [allLabelled_eq_map]
  have unknown (type : Ty) : Parallel (Echoes l)
      (if type.isDependent then .ok (⟨.call callee (es.map asValue), .auto, span⟩ : Expr)
        else .error (callee.mismatch "a function"))
      (if (type.labelled l).isDependent then
        .ok ⟨.call (callee.labelled l) ((allLabelled l es).map asValue), .auto, .nowhere⟩
      else .error ((callee.labelled l).mismatch "a function")) := by
    rw [Ty.isDependent_labelled, values]
    split
    · exact .ok ⟨trivial, rfl⟩
    · exact .error (alike_mismatch _ callee)
  have tameType := h.valueType
  unfold ofCall
  rw [type_labelled, ← Ty.labelled_valueType]
  generalize callee.type.valueType = type at tameType
  cases type with
  | function ts result =>
    have parameters : (Ty.allLabelled l ts).length = ts.length := by simp [Ty.allLabelled_eq_map]
    have arguments : (allLabelled l es).length = es.length := by simp [allLabelled_eq_map]
    dsimp only [Ty.labelled]
    rw [parameters, arguments]
    by_cases more : ts.length < es.length
    · simp only [if_pos more]
      exact .fault _ _ _
    · by_cases fewer : es.length < ts.length
      · simp only [if_neg more, if_pos fewer]
        exact .fault _ _ _
      · simp only [if_neg more, if_neg fewer]
        refine (parallel_bindArguments distinct es ts tame tameType.1).bind fun _ _ same => ?_
        subst same
        exact .ok ⟨tameType.2, rfl⟩
  | _ => exact unknown _

theorem parallel_ofAssign (distinct : Function.Injective l) (hl : left.type.Tame)
    (hr : right.type.Tame) : Parallel (Echoes l) (ofAssign left right)
      (ofAssign (left.labelled l) (right.labelled l)) := by
  unfold ofAssign
  rw [type_labelled, ← Ty.labelled_valueType, ← labelled_asValue, span_labelled, span_labelled]
  refine (parallel_initializer distinct (tame_asValue hr) hl.valueType).bind fun _ _ same => ?_
  obtain ⟨-, rfl⟩ := same
  exact .ok ⟨hl, rfl⟩

theorem echoes_ofNumber (t : Token) : Parallel (Echoes l) (ofNumber t) (ofNumber t.unplaced) := by
  unfold ofNumber
  rw [Token.text_unplaced]
  split
  · split
    · exact .ok ⟨trivial, rfl⟩
    · exact .fault _ _ _
  · split
    · split
      · refine .ok ⟨?_, ?_⟩ <;> unfold ofInteger <;> split <;> trivial
      · exact .fault _ _ _
    · exact .fault _ _ _

end Expr

/-! ## Two operands with the same labels -/

variable {r : DeclId → DeclId}

/-- Two types are the same with their labels, apart from places, and tame. -/
structure Ty.Matches (l r : DeclId → DeclId) (t t' : Ty) : Prop where
  same : t.labelled l = t'.labelled r
  tame : t.Tame
  tame' : t'.Tame

/-- Two expressions are the same with their labels, apart from places, and their types are tame. -/
structure Expr.Matches (l r : DeclId → DeclId) (e e' : Expr) : Prop where
  same : e.labelled l = e'.labelled r
  tame : e.type.Tame
  tame' : e'.type.Tame

namespace Ty.Matches

variable {t t' : Ty}

theorem isDependent (h : t.Matches l r t') : t'.isDependent = t.isDependent := by
  rw [← isDependent_labelled (l := l) t, h.same, isDependent_labelled]

theorem isDeferred (h : t.Matches l r t') : t'.isDeferred = t.isDeferred := by
  rw [← isDeferred_labelled (l := l) t, h.same, isDeferred_labelled]

theorem isPlaceholder (h : t.Matches l r t') : t'.isPlaceholder = t.isPlaceholder := by
  rw [← isPlaceholder_labelled (l := l) t, h.same, isPlaceholder_labelled]

theorem shown (h : t.Matches l r t') : t'.shown = t.shown := by
  rw [← shown_labelled (l := l) t, h.same, shown_labelled]

theorem toReference (h : t.Matches l r t') : t.toReference.Matches l r t'.toReference :=
  ⟨by simp [h.same], h.tame.toReference, h.tame'.toReference⟩

theorem addQualifiers (h : t.Matches l r t') (q : Qualifiers) :
    (t.addQualifiers q).Matches l r (t'.addQualifiers q) :=
  ⟨by simp [h.same], h.tame.addQualifiers q, h.tame'.addQualifiers q⟩

end Ty.Matches

namespace Expr

/-- What is said of each side and of the one labelled outcome holds of both sides. -/
theorem parallel_matches {x x' y : Except Diagnostic Expr} (h : Parallel (Echoes l) x y)
    (h' : Parallel (Echoes r) x' y) : Parallel (Matches l r) x x' :=
  (h.trans h'.symm).mono fun _ _ ⟨_, echo, echo'⟩ => ⟨echo.eq.symm.trans echo'.eq, echo.tame, echo'.tame⟩

namespace Matches

variable {e e' : Expr}

theorem type (h : e.Matches l r e') : e.type.Matches l r e'.type :=
  ⟨by rw [← type_labelled, h.same, type_labelled], h.tame, h.tame'⟩

theorem asValue (h : e.Matches l r e') : e.asValue.Matches l r e'.asValue :=
  ⟨by rw [labelled_asValue, h.same, labelled_asValue], tame_asValue h.tame, tame_asValue h.tame'⟩

theorem excerpt? (h : e.Matches l r e') :
    e.excerpt?.map Excerpt.unplaced = e'.excerpt?.map Excerpt.unplaced := by
  rw [← excerpt?_labelled (l := l), h.same, excerpt?_labelled]

end Matches

section Pairs

variable (distinct : Function.Injective l) (distinct' : Function.Injective r) {e e' left left' right
  right' : Expr} {target target' : Ty}

include distinct distinct'

theorem matches_asCondition (h : e.Matches l r e') :
    Parallel (Matches l r) e.asCondition e'.asCondition :=
  parallel_matches (parallel_asCondition distinct h.tame)
    (h.same ▸ parallel_asCondition distinct' h.tame')

theorem matches_initializer (h : e.Matches l r e') (wanted : target.Matches l r target') :
    Parallel (Matches l r) (e.initializer target) (e'.initializer target') :=
  parallel_matches (parallel_initializer distinct h.tame wanted.tame)
    (h.same ▸ wanted.same ▸ parallel_initializer distinct' h.tame' wanted.tame')

theorem matches_definingInitializer (h : e.Matches l r e') (wanted : target.Matches l r target') :
    Parallel (Matches l r) (e.definingInitializer target) (e'.definingInitializer target') :=
  parallel_matches (parallel_definingInitializer distinct h.tame wanted.tame)
    (h.same ▸ wanted.same ▸ parallel_definingInitializer distinct' h.tame' wanted.tame')

theorem matches_ofUnary (op : UnaryOp) (h : e.Matches l r e') (span span' : Span) :
    Parallel (Matches l r) (ofUnary op e span) (ofUnary op e' span') :=
  parallel_matches (parallel_ofUnary distinct op h.tame span)
    (h.same ▸ parallel_ofUnary distinct' op h.tame' span')

theorem matches_ofBinary (op : BinaryOp) (hl : left.Matches l r left') (hr : right.Matches l r right') :
    Parallel (Matches l r) (ofBinary op left right) (ofBinary op left' right') :=
  parallel_matches (parallel_ofBinary distinct op hl.tame hr.tame)
    (hl.same ▸ hr.same ▸ parallel_ofBinary distinct' op hl.tame' hr.tame')

theorem matches_ofAssign (hl : left.Matches l r left') (hr : right.Matches l r right') :
    Parallel (Matches l r) (ofAssign left right) (ofAssign left' right') :=
  parallel_matches (parallel_ofAssign distinct hl.tame hr.tame)
    (hl.same ▸ hr.same ▸ parallel_ofAssign distinct' hl.tame' hr.tame')

theorem matches_ofCall (h : e.Matches l r e') {es es' : List Expr} (hs : List.Forall₂ (Matches l r) es es')
    (span span' : Span) : Parallel (Matches l r) (ofCall e es span) (ofCall e' es' span') := by
  have arguments : allLabelled l es = allLabelled r es' ∧ (∀ e ∈ es, e.type.Tame) ∧
      ∀ e ∈ es', e.type.Tame := by
    induction hs with
    | nil => exact ⟨rfl, by simp, by simp⟩
    | cons first _ ih =>
      obtain ⟨same, tame, tame'⟩ := ih
      exact ⟨congrArg₂ List.cons first.same same, List.forall_mem_cons.mpr ⟨first.tame, tame⟩,
        List.forall_mem_cons.mpr ⟨first.tame', tame'⟩⟩
  obtain ⟨same, tame, tame'⟩ := arguments
  exact parallel_matches (parallel_ofCall distinct h.tame tame span)
    (h.same ▸ same ▸ parallel_ofCall distinct' h.tame' tame' span')

end Pairs

end Expr

/-! ## The grammar of tokens elsewhere

Which phrase some tokens form does not hang on where they stand: tokens that are the same apart from their
places form phrases that are the same apart from theirs. Where the grammar fails it fails for both in the
same way, behind the same parts.
-/

variable {α β β' γ γ' : Type}

namespace Cursor

/-- A cursor over tokens wherever they stand. -/
def unplaced (c : Cursor) : Cursor := ⟨c.upcoming.map Token.unplaced, c.stop.unplaced, .nowhere⟩

variable (c : Cursor)

@[simp] theorem current_unplaced : c.unplaced.current = c.current.unplaced := by
  obtain ⟨_ | ⟨t, rest⟩, stop, last⟩ := c <;> rfl

@[simp] theorem kind_unplaced : c.unplaced.kind = c.kind := by
  simp [kind]

@[simp] theorem secondKind_unplaced : c.unplaced.secondKind = c.secondKind := by
  obtain ⟨_ | ⟨t, _ | ⟨t', rest⟩⟩, stop, last⟩ := c <;> simp [secondKind, unplaced]

@[simp] theorem next_unplaced : c.unplaced.next = c.next.unplaced := by
  obtain ⟨_ | ⟨t, rest⟩, stop, last⟩ := c <;> rfl

@[simp] theorem length_upcoming_unplaced : c.unplaced.upcoming.length = c.upcoming.length :=
  List.length_map _

theorem unexpected_unplaced : c.unexpected.Alike c.unplaced.unexpected := by
  unfold unexpected
  rw [current_unplaced, Token.text_unplaced]
  exact .of_cause _ _ _

theorem unexpectedFor_unplaced (detail : String) :
    (c.unexpectedFor detail).Alike (c.unplaced.unexpectedFor detail) := by
  unfold unexpectedFor
  rw [current_unplaced, Token.text_unplaced]
  exact .of_cause _ _ _

theorem parallel_expect (kind : TokenKind) :
    Parallel (fun out out' => out' = out.map Token.unplaced unplaced) (c.expect kind)
      (c.unplaced.expect kind) := by
  unfold expect
  simp only [kind_unplaced, current_unplaced, next_unplaced]
  split
  · exact .ok rfl
  · exact .error c.unexpected_unplaced

/-- Cursors before the same tokens are the same apart from places. -/
theorem unplaced_ofTokens {ts ts' : List Token}
    (same : ts.map Token.unplaced = ts'.map Token.unplaced) :
    (ofTokens ts).unplaced = (ofTokens ts').unplaced := by
  have last : ts.getLast?.map Token.unplaced = ts'.getLast?.map Token.unplaced := by
    rw [← List.getLast?_map, ← List.getLast?_map, same]
  have front : ts.dropLast.map Token.unplaced = ts'.dropLast.map Token.unplaced := by
    rw [List.map_dropLast, List.map_dropLast, same]
  unfold ofTokens
  cases found : ts.getLast? with
  | none =>
    cases found' : ts'.getLast? with
    | none => rfl
    | some t' => rw [found, found'] at last; cases last
  | some t =>
    cases found' : ts'.getLast? with
    | none => rw [found, found'] at last; cases last
    | some t' =>
      rw [found, found'] at last
      have token : t.unplaced = t'.unplaced := Option.some.inj last
      have kind : t.kind = t'.kind := by rw [← Token.kind_unplaced t, token, Token.kind_unplaced]
      dsimp only
      rw [kind]
      split
      · simp [unplaced, front, token]
      · simp only [unplaced, same]
        rfl

end Cursor

/-! ## Phrases -/

mutual

/-- A phrase wherever its tokens stand. -/
def Phrase.unplaced : Phrase → Phrase
  | .number t => .number t.unplaced
  | .truth value t => .truth value t.unplaced
  | .name t => .name t.unplaced
  | .unary op _ operand => .unary op .nowhere operand.unplaced
  | .binary op left right => .binary op left.unplaced right.unplaced
  | .assign target value => .assign target.unplaced value.unplaced
  | .call callee arguments _ => .call callee.unplaced (Phrase.allUnplaced arguments) .nowhere

/-- Phrases wherever their tokens stand. -/
def Phrase.allUnplaced : List Phrase → List Phrase
  | [] => []
  | p :: rest => p.unplaced :: Phrase.allUnplaced rest

end

theorem Phrase.allUnplaced_eq_map (ps : List Phrase) :
    Phrase.allUnplaced ps = ps.map Phrase.unplaced := by
  induction ps with
  | nil => rfl
  | cons p rest ih => exact congrArg _ ih

/-- A type as it is written, wherever its tokens stand. -/
def TypePhrase.unplaced : TypePhrase → TypePhrase
  | .name t => .name t.unplaced
  | .auto => .auto
  | .decltype e => .decltype e.unplaced
  | .decltypeAuto => .decltypeAuto
  | .qualified inner q => .qualified inner.unplaced q
  | .pointer target => .pointer target.unplaced
  | .reference target => .reference target.unplaced
  | .sequence element => .sequence element.unplaced
  | .array element extent => .array element.unplaced extent.unplaced

/-- A part of a type, wherever its tokens stand. -/
def TypePart.unplaced : TypePart → TypePart
  | .type t => .type t.unplaced
  | .expression e => .expression e.unplaced

/-- Two readings that correspond, or break off behind parts that correspond with faults that say the
same. -/
inductive Broken.Similar (p : α → α) (g : β → β') :
    Except (Broken α) β → Except (Broken α) β' → Prop
  | ok {b : β} {b' : β'} : b' = g b → Similar p g (.ok b) (.ok b')
  | error {parts : List α} {d d' : Diagnostic} : d.Alike d' →
      Similar p g (.error ⟨parts, d⟩) (.error ⟨parts.map p, d'⟩)

namespace Broken.Similar

variable {p : α → α} {g : β → β'} {h : γ → γ'} {x : Except (Broken α) β}
  {x' : Except (Broken α) β'}

theorem bind (parallel : Similar p g x x') {k : β → Except (Broken α) γ}
    {k' : β' → Except (Broken α) γ'} (rest : ∀ b, x = .ok b → Similar p h (k b) (k' (g b))) :
    Similar p h (x >>= k) (x' >>= k') := by
  cases parallel with
  | ok same =>
    subst same
    exact rest _ rfl
  | error fault => exact .error fault

theorem behind (parallel : Similar p g x x') (parts : List α) :
    Similar p g (x.mapError (.behind parts)) (x'.mapError (.behind (parts.map p))) := by
  cases parallel with
  | ok same => exact .ok same
  | @error more d d' fault =>
    have moved : Similar p g (.error ⟨parts ++ more, d⟩ : Except (Broken α) β)
        (.error ⟨(parts ++ more).map p, d'⟩) := .error fault
    rwa [List.map_append] at moved

end Broken.Similar

/-- Both readings are values that correspond, or break off behind parts that correspond with faults that
say the same. -/
inductive Broken.Alike (p : α → α) (g : β → γ) : Except (Broken α) β → Except (Broken α) β → Prop
  | ok {b b' : β} : g b = g b' → Alike p g (.ok b) (.ok b')
  | error {parts parts' : List α} {d d' : Diagnostic} : parts.map p = parts'.map p → d.Alike d' →
      Alike p g (.error ⟨parts, d⟩) (.error ⟨parts', d'⟩)

theorem Broken.Similar.alike {p : α → α} {g : β → β'} {x x' : Except (Broken α) β}
    {y : Except (Broken α) β'} (h : Similar p g x y) (h' : Similar p g x' y) :
    Broken.Alike p g x x' := by
  cases h with
  | ok same =>
    cases h' with
    | ok same' => exact .ok (same.symm.trans same')
  | @error parts d e fault =>
    generalize read : (Except.error ⟨parts.map p, e⟩ : Except (Broken α) β') = y at h'
    cases h' with
    | ok _ => cases read
    | error fault' =>
      obtain ⟨same, rfl⟩ := Broken.mk.inj (Except.error.inj read)
      exact .error same (fault.trans fault'.symm)

namespace Phrase

open Broken

/-- A reader of phrases to which places do not matter. -/
def Placeless (g : α → α) (read : Cursor → Reading (α × Cursor)) : Prop :=
  ∀ c, Similar unplaced (Prod.map g Cursor.unplaced) (read c) (read c.unplaced)

variable {inner : Power → Cursor → Reading (Phrase × Cursor)}

theorem parallel_expectBehind (parts : List Phrase) (c : Cursor) (kind : TokenKind) :
    Similar unplaced (Prod.map Token.unplaced Cursor.unplaced) (expectBehind parts c kind)
      (expectBehind (parts.map unplaced) c.unplaced kind) := by
  have expects := c.parallel_expect kind
  unfold expectBehind
  generalize c.expect kind = out at expects
  generalize c.unplaced.expect kind = out' at expects
  cases expects with
  | ok same => exact .ok same
  | error fault => exact .error fault

theorem placeless_operand (nested : ∀ power, Placeless unplaced (inner power)) :
    Placeless unplaced (operand inner) := by
  intro c
  have unary (op : UnaryOp) :
      Similar unplaced (Prod.map unplaced Cursor.unplaced)
        (inner .unary c.next >>= fun out => .ok (.unary op c.position out.1, out.2))
        (inner .unary c.unplaced.next >>= fun out =>
          .ok (.unary op c.unplaced.position out.1, out.2)) := by
    rw [Cursor.next_unplaced]
    exact (nested _ _).bind fun _ _ => .ok (by rw [Cursor.position, Cursor.current_unplaced]; rfl)
  unfold operand
  rw [Cursor.kind_unplaced, Cursor.current_unplaced]
  split
  · exact .ok (by rw [Cursor.next_unplaced]; rfl)
  · exact .ok (by rw [Cursor.next_unplaced]; rfl)
  · exact .ok (by rw [Cursor.next_unplaced]; rfl)
  · exact .ok (by rw [Cursor.next_unplaced]; rfl)
  · exact unary .negate
  · exact unary .not
  · rw [Cursor.next_unplaced]
    refine (nested _ _).bind ?_
    rintro ⟨e, after⟩ -
    refine (parallel_expectBehind [e] after _).bind fun _ _ => ?_
    exact .ok rfl
  · exact .error c.unexpected_unplaced

theorem placeless_arguments (nested : ∀ power, Placeless unplaced (inner power)) :
    ∀ (bound : Nat) (isFirst : Bool),
      Placeless (List.map unplaced) (arguments inner bound isFirst)
  | 0, _, c => .error c.unexpected_unplaced
  | bound + 1, isFirst, c => by
    have rest (c : Cursor) :
        Similar unplaced (Prod.map (List.map unplaced) Cursor.unplaced)
          (inner .lowest c >>= fun first =>
            (arguments inner bound false first.2).mapError (.behind [first.1]) >>= fun rest =>
              .ok (first.1 :: rest.1, rest.2))
          (inner .lowest c.unplaced >>= fun first =>
            (arguments inner bound false first.2).mapError (.behind [first.1]) >>= fun rest =>
              .ok (first.1 :: rest.1, rest.2)) := by
      refine (nested _ _).bind ?_
      rintro ⟨e, c⟩ -
      refine ((placeless_arguments nested bound false c).behind [e]).bind fun _ _ => ?_
      exact .ok rfl
    unfold arguments
    rw [Cursor.kind_unplaced]
    split
    · exact .ok rfl
    · cases isFirst with
      | true => exact rest c
      | false =>
        have comma := parallel_expectBehind [] c (.mark .comma)
        show Similar _ _ (((·.2) <$> expectBehind [] c (.mark .comma)) >>= _)
          (((·.2) <$> expectBehind [] c.unplaced (.mark .comma)) >>= _)
        generalize expectBehind [] c (.mark .comma) = out at comma
        rw [List.map_nil] at comma
        generalize expectBehind [] c.unplaced (.mark .comma) = out' at comma
        cases comma with
        | error fault => exact .error fault
        | @ok passed _ same =>
          subst same
          exact rest passed.2

theorem parallel_continueWith (nested : ∀ power, Placeless unplaced (inner power))
    (form : Continuation) (left : Phrase) (c : Cursor) :
    Similar unplaced (Prod.map unplaced Cursor.unplaced) (continueWith inner form left c)
      (continueWith inner form left.unplaced c.unplaced) := by
  cases form with
  | binary op | assign =>
    unfold continueWith
    rw [Cursor.next_unplaced]
    refine ((nested _ _).behind [left]).bind fun _ _ => ?_
    exact .ok rfl
  | call =>
    unfold continueWith
    rw [Cursor.next_unplaced, Cursor.length_upcoming_unplaced]
    refine ((placeless_arguments nested _ true _).behind [left]).bind ?_
    rintro ⟨es, after⟩ -
    refine (parallel_expectBehind (left :: es) after _).bind fun _ _ => .ok ?_
    simp only [Prod.map, unplaced, allUnplaced_eq_map]
    rfl

theorem parallel_extend (nested : ∀ power, Placeless unplaced (inner power)) (power : Power) :
    ∀ (bound : Nat) (left : Phrase) (c : Cursor),
      Similar unplaced (Prod.map unplaced Cursor.unplaced) (extend inner power bound left c)
        (extend inner power bound left.unplaced c.unplaced)
  | 0, _, _ => .ok rfl
  | bound + 1, left, c => by
    unfold extend
    rw [Cursor.kind_unplaced]
    cases Continuation.ofKind? c.kind with
    | none => exact .ok rfl
    | some form =>
      dsimp only
      split
      · exact .ok rfl
      · exact (parallel_continueWith nested form left c).bind fun out _ =>
          parallel_extend nested power bound out.1 out.2

theorem placeless_expression : ∀ (depth : Nat) (power : Power),
    Placeless unplaced (expression depth power)
  | 0, _, c => .error c.unexpected_unplaced
  | depth + 1, power, c => by
    have nested : ∀ power, Placeless unplaced (Phrase.expression depth power) :=
      placeless_expression depth
    unfold Phrase.expression
    refine (placeless_operand nested c).bind ?_
    rintro ⟨left, c⟩ -
    show Similar _ _ _ (extend _ power c.unplaced.upcoming.length left.unplaced c.unplaced)
    rw [Cursor.length_upcoming_unplaced]
    exact parallel_extend nested power _ left c

theorem placeless_read : Placeless unplaced read := by
  intro c
  unfold read
  rw [Cursor.length_upcoming_unplaced]
  exact placeless_expression _ _ c

/-- Tokens that are the same apart from places form phrases that are. -/
theorem alike_ofTokens {ts ts' : List Token} (same : ts.map Token.unplaced = ts'.map Token.unplaced) :
    Broken.Alike unplaced unplaced (ofTokens ts) (ofTokens ts') := by
  have reads (ts : List Token) : Similar unplaced unplaced (ofTokens ts) (do
      let out ← read (Cursor.ofTokens ts).unplaced
      let _ ← expectBehind [out.1] out.2 .endOfInput
      return out.1) := by
    unfold ofTokens
    refine (placeless_read _).bind ?_
    rintro ⟨e, c⟩ -
    exact (parallel_expectBehind [e] c _).bind fun _ _ => .ok rfl
  have second := reads ts'
  rw [← Cursor.unplaced_ofTokens same] at second
  exact (reads ts).alike second

end Phrase

/-! ## Types -/

namespace TypePhrase

open Broken

/-- A reader of types to which places do not matter. -/
def Placeless (read : Cursor → Reading (TypePhrase × Cursor)) : Prop :=
  ∀ c, Similar TypePart.unplaced (Prod.map unplaced Cursor.unplaced) (read c) (read c.unplaced)

theorem parallel_expectBehind (parts : List TypePart) (c : Cursor) (kind : TokenKind) :
    Similar TypePart.unplaced (Prod.map Token.unplaced Cursor.unplaced) (expectBehind parts c kind)
      (expectBehind (parts.map TypePart.unplaced) c.unplaced kind) := by
  have expects := c.parallel_expect kind
  unfold expectBehind
  generalize c.expect kind = out at expects
  generalize c.unplaced.expect kind = out' at expects
  cases expects with
  | ok same => exact .ok same
  | error fault => exact .error fault

theorem parallel_expressionBehind (parts : List TypePart) (c : Cursor) :
    Similar TypePart.unplaced (Prod.map Phrase.unplaced Cursor.unplaced) (expressionBehind parts c)
      (expressionBehind (parts.map TypePart.unplaced) c.unplaced) := by
  have reads := Phrase.placeless_read c
  unfold expressionBehind
  generalize Phrase.read c = out at reads
  generalize Phrase.read c.unplaced = out' at reads
  cases reads with
  | ok same => exact .ok same
  | @error more d d' fault =>
    have moved : Similar TypePart.unplaced (Prod.map Phrase.unplaced Cursor.unplaced)
        (.error ⟨parts ++ more.map TypePart.expression, d⟩)
        (.error ⟨(parts ++ more.map TypePart.expression).map TypePart.unplaced, d'⟩) := .error fault
    simpa [Except.mapError, Function.comp_def, TypePart.unplaced] using moved

theorem parallel_bracketed (element : TypePhrase) (c : Cursor) :
    Similar TypePart.unplaced (Prod.map unplaced Cursor.unplaced) (bracketed element c)
      (bracketed element.unplaced c.unplaced) := by
  unfold bracketed
  rw [Cursor.kind_unplaced, Cursor.next_unplaced]
  split
  · exact .ok rfl
  · refine (parallel_expressionBehind [.type element] c).bind ?_
    rintro ⟨extent, c⟩ -
    exact (parallel_expectBehind [.type element, .expression extent] c _).bind fun _ _ => .ok rfl

theorem parallel_suffixes : ∀ (bound : Nat) (left : TypePhrase) (c : Cursor),
    Similar TypePart.unplaced (Prod.map unplaced Cursor.unplaced) (suffixes bound left c)
      (suffixes bound left.unplaced c.unplaced)
  | 0, _, _ => .ok rfl
  | bound + 1, left, c => by
    unfold suffixes
    rw [Cursor.kind_unplaced, Cursor.next_unplaced]
    split
    · exact parallel_suffixes bound (.pointer left) c.next
    · exact parallel_suffixes bound (.reference left) c.next
    · exact (parallel_bracketed left c.next).bind fun out _ => parallel_suffixes bound out.1 out.2
    · cases qualifier? c.kind with
      | none => exact .ok rfl
      | some q => exact parallel_suffixes bound (.qualified left q) c.next

theorem placeless_decltypeOperand : Placeless decltypeOperand := by
  intro c
  unfold decltypeOperand
  refine (parallel_expectBehind [] c _).bind ?_
  rintro ⟨_, c⟩ -
  dsimp only [Prod.map]
  rw [Cursor.kind_unplaced, Cursor.secondKind_unplaced, Cursor.next_unplaced, Cursor.next_unplaced]
  split
  · exact .ok rfl
  · refine (parallel_expressionBehind [] c).bind ?_
    rintro ⟨e, c⟩ -
    exact (parallel_expectBehind [.expression e] c _).bind fun _ _ => .ok rfl

theorem placeless_operand : ∀ depth : Nat, Placeless (operand depth)
  | 0, c => .error (c.unexpectedFor_unplaced _)
  | depth + 1, c => by
    unfold operand
    rw [Cursor.kind_unplaced, Cursor.next_unplaced, Cursor.current_unplaced]
    split
    · exact .ok rfl
    · exact .ok rfl
    · exact placeless_decltypeOperand c.next
    · refine (placeless_operand depth c.next).bind ?_
      rintro ⟨inner, c⟩ -
      show Similar _ _ _ (suffixes c.unplaced.upcoming.length inner.unplaced c.unplaced >>= _)
      rw [Cursor.length_upcoming_unplaced]
      refine (parallel_suffixes _ inner c).bind ?_
      rintro ⟨t, c⟩ -
      exact (parallel_expectBehind [.type t] c _).bind fun _ _ => .ok rfl
    · cases qualifier? c.kind with
      | none => exact .error (c.unexpectedFor_unplaced _)
      | some q => exact (placeless_operand depth c.next).bind fun _ _ => .ok rfl

theorem placeless_read : Placeless read := by
  intro c
  unfold read
  rw [Cursor.length_upcoming_unplaced]
  refine (placeless_operand _ c).bind ?_
  rintro ⟨t, c⟩ -
  show Similar _ _ _ (suffixes c.unplaced.upcoming.length t.unplaced c.unplaced)
  rw [Cursor.length_upcoming_unplaced]
  exact parallel_suffixes _ t c

/-- Tokens that are the same apart from places form types that are. -/
theorem alike_ofTokens {ts ts' : List Token} (same : ts.map Token.unplaced = ts'.map Token.unplaced) :
    Broken.Alike TypePart.unplaced unplaced (ofTokens ts) (ofTokens ts') := by
  have reads (ts : List Token) : Similar TypePart.unplaced unplaced (ofTokens ts) (do
      let out ← read (Cursor.ofTokens ts).unplaced
      let _ ← expectBehind [.type out.1] out.2 .endOfInput
      return out.1) := by
    unfold ofTokens
    refine (placeless_read _).bind ?_
    rintro ⟨t, c⟩ -
    exact (parallel_expectBehind [.type t] c _).bind fun _ _ => .ok rfl
  have second := reads ts'
  rw [← Cursor.unplaced_ofTokens same] at second
  exact (reads ts).alike second

end TypePhrase

end Deferral
