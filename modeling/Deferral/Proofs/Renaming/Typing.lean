import Deferral.Proofs.Renaming.Outcome
import Deferral.Typing.Operation

/-!
# Typing renamed operands

Converting renamed expressions and typing operations on them gives the renamed outcome.
-/

namespace Deferral

variable {σ : Renaming}

namespace Expr

/-- An expression and the one with its identifiers renamed. -/
abbrev Renames (σ : Renaming) (e e' : Expr) : Prop := e' = e.renamed σ

/-! ## Conversions -/

@[simp] theorem renamed_dereferenced (e : Expr) :
    e.dereferenced.renamed σ = (e.renamed σ).dereferenced := by
  obtain ⟨node, type, span⟩ := e
  cases type <;> rfl

@[simp] theorem renamed_withoutQualifiers (e : Expr) :
    e.withoutQualifiers.renamed σ = (e.renamed σ).withoutQualifiers := by
  obtain ⟨node, type, span⟩ := e
  cases type <;> rfl

@[simp] theorem renamed_asValue (e : Expr) : e.asValue.renamed σ = (e.renamed σ).asValue := by
  simp [asValue]

theorem renamed_categoryConverted (e : Expr) (target : Ty) :
    (e.categoryConverted target).renamed σ =
      (e.renamed σ).categoryConverted (target.renamed σ) := by
  unfold categoryConverted
  rw [Ty.isReference_renamed]
  split <;> simp

theorem renamed_toBoolean (e : Expr) (target : Ty) :
    (e.toBoolean target).renamed σ = (e.renamed σ).toBoolean (target.renamed σ) := by
  unfold toBoolean
  rw [type_renamed, Ty.isInteger_renamed]
  split <;> simp

theorem renamed_toInteger (e : Expr) (target : Ty) :
    (e.toInteger target).renamed σ = (e.renamed σ).toInteger (target.renamed σ) := by
  unfold toInteger
  rw [type_renamed, ← Ty.renamed_unqualified, ← Ty.renamed_unqualified]
  generalize target.unqualified = wanted
  generalize e.type.unqualified = present
  cases wanted with
  | integer wide signed =>
    cases present with
    | integer precision signed' =>
      show (if _ then _ else _ : Expr).renamed σ = if _ then _ else _
      split <;> simp
    | bool => exact renamed_convert ..
    | _ => rfl
  | _ => rfl

theorem renamed_toWiderFloat (e : Expr) (target : Ty) :
    (e.toWiderFloat target).renamed σ = (e.renamed σ).toWiderFloat (target.renamed σ) := by
  unfold toWiderFloat
  rw [type_renamed, ← Ty.renamed_unqualified, ← Ty.renamed_unqualified]
  generalize target.unqualified = wanted
  generalize e.type.unqualified = present
  cases wanted with
  | float wide =>
    cases present with
    | float precision =>
      show (if _ then _ else _ : Expr).renamed σ = if _ then _ else _
      split <;> simp
    | _ => rfl
  | _ => rfl

theorem renamed_integerToFloat (e : Expr) (target : Ty) :
    (e.integerToFloat target).renamed σ = (e.renamed σ).integerToFloat (target.renamed σ) := by
  unfold integerToFloat
  rw [type_renamed, Ty.isInteger_renamed, Ty.isFloat_renamed]
  split <;> simp

theorem renamed_toFloat (e : Expr) (target : Ty) :
    (e.toFloat target).renamed σ = (e.renamed σ).toFloat (target.renamed σ) := by
  unfold toFloat
  rw [type_renamed, Ty.isInteger_renamed, Ty.isFloat_renamed]
  split
  · exact renamed_toWiderFloat e target
  · split
    · exact renamed_integerToFloat e target
    · rfl

theorem renamed_valueConverted (e : Expr) (target : Ty) :
    (e.valueConverted target).renamed σ = (e.renamed σ).valueConverted (target.renamed σ) := by
  unfold valueConverted
  rw [type_renamed, Ty.isReference_renamed, ← Ty.renamed_unqualified]
  split
  · rfl
  · cases target.unqualified with
    | bool => exact renamed_toBoolean e .bool
    | integer p s => exact renamed_toInteger e (.integer p s)
    | float p => exact renamed_toFloat e (.float p)
    | _ => rfl

theorem renamed_qualificationConverted (e : Expr) (target : Ty) :
    (e.qualificationConverted target).renamed σ =
      (e.renamed σ).qualificationConverted (target.renamed σ) := by
  unfold qualificationConverted
  rw [type_renamed, Ty.similar_renamed, Ty.signature_renamed, Ty.signature_renamed]
  split <;> simp

theorem follows_convertTo (e : Expr) (target : Ty) :
    σ.Follows (Renames σ) (e.convertTo target) ((e.renamed σ).convertTo (target.renamed σ)) := by
  unfold convertTo
  simp only [← renamed_categoryConverted, ← renamed_valueConverted,
    ← renamed_qualificationConverted, type_renamed, Ty.equivalent_renamed, start_renamed]
  split
  · exact .ok rfl
  · split
    · exact .ok rfl
    · split
      · exact .ok rfl
      · exact .fault (.noConversion e.type target) _

theorem follows_asCondition (e : Expr) :
    σ.Follows (Renames σ) e.asCondition (e.renamed σ).asCondition := by
  unfold asCondition
  simp only [← renamed_asValue, type_renamed, Ty.isDependent_renamed]
  split
  · exact .ok rfl
  · exact follows_convertTo e.asValue .bool

theorem follows_initializer (e : Expr) (target : Ty) :
    σ.Follows (Renames σ) (e.initializer target)
      ((e.renamed σ).initializer (target.renamed σ)) := by
  unfold initializer
  rw [type_renamed, Ty.isDependent_renamed, Ty.isDependent_renamed]
  split
  · exact .ok rfl
  · have converts := follows_convertTo (σ := σ) e target
    cases target with
    | reference referenced =>
      show σ.Follows _ (if _ then _ else _)
        (if (e.type.renamed σ).valueType.equivalent (referenced.renamed σ).valueType then _ else _)
      rw [← Ty.renamed_valueType, ← Ty.renamed_valueType, Ty.equivalent_renamed, start_renamed]
      split
      · exact .ok rfl
      · exact .fault (.noConversion e.type (.reference referenced)) _
    | _ => exact converts

theorem follows_definingInitializer (e : Expr) (target : Ty) :
    σ.Follows (Renames σ) (e.definingInitializer target)
      ((e.renamed σ).definingInitializer (target.renamed σ)) := by
  unfold definingInitializer
  rw [type_renamed, Ty.isReference_renamed, Ty.isReference_renamed]
  split
  · exact follows_initializer e target
  · rw [← renamed_asValue]
    exact follows_initializer e.asValue target

theorem renamed_commonInteger (l r : Expr) (p₁ p₂ : Nat) (s₁ s₂ : Bool) :
    commonInteger (l.renamed σ) (r.renamed σ) p₁ s₁ p₂ s₂ =
      (commonInteger l r p₁ s₁ p₂ s₂).map (·.renamed σ) (·.renamed σ) := by
  have toInteger (e : Expr) (p : Nat) (s : Bool) :
      (e.renamed σ).toInteger (.integer p s) = (e.toInteger (.integer p s)).renamed σ :=
    (renamed_toInteger e (.integer p s)).symm
  unfold commonInteger Ty.uint
  simp only [toInteger]
  repeat' split
  all_goals rfl

theorem follows_common (l r : Expr) :
    σ.Follows (fun both both' => both' = both.map (·.renamed σ) (·.renamed σ)) (l.common r)
      ((l.renamed σ).common (r.renamed σ)) := by
  have fault {A : Expr × Expr → Expr × Expr → Prop} : σ.Follows A
      (.error { cause := .noCommonType l.type.shown r.type.shown, position := l.start })
      (.error {
        cause := .noCommonType (l.type.renamed σ).shown (r.type.renamed σ).shown
        position := l.start }) := .fault (.noCommonType l.type r.type) _
  unfold common
  rw [type_renamed, type_renamed, Ty.equivalent_renamed, start_renamed]
  split
  · exact .ok rfl
  · rw [← Ty.renamed_unqualified, ← Ty.renamed_unqualified]
    cases l.type.unqualified with
    | float p₁ =>
      cases r.type.unqualified with
      | float p₂ =>
        have widened (e : Expr) (p : Nat) :
            (e.renamed σ).toWiderFloat (.float p) = (e.toWiderFloat (.float p)).renamed σ :=
          (renamed_toWiderFloat e (.float p)).symm
        simp only [Ty.renamed, widened]
        repeat' split
        all_goals exact .ok rfl
      | integer p₂ s₂ =>
        exact .ok (congrArg (Prod.mk (l.renamed σ)) (renamed_integerToFloat r (.float p₁)).symm)
      | _ => exact fault
    | integer p₁ s₁ =>
      cases r.type.unqualified with
      | float p₂ =>
        exact .ok (congrArg (Prod.mk · (r.renamed σ)) (renamed_integerToFloat l (.float p₂)).symm)
      | integer p₂ s₂ => exact .ok (renamed_commonInteger l r p₁ p₂ s₁ s₂)
      | _ => exact fault
    | _ => cases r.type.unqualified <;> exact fault

/-! ## Operations -/

theorem follows_mismatch (wanted : String) (e : Expr) :
    (e.mismatch wanted).Renamed σ ((e.renamed σ).mismatch wanted) := by
  unfold mismatch
  rw [type_renamed, start_renamed]
  exact .of_cause (.typeMismatch wanted e.type) _

theorem follows_checkArithmetic (e : Expr) :
    σ.Follows (fun _ _ => True) e.checkArithmetic (e.renamed σ).checkArithmetic := by
  unfold checkArithmetic
  rw [type_renamed, Ty.isArithmetic_renamed]
  split
  · exact .ok trivial
  · exact .error (follows_mismatch _ e)

theorem follows_ofUnary (op : UnaryOp) (e : Expr) (span : Span) :
    σ.Follows (Renames σ) (ofUnary op e span) (ofUnary op (e.renamed σ) span) := by
  cases op with
  | negate =>
    unfold ofUnary
    dsimp only
    rw [← renamed_asValue, type_renamed, Ty.isDependent_renamed]
    cases e.asValue.type.isDependent with
    | true => exact .ok rfl
    | false => exact (follows_checkArithmetic e.asValue).bind fun _ _ _ => .ok rfl
  | not =>
    refine (follows_asCondition e).bind fun _ _ same => ?_
    subst same
    exact .ok rfl

theorem follows_ofConnective (op : Connective) (l r : Expr) :
    σ.Follows (Renames σ) (ofConnective op l r) (ofConnective op (l.renamed σ) (r.renamed σ)) := by
  unfold ofConnective
  rw [span_renamed, span_renamed]
  refine (follows_asCondition l).bind fun _ _ left => (follows_asCondition r).bind
    fun _ _ right => ?_
  subst left right
  exact .ok rfl

theorem renamed_resultType (op : BinaryOp) (t : Ty) :
    resultType op (t.renamed σ) = (resultType op t).renamed σ := by
  cases op <;> rfl

theorem follows_ofOperands (op : BinaryOp) (l r : Expr) :
    σ.Follows (Renames σ) (ofOperands op l r) (ofOperands op (l.renamed σ) (r.renamed σ)) := by
  -- The operands in their common type.
  have meet : ∀ p p' : Expr × Expr, p' = p.map (Expr.renamed σ) (Expr.renamed σ) →
      σ.Follows (Renames σ)
        (.ok ⟨.binary op p.1 p.2, resultType op p.1.type, l.span.upTo r.span⟩)
        (.ok ⟨.binary op p'.1 p'.2, resultType op p'.1.type, l.span.upTo r.span⟩) := by
    rintro p _ rfl
    refine .ok ?_
    dsimp only [Prod.map, Renames]
    rw [type_renamed, renamed_resultType]
    rfl
  unfold ofOperands
  simp only [← renamed_asValue, type_renamed, span_renamed, Ty.isDependent_renamed,
    renamed_resultType]
  split
  · exact .ok rfl
  · split
    · exact .ok rfl
    · cases op with
      | arithmetic op =>
        exact (follows_checkArithmetic l.asValue).bind fun _ _ _ =>
          (follows_checkArithmetic r.asValue).bind fun _ _ _ =>
            (follows_common l.asValue r.asValue).bind meet
      | _ => exact (follows_common l.asValue r.asValue).bind meet

theorem follows_ofBinary (op : BinaryOp) (l r : Expr) :
    σ.Follows (Renames σ) (ofBinary op l r) (ofBinary op (l.renamed σ) (r.renamed σ)) := by
  cases op with
  | connective op => exact follows_ofConnective op l r
  | _ => exact follows_ofOperands _ l r

theorem follows_bindArguments : ∀ (es : List Expr) (ts : List Ty),
    σ.Follows (fun es es' => es' = allRenamed σ es) (bindArguments es ts)
      (bindArguments (allRenamed σ es) (Ty.allRenamed σ ts))
  | [], _ | _ :: _, [] => .ok rfl
  | e :: es, t :: ts => by
    refine (follows_initializer e t).bind fun _ _ same => ?_
    subst same
    refine (follows_bindArguments es ts).bind fun _ _ same => ?_
    subst same
    exact .ok rfl

theorem follows_ofCall (callee : Expr) (es : List Expr) (span : Span) :
    σ.Follows (Renames σ) (ofCall callee es span)
      (ofCall (callee.renamed σ) (allRenamed σ es) span) := by
  have values : (allRenamed σ es).map asValue = allRenamed σ (es.map asValue) := by
    simp [allRenamed_eq_map]
  have unknown (type : Ty) : σ.Follows (Renames σ)
      (if type.isDependent then .ok (⟨.call callee (es.map asValue), .auto, span⟩ : Expr)
        else .error (callee.mismatch "a function"))
      (if (type.renamed σ).isDependent then
        .ok ⟨.call (callee.renamed σ) ((allRenamed σ es).map asValue), .auto, span⟩
      else .error ((callee.renamed σ).mismatch "a function")) := by
    rw [Ty.isDependent_renamed, values]
    split
    · exact .ok rfl
    · exact .error (follows_mismatch _ callee)
  unfold ofCall
  rw [type_renamed, ← Ty.renamed_valueType]
  generalize callee.type.valueType = type
  cases type with
  | function ts result =>
    have parameters : (Ty.allRenamed σ ts).length = ts.length := by simp [Ty.allRenamed_eq_map]
    have arguments : (allRenamed σ es).length = es.length := by simp [allRenamed_eq_map]
    dsimp only [Ty.renamed]
    rw [parameters, arguments]
    by_cases more : ts.length < es.length
    · simp only [if_pos more]
      exact .fault (.tooManyArguments _ _) _
    · by_cases fewer : es.length < ts.length
      · simp only [if_neg more, if_pos fewer]
        exact .fault (.tooFewArguments _ _) _
      · simp only [if_neg more, if_neg fewer]
        refine (follows_bindArguments es ts).bind fun _ _ same => ?_
        subst same
        exact .ok rfl
  | _ => exact unknown _

theorem follows_ofAssign (l r : Expr) :
    σ.Follows (Renames σ) (ofAssign l r) (ofAssign (l.renamed σ) (r.renamed σ)) := by
  unfold ofAssign
  rw [type_renamed, ← Ty.renamed_valueType, ← renamed_asValue, span_renamed, span_renamed]
  refine (follows_initializer r.asValue l.type.valueType).bind fun _ _ same => ?_
  subst same
  exact .ok rfl

end Expr

end Deferral
