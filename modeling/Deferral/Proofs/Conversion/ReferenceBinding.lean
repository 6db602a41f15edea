import Mathlib.Data.List.Forall2
import Deferral.Proofs.Conversion.Qualification
import Deferral.Typing.Initializer

/-!
# Qualifiers behind references

A reference binds to an object as it is. Below the top layer the type that it refers to has the qualifiers of
the object's type, neither more nor less. At the top it may have any: the reference keeps the qualifiers of the
object exactly if those of the top layer are among its own.
-/

namespace Deferral

namespace Ty

theorem equivalent.isQualified {t u : Ty} (h : t.equivalent u = true) : t.isQualified = u.isQualified := by
  cases t <;> cases u <;> first | rfl | cases h

/-- A type that is qualified twice has one layer. -/
theorem signature_qualified_of_isQualified {t : Ty} (twice : t.isQualified = true) (q : Qualifiers) :
    (qualified t q).signature = [q] := by
  cases t with
  | qualified inner r => rfl
  | _ => cases twice

/-- Equivalent types have the same qualifiers at each layer. -/
theorem equivalent.signature : ∀ {t u : Ty}, t.equivalent u = true → t.signature = u.signature
  | .pointer t, u, h | .sequence t, u, h => by
    cases u <;> simp [equivalent] at h
    simpa [Ty.signature] using equivalent.signature (t := t) h
  | .array t _, u, h => by
    cases u <;> simp [equivalent] at h
    simpa [Ty.signature] using equivalent.signature (t := t) h.2
  | .qualified t q, u, h => by
    cases u with
    | qualified v r =>
      simp only [equivalent, Bool.and_eq_true, beq_iff_eq] at h
      obtain ⟨rfl, inner⟩ := h
      cases bare : t.isQualified with
      | false =>
        rw [signature_qualified bare, signature_qualified (equivalent.isQualified inner ▸ bare),
          equivalent.signature inner]
      | true =>
        rw [signature_qualified_of_isQualified bare,
          signature_qualified_of_isQualified (equivalent.isQualified inner ▸ bare)]
    | _ => cases h
  | .void, u, h | .bool, u, h | .integer _ _, u, h | .float _, u, h | .auto, u, h | .decltype _, u, h
  | .decltypeAuto, u, h | .function _ _, u, h | .reference _, u, h | .named _ _ _, u, h | .metatype, u, h
  | .deferred _, u, h => by
    cases u <;> simp [equivalent] at h <;> rfl

theorem signature_eq_qualifiers_cons (t : Ty) : t.signature = t.qualifiers :: t.signature.tail := by
  cases t with
  | qualified inner q => cases inner <;> rfl
  | _ => rfl

/-- The lower layers of a type are those of what its outer qualifiers are around. -/
theorem tail_signature_of_unqualified {t u : Ty} (h : t.unqualified.equivalent u.unqualified = true) :
    t.signature.tail = u.signature.tail := by
  have lower : ∀ v : Ty, v.signature.tail =
      if v.unqualified.isQualified then [] else v.unqualified.signature.tail := fun v => by
    cases v with
    | qualified inner q => cases inner <;> rfl
    | _ => rfl
  rw [lower t, lower u, equivalent.isQualified h, equivalent.signature h]

end Ty

/-- Every qualifier of a type is on another at the same layer, and the layers are as many. -/
def Ty.QualifiersWithin (t u : Ty) : Prop :=
  List.Forall₂ (fun q r => q.within r = true) t.signature u.signature

/-- Types that agree below the top are compared at the top. -/
theorem Ty.qualifiersWithin_iff {t u : Ty} (lower : t.signature.tail = u.signature.tail) :
    t.QualifiersWithin u ↔ t.qualifiers.within u.qualifiers = true := by
  rw [QualifiersWithin, signature_eq_qualifiers_cons t, signature_eq_qualifiers_cons u, lower,
    List.forall₂_cons]
  exact and_iff_left (List.forall₂_same.mpr fun q _ => Qualifiers.within_self q)

/-- A reference that binds to an expression binds to it unchanged, and the object and what the reference refers
to agree in every layer but the top. So no qualifier is dropped exactly if none is at the top. -/
theorem Expr.reference_keeps_qualifiers_iff {e e' : Expr} {referenced : Ty}
    (known : e.type.isDependent = false) (known' : referenced.isDependent = false)
    (direct : referenced.isReference = false) (h : e.initializer (.reference referenced) = .ok e') :
    e' = e ∧ e.type.referent.signature.tail = referenced.signature.tail ∧
      (e.type.referent.QualifiersWithin referenced ↔
        e.type.referent.qualifiers.within referenced.qualifiers = true) := by
  have settled : (Ty.reference referenced).isDependent = false := known'
  simp only [initializer, known, settled, Bool.or_self, Bool.false_eq_true, if_false] at h
  split at h
  · rename_i same
    obtain rfl := Except.ok.inj h
    have target : referenced.referent = referenced := by
      cases referenced with
      | reference _ => cases direct
      | _ => rfl
    rw [Ty.valueType, Ty.valueType, target] at same
    have lower := Ty.tail_signature_of_unqualified same
    exact ⟨rfl, lower, Ty.qualifiersWithin_iff lower⟩
  · cases h

/-- A reference to a constant pointer binds to a pointer to a constant, and adds a qualifier at the top. -/
theorem Expr.reference_keeps_constant_behind_pointer :
    let constant := (Ty.int 32).addQualifiers .const
    let e : Expr := ⟨.name ⟨0⟩ "p", .pointer constant, default⟩
    e.initializer (.reference ((Ty.pointer constant).addQualifiers .const)) = .ok e ∧
      e.type.referent.QualifiersWithin ((Ty.pointer constant).addQualifiers .const) := by
  intro constant e
  have binds : e.initializer (.reference ((Ty.pointer constant).addQualifiers .const)) = .ok e := rfl
  obtain ⟨-, -, keeps⟩ := reference_keeps_qualifiers_iff (e := e) rfl rfl rfl binds
  exact ⟨binds, keeps.mpr rfl⟩

/-- A reference to `int32` binds to a constant of that type. -/
theorem Expr.reference_drops_constant :
    let e : Expr := ⟨.name ⟨0⟩ "x", (Ty.int 32).addQualifiers .const, default⟩
    e.type.isDependent = false ∧ e.initializer (.reference (.int 32)) = .ok e ∧
      ¬ e.type.referent.QualifiersWithin (.int 32) := by
  refine ⟨rfl, rfl, fun within => ?_⟩
  have lower : ((Ty.int 32).addQualifiers .const).signature.tail = (Ty.int 32).signature.tail := rfl
  have top := (Ty.qualifiersWithin_iff lower).mp within
  exact absurd top (by decide)

end Deferral
