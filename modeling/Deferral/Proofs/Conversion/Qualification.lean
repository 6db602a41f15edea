import Mathlib.Logic.Relation
import Deferral.Proofs.Conversion.NormalForm

/-!
# The order of qualification

On types that are put together from read parts, equivalence and similarity are equality of what is left
when names, or names and qualifiers, are forgotten. A type gains qualifiers when it becomes a similar type
to whose signature its own converts. That is a preorder, so that a chain of such steps reaches nothing that
one step does not, and it goes both ways only between types that agree below the top layer.
-/

namespace Deferral

/-! ## Types put together from read parts -/

mutual

/-- Every layer stands where it may, and no part is deferred or left to the type of an expression. -/
def Ty.Composed : Ty → Prop
  | .function parameters result => Ty.AllComposed parameters ∧ result.Composed
  | .reference t => t.Composed ∧ t.isReference = false
  | .qualified t q => t.Composed ∧ t.IsValue ∧ q ≠ .empty
  | .pointer t | .array t _ | .sequence t => t.Composed
  | .decltype _ | .deferred _ => False
  | _ => True

def Ty.AllComposed : List Ty → Prop
  | [] => True
  | t :: rest => t.Composed ∧ Ty.AllComposed rest

/-- A type without the names that its declarations are called by. -/
def Ty.nameless : Ty → Ty
  | .function parameters result => .function (Ty.allNameless parameters) result.nameless
  | .reference t => .reference t.nameless
  | .qualified t q => .qualified t.nameless q
  | .pointer t => .pointer t.nameless
  | .array t n => .array t.nameless n
  | .sequence t => .sequence t.nameless
  | .named sort decl _ => .named sort decl ""
  | t => t

def Ty.allNameless : List Ty → List Ty
  | [] => []
  | t :: rest => t.nameless :: Ty.allNameless rest

end

namespace Ty

/-- A type without the qualifiers of its layers. -/
def stripped : Ty → Ty
  | .qualified t _ => t.stripped
  | .pointer t => .pointer t.stripped
  | .array t n => .array t.stripped n
  | .sequence t => .sequence t.stripped
  | t => t

/-- A type without names and without the qualifiers of its layers. -/
def skeleton (t : Ty) : Ty := t.nameless.stripped

/-- A value of one type becomes one of a similar type by gaining qualifiers. -/
structure Requalifies (t u : Ty) : Prop where
  similar : t.similar u = true
  convertible : Qualifiers.convertible t.signature u.signature = true

namespace Composed

theorem unqualified {t : Ty} (h : t.Composed) : t.unqualified.Composed := by
  cases t with
  | qualified inner q => exact h.1
  | _ => exact h

theorem referent {t : Ty} (h : t.Composed) : t.referent.Composed := by
  cases t with
  | reference t => exact h.1
  | _ => exact h

theorem isQualified_unqualified {t : Ty} (h : t.Composed) : t.unqualified.isQualified = false := by
  cases t with
  | qualified inner q => exact h.2.1.qualified
  | _ => rfl

end Composed

/-! ## Equivalence -/

mutual

theorem equivalent_iff_nameless : ∀ {t : Ty}, t.Composed → ∀ u : Ty,
    t.equivalent u = true ↔ t.nameless = u.nameless
  | .void, _, u | .bool, _, u | .auto, _, u | .decltypeAuto, _, u | .metatype, _, u
  | .integer _ _, _, u | .float _, _, u | .named _ _ _, _, u => by
    cases u <;> simp [equivalent, nameless]
  | .function ts t, h, u => by
    cases u <;> simp [equivalent, nameless, equivalentAll_iff_nameless h.1, equivalent_iff_nameless h.2]
  | .reference t, h, u | .qualified t _, h, u => by
    cases u <;> simp [equivalent, nameless, equivalent_iff_nameless h.1, and_comm]
  | .pointer t, h, u | .sequence t, h, u | .array t _, h, u => by
    cases u <;> simp [equivalent, nameless, equivalent_iff_nameless (t := t) h, and_comm]
  | .decltype _, h, _ | .deferred _, h, _ => h.elim

theorem equivalentAll_iff_nameless : ∀ {ts : List Ty}, AllComposed ts → ∀ us : List Ty,
    equivalentAll ts us = true ↔ allNameless ts = allNameless us
  | [], _, us => by cases us <;> simp [equivalentAll, allNameless]
  | _ :: _, h, us => by
    cases us <;> simp [equivalentAll, allNameless, equivalent_iff_nameless h.1,
      equivalentAll_iff_nameless h.2]

end

theorem Composed.equivalent_self {t : Ty} (h : t.Composed) : t.equivalent t = true :=
  (equivalent_iff_nameless h t).mpr rfl

/-! ## Similarity -/

theorem skeleton_unqualified (t : Ty) : t.unqualified.skeleton = t.skeleton := by
  cases t <;> simp [Ty.unqualified, skeleton, nameless, stripped]

/-- A type of one layer is similar to what has the same layer below its qualifiers. -/
theorem similar_iff_skeleton : ∀ {t : Ty}, t.Composed → ∀ {u : Ty}, u.Composed →
    (t.similar u = true ↔ t.skeleton = u.skeleton)
  | .qualified t q, h, u, h' => by
    have same : (qualified t q).similar u = t.similar u := by
      rw [similar, similar, h.2.1.unqualified_eq]
      rfl
    rw [same]
    exact similar_iff_skeleton h.1 h'
  | .pointer t, h, u, h' => by
    rw [similar, ← skeleton_unqualified u]
    have composed := h'.unqualified
    cases bare : u.unqualified with
    | pointer v =>
      rw [bare] at composed
      simpa [similar, Ty.unqualified, similarBare_pointer, skeleton, nameless, stripped] using
        similar_iff_skeleton (t := t) h (u := v) composed
    | qualified v q => simpa [bare, isQualified] using h'.isQualified_unqualified
    | _ => simp [Ty.unqualified, similarBare, equivalent, skeleton, nameless, stripped]
  | .sequence t, h, u, h' => by
    rw [similar, ← skeleton_unqualified u]
    have composed := h'.unqualified
    cases bare : u.unqualified with
    | sequence v =>
      rw [bare] at composed
      simpa [similar, Ty.unqualified, similarBare_sequence, skeleton, nameless, stripped] using
        similar_iff_skeleton (t := t) h (u := v) composed
    | qualified v q => simpa [bare, isQualified] using h'.isQualified_unqualified
    | _ => simp [Ty.unqualified, similarBare, equivalent, skeleton, nameless, stripped]
  | .array t n, h, u, h' => by
    rw [similar, ← skeleton_unqualified u]
    have composed := h'.unqualified
    cases bare : u.unqualified with
    | array v m =>
      rw [bare] at composed
      simpa [similar, Ty.unqualified, similarBare_array, skeleton, nameless, stripped,
        and_comm] using
        and_congr_right fun _ : n = m => similar_iff_skeleton (t := t) h (u := v) composed
    | qualified v q => simpa [bare, isQualified] using h'.isQualified_unqualified
    | _ => simp [Ty.unqualified, similarBare, equivalent, skeleton, nameless, stripped]
  | .void, h, u, h' | .bool, h, u, h' | .auto, h, u, h' | .decltypeAuto, h, u, h'
  | .metatype, h, u, h' | .integer _ _, h, u, h' | .float _, h, u, h' | .named _ _ _, h, u, h'
  | .function _ _, h, u, h' | .reference _, h, u, h' => by
    rw [similar, ← skeleton_unqualified u]
    cases bare : u.unqualified with
    | qualified v q => simpa [bare, isQualified] using h'.isQualified_unqualified
    | _ => simp [Ty.unqualified, similarBare, equivalent_iff_nameless h, skeleton, nameless, stripped]

/-! ## Signatures -/

attribute [local simp] signature

theorem signature_eq_cons {t : Ty} (bare : t.isQualified = false) :
    t.signature = .empty :: t.signature.tail := by
  cases t <;> simp_all [isQualified]

theorem signature_qualified {t : Ty} (bare : t.isQualified = false) (q : Qualifiers) :
    (qualified t q).signature = q :: t.signature.tail := by
  cases t <;> simp_all [isQualified]

/-- Forgetting qualifiers leaves as many layers as there were. -/
theorem length_signature_skeleton : ∀ {t : Ty}, t.Composed →
    t.skeleton.signature.length = t.signature.length
  | .qualified t q, h => by
    have bare := h.2.1.qualified
    have inner := length_signature_skeleton h.1
    rw [signature_eq_cons bare] at inner
    simpa [skeleton, nameless, stripped, signature_qualified bare] using inner
  | .pointer t, h | .sequence t, h | .array t _, h => by
    simpa [skeleton, nameless, stripped] using length_signature_skeleton (t := t) h
  | .void, _ | .bool, _ | .auto, _ | .decltypeAuto, _ | .metatype, _ | .integer _ _, _ => rfl
  | .float _, _ | .named _ _ _, _ | .function _ _, _ | .reference _, _ => rfl
  | .decltype _, h | .deferred _, h => h.elim

/-- A type whose layers get qualifiers, the outermost first. -/
def dressed : Ty → List Qualifiers → Ty
  | .pointer t, q :: rest => (pointer (t.dressed rest)).addQualifiers q
  | .array t n, q :: rest => (array (t.dressed rest) n).addQualifiers q
  | .sequence t, q :: rest => (sequence (t.dressed rest)).addQualifiers q
  | t, q :: _ => t.addQualifiers q
  | t, [] => t

theorem dressed_cons (t : Ty) (q : Qualifiers) (rest : List Qualifiers) :
    t.dressed (q :: rest) = (t.dressed (.empty :: rest)).addQualifiers q := by
  cases t <;> simp [dressed]

theorem addQualifiers_nameless {t : Ty} (value : t.IsValue) {q : Qualifiers} (some : q ≠ .empty) :
    t.nameless.addQualifiers q = qualified t.nameless q := by
  obtain ⟨reference, bare⟩ := value
  cases t <;> simp_all [nameless, addQualifiers, isReference, isQualified]

/-- A type is its skeleton with the qualifiers of its signature. -/
theorem dressed_skeleton : ∀ {t : Ty}, t.Composed → t.skeleton.dressed t.signature = t.nameless
  | .qualified t q, h => by
    have bare := h.2.1.qualified
    have inner := dressed_skeleton h.1
    rw [signature_eq_cons bare] at inner
    have same : (qualified t q).skeleton = t.skeleton := rfl
    rw [signature_qualified bare, same, dressed_cons, inner, nameless,
      addQualifiers_nameless h.2.1 h.2.2]
  | .pointer t, h | .sequence t, h | .array t _, h => by
    have inner := dressed_skeleton (t := t) h
    unfold skeleton at inner
    simp [skeleton, stripped, dressed, nameless, inner]
  | .void, _ | .bool, _ | .auto, _ | .decltypeAuto, _ | .metatype, _ | .integer _ _, _
  | .float _, _ | .named _ _ _, _ | .function _ _, _ | .reference _, _ => by
    simp [skeleton, stripped, dressed, nameless]
  | .decltype _, h | .deferred _, h => h.elim

theorem signature_nameless : ∀ {t : Ty}, t.Composed → t.nameless.signature = t.signature
  | .qualified t q, h => by
    have bare := h.2.1.qualified
    have bare' : t.nameless.isQualified = false := by cases t <;> simp_all [nameless, isQualified]
    rw [nameless, signature_qualified bare, signature_qualified bare', signature_nameless h.1]
  | .pointer t, h | .sequence t, h | .array t _, h => by
    simp [nameless, signature_nameless (t := t) h]
  | .void, _ | .bool, _ | .auto, _ | .decltypeAuto, _ | .metatype, _ | .integer _ _, _ => rfl
  | .float _, _ | .named _ _ _, _ | .function _ _, _ | .reference _, _ => rfl
  | .decltype _, h | .deferred _, h => h.elim

theorem equivalent_iff_similar_signature {t u : Ty} (h : t.Composed) (h' : u.Composed) :
    t.equivalent u = true ↔ t.similar u = true ∧ t.signature = u.signature := by
  rw [equivalent_iff_nameless h, similar_iff_skeleton h h']
  constructor
  · intro same
    exact ⟨congrArg stripped same, by rw [← signature_nameless h, same, signature_nameless h']⟩
  · rintro ⟨shape, layers⟩
    rw [← dressed_skeleton h, ← dressed_skeleton h', shape, layers]

end Ty

/-! ## Convertible signatures -/

namespace Qualifiers

variable {q r s : Qualifiers} {source middle target : List Qualifiers}

theorem within_self (q : Qualifiers) : q.within q = true := by
  simp [within]

theorem within_trans (h : q.within r = true) (h' : r.within s = true) : q.within s = true := by
  simp only [within, Bool.and_eq_true, Bool.or_eq_true, Bool.not_eq_true'] at h h' ⊢
  grind

theorem within_antisymm (h : q.within r = true) (h' : r.within q = true) : q = r := by
  obtain ⟨c, v⟩ := q
  obtain ⟨c', v'⟩ := r
  simp only [within, Bool.and_eq_true, Bool.or_eq_true, Bool.not_eq_true'] at h h'
  grind

theorem isConst_of_within (h : q.within r = true) (const : q.isConst = true) : r.isConst = true := by
  simp_all [within]

theorem lowerConvertible_cons : lowerConvertible (q :: source) (r :: target) = true ↔
    q.within r = true ∧ (source = target ∨ r.isConst = true) ∧ lowerConvertible source target = true := by
  simp [lowerConvertible, and_assoc]

theorem lowerConvertible_self : ∀ source : List Qualifiers, lowerConvertible source source = true
  | [] => rfl
  | q :: source => lowerConvertible_cons.mpr ⟨within_self q, .inl rfl, lowerConvertible_self source⟩

/-- A layer above one that differs at the end of two steps is above one that differs at the end of one of
them, and what is `const` stays so. -/
theorem lowerConvertible_trans : ∀ {source middle target : List Qualifiers},
    lowerConvertible source middle = true → lowerConvertible middle target = true →
    lowerConvertible source target = true
  | [], [], [], _, _ => rfl
  | q :: source, r :: middle, s :: target, h, h' => by
    obtain ⟨within, above, rest⟩ := lowerConvertible_cons.mp h
    obtain ⟨within', above', rest'⟩ := lowerConvertible_cons.mp h'
    refine lowerConvertible_cons.mpr ⟨within_trans within within', ?_, lowerConvertible_trans rest rest'⟩
    rcases above' with rfl | const
    · exact above.imp_right (isConst_of_within within')
    · exact .inr const

theorem eq_of_lowerConvertible : ∀ {source target : List Qualifiers},
    lowerConvertible source target = true → lowerConvertible target source = true → source = target
  | [], [], _, _ => rfl
  | q :: source, r :: target, h, h' => by
    obtain ⟨within, -, rest⟩ := lowerConvertible_cons.mp h
    obtain ⟨within', -, rest'⟩ := lowerConvertible_cons.mp h'
    rw [within_antisymm within within', eq_of_lowerConvertible rest rest']

theorem convertible_self : ∀ source : List Qualifiers, convertible source source = true
  | [] => rfl
  | _ :: source => lowerConvertible_self source

theorem convertible_trans : ∀ {source middle target : List Qualifiers},
    convertible source middle = true → convertible middle target = true → convertible source target = true
  | [], [], [], _, _ => rfl
  | _ :: _, _ :: _, _ :: _, h, h' => lowerConvertible_trans h h'

theorem tail_eq_of_convertible : ∀ {source target : List Qualifiers},
    convertible source target = true → convertible target source = true → source.tail = target.tail
  | [], [], _, _ => rfl
  | _ :: _, _ :: _, h, h' => eq_of_lowerConvertible h h'

end Qualifiers

/-! ## The order -/

namespace Ty

/-- A type that is put together from read parts. -/
abbrev Composite : Type := { t : Ty // t.Composed }

theorem equivalence_equivalent : Equivalence fun t u : Composite => t.1.equivalent u.1 = true := by
  simp only [fun t u : Composite => equivalent_iff_nameless t.2 u.1]
  exact ⟨fun _ => rfl, fun same => same.symm, fun same same' => same.trans same'⟩

theorem equivalence_similar : Equivalence fun t u : Composite => t.1.similar u.1 = true := by
  simp only [fun t u : Composite => similar_iff_skeleton t.2 u.2]
  exact ⟨fun _ => rfl, fun same => same.symm, fun same same' => same.trans same'⟩

theorem length_signature_of_similar {t u : Ty} (h : t.Composed) (h' : u.Composed)
    (similar : t.similar u = true) : t.signature.length = u.signature.length := by
  rw [← length_signature_skeleton h, (similar_iff_skeleton h h').mp similar, length_signature_skeleton h']

namespace Requalifies

theorem refl (t : Composite) : t.1.Requalifies t.1 :=
  ⟨equivalence_similar.refl t, Qualifiers.convertible_self _⟩

theorem trans {t u v : Composite} (h : t.1.Requalifies u.1) (h' : u.1.Requalifies v.1) :
    t.1.Requalifies v.1 :=
  ⟨equivalence_similar.trans h.similar h'.similar,
    Qualifiers.convertible_trans h.convertible h'.convertible⟩

/-- By induction on the chain. -/
theorem of_chain {t u : Composite}
    (chain : Relation.ReflTransGen (fun t u : Composite => t.1.Requalifies u.1) t u) :
    t.1.Requalifies u.1 := by
  induction chain with
  | refl => exact refl t
  | tail _ last ih => exact ih.trans last

end Requalifies

/-- Equivalence and similarity are equivalences, similar types have as many layers and are equivalent when
these agree. Gaining qualifiers is a preorder, goes both ways only between types that agree below the top
layer, and in a chain reaches only what it reaches at once. -/
theorem qualification_is_sound_order :
    (Equivalence fun t u : Composite => t.1.equivalent u.1 = true) ∧
    (Equivalence fun t u : Composite => t.1.similar u.1 = true) ∧
    (∀ t u : Composite, t.1.similar u.1 = true → t.1.signature.length = u.1.signature.length) ∧
    (∀ t u : Composite, t.1.equivalent u.1 = true ↔
      t.1.similar u.1 = true ∧ t.1.signature = u.1.signature) ∧
    (∀ t : Composite, t.1.Requalifies t.1) ∧
    (∀ t u v : Composite, t.1.Requalifies u.1 → u.1.Requalifies v.1 → t.1.Requalifies v.1) ∧
    (∀ t u : Composite, t.1.Requalifies u.1 → u.1.Requalifies t.1 →
      t.1.signature.tail = u.1.signature.tail) ∧
    ∀ t u : Composite, Relation.ReflTransGen (fun t u : Composite => t.1.Requalifies u.1) t u →
      t.1.Requalifies u.1 :=
  ⟨equivalence_equivalent, equivalence_similar, fun t u => length_signature_of_similar t.2 u.2,
    fun t u => equivalent_iff_similar_signature t.2 u.2, Requalifies.refl,
    fun _ _ _ => Requalifies.trans,
    fun _ _ h h' => Qualifiers.tail_eq_of_convertible h.convertible h'.convertible,
    fun _ _ => Requalifies.of_chain⟩

/-- `int32` behind two pointers, the qualifiers of the lower layers given. -/
def behindTwoPointers (q r : Qualifiers) : Ty := pointer ((pointer ((int 32).addQualifiers r)).addQualifiers q)

/-- `int32**` becomes `int32 const* const*` in two steps and so at once, but never `int32 const**`. -/
theorem requalifies_behindTwoPointers :
    (behindTwoPointers .empty .empty).Requalifies (behindTwoPointers .const .const) ∧
      ¬ (behindTwoPointers .empty .empty).Requalifies (behindTwoPointers .empty .const) := by
  have value : (int 32).IsValue ∧ (pointer (int 32)).IsValue := ⟨⟨rfl, rfl⟩, ⟨rfl, rfl⟩⟩
  have lowest : ((int 32).addQualifiers .const).Composed := ⟨trivial, value.1, by decide⟩
  obtain ⟨-, -, -, -, -, -, -, chained⟩ := qualification_is_sound_order
  have first : (behindTwoPointers .const .empty).Composed := ⟨trivial, value.2, by decide⟩
  have second : (behindTwoPointers .const .const).Composed := ⟨lowest, ⟨rfl, rfl⟩, by decide⟩
  refine ⟨chained ⟨behindTwoPointers .empty .empty, trivial⟩ ⟨_, second⟩ (.tail (b := ⟨_, first⟩)
    (.single ⟨rfl, rfl⟩) ⟨rfl, rfl⟩), fun atOnce => ?_⟩
  exact absurd atOnce.convertible (by decide)

end Ty

end Deferral
