import Deferral.Proofs.Conversion.Qualification

/-!
# The standard conversions

An expression converts to a type if the two are equivalent, if one number or truth value becomes another
that may hold it, or if qualifiers are gained; a reference is read first, unless a reference is wanted. What
comes of it is the expression inside at most one conversion of each of three kinds, in a fixed order.
-/

namespace Deferral

namespace Ty

/-- A value of one type, neither being qualified, becomes one of another kind, width or sign. -/
inductive Promotes : Ty → Ty → Prop
  | toBool (p : Nat) (s : Bool) : Promotes (.integer p s) .bool
  | ofBool (p : Nat) (s : Bool) : Promotes .bool (.integer p s)
  | widen {p p' : Nat} (s s' : Bool) : p < p' → Promotes (.integer p s) (.integer p' s')
  | resign (p : Nat) {s s' : Bool} : s ≠ s' → Promotes (.integer p s) (.integer p s')
  | widenFloat {p p' : Nat} : p < p' → Promotes (.float p) (.float p')
  | toFloat (p : Nat) (s : Bool) (p' : Nat) : Promotes (.integer p s) (.float p')

/-- Only truth values and numbers come of a promotion. -/
theorem Promotes.target {t u : Ty} (h : t.Promotes u) : u = .bool ∨ u.IsNumber := by
  cases h with
  | toBool => exact .inl rfl
  | ofBool | widen | resign => exact .inr (.inl ⟨_, _, rfl⟩)
  | widenFloat | toFloat => exact .inr (.inr ⟨_, rfl⟩)

/-- What is promoted gains the qualifiers that are wanted of it, since it is a copy. -/
theorem Promotes.requalifies {t u : Ty} (h : t.Promotes u.unqualified) (composed : u.Composed) :
    u.unqualified.Requalifies u := by
  have similar : u.unqualified.similar u = true :=
    (similar_iff_skeleton composed.unqualified composed).mpr (skeleton_unqualified u)
  refine ⟨similar, ?_⟩
  cases u with
  | qualified inner q =>
    simp only [unqualified] at h ⊢
    rcases h.target with rfl | ⟨p, s, rfl⟩ | ⟨p, rfl⟩ <;> rfl
  | _ => exact Qualifiers.convertible_self _

/-- The types that a standard conversion leads between, once a reference has been read. -/
def Converts (source target : Ty) : Prop :=
  source.equivalent target = true ∨ Promotes source.unqualified target.unqualified ∨
    source.Requalifies target

/-- The type of what is converted: what a reference refers to, unless a reference is wanted. -/
def readFor (source target : Ty) : Ty := if target.isReference then source else source.referent

end Ty

namespace Expr

/-- An expression, or a conversion of one of some kinds around it. -/
def AtMost (kinds : List Conversion) (span : Span) (e e' : Expr) : Prop :=
  e' = e ∨ ∃ kind ∈ kinds, ∃ type, e' = ⟨.converted kind e, type, span⟩

/-- An expression inside at most one conversion that reads it, at most one of its value and at most one of
its qualifiers, in this order from the inside and all in its own place. -/
def Climbs (e e' : Expr) : Prop :=
  ∃ read promoted, AtMost [.value] e.span e read ∧
    AtMost [.boolean, .integer, .float] e.span read promoted ∧ AtMost [.qualification] e.span promoted e'

variable {e : Expr} {target : Ty}

theorem AtMost.span {kinds : List Conversion} {e' : Expr} (h : AtMost kinds e.span e e') :
    e'.span = e.span := by
  rcases h with rfl | ⟨_, -, _, rfl⟩ <;> rfl

/-! ## The three steps -/

theorem type_categoryConverted (e : Expr) (target : Ty) :
    (e.categoryConverted target).type = e.type.readFor target := by
  unfold categoryConverted Ty.readFor
  split
  · rfl
  · exact type_dereferenced e

theorem atMost_categoryConverted (e : Expr) (target : Ty) :
    AtMost [.value] e.span e (e.categoryConverted target) := by
  unfold categoryConverted dereferenced
  split
  · exact .inl rfl
  · split
    · exact .inr ⟨.value, List.mem_singleton_self _, _, rfl⟩
    · exact .inl rfl

/-- The step that a value takes on its way to a type: one of number or truth value to that type without its
qualifiers, where there is one, and none otherwise. -/
inductive Stepped (e : Expr) (target : Ty) : Expr → Prop
  | taken {kind : Conversion} : kind ∈ [Conversion.boolean, .integer, .float] →
      e.type.unqualified.Promotes target → Stepped e target (e.convert kind target)
  | left : ¬ e.type.unqualified.Promotes target → Stepped e target e

theorem stepped_toBoolean (e : Expr) : Stepped e .bool (e.toBoolean .bool) := by
  unfold toBoolean Ty.isInteger
  cases source : e.type.unqualified with
  | integer p s => exact .taken (by simp) (source ▸ .toBool p s)
  | _ => exact .left fun promotes => by rw [source] at promotes; cases promotes

theorem stepped_toInteger (e : Expr) (p : Nat) (s : Bool) :
    Stepped e (.integer p s) (e.toInteger (.integer p s)) := by
  unfold toInteger
  cases source : e.type.unqualified with
  | bool => exact .taken (by simp) (source ▸ .ofBool p s)
  | integer p' s' =>
    simp only [Ty.unqualified]
    split
    · rename_i wider
      refine .taken (by simp) (source ▸ ?_)
      rcases wider with lt | ⟨rfl, ne⟩
      · exact .widen s' s lt
      · exact .resign p' ne
    · rename_i narrow
      refine .left (source ▸ fun promotes => narrow ?_)
      cases promotes with
      | widen _ _ lt => exact .inl lt
      | resign _ ne => exact .inr ⟨rfl, ne⟩
  | _ => exact .left fun promotes => by rw [source] at promotes; cases promotes

theorem stepped_toFloat (e : Expr) (p : Nat) : Stepped e (.float p) (e.toFloat (.float p)) := by
  unfold toFloat toWiderFloat integerToFloat Ty.isFloat Ty.isInteger
  cases source : e.type.unqualified with
  | integer p' s => exact .taken (by simp) (source ▸ .toFloat p' s p)
  | float p' =>
    simp only [Ty.unqualified, if_true]
    split
    · rename_i lt
      exact .taken (by simp) (source ▸ .widenFloat lt)
    · rename_i narrow
      refine .left (source ▸ fun promotes => narrow ?_)
      cases promotes with
      | widenFloat lt => exact lt
  | _ => exact .left fun promotes => by rw [source] at promotes; cases promotes

theorem stepped_valueConverted (read : e.type.isReference = true → target.isReference = true) :
    Stepped e target.unqualified (e.valueConverted target) := by
  unfold valueConverted
  split
  · rename_i reference
    refine .left fun promotes => ?_
    have wanted := read reference
    rcases promotes.target with bool | ⟨p, s, integer⟩ | ⟨p, float⟩ <;>
      cases target <;> simp_all [Ty.isReference, Ty.unqualified]
  · cases wanted : target.unqualified with
    | bool => exact stepped_toBoolean e
    | integer p s => exact stepped_toInteger e p s
    | float p => exact stepped_toFloat e p
    | _ =>
      refine .left fun promotes => ?_
      rcases promotes.target with bool | ⟨p, s, integer⟩ | ⟨p, float⟩ <;> contradiction

theorem qualificationConverted_of_requalifies (h : e.type.Requalifies target) :
    e.qualificationConverted target = e.convert .qualification target := by
  unfold qualificationConverted
  rw [h.similar, h.convertible]
  rfl

theorem qualificationConverted_of_not_requalifies (h : ¬ e.type.Requalifies target) :
    e.qualificationConverted target = e := by
  unfold qualificationConverted
  split
  · rename_i both
    obtain ⟨similar, convertible⟩ := Bool.and_eq_true_iff.mp both
    exact absurd ⟨similar, convertible⟩ h
  · rfl

/-! ## All three -/

theorem convertTo_of_equivalent (same : e.type.equivalent target = true) : e.convertTo target = .ok e := by
  have first : e.categoryConverted target = e := by
    obtain ⟨node, type, span⟩ := e
    unfold categoryConverted
    split
    · rfl
    · cases type with
      | reference _ => cases target <;> simp_all [Ty.equivalent, Ty.isReference]
      | _ => rfl
  simp [convertTo, first, same]

/-- What comes of a conversion, and when it is refused. -/
inductive Outcome (e : Expr) (target : Ty) : Except Diagnostic Expr → Prop
  | converted {e' : Expr} : (e.type.readFor target).Converts target → e'.type.equivalent target = true →
      Climbs e e' → Outcome e target (.ok e')
  | refused : ¬ (e.type.readFor target).Converts target → Outcome e target (.error {
      cause := .noConversion e.type.shown target.shown
      position := e.start })

theorem outcome_convertTo (source : e.type.Composed) (composed : target.Composed) :
    Outcome e target (e.convertTo target) := by
  have read := atMost_categoryConverted e target
  have type := type_categoryConverted e target
  have plain : (e.categoryConverted target).type.isReference = true → target.isReference = true := by
    rw [type, Ty.readFor]
    split
    · rename_i wanted
      exact fun _ => wanted
    · cases own : e.type with
      | reference t =>
        rw [own] at source
        exact fun reference => absurd (source.2.symm.trans reference) (by decide)
      | _ => exact fun reference => by cases reference
  have step := stepped_valueConverted plain
  have itself := composed.equivalent_self
  unfold convertTo
  dsimp only
  generalize e.categoryConverted target = first at *
  split
  · rename_i same
    exact .converted (type ▸ .inl same) same ⟨first, first, read, .inl rfl, .inl rfl⟩
  rename_i different
  generalize first.valueConverted target = second at *
  cases step with
  | @taken kind known promotes =>
    have climbs : AtMost [.boolean, .integer, .float] e.span first
        (first.convert kind target.unqualified) :=
      .inr ⟨kind, known, _, by rw [← read.span]; rfl⟩
    have converts : (e.type.readFor target).Converts target := type ▸ .inr (.inl promotes)
    split
    · rename_i same
      exact .converted converts same ⟨first, _, read, climbs, .inl rfl⟩
    · have gains : (first.convert kind target.unqualified).type.Requalifies target :=
        promotes.requalifies composed
      rw [qualificationConverted_of_requalifies gains, type_convert, if_pos itself]
      exact .converted converts itself ⟨first, _, read, climbs,
        .inr ⟨.qualification, List.mem_singleton_self _, _, by rw [← read.span]; rfl⟩⟩
  | left stays =>
    rw [if_neg different]
    by_cases gains : first.type.Requalifies target
    · rw [qualificationConverted_of_requalifies gains, type_convert, if_pos itself]
      exact .converted (type ▸ .inr (.inr gains)) itself ⟨first, first, read, .inl rfl,
        .inr ⟨.qualification, List.mem_singleton_self _, _, by rw [← read.span]; rfl⟩⟩
    · rw [qualificationConverted_of_not_requalifies gains, if_neg different, start, read.span]
      refine .refused (type ▸ ?_)
      rintro (same | promotes | requalifies)
      · exact different same
      · exact stays promotes
      · exact gains requalifies

/-- A conversion succeeds exactly where a standard conversion leads from the type of what is read to the
type that is wanted. What comes of it has that type, is the expression inside at most one conversion of each
kind, and the expression itself if that had the type already. -/
theorem convertTo_decides_standard_conversions (e : Expr) (target : Ty) (source : e.type.Composed)
    (composed : target.Composed) :
    ((∃ e', e.convertTo target = .ok e') ↔ (e.type.readFor target).Converts target) ∧
    (∀ e', e.convertTo target = .ok e' → e'.type.equivalent target = true ∧ Climbs e e' ∧
      (e.type.equivalent target = true → e' = e)) ∧
    ∀ d, e.convertTo target = .error d →
      d = { cause := .noConversion e.type.shown target.shown, position := e.start } := by
  have outcome := outcome_convertTo source composed
  refine ⟨⟨?_, fun converts => ?_⟩, fun e' done => ?_, fun d failed => ?_⟩
  · rintro ⟨e', done⟩
    rw [done] at outcome
    cases outcome with
    | converted converts _ _ => exact converts
  · cases done : e.convertTo target with
    | ok e' => exact ⟨e', rfl⟩
    | error d =>
      rw [done] at outcome
      cases outcome with
      | refused refuses => exact absurd converts refuses
  · have unchanged (same : e.type.equivalent target = true) : e' = e :=
      Except.ok.inj (done.symm.trans (convertTo_of_equivalent same))
    rw [done] at outcome
    cases outcome with
    | converted _ same climbs => exact ⟨same, climbs, unchanged⟩
  · rw [failed] at outcome
    cases outcome with
    | refused _ => rfl

/-- A use of something of a type. -/
def useOf (type : Ty) : Expr := ⟨.name ⟨0⟩ "x", type, .nowhere⟩

/-- A reference to `int32` becomes an `int64 const`, while an `int32 const*` becomes no `int32*`. -/
theorem convertTo_decides_of_useOf :
    (∃ e', (useOf (.reference (.int 32))).convertTo (.qualified (.int 64) .const) = .ok e' ∧
      Climbs (useOf (.reference (.int 32))) e' ∧ e'.type.equivalent (.qualified (.int 64) .const) = true) ∧
    ¬ ∃ e', (useOf (.pointer (.qualified (.int 32) .const))).convertTo (.pointer (.int 32)) = .ok e' := by
  have const (p : Nat) : (Ty.qualified (.int p) .const).Composed := ⟨trivial, ⟨rfl, rfl⟩, by decide⟩
  obtain ⟨succeeds, becomes, -⟩ := convertTo_decides_standard_conversions (useOf (.reference (.int 32)))
    (.qualified (.int 64) .const) ⟨trivial, rfl⟩ (const 64)
  obtain ⟨refused, -⟩ := convertTo_decides_standard_conversions
    (useOf (.pointer (.qualified (.int 32) .const))) (.pointer (.int 32)) (const 32) trivial
  refine ⟨?_, fun done => ?_⟩
  · obtain ⟨e', done⟩ := succeeds.mpr (.inr (.inl (.widen true true (by decide))))
    obtain ⟨same, climbs, -⟩ := becomes e' done
    exact ⟨e', done, climbs, same⟩
  · rcases refused.mp done with same | promotes | gains
    · cases same
    · cases promotes
    · exact absurd gains.convertible (by decide)

end Expr

end Deferral
