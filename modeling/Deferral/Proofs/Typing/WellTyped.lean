import Mathlib
import Deferral.Proofs.Conversion.NormalForm
import Deferral.Resolution.Expression

/-!
# Well-typed expressions

One rule for each kind of node. A rule leaves open what a dependent operand turns out to be, and
asks everything of operands whose types are known. Everything that makes expressions, from the
standard conversions to whole phrases, makes well-typed ones.
-/

namespace Deferral

namespace Ty

/-- `bool`, or a type that may turn out to be. -/
def IsTruth (t : Ty) : Prop := t = .bool ∨ t.isDependent = true

/-- Arithmetic on operands of two types has the type `t`: that of the first dependent operand, or
else the one arithmetic type that both operands have. -/
inductive Meet : (left right t : Ty) → Prop
  | left {l r : Ty} : l.isDependent = true → Meet l r l
  | right {l r : Ty} : l.isDependent = false → r.isDependent = true → Meet l r r
  | both {l r : Ty} : l.isDependent = false → l.isArithmetic = true → r = l → Meet l r l

/-- Two types can be compared once they are known. -/
def Comparable (l r : Ty) : Prop :=
  l.isDependent = true ∨ r.isDependent = true ∨ l.equivalent r = true

/-- A value of one type initializes an object of another as it is: the types are equivalent, or a
reference binds to a value of the type it refers to. -/
def Fits (type target : Ty) : Prop :=
  type.isDependent = true ∨ target.isDependent = true ∨ type.equivalent target = true ∨
    ∃ referenced, target = .reference referenced ∧
      type.valueType.equivalent referenced.valueType = true

end Ty

/-- An expression is typed by the rules of its nodes, given the declarations in `table`. -/
inductive Expr.WellTyped (table : SymbolTable) : Expr → Prop
  | boolean {b : Bool} {s : Span} : WellTyped table ⟨.boolean b, .bool, s⟩
  | integer {n : Nat} {t : Ty} {s : Span} :
      n ≤ greatestInteger → t = (Expr.ofInteger n s).type → WellTyped table ⟨.integer n, t, s⟩
  | float {x : Float} {s : Span} : WellTyped table ⟨.float x, .float 64, s⟩
  | name {d : DeclId} {name : String} {declared t : Ty} {s : Span} :
      SymbolTable.typeOfUse? (table.decl d) = some declared → t.Normal →
      (t.isDependent = true ∨ t = declared) → WellTyped table ⟨.name d name, t, s⟩
  | negate {e : Expr} {s : Span} :
      WellTyped table e → e.type.IsValue →
      (e.type.isDependent = true ∨ e.type.isArithmetic = true) →
      WellTyped table ⟨.unary .negate e, e.type, s⟩
  | not {e : Expr} {s : Span} :
      WellTyped table e → e.type.IsTruth → WellTyped table ⟨.unary .not e, .bool, s⟩
  | connective {op : Connective} {l r : Expr} {s : Span} :
      WellTyped table l → WellTyped table r → l.type.IsTruth → r.type.IsTruth →
      WellTyped table ⟨.binary (.connective op) l r, .bool, s⟩
  | arithmetic {op : Arithmetic} {l r : Expr} {t : Ty} {s : Span} :
      WellTyped table l → WellTyped table r → l.type.IsValue → r.type.IsValue →
      Ty.Meet l.type r.type t → WellTyped table ⟨.binary (.arithmetic op) l r, t, s⟩
  | comparison {op : Comparison} {l r : Expr} {s : Span} :
      WellTyped table l → WellTyped table r → l.type.IsValue → r.type.IsValue →
      Ty.Comparable l.type r.type → WellTyped table ⟨.binary (.comparison op) l r, .bool, s⟩
  | call {callee : Expr} {arguments : List Expr} {parameters : List Ty} {result : Ty} {s : Span} :
      WellTyped table callee → (∀ e ∈ arguments, WellTyped table e) →
      callee.type.valueType = .function parameters result →
      List.Forall₂ (fun e => Ty.Fits e.type) arguments parameters →
      WellTyped table ⟨.call callee arguments, result, s⟩
  | callUnknown {callee : Expr} {arguments : List Expr} {s : Span} :
      WellTyped table callee → (∀ e ∈ arguments, WellTyped table e) →
      (∀ parameters result, callee.type.valueType ≠ .function parameters result) →
      callee.type.isDependent = true → WellTyped table ⟨.call callee arguments, .auto, s⟩
  | assign {target value : Expr} {s : Span} :
      WellTyped table target → WellTyped table value → value.type.IsValue →
      Ty.Comparable value.type target.type.valueType →
      WellTyped table ⟨.assign target value, target.type, s⟩
  | dereference {e : Expr} {t : Ty} {s : Span} :
      WellTyped table e → e.type = .reference t → WellTyped table ⟨.converted .value e, t, s⟩
  | toBoolean {e : Expr} {s : Span} :
      WellTyped table e → e.type.isInteger = true →
      WellTyped table ⟨.converted .boolean e, .bool, s⟩
  | toInteger {e : Expr} {p : Nat} {signed : Bool} {s : Span} :
      WellTyped table e → Ty.IsWidth p →
      (e.type.unqualified = .bool ∨ ∃ p' signed', e.type.unqualified = .integer p' signed' ∧
        (p' < p ∨ p' = p ∧ signed' ≠ signed)) →
      WellTyped table ⟨.converted .integer e, .integer p signed, s⟩
  | toFloat {e : Expr} {p : Nat} {s : Span} :
      WellTyped table e →
      (e.type.isInteger = true ∨ ∃ p', e.type.unqualified = .float p' ∧ p' < p) →
      WellTyped table ⟨.converted .float e, .float p, s⟩
  | unqualify {e : Expr} {t : Ty} {q : Qualifiers} {s : Span} :
      WellTyped table e → e.type = .qualified t q →
      WellTyped table ⟨.converted .qualification e, t, s⟩
  | requalify {e : Expr} {t : Ty} {s : Span} :
      WellTyped table e → t.Normal → e.type.similar t = true →
      Qualifiers.convertible e.type.signature t.signature = true →
      WellTyped table ⟨.converted .qualification e, t, s⟩

/-- What names a value in one table names one in the other, of the same type once that is not
dependent. -/
def SymbolTable.KeepsUses (t t' : SymbolTable) : Prop :=
  ∀ id type, typeOfUse? (t.decl id) = some type →
    ∃ type', typeOfUse? (t'.decl id) = some type' ∧ (type.isDependent = true ∨ type' = type)

namespace Expr

variable {table : SymbolTable}

theorem normal_type_ofInteger (n : Nat) (s : Span) : (ofInteger n s).type.Normal := by
  simp only [ofInteger, type_mk]
  split <;> simp [Ty.Normal, Ty.IsWidth, Ty.int]

theorem WellTyped.normal {e : Expr} (h : e.WellTyped table) : e.Normal := by
  induction h with
  | boolean => exact ⟨trivial, trivial⟩
  | integer _ type => exact ⟨trivial, type ▸ normal_type_ofInteger _ _⟩
  | float => exact ⟨trivial, trivial⟩
  | name _ normal _ => exact ⟨trivial, normal⟩
  | negate _ _ _ ih => exact ⟨ih, ih.type⟩
  | not _ _ ih => exact ⟨ih, trivial⟩
  | connective _ _ _ _ ihl ihr => exact ⟨⟨ihl, ihr⟩, trivial⟩
  | arithmetic _ _ _ _ meet ihl ihr =>
    refine ⟨⟨ihl, ihr⟩, ?_⟩
    cases meet with
    | left _ => exact ihl.type
    | right _ _ => exact ihr.type
    | both _ _ _ => exact ihl.type
  | comparison _ _ _ _ _ ihl ihr => exact ⟨⟨ihl, ihr⟩, trivial⟩
  | call _ _ function _ ih ihs =>
    have normal := ih.type.valueType
    rw [function] at normal
    exact ⟨⟨ih, normalAll_iff.mpr ihs⟩, normal.2⟩
  | callUnknown _ _ _ _ ih ihs => exact ⟨⟨ih, normalAll_iff.mpr ihs⟩, trivial⟩
  | assign _ _ _ _ iht ihv => exact ⟨⟨iht, ihv⟩, iht.type⟩
  | dereference _ type ih =>
    have normal := ih.type
    rw [type] at normal
    exact ⟨ih, normal.1⟩
  | toBoolean _ _ ih => exact ⟨ih, trivial⟩
  | toInteger _ width _ ih => exact ⟨ih, width⟩
  | toFloat _ _ ih => exact ⟨ih, trivial⟩
  | unqualify _ type ih =>
    have normal := ih.type
    rw [type] at normal
    exact ⟨ih, normal.1⟩
  | requalify _ normal _ _ ih => exact ⟨ih, normal⟩

theorem WellTyped.excerpt?_eq_none {e : Expr} (h : e.WellTyped table) : e.excerpt? = none := by
  cases h <;> rfl

theorem WellTyped.normal_type {e : Expr} (h : e.WellTyped table) : e.type.Normal := h.normal.type

/-- Well-typed expressions stay so while declarations only become known. -/
theorem WellTyped.transfer {t t' : SymbolTable} {e : Expr} (h : e.WellTyped t)
    (keeps : t.KeepsUses t') : e.WellTyped t' := by
  induction h with
  | boolean => exact .boolean
  | integer small type => exact .integer small type
  | float => exact .float
  | name use normal agrees =>
    obtain ⟨declared', use', kept⟩ := keeps _ _ use
    refine .name use' normal ?_
    rcases agrees with dependent | rfl
    · exact .inl dependent
    · rcases kept with dependent | rfl
      · exact .inl dependent
      · exact .inr rfl
  | negate _ value number ih => exact .negate ih value number
  | not _ truth ih => exact .not ih truth
  | connective _ _ left right ihl ihr => exact .connective ihl ihr left right
  | arithmetic _ _ left right meet ihl ihr => exact .arithmetic ihl ihr left right meet
  | comparison _ _ left right comparable ihl ihr => exact .comparison ihl ihr left right comparable
  | call _ _ function fit ih ihs => exact .call ih ihs function fit
  | callUnknown _ _ other dependent ih ihs => exact .callUnknown ih ihs other dependent
  | assign _ _ value comparable iht ihv => exact .assign iht ihv value comparable
  | dereference _ type ih => exact .dereference ih type
  | toBoolean _ integer ih => exact .toBoolean ih integer
  | toInteger _ width source ih => exact .toInteger ih width source
  | toFloat _ source ih => exact .toFloat ih source
  | unqualify _ type ih => exact .unqualify ih type
  | requalify _ normal similar convertible ih => exact .requalify ih normal similar convertible

/-! ## Conversions -/

theorem WellTyped.dereferenced {e : Expr} (h : e.WellTyped table) :
    e.dereferenced.WellTyped table := by
  unfold Expr.dereferenced
  split
  · rename_i target type
    exact .dereference h type
  · exact h

theorem WellTyped.withoutQualifiers {e : Expr} (h : e.WellTyped table) :
    e.withoutQualifiers.WellTyped table := by
  unfold Expr.withoutQualifiers
  split
  · rename_i inner q type
    exact .unqualify h type
  · exact h

theorem WellTyped.asValue {e : Expr} (h : e.WellTyped table) : e.asValue.WellTyped table :=
  h.dereferenced.withoutQualifiers

theorem WellTyped.isValue_asValue {e : Expr} (h : e.WellTyped table) : e.asValue.type.IsValue := by
  rw [type_asValue]
  exact h.normal_type.isValue_valueType

theorem WellTyped.toBoolean' {e : Expr} (h : e.WellTyped table) :
    (e.toBoolean .bool).WellTyped table := by
  unfold Expr.toBoolean
  split
  · rename_i integer
    exact .toBoolean h integer
  · exact h

theorem WellTyped.toInteger' {e : Expr} (h : e.WellTyped table) {p : Nat} {signed : Bool}
    (width : Ty.IsWidth p) : (e.toInteger (.integer p signed)).WellTyped table := by
  unfold Expr.toInteger
  split
  · rename_i wide signed' precision signed'' target source
    simp only [Ty.unqualified, Ty.integer.injEq] at target
    obtain ⟨rfl, rfl⟩ := target
    split
    · rename_i wider
      exact .toInteger h width (.inr ⟨_, _, source, wider⟩)
    · exact h
  · rename_i source
    exact .toInteger h width (.inl source)
  · exact h

theorem WellTyped.toWiderFloat {e : Expr} (h : e.WellTyped table) (p : Nat) :
    (e.toWiderFloat (.float p)).WellTyped table := by
  unfold Expr.toWiderFloat
  split
  · rename_i wide precision target source
    simp only [Ty.unqualified, Ty.float.injEq] at target
    subst target
    split
    · rename_i wider
      exact .toFloat h (.inr ⟨_, source, wider⟩)
    · exact h
  · exact h

theorem WellTyped.integerToFloat {e : Expr} (h : e.WellTyped table) (p : Nat) :
    (e.integerToFloat (.float p)).WellTyped table := by
  unfold Expr.integerToFloat
  split
  · rename_i both
    simp only [Bool.and_eq_true] at both
    exact .toFloat h (.inl both.1)
  · exact h

theorem WellTyped.toFloat' {e : Expr} (h : e.WellTyped table) (p : Nat) :
    (e.toFloat (.float p)).WellTyped table := by
  unfold Expr.toFloat
  split
  · exact h.toWiderFloat p
  · split
    · exact h.integerToFloat p
    · exact h

theorem WellTyped.valueConverted {e : Expr} (h : e.WellTyped table) {target : Ty}
    (normal : target.Normal) : (e.valueConverted target).WellTyped table := by
  have bare := normal.unqualified
  unfold Expr.valueConverted
  split
  · exact h
  · split
    · exact h.toBoolean'
    · rename_i p s type
      rw [type] at bare
      exact h.toInteger' bare
    · exact h.toFloat' _
    · exact h

theorem WellTyped.qualificationConverted {e : Expr} (h : e.WellTyped table) {target : Ty}
    (normal : target.Normal) : (e.qualificationConverted target).WellTyped table := by
  unfold Expr.qualificationConverted
  split
  · rename_i both
    simp only [Bool.and_eq_true] at both
    exact .requalify h normal both.1 both.2
  · exact h

theorem WellTyped.categoryConverted {e : Expr} (h : e.WellTyped table) (target : Ty) :
    (e.categoryConverted target).WellTyped table := by
  unfold Expr.categoryConverted
  split
  · exact h
  · exact h.dereferenced

theorem WellTyped.convertTo {e e' : Expr} {target : Ty} (h : e.WellTyped table)
    (normal : target.Normal) (converted : e.convertTo target = .ok e') :
    e'.WellTyped table := by
  have first := h.categoryConverted target
  have second := first.valueConverted normal
  have third := second.qualificationConverted normal
  unfold Expr.convertTo at converted
  dsimp only at converted
  split at converted
  · exact Except.ok.inj converted ▸ first
  · split at converted
    · exact Except.ok.inj converted ▸ second
    · split at converted
      · exact Except.ok.inj converted ▸ third
      · cases converted

/-- A conversion ends at the type it was asked for. -/
theorem equivalent_of_convertTo {e e' : Expr} {target : Ty}
    (converted : e.convertTo target = .ok e') : e'.type.equivalent target = true := by
  unfold Expr.convertTo at converted
  dsimp only at converted
  split at converted
  · rename_i equivalent
    exact Except.ok.inj converted ▸ equivalent
  · split at converted
    · rename_i equivalent
      exact Except.ok.inj converted ▸ equivalent
    · split at converted
      · rename_i equivalent
        exact Except.ok.inj converted ▸ equivalent
      · cases converted

/-! ## Conditions and initializers -/

theorem WellTyped.asCondition {e e' : Expr} (h : e.WellTyped table)
    (read : e.asCondition = .ok e') : e'.WellTyped table ∧ e'.type.IsTruth := by
  unfold Expr.asCondition at read
  dsimp only at read
  split at read
  · rename_i dependent
    obtain rfl := Except.ok.inj read
    exact ⟨h.asValue, .inr dependent⟩
  · have type := Ty.eq_bool_of_equivalent (equivalent_of_convertTo read)
    exact ⟨h.asValue.convertTo (show Ty.bool.Normal from trivial) read, .inl type⟩

theorem WellTyped.initializer {e e' : Expr} {target : Ty} (h : e.WellTyped table)
    (normal : target.Normal) (initialized : e.initializer target = .ok e') :
    e'.WellTyped table ∧ e'.type.Fits target := by
  unfold Expr.initializer at initialized
  split at initialized
  · rename_i dependent
    obtain rfl := Except.ok.inj initialized
    refine ⟨h, ?_⟩
    rcases Bool.or_eq_true _ _ ▸ dependent with source | target
    · exact .inl source
    · exact .inr (.inl target)
  · split at initialized
    · rename_i referenced
      split at initialized
      · rename_i equivalent
        obtain rfl := Except.ok.inj initialized
        exact ⟨h, .inr (.inr (.inr ⟨_, rfl, equivalent⟩))⟩
      · cases initialized
    · exact ⟨h.convertTo normal initialized,
        .inr (.inr (.inl (equivalent_of_convertTo initialized)))⟩

/-- What initializes an object that is no reference gets its type, or stays as it is. -/
theorem comparable_of_initializer {e e' : Expr} {target : Ty}
    (bare : target.isReference = false) (initialized : e.initializer target = .ok e') :
    e'.type.Comparable target ∧ (e'.type.equivalent target = true ∨ e' = e) := by
  unfold Expr.initializer at initialized
  split at initialized
  · rename_i dependent
    obtain rfl := Except.ok.inj initialized
    refine ⟨?_, .inr rfl⟩
    rcases Bool.or_eq_true _ _ ▸ dependent with source | target
    · exact .inl source
    · exact .inr (.inl target)
  · split at initialized
    · simp [Ty.isReference] at bare
    · have equivalent := equivalent_of_convertTo initialized
      exact ⟨.inr (.inr equivalent), .inl equivalent⟩

theorem WellTyped.definingInitializer {e e' : Expr} {target : Ty} (h : e.WellTyped table)
    (normal : target.Normal) (initialized : e.definingInitializer target = .ok e') :
    e'.WellTyped table ∧ e'.type.Fits target := by
  unfold Expr.definingInitializer at initialized
  split at initialized
  · exact h.initializer normal initialized
  · exact h.asValue.initializer normal initialized

end Expr

end Deferral
