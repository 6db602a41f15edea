import Deferral.Proofs.SecondPass.Resolved

/-!
# Constants of their declared types

The value of a well typed expression is of the kind that its type says, and in the range of a narrow
integer type, as long as the constants it reads are. The value of a constant is that of its
initializer, so that the only constants which may not fit their declared types are those whose
initializers were left unconverted, since their types were not known in time.
-/

namespace Deferral

namespace Ty

/-- Whether an integer is in the range of the integer types of a width and sign. -/
def InRange (precision : Nat) (signed : Bool) (n : Int) : Prop :=
  if signed then -(twoTo (precision - 1) : Int) ≤ n ∧ n < (twoTo (precision - 1) : Int)
  else 0 ≤ n ∧ n < (twoTo precision : Int)

/-- Whether a constant is a value of a type that is neither a reference nor qualified: one of its
kind, and in range if that is an integer type of fewer than 64 bits. -/
def Admits : Ty → Constant → Prop
  | .bool, c => ∃ b, c = .boolean b
  | .integer precision signed, c => ∃ n, c = .integer n ∧ (precision < 64 → InRange precision signed n)
  | .float _, c => ∃ x, c = .float x
  | _, _ => True

theorem equivalent.admits {t u : Ty} (h : t.equivalent u = true) {c : Constant} :
    t.Admits c ↔ u.Admits c := by
  cases t <;> cases u <;> simp_all [equivalent, Admits]

/-- Whether an object declared with a type can have a constant as its value. -/
def CanHold (t : Ty) (c : Constant) : Prop := t.valueType.Admits c

theorem equivalent.valueType {t u : Ty} (h : t.equivalent u = true) :
    t.valueType.equivalent u.valueType = true := by
  refine equivalent.unqualified ?_
  cases t <;> cases u <;> simp_all [equivalent, referent]

theorem equivalent.canHold {t u : Ty} (h : t.equivalent u = true) {c : Constant} :
    t.CanHold c ↔ u.CanHold c :=
  equivalent.admits (equivalent.valueType h)

theorem canHold_of_isDependent {t : Ty} (h : t.isDependent = true) (c : Constant) :
    t.CanHold c := by
  have dependent : t.valueType.isDependent = true := by simpa using h
  unfold CanHold
  cases valueType : t.valueType <;> simp_all [Admits, isDependent]

theorem IsValue.canHold_iff {t : Ty} (h : t.IsValue) {c : Constant} :
    t.CanHold c ↔ t.Admits c := by
  rw [CanHold, h.valueType_eq]

theorem Normal.valueType_unqualified {t : Ty} (h : t.Normal) :
    t.unqualified.valueType = t.valueType := by
  cases t with
  | qualified inner q => exact h.2.1.valueType_eq
  | _ => rfl

theorem Normal.valueType_reference {t : Ty} (h : (Ty.reference t).Normal) :
    (Ty.reference t).valueType = t.valueType := by
  cases t with
  | reference _ => cases h.2
  | _ => rfl

/-- Types that only differ in the qualifiers of their layers can hold the same. -/
theorem canHold_of_similar {t u : Ty} (normal : t.Normal) (normal' : u.Normal)
    (h : t.similar u = true) {c : Constant} : t.CanHold c ↔ u.CanHold c := by
  unfold CanHold
  rw [← normal.valueType_unqualified, ← normal'.valueType_unqualified]
  unfold similar at h
  generalize t.unqualified = t at h
  generalize u.unqualified = u at h
  by_cases same : t.equivalent u = true
  · exact equivalent.canHold same
  · -- Only pointers, arrays and sequences are similar without being equivalent.
    cases t <;> cases u <;> simp_all [similarBare, Ty.valueType, referent, Ty.unqualified, Admits]

theorem inRange_wrapTo (precision : Nat) (signed : Bool) (n : Int) :
    InRange precision signed (wrapTo precision signed n) := by
  have pos : 0 < twoTo precision := twoTo_pos precision
  unfold InRange wrapTo
  cases signed with
  | true =>
    have lower := Int.le_bmod (x := n) pos
    have upper := Int.bmod_lt (x := n) pos
    -- A width of zero has no half of its own.
    have half : twoTo precision ≤ twoTo (precision - 1) * 2 := by
      cases precision with
      | zero => simp
      | succ precision => exact Nat.le_of_eq (twoTo_succ precision)
    simp only [if_true]
    omega
  | false =>
    have lower := Int.emod_nonneg n (by omega : (twoTo precision : Int) ≠ 0)
    have upper := Int.emod_lt_of_pos n (by omega : (0 : Int) < twoTo precision)
    exact ⟨lower, upper⟩

/-- A truth value is zero or one. -/
theorem inRange_ofBool {precision : Nat} (width : IsWidth precision) (signed b : Bool) :
    InRange precision signed (if b then 1 else 0) := by
  rcases width with rfl | rfl | rfl | rfl <;> cases signed <;> cases b <;>
    simp [InRange, twoTo]

/-- An integer type can hold what is reduced to it. -/
theorem admits_wrap (precision : Nat) (signed : Bool) (n : Int) :
    (integer precision signed).Admits (.integer ((integer precision signed).wrap n)) := by
  refine ⟨_, rfl, fun narrow => ?_⟩
  have reduced : (integer precision signed).wrap n = wrapTo precision signed n := if_pos narrow
  exact reduced ▸ inRange_wrapTo precision signed n

end Ty

namespace Constant

/-- An operation on values of an arithmetic type yields such a value. -/
theorem admits_unary {t : Ty} {c c' : Constant} (number : t.IsNumber) (admits : t.Admits c)
    (h : unary .negate t c = .ok c') : t.Admits c' := by
  rcases number with ⟨p, signed, rfl⟩ | ⟨p, rfl⟩
  · obtain ⟨n, rfl, -⟩ := admits
    obtain ⟨m, -, rfl⟩ := map_eq_ok_iff.mp h
    exact Ty.admits_wrap p signed m
  · obtain ⟨x, rfl⟩ := admits
    obtain rfl := Except.ok.inj h
    exact ⟨-x, rfl⟩

theorem admits_arithmetic {op : Arithmetic} {t : Ty} {l r c : Constant} (number : t.IsNumber)
    (left : t.Admits l) (right : t.Admits r) (h : arithmetic op t l r = .ok c) : t.Admits c := by
  rcases number with ⟨p, signed, rfl⟩ | ⟨p, rfl⟩
  · obtain ⟨a, rfl, -⟩ := left
    obtain ⟨b, rfl, -⟩ := right
    obtain ⟨m, -, rfl⟩ := map_eq_ok_iff.mp h
    exact Ty.admits_wrap p signed m
  · obtain ⟨x, rfl⟩ := left
    obtain ⟨y, rfl⟩ := right
    obtain rfl := Except.ok.inj h
    exact ⟨_, rfl⟩

theorem boolean_of_comparison {op : Comparison} {l r c : Constant}
    (h : comparison op l r = .ok c) : ∃ b, c = .boolean b := by
  unfold comparison at h
  split at h
  · exact ⟨_, (Except.ok.inj h).symm⟩
  · exact ⟨_, (Except.ok.inj h).symm⟩
  · split at h
    · exact ⟨_, (Except.ok.inj h).symm⟩
    · exact ⟨_, (Except.ok.inj h).symm⟩
    · cases h
  · cases h

end Constant

/-! ## Expressions -/

section

variable {t : SymbolTable} {store : DeclId → Option Constant}

/-- An operand of dependent type, or of a number type, where arithmetic is done. -/
theorem Ty.IsValue.canHold_of_isNumber {type : Ty} {c c' : Constant} (value : type.IsValue)
    (known : type.isDependent = true ∨ type.isArithmetic = true)
    (admits : type.IsNumber → type.Admits c → type.Admits c')
    (held : type.CanHold c) : type.CanHold c' := by
  rcases known with dependent | arithmetic
  · exact canHold_of_isDependent dependent c'
  · rw [value.canHold_iff] at held ⊢
    exact admits (value.isNumber arithmetic) held

/-- What a well typed expression evaluates to is what an object of its type can hold, as long as the
constants it reads are what their own declared types can hold. -/
theorem Expr.WellTyped.canHold
    (held : ∀ d v declared, store d = some v → SymbolTable.typeOfUse? (t.decl d) = some declared →
      declared.CanHold v) {e : Expr} (h : e.WellTyped t) :
    ∀ v, e.value? store = some v → e.type.CanHold v := by
  induction h with
  | boolean =>
    intro v value
    obtain rfl := Option.some.inj value
    exact ⟨_, rfl⟩
  | @integer n type s small same =>
    intro v value
    obtain rfl := Option.some.inj value
    subst same
    simp only [ofInteger]
    split
    · rename_i narrow
      refine ⟨n, rfl, fun _ => ?_⟩
      have bound : n < twoTo (32 - 1) := narrow
      simp only [Ty.InRange, if_true]
      omega
    · exact ⟨n, rfl, fun narrow => absurd narrow (by decide)⟩
  | float =>
    intro v value
    obtain rfl := Option.some.inj value
    exact ⟨_, rfl⟩
  | @name d _ declared type s use normal agrees =>
    intro v value
    rcases agrees with dependent | rfl
    · exact Ty.canHold_of_isDependent dependent v
    · exact held d v type value use
  | negate well isValue known ih =>
    intro v value
    obtain ⟨c, operand, result⟩ := Option.bind_eq_some_iff.mp value
    refine isValue.canHold_of_isNumber known (fun number admits => ?_) (ih c operand)
    exact Constant.admits_unary number admits (toOption_eq_some_iff.mp result)
  | not _ _ ih =>
    intro v value
    obtain ⟨c, operand, result⟩ := Option.bind_eq_some_iff.mp value
    cases c with
    | boolean b => exact ⟨!b, (Option.some.inj result).symm⟩
    | integer n => cases result
    | float x => cases result
  | connective _ _ _ _ ihl ihr =>
    intro v value
    obtain ⟨l, left, value⟩ := Option.bind_eq_some_iff.mp value
    obtain ⟨b, truth, value⟩ := Option.bind_eq_some_iff.mp value
    split at value
    · exact ⟨b, (Option.some.inj value).symm⟩
    · obtain ⟨r, right, value⟩ := Option.bind_eq_some_iff.mp value
      obtain ⟨b', truth', value⟩ := Option.bind_eq_some_iff.mp value
      exact ⟨b', (Option.some.inj value).symm⟩
  | @arithmetic op l r type s _ _ valueLeft valueRight meet ihl ihr =>
    intro v value
    obtain ⟨a, left, value⟩ := Option.bind_eq_some_iff.mp value
    obtain ⟨b, right, result⟩ := Option.bind_eq_some_iff.mp value
    cases meet with
    | left dependent => exact Ty.canHold_of_isDependent dependent v
    | right _ dependent => exact Ty.canHold_of_isDependent dependent v
    | both _ number same =>
      have admitsLeft := valueLeft.canHold_iff.mp (ihl a left)
      have admitsRight := valueRight.canHold_iff.mp (ihr b right)
      rw [same] at admitsRight
      exact valueLeft.canHold_iff.mpr <| Constant.admits_arithmetic (valueLeft.isNumber number)
        admitsLeft admitsRight (toOption_eq_some_iff.mp result)
  | comparison _ _ _ _ _ ihl ihr =>
    intro v value
    obtain ⟨a, left, value⟩ := Option.bind_eq_some_iff.mp value
    obtain ⟨b, right, result⟩ := Option.bind_eq_some_iff.mp value
    exact Constant.boolean_of_comparison (toOption_eq_some_iff.mp result)
  | call => intro v value; cases value
  | callUnknown => intro v value; cases value
  | assign => intro v value; cases value
  | @dereference e type s well reference ih =>
    intro v value
    obtain ⟨c, source, result⟩ := Option.bind_eq_some_iff.mp value
    obtain rfl := Option.some.inj result
    have normal := well.normal_type
    rw [reference] at normal
    have admits : e.type.valueType.Admits c := ih c source
    rw [reference, normal.valueType_reference] at admits
    exact admits
  | toBoolean _ _ ih =>
    intro v value
    obtain ⟨c, source, result⟩ := Option.bind_eq_some_iff.mp value
    cases c with
    | integer n => exact ⟨n != 0, (Option.some.inj result).symm⟩
    | boolean b => cases result
    | float x => cases result
  | @toInteger e p signed s _ width _ ih =>
    intro v value
    obtain ⟨c, source, result⟩ := Option.bind_eq_some_iff.mp value
    cases c with
    | integer n =>
      obtain rfl := Option.some.inj result
      exact Ty.admits_wrap p signed n
    | boolean b =>
      obtain rfl := Option.some.inj result
      exact ⟨_, rfl, fun _ => Ty.inRange_ofBool width signed b⟩
    | float x => cases result
  | @toFloat e p s _ _ ih =>
    intro v value
    obtain ⟨c, source, result⟩ := Option.bind_eq_some_iff.mp value
    cases c with
    | integer n => exact ⟨_, (Option.some.inj result).symm⟩
    | float x => exact ⟨x, (Option.some.inj result).symm⟩
    | boolean b => cases result
  | @unqualify e type q s well qualified ih =>
    intro v value
    obtain ⟨c, source, result⟩ := Option.bind_eq_some_iff.mp value
    obtain rfl := Option.some.inj result
    have normal := well.normal_type
    have admits : e.type.valueType.Admits c := ih c source
    rw [← normal.valueType_unqualified, qualified] at admits
    exact admits
  | @requalify e type s well normal similar _ ih =>
    intro v value
    obtain ⟨c, source, result⟩ := Option.bind_eq_some_iff.mp value
    obtain rfl := Option.some.inj result
    exact (Ty.canHold_of_similar well.normal_type normal similar).mp (ih c source)

/-- An initializer that fits evaluates to what the declared type can hold, unless it has not been
converted. -/
theorem Expr.Initializes.canHold {type : Ty} {e : Expr} {v : Constant}
    (h : e.Initializes t type) (converted : e.type.isDependent = true → type.isDependent = true)
    (held : e.type.CanHold v) : type.CanHold v := by
  rcases h.fits with dependent | dependent | same | ⟨referenced, rfl, same⟩
  · exact Ty.canHold_of_isDependent (converted dependent) v
  · exact Ty.canHold_of_isDependent dependent v
  · exact (Ty.equivalent.canHold same).mp held
  · rw [Ty.CanHold, h.normal.valueType_reference]
    exact (Ty.equivalent.admits same).mp held

end

/-! ## Stored constants -/

namespace SymbolTable

variable {t : SymbolTable} {u : SourceUnit} {id : DeclId}

/-- The value that a constant has is one that its declared type can hold. -/
def Fits (t : SymbolTable) (id : DeclId) : Prop :=
  ∀ v type, t.constant? id = some v → (t.decl id).ownType? = some type → type.CanHold v

/-- The declared type of an object is known while that of its initializer is not, so that the
initializer has not been converted. -/
def Unconverted (t : SymbolTable) (id : DeclId) : Prop :=
  ∃ type e, (t.decl id).ownType? = some type ∧ (t.decl id).initializer? = some e ∧
    type.isDependent = false ∧ e.type.isDependent = true

theorem canHold_of_use {used : Ty} {v : Constant}
    (held : ∀ type, (t.decl id).ownType? = some type → type.CanHold v)
    (constant : (t.decl id).isConstant = true) (use : typeOfUse? (t.decl id) = some used) :
    used.CanHold v := by
  unfold Decl.isConstant at constant
  split at constant
  · rename_i type initializer kind
    obtain rfl : useType type = used := by simpa [typeOfUse?, kind] using use
    unfold useType
    split
    · exact Ty.canHold_of_isDependent rfl v
    · exact held type (by simp [Decl.ownType?, Decl.typeIn?, kind])
  · cases constant

theorem Determined.isConstant {entries : List (DeclId × Constant)} {v : Constant}
    (determined : t.Determined entries) (known : entries.lookup id = some v) :
    (t.decl id).isConstant = true := by
  obtain ⟨older, -, determines, -⟩ := determined.of_lookup known
  exact determines.1

/-- By induction on the order in which constants got their values. -/
theorem Determined.canHold (sound : t.Sound) {entries : List (DeclId × Constant)}
    (determined : t.Determined entries)
    (unconverted : ∀ id v type, entries.lookup id = some v → t.Unconverted id →
      (t.decl id).ownType? = some type → type.CanHold v) :
    ∀ id v type, entries.lookup id = some v → (t.decl id).ownType? = some type →
      type.CanHold v := by
  induction entries with
  | nil => intro id v type known; cases known
  | cons entry older ih =>
    obtain ⟨first, value⟩ := entry
    obtain ⟨⟨constant, e, initializer, evaluates⟩, fresh, rest⟩ := determined
    have later : ∀ id v, older.lookup id = some v →
        ((first, value) :: older).lookup id = some v := fun id v known => by
      have ne : (id == first) = false := by
        rw [beq_eq_false_iff_ne]
        rintro rfl
        rw [fresh] at known
        cases known
      rw [List.lookup_cons, ne]
      exact known
    have held := ih rest fun id v type known => unconverted id v type (later id v known)
    intro id v type known own
    by_cases same : id = first
    · subst same
      have first : v = value := by simpa using known.symm
      subst first
      obtain ⟨declared, e', kind⟩ := sound.initialized constant
      obtain rfl : e' = e := by simpa [Decl.initializer?, kind] using initializer
      obtain rfl : declared = type := by simpa [Decl.ownType?, Decl.typeIn?, kind] using own
      have object := sound.decls id
      rw [kind] at object
      have read : e'.excerpt? = none := Expr.excerpt?_of_value? evaluates
      have initializes := object.initializes e' rfl read
      by_cases skipped : declared.isDependent = false ∧ e'.type.isDependent = true
      · exact unconverted id v declared known ⟨declared, e', own, initializer, skipped⟩ own
      · refine initializes.canHold (fun dependent => by simp_all) ?_
        exact initializes.well.canHold (fun d w used stored use =>
          canHold_of_use (held d w · stored) (rest.isConstant stored) use) v evaluates
    · rw [List.lookup_cons, beq_eq_false_iff_ne.mpr same] at known
      exact held id v type known own

/-- Every constant that has been converted fits if those do that have not been. -/
theorem Sound.fits (sound : t.Sound) (unconverted : ∀ id, t.Unconverted id → t.Fits id) :
    t.Fits id :=
  fun v type known own => sound.constants.canHold sound
    (fun id v type known skipped own => unconverted id skipped v type known own)
    id v type known own

end SymbolTable

/-- In a source without faults, the values of constants are of their declared types, in kind and
range, exactly when those are whose initializers have not been converted. -/
theorem fits_iff_unconverted_fits {source : List Char} {file : String} {t : SymbolTable}
    {u : SourceUnit} (h : resolveSource source file = .ok (t, u)) :
    (∀ id, t.Fits id) ↔ ∀ id, t.Unconverted id → t.Fits id :=
  ⟨fun fits id _ => fits id,
    fun unconverted _ => (isResolved_resolveSource h).sound.fits unconverted⟩

/-- A constant that is read before its type has been deduced. -/
def readUndeduced : List Char := "def A: bool = B; def B: auto = 5;".toList

/-- The other order: the constant that is read has its type by then. -/
def readDeduced : List Char := "def B: auto = 5; def A: bool = B;".toList

/-- Whether a declaration is of type `bool` although an integer is stored as its value. -/
def SymbolTable.storesIntegerAsBool (t : SymbolTable) (id : DeclId) (n : Int) : Bool :=
  match (t.decl id).ownType?, t.constant? id with
  | some .bool, some (.integer m) => m = n
  | _, _ => false

theorem SymbolTable.not_fits_of_storesIntegerAsBool {t : SymbolTable} {id : DeclId} {n : Int}
    (h : t.storesIntegerAsBool id n = true) :
    (t.decl id).ownType? = some .bool ∧ t.constant? id = some (.integer n) ∧ ¬ t.Fits id := by
  unfold storesIntegerAsBool at h
  split at h
  · rename_i m own known
    obtain rfl := of_decide_eq_true h
    refine ⟨own, known, fun fits => ?_⟩
    obtain ⟨b, other⟩ := fits _ _ known own
    cases other
  · cases h

/-- The integer is stored as it is, although the constant is declared a truth value. -/
theorem not_fits_of_readUndeduced : ∃ t u, resolveSource readUndeduced "order" = .ok (t, u) ∧
    (t.decl ⟨0⟩).ownType? = some .bool ∧ t.constant? ⟨0⟩ = some (.integer 5) ∧
    ¬ t.Fits ⟨0⟩ := by
  have ran : ((resolveSource readUndeduced "order").toOption.map fun p =>
      p.1.storesIntegerAsBool ⟨0⟩ 5) = some true := by
    unfold readUndeduced
    rewrite [String.toList_ofList]
    decide +kernel
  obtain ⟨⟨t, u⟩, ok, stores⟩ := map_toOption_eq_some_iff.mp ran
  exact ⟨t, u, ok, SymbolTable.not_fits_of_storesIntegerAsBool stores⟩

/-- In the other order nothing is left unconverted. -/
theorem fits_of_readDeduced : ∃ t u, resolveSource readDeduced "order" = .ok (t, u) ∧
    ((∀ id, t.Fits id) ↔ ∀ id, t.Unconverted id → t.Fits id) := by
  have ran : ((resolveSource readDeduced "order").toOption.map fun _ => true) = some true := by
    unfold readDeduced
    rewrite [String.toList_ofList]
    decide +kernel
  obtain ⟨⟨t, u⟩, ok, -⟩ := map_toOption_eq_some_iff.mp ran
  exact ⟨t, u, ok, fits_iff_unconverted_fits ok⟩

end Deferral
