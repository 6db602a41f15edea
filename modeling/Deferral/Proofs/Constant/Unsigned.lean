import Deferral.Proofs.Constant.Evaluable
import Deferral.Proofs.Constant.ModularArithmetic

/-!
# Unsigned constants

An integer stands for its residue modulo two to the width of its type. Comparisons, quotients and remainders
of unsigned operands are those of the residues as long as the stored values are the residues themselves. That
is so below 64 bits, where values are reduced; a `uint64` is stored with a sign, and the upper half of its range
compares as negative.
-/

namespace Deferral

/-- The natural number that an integer stands for as an unsigned integer of a width. -/
def unsignedOf (precision : Nat) (n : Int) : Nat := (n % 2 ^ precision).toNat

theorem unsignedOf_of_inRange {p : Nat} {n : Int} (h : Ty.InRange p false n) : (unsignedOf p n : Int) = n := by
  simp only [Ty.InRange, Bool.false_eq_true, if_false, twoTo] at h
  obtain ⟨low, high⟩ := h
  have reduced : n % 2 ^ p = n := Int.emod_eq_of_lt low (by simpa using high)
  rw [unsignedOf, reduced, Int.toNat_of_nonneg low]

theorem fitsWord_iff {n : Int} : fitsWord n ↔ -2 ^ 63 ≤ n ∧ n < 2 ^ 63 := by
  simp only [fitsWord, Bool.and_eq_true, decide_eq_true_eq]
  exact Iff.rfl

/-- A word below zero stands for a number in the upper half of its range. -/
theorem unsignedOf_word {n : Int} (h : fitsWord n) :
    (unsignedOf 64 n : Int) = if 0 ≤ n then n else n + 2 ^ 64 := by
  obtain ⟨low, high⟩ := fitsWord_iff.mp h
  unfold unsignedOf
  split <;> omega

theorem compare_ofNat (m n : Nat) : compare (m : Int) n = compare m n := by
  simp only [← cmp_eq_compare]
  exact Nat.strictMono_cast.cmp_map_eq m n

theorem compare_unsignedOf {p : Nat} {m n : Int} (left : Ty.InRange p false m)
    (right : Ty.InRange p false n) : compare (unsignedOf p m) (unsignedOf p n) = compare m n := by
  rw [← compare_ofNat, unsignedOf_of_inRange left, unsignedOf_of_inRange right]

/-- Words are in the order of their unsigned numbers unless one is below zero and the other is not. Then the
orders are opposite, and only equality and its negation cannot tell. -/
theorem Comparison.holds_words_iff {op : Comparison} {m n : Int} (left : fitsWord m) (right : fitsWord n) :
    op.holds (some (compare m n)) = op.holds (some (compare (unsignedOf 64 m) (unsignedOf 64 n))) ↔
      op = .equals ∨ op = .notEquals ∨ (0 ≤ m ↔ 0 ≤ n) := by
  have unsignedLeft := unsignedOf_word left
  have unsignedRight := unsignedOf_word right
  obtain ⟨low, high⟩ := fitsWord_iff.mp left
  obtain ⟨low', high'⟩ := fitsWord_iff.mp right
  by_cases sign : 0 ≤ m ↔ 0 ≤ n
  · have same : compare (unsignedOf 64 m) (unsignedOf 64 n) = compare m n := by
      rw [← compare_ofNat]
      rcases lt_trichotomy m n with lt | rfl | gt
      · rw [compare_lt_iff_lt.mpr lt, compare_lt_iff_lt]
        split at unsignedLeft <;> split at unsignedRight <;> omega
      · rw [compare_eq_iff_eq.mpr rfl, compare_eq_iff_eq.mpr rfl]
      · rw [compare_gt_iff_gt.mpr gt, compare_gt_iff_gt]
        split at unsignedLeft <;> split at unsignedRight <;> omega
    simp [same, sign]
  · -- Of two words of different signs the one below zero stands for the larger number.
    have opposite : compare m n = .lt ∧ compare (unsignedOf 64 m) (unsignedOf 64 n) = .gt ∨
        compare m n = .gt ∧ compare (unsignedOf 64 m) (unsignedOf 64 n) = .lt := by
      by_cases below : 0 ≤ m
      · right
        rw [if_pos below] at unsignedLeft
        rw [if_neg (by tauto)] at unsignedRight
        exact ⟨compare_gt_iff_gt.mpr (by omega), compare_lt_iff_lt.mpr (by omega)⟩
      · left
        rw [if_neg below] at unsignedLeft
        rw [if_pos (by tauto)] at unsignedRight
        exact ⟨compare_lt_iff_lt.mpr (by omega), compare_gt_iff_gt.mpr (by omega)⟩
    rcases opposite with ⟨signed, unsigned⟩ | ⟨signed, unsigned⟩ <;> rw [signed, unsigned] <;>
      cases op <;> simp [Comparison.holds, sign]

/-- What an unsigned type reduces an integer to stands for the same number. -/
theorem Ty.wrap_uint_modEq (p : Nat) (n : Int) : (uint p).wrap n ≡ n [ZMOD 2 ^ p] := by
  unfold wrap uint Ty.unqualified
  dsimp only
  split
  · exact (residue_wrapTo p false n).agrees
  · rfl

/-! ## Words -/

/-- An integer constant fits a word. -/
def Constant.IsWord : Constant → Prop
  | .integer n => fitsWord n
  | _ => True

theorem fitsWord_of_checkWord {n m : Int} (h : checkWord n = .ok m) : fitsWord m := by
  obtain ⟨fits, rfl⟩ := checkWord_eq_ok_iff.mp h
  exact fits

theorem fitsWord_wrapTo {p : Nat} (narrow : p < 64) (signed : Bool) (n : Int) :
    fitsWord (wrapTo p signed n) := by
  have inRange := Ty.inRange_wrapTo p signed n
  have small : twoTo p ≤ twoTo 63 := Nat.pow_le_pow_right (by decide) (by omega)
  have smaller : twoTo (p - 1) ≤ twoTo 63 := Nat.pow_le_pow_right (by decide) (by omega)
  have word : twoTo 63 = 2 ^ 63 := rfl
  rw [fitsWord_iff]
  cases signed <;> simp [Ty.InRange] at inRange <;> omega

theorem Ty.fitsWord_wrap {t : Ty} {n : Int} (h : fitsWord n) : fitsWord (t.wrap n) := by
  unfold wrap
  split
  · split
    · exact fitsWord_wrapTo ‹_› _ n
    · exact h
  · exact h

/-- Every operation on integers is checked. A remainder is no longer than what was divided. -/
theorem Arithmetic.fitsWord_onIntegers {op : Arithmetic} {a b n : Int} (left : fitsWord a)
    (h : op.onIntegers a b = .ok n) : fitsWord n := by
  cases op with
  | add | sub | mul => exact fitsWord_of_checkWord h
  | div =>
    simp only [onIntegers] at h
    split at h
    · cases h
    · exact fitsWord_of_checkWord h
  | rem =>
    simp only [onIntegers] at h
    split at h
    · cases h
    · obtain ⟨_, -, rfl⟩ := map_eq_ok_iff.mp h
      have shorter : (a.tmod b).natAbs ≤ a.natAbs := by
        rw [Int.natAbs_tmod]
        exact Nat.mod_le _ _
      have sign : a ≤ 0 → a.tmod b ≤ 0 := fun negative => by
        have opposite := Int.tmod_nonneg b (show 0 ≤ -a by omega)
        rw [Int.neg_tmod] at opposite
        omega
      obtain ⟨low, high⟩ := fitsWord_iff.mp left
      rw [fitsWord_iff]
      omega

namespace Constant

theorem isWord_unary {op : UnaryOp} {t : Ty} {c c' : Constant} (h : unary op t c = .ok c') :
    c'.IsWord := by
  cases c <;> cases op <;> simp only [unary] at h
  case integer.negate =>
    obtain ⟨m, checked, rfl⟩ := map_eq_ok_iff.mp h
    exact Ty.fitsWord_wrap (fitsWord_of_checkWord checked)
  all_goals cases h
  all_goals trivial

theorem isWord_arithmetic {op : Arithmetic} {t : Ty} {l r c : Constant} (left : l.IsWord)
    (h : arithmetic op t l r = .ok c) : c.IsWord := by
  unfold arithmetic at h
  split at h
  · obtain ⟨m, result, rfl⟩ := map_eq_ok_iff.mp h
    exact Ty.fitsWord_wrap (op.fitsWord_onIntegers left result)
  · obtain rfl := Except.ok.inj h
    trivial
  · cases h
  · cases h

theorem isWord_convert {conversion : Conversion} {t : Ty} {c c' : Constant} (word : c.IsWord)
    (h : convert conversion t c = .ok c') : c'.IsWord := by
  unfold convert at h
  split at h
  · obtain rfl := Except.ok.inj h
    exact word
  · obtain rfl := Except.ok.inj h
    exact word
  · obtain rfl := Except.ok.inj h
    trivial
  · rename_i b
    obtain rfl := Except.ok.inj h
    cases b <;> exact fitsWord_iff.mpr (by decide)
  · obtain rfl := Except.ok.inj h
    exact Ty.fitsWord_wrap word
  · obtain rfl := Except.ok.inj h
    trivial
  · obtain rfl := Except.ok.inj h
    trivial
  · cases h

end Constant

/-- What a well typed expression evaluates to fits a word, as long as the constants it reads do. -/
theorem Expr.WellTyped.isWord {t : SymbolTable} {store : DeclId → Option Constant}
    (stored : ∀ d v, store d = some v → v.IsWord) {e : Expr} (h : e.WellTyped t) :
    ∀ v, e.value? store = some v → v.IsWord := by
  induction h with
  | boolean | float =>
    intro v value
    obtain rfl := Option.some.inj value
    trivial
  | @integer n _ _ small _ =>
    intro v value
    obtain rfl := Option.some.inj value
    have bound : n < 2 ^ 63 := Nat.lt_of_le_of_lt small (by decide)
    exact fitsWord_iff.mpr (by omega)
  | name => exact fun v value => stored _ v value
  | negate _ _ _ _ | not _ _ _ =>
    intro v value
    obtain ⟨c, -, result⟩ := Option.bind_eq_some_iff.mp value
    exact Constant.isWord_unary (toOption_eq_some_iff.mp result)
  | connective =>
    intro v value
    obtain ⟨l, -, value⟩ := Option.bind_eq_some_iff.mp value
    obtain ⟨b, -, value⟩ := Option.bind_eq_some_iff.mp value
    split at value
    · obtain rfl := Option.some.inj value
      trivial
    · obtain ⟨r, -, value⟩ := Option.bind_eq_some_iff.mp value
      obtain ⟨b', -, value⟩ := Option.bind_eq_some_iff.mp value
      obtain rfl := Option.some.inj value
      trivial
  | arithmetic _ _ _ _ _ ihl _ =>
    intro v value
    obtain ⟨l, left, value⟩ := Option.bind_eq_some_iff.mp value
    obtain ⟨r, -, result⟩ := Option.bind_eq_some_iff.mp value
    exact Constant.isWord_arithmetic (ihl l left) (toOption_eq_some_iff.mp result)
  | comparison =>
    intro v value
    obtain ⟨l, -, value⟩ := Option.bind_eq_some_iff.mp value
    obtain ⟨r, -, result⟩ := Option.bind_eq_some_iff.mp value
    obtain ⟨b, rfl⟩ := Constant.boolean_of_comparison (toOption_eq_some_iff.mp result)
    trivial
  | call | callUnknown | assign => exact fun v value => by cases value
  | dereference _ _ ih | toBoolean _ _ ih | toInteger _ _ _ ih | toFloat _ _ ih | unqualify _ _ ih
  | requalify _ _ _ _ ih =>
    intro v value
    obtain ⟨c, source, result⟩ := Option.bind_eq_some_iff.mp value
    exact Constant.isWord_convert (ih c source) (toOption_eq_some_iff.mp result)

namespace SymbolTable

variable {t : SymbolTable}

/-- By induction on the order in which constants got their values. -/
theorem Determined.isWord (sound : t.Sound) {entries : List (DeclId × Constant)}
    (determined : t.Determined entries) : ∀ id v, entries.lookup id = some v → v.IsWord := by
  induction entries with
  | nil => exact fun id v known => by cases known
  | cons entry older ih =>
    obtain ⟨first, value⟩ := entry
    obtain ⟨⟨constant, e, initializer, evaluates⟩, -, rest⟩ := determined
    intro id v known
    by_cases same : id = first
    · subst same
      obtain rfl : v = value := by simpa using known.symm
      obtain ⟨declared, e', kind⟩ := sound.initialized constant
      obtain rfl : e' = e := by simpa [Decl.initializer?, kind] using initializer
      have object := sound.decls id
      rw [kind] at object
      have well := (object.initializes e' rfl (Expr.excerpt?_of_value? evaluates)).well
      exact well.isWord (ih rest) v evaluates
    · rw [List.lookup_cons, beq_eq_false_iff_ne.mpr same] at known
      exact ih rest id v known

/-- Every integer that is stored fits a word. -/
theorem Sound.isWord (sound : t.Sound) {id : DeclId} {v : Constant} (known : t.constant? id = some v) :
    v.IsWord := sound.constants.isWord sound id v known

end SymbolTable

/-! ## Operations on unsigned operands -/

namespace Expr

open Resolution

/-- The operations on two operands that yield `m` and `n`, the second after the first, are those on the
unsigned numbers of a width that these stand for. -/
structure ActsUnsigned (p : Nat) (a b : Expr) (m n : Int) (t t' : SymbolTable) : Prop where
  compares : ∀ op span, Runs (evaluate ⟨.binary (.comparison op) a b, .bool, span⟩) t
    (.ok (.boolean (op.holds (some (compare (unsignedOf p m) (unsignedOf p n)))))) t'
  divides : unsignedOf p n ≠ 0 → ∀ span, ∃ q,
    Runs (evaluate ⟨.binary (.arithmetic .div) a b, .uint p, span⟩) t (.ok (.integer q)) t' ∧
      q ≡ (unsignedOf p m / unsignedOf p n : Nat) [ZMOD 2 ^ p]
  remains : unsignedOf p n ≠ 0 → ∀ span, ∃ r,
    Runs (evaluate ⟨.binary (.arithmetic .rem) a b, .uint p, span⟩) t (.ok (.integer r)) t' ∧
      r ≡ (unsignedOf p m % unsignedOf p n : Nat) [ZMOD 2 ^ p]

variable {a b : Expr} {m n : Int} {p : Nat} {t t₁ t₂ : SymbolTable}

/-- Operands are evaluated from left to right and compared as words. -/
theorem runs_comparison (first : Runs (evaluate a) t (.ok (.integer m)) t₁)
    (second : Runs (evaluate b) t₁ (.ok (.integer n)) t₂) (op : Comparison) (span : Span) :
    Runs (evaluate ⟨.binary (.comparison op) a b, .bool, span⟩) t
      (.ok (.boolean (op.holds (some (compare m n))))) t₂ :=
  runs_bind.mpr (.inr ⟨_, t₁, first, runs_bind.mpr (.inr ⟨_, t₂, second, runs_pure.mpr ⟨rfl, rfl⟩⟩)⟩)

theorem runs_arithmetic {op : Arithmetic} {k : Int} {type : Ty}
    (first : Runs (evaluate a) t (.ok (.integer m)) t₁)
    (second : Runs (evaluate b) t₁ (.ok (.integer n)) t₂) (result : op.onIntegers m n = .ok k)
    (span : Span) :
    Runs (evaluate ⟨.binary (.arithmetic op) a b, type, span⟩) t (.ok (.integer (type.wrap k))) t₂ := by
  refine runs_bind.mpr (.inr ⟨_, t₁, first, runs_bind.mpr (.inr ⟨_, t₂, second, ?_⟩)⟩)
  simp only [Constant.arithmetic, result, Except.map]
  exact runs_pure.mpr ⟨rfl, rfl⟩

/-- Words that are the numbers they stand for are divided as these are. -/
theorem ActsUnsigned.of_inRange (left : fitsWord m) (inRange : Ty.InRange p false m)
    (inRange' : Ty.InRange p false n) (first : Runs (evaluate a) t (.ok (.integer m)) t₁)
    (second : Runs (evaluate b) t₁ (.ok (.integer n)) t₂) : ActsUnsigned p a b m n t t₂ := by
  have numberLeft := unsignedOf_of_inRange inRange
  have numberRight := unsignedOf_of_inRange inRange'
  have small : unsignedOf p m < 2 ^ 63 := by
    have bound := (fitsWord_iff.mp left).2
    omega
  have quotient : m.tdiv n = (unsignedOf p m / unsignedOf p n : Nat) := by
    rw [Int.ofNat_tdiv, numberLeft, numberRight]
  have checked : checkWord (m.tdiv n) = .ok (m.tdiv n) := by
    rw [quotient]
    have shorter : unsignedOf p m / unsignedOf p n ≤ unsignedOf p m := Nat.div_le_self _ _
    generalize unsignedOf p m / unsignedOf p n = q at shorter
    exact checkWord_of_fits (by omega) (by omega)
  refine ⟨fun op span => ?_, fun nonzero span => ?_, fun nonzero span => ?_⟩
  · rw [compare_unsignedOf inRange inRange']
    exact runs_comparison first second op span
  · have divided : Arithmetic.div.onIntegers m n = .ok (m.tdiv n) := by
      simp only [Arithmetic.onIntegers, if_neg (show n ≠ 0 by omega), checked]
    refine ⟨_, runs_arithmetic first second divided span, ?_⟩
    rw [← quotient]
    exact Ty.wrap_uint_modEq p _
  · have divided : Arithmetic.rem.onIntegers m n = .ok (m.tmod n) := by
      simp only [Arithmetic.onIntegers, if_neg (show n ≠ 0 by omega), checked, Except.map]
    have remainder : m.tmod n = (unsignedOf p m % unsignedOf p n : Nat) := by
      rw [Int.ofNat_tmod, numberLeft, numberRight]
    refine ⟨_, runs_arithmetic first second divided span, ?_⟩
    rw [← remainder]
    exact Ty.wrap_uint_modEq p _

/-- What an expression evaluates to has its value in the table that evaluation leaves. -/
theorem value?_of_runs_evaluate {e : Expr} {v : Constant} {t' : SymbolTable} (sound : t.Sound)
    (run : Runs (evaluate e) t (.ok v) t') :
    SymbolTable.Settles none t t' ∧ e.value? t'.constant? = some v :=
  have evaluated := e.runs_evaluateWith binds_ensureConstant sound run
  ⟨evaluated.settles, evaluated.value v rfl⟩

/-- Values of narrow unsigned types are in range as long as what is stored fits its declared types. -/
theorem WellTyped.inRange {e : Expr} (well : e.WellTyped t) (type : e.type = .uint p) (narrow : p < 64)
    (sound : t.Sound) (fits : ∀ id, t.Unconverted id → t.Fits id)
    (value : e.value? t.constant? = some (.integer n)) : Ty.InRange p false n := by
  have held := well.canHold (fun id v declared known use => SymbolTable.canHold_of_use
    (fun own owned => sound.fits fits v own known owned) (sound.constants.isConstant known) use) _ value
  rw [type] at held
  obtain ⟨k, same, inRange⟩ := held
  obtain rfl := Constant.integer.inj same
  exact inRange narrow

/-- Two well typed operands of one unsigned type act as the unsigned numbers that their values stand for
whenever both values are in the range of the type. Below 64 bits they are, if the constants that were left
unconverted fit their declared types. A `uint64` may be stored as a negative word: a comparison of two is
then that of the unsigned numbers exactly if it asks for equality only or if both words have one sign. -/
theorem evaluates_unsigned_in_range {source : List Char} {file : String} {u : SourceUnit}
    (h : resolveSource source file = .ok (t, u)) (wellLeft : a.WellTyped t) (wellRight : b.WellTyped t)
    (typeLeft : a.type = .uint p) (typeRight : b.type = .uint p)
    (first : Runs (evaluate a) t (.ok (.integer m)) t₁)
    (second : Runs (evaluate b) t₁ (.ok (.integer n)) t₂) :
    (Ty.InRange p false m → Ty.InRange p false n → ActsUnsigned p a b m n t t₂) ∧
      (p < 64 → (∀ id, t₂.Unconverted id → t₂.Fits id) → Ty.InRange p false m ∧ Ty.InRange p false n) ∧
      (p = 64 → ∀ op span, Runs (evaluate ⟨.binary (.comparison op) a b, .bool, span⟩) t
          (.ok (.boolean (op.holds (some (compare (unsignedOf p m) (unsignedOf p n)))))) t₂ ↔
        op = .equals ∨ op = .notEquals ∨ (0 ≤ m ↔ 0 ≤ n)) := by
  have sound := (isResolved_resolveSource h).sound
  obtain ⟨settles, valueLeft⟩ := value?_of_runs_evaluate sound first
  obtain ⟨settles', valueRight⟩ := value?_of_runs_evaluate (settles.sound sound) second
  have evolves := settles.evolves.trans settles'.evolves
  have sound₂ := settles'.sound (settles.sound sound)
  have wellLeft₂ := evolves.wellTyped wellLeft
  have wellRight₂ := evolves.wellTyped wellRight
  have valueLeft₂ := settles'.value? valueLeft
  have wordLeft : fitsWord m := wellLeft₂.isWord (fun _ _ => sound₂.isWord) _ valueLeft₂
  have wordRight : fitsWord n := wellRight₂.isWord (fun _ _ => sound₂.isWord) _ valueRight
  refine ⟨fun inRange inRange' => .of_inRange wordLeft inRange inRange' first second,
    fun narrow fits => ⟨wellLeft₂.inRange typeLeft narrow sound₂ fits valueLeft₂,
      wellRight₂.inRange typeRight narrow sound₂ fits valueRight⟩, fun wide op span => ?_⟩
  subst wide
  rw [← Comparison.holds_words_iff wordLeft wordRight]
  have run := runs_comparison first second op span
  constructor
  · intro unsigned
    obtain ⟨same, -⟩ := run.unique unsigned
    exact Constant.boolean.inj (Except.ok.inj same)
  · intro same
    exact same ▸ run

end Expr

/-- Whether a declaration is used as an unsigned integer of a width and has an integer as its value. -/
def SymbolTable.storesUnsigned (t : SymbolTable) (id : DeclId) (p : Nat) (n : Int) : Bool :=
  match typeOfUse? (t.decl id), t.constant? id with
  | some (.integer q false), some (.integer m) => q = p && m = n
  | _, _ => false

/-- A name of such a constant evaluates to the integer. -/
theorem SymbolTable.evaluates_of_storesUnsigned {t : SymbolTable} {id : DeclId} {p : Nat} {n : Int}
    (h : t.storesUnsigned id p n = true) (width : Ty.IsWidth p) (name : String) (span : Span) :
    Expr.WellTyped t ⟨.name id name, .uint p, span⟩ ∧
      Resolution.Runs (Resolution.evaluate ⟨.name id name, .uint p, span⟩) t (.ok (.integer n)) t := by
  unfold storesUnsigned at h
  split at h
  · rename_i q m use known
    simp only [Bool.and_eq_true, decide_eq_true_eq] at h
    obtain ⟨rfl, rfl⟩ := h
    have run := runs_evaluateName_of_supplied (t := t) name span
      (fun _ => by rw [known]; rfl)
    rw [known] at run
    exact ⟨.name use width (.inr rfl), run⟩
  · cases h

/-- One and its negation, in eight bits. -/
def unsignedBytes : List Char := "def B: uint8 = true; def A: uint8 = -B;".toList

/-- The negation is stored as 255. -/
theorem Expr.evaluates_unsignedBytes : ∃ t u a b, resolveSource unsignedBytes "bytes" = .ok (t, u) ∧
    Expr.WellTyped t a ∧ Expr.WellTyped t b ∧ a.type = .uint 8 ∧ b.type = .uint 8 ∧
    Expr.ActsUnsigned 8 a b 255 1 t t := by
  have ran : ((resolveSource unsignedBytes "bytes").toOption.map fun p =>
      p.1.storesUnsigned ⟨1⟩ 8 255 && p.1.storesUnsigned ⟨0⟩ 8 1) = some true := by
    unfold unsignedBytes
    rewrite [String.toList_ofList]
    decide +kernel
  obtain ⟨⟨t, u⟩, ok, stores⟩ := map_toOption_eq_some_iff.mp ran
  obtain ⟨first, second⟩ := Bool.and_eq_true_iff.mp stores
  obtain ⟨wellLeft, runLeft⟩ := SymbolTable.evaluates_of_storesUnsigned first (.inl rfl) "A" default
  obtain ⟨wellRight, runRight⟩ := SymbolTable.evaluates_of_storesUnsigned second (.inl rfl) "B" default
  obtain ⟨acts, -, -⟩ :=
    Expr.evaluates_unsigned_in_range ok wellLeft wellRight rfl rfl runLeft runRight
  exact ⟨t, u, _, _, ok, wellLeft, wellRight, rfl, rfl, acts (by decide) (by decide)⟩

/-- The largest `uint64`, compared with one. -/
def largestBelowOne : List Char := "def A: uint64 = -1; def B: bool = A < 1;".toList

/-- Whether a declaration has a truth value as its value. -/
def SymbolTable.storesTruth (t : SymbolTable) (id : DeclId) (b : Bool) : Bool :=
  match t.constant? id with
  | some (.boolean b') => b' = b
  | _ => false

/-- It is stored as -1, and the comparison holds. -/
theorem Expr.not_actsUnsigned_largestBelowOne : ∃ t u a b,
    resolveSource largestBelowOne "largest" = .ok (t, u) ∧ t.constant? ⟨1⟩ = some (.boolean true) ∧
    Expr.WellTyped t a ∧ Expr.WellTyped t b ∧ a.type = .uint 64 ∧ b.type = .uint 64 ∧
    Resolution.Runs (Resolution.evaluate a) t (.ok (.integer (-1))) t ∧
    Resolution.Runs (Resolution.evaluate b) t (.ok (.integer 1)) t ∧
    unsignedOf 64 (-1) = 2 ^ 64 - 1 ∧ unsignedOf 64 1 = 1 ∧
    ¬ Expr.ActsUnsigned 64 a b (-1) 1 t t := by
  have ran : ((resolveSource largestBelowOne "largest").toOption.map fun p =>
      p.1.storesUnsigned ⟨0⟩ 64 (-1) && p.1.storesTruth ⟨1⟩ true) = some true := by
    unfold largestBelowOne
    rewrite [String.toList_ofList]
    decide +kernel
  obtain ⟨⟨t, u⟩, ok, stores⟩ := map_toOption_eq_some_iff.mp ran
  obtain ⟨first, second⟩ := Bool.and_eq_true_iff.mp stores
  have known : t.constant? ⟨1⟩ = some (.boolean true) := by
    unfold SymbolTable.storesTruth at second
    split at second
    · rename_i b known
      obtain rfl := of_decide_eq_true second
      exact known
    · cases second
  have wide : Ty.IsWidth 64 := .inr (.inr (.inr rfl))
  obtain ⟨wellLeft, runLeft⟩ := SymbolTable.evaluates_of_storesUnsigned first wide "A" default
  have wellRight : Expr.WellTyped t ⟨.converted .integer ⟨.integer 1, .int 32, default⟩, .uint 64, default⟩ :=
    .toInteger (.integer (n := 1) (by decide) rfl) wide (.inr ⟨32, true, rfl, .inl (by decide)⟩)
  have runRight : Resolution.Runs (Resolution.evaluate
      ⟨.converted .integer ⟨.integer 1, .int 32, default⟩, .uint 64, default⟩) t (.ok (.integer 1)) t := rfl
  refine ⟨t, u, _, _, ok, known, wellLeft, wellRight, rfl, rfl, runLeft, runRight, rfl, rfl, fun acts => ?_⟩
  obtain ⟨same, -⟩ := (Expr.runs_comparison runLeft runRight .less default).unique (acts.compares .less default)
  have oneSign := (Comparison.holds_words_iff (fitsWord_iff.mpr (by norm_num)) (fitsWord_iff.mpr (by norm_num))).mp
    (Constant.boolean.inj (Except.ok.inj same))
  simp at oneSign

end Deferral
