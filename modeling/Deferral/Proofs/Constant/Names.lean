import Deferral.Proofs.Constant.Value
import Deferral.Proofs.Typing.Phrase
import Deferral.Resolution.Type

/-!
# The constants a phrase reads

Which constants the value of a phrase may hang on is known before anything is typed. The expression
made of a phrase reads the same constants, and makes no number of a truth value on the way, so that
only a truth value can come out before all of them have been read.
-/

namespace Deferral

namespace SymbolTable

/-- The declaration that a name stands for in expressions, as seen from the innermost scope. -/
def named? (t : SymbolTable) (name : String) : Option DeclId := (t.find name).bind t.preferred?

end SymbolTable

namespace Phrase

/-- The declarations that the value of a phrase may hang on, from left to right. -/
def constantNames (table : SymbolTable) : Phrase → List DeclId
  | .name t => (table.named? t.text).toList
  | .unary _ _ operand => operand.constantNames table
  | .binary _ left right => left.constantNames table ++ right.constantNames table
  | .number _ | .truth _ _ | .assign _ _ | .call _ _ _ => []

end Phrase

namespace TypePhrase

/-- The declarations that the extents in a type may hang on. -/
def constantNames (table : SymbolTable) : TypePhrase → List DeclId
  | .array element extent => element.constantNames table ++ extent.constantNames table
  | .qualified t _ | .pointer t | .reference t | .sequence t => t.constantNames table
  | .name _ | .auto | .decltype _ | .decltypeAuto => []

end TypePhrase

namespace Expr

/-- What is converted on the way to the value of an expression is no truth value. -/
def Direct : Expr → Prop
  | ⟨.converted _ e, _, _⟩ => e.type ≠ .bool ∧ e.Direct
  | ⟨.unary _ e, _, _⟩ => e.Direct
  | ⟨.binary _ left right, _, _⟩ => left.Direct ∧ right.Direct
  | _ => True

/-- An expression that reads the constants `ds` and is direct. -/
structure Reads (ds : List DeclId) (e : Expr) : Prop where
  names : e.constantNames = ds
  direct : e.Direct

namespace Reads

variable {ds ds' : List DeclId} {e : Expr}

theorem convert (h : e.Reads ds) (number : e.type ≠ .bool) (conversion : Conversion) (target : Ty) :
    (e.convert conversion target).Reads ds :=
  ⟨h.names, number, h.direct⟩

theorem dereferenced (h : e.Reads ds) : e.dereferenced.Reads ds := by
  unfold Expr.dereferenced
  split
  · rename_i type
    exact h.convert (by simp [type]) _ _
  · exact h

theorem withoutQualifiers (h : e.Reads ds) : e.withoutQualifiers.Reads ds := by
  unfold Expr.withoutQualifiers
  split
  · rename_i type
    exact h.convert (by simp [type]) _ _
  · exact h

theorem asValue (h : e.Reads ds) : e.asValue.Reads ds := h.dereferenced.withoutQualifiers

theorem toBoolean (h : e.Reads ds) (target : Ty) : (e.toBoolean target).Reads ds := by
  unfold Expr.toBoolean
  split
  · rename_i integer
    exact h.convert (fun same => by simp [same, Ty.isInteger, Ty.unqualified] at integer) _ _
  · exact h

theorem toInteger (h : e.Reads ds) {p : Nat} {s : Bool} (integer : e.type.unqualified = .integer p s)
    (target : Ty) : (e.toInteger target).Reads ds := by
  have number : e.type ≠ .bool := fun same => by simp [same, Ty.unqualified] at integer
  unfold Expr.toInteger
  split
  · split
    · exact h.convert number _ _
    · exact h
  · exact h.convert number _ _
  · exact h

theorem toWiderFloat (h : e.Reads ds) (target : Ty) : (e.toWiderFloat target).Reads ds := by
  unfold Expr.toWiderFloat
  split
  · rename_i source
    split
    · exact h.convert (fun same => by simp [same, Ty.unqualified] at source) _ _
    · exact h
  · exact h

theorem integerToFloat (h : e.Reads ds) (target : Ty) : (e.integerToFloat target).Reads ds := by
  unfold Expr.integerToFloat
  split
  · rename_i both
    refine h.convert (fun same => ?_) _ _
    simp [same, Ty.isInteger, Ty.unqualified] at both
  · exact h

theorem asCondition {e' : Expr} (h : e.Reads ds) (read : e.asCondition = .ok e') :
    e'.Reads ds := by
  unfold Expr.asCondition at read
  dsimp only at read
  split at read
  · exact Except.ok.inj read ▸ h.asValue
  have first : (e.asValue.categoryConverted .bool).Reads ds := h.asValue.dereferenced
  have second : ((e.asValue.categoryConverted .bool).valueConverted .bool).Reads ds := by
    unfold Expr.valueConverted
    split
    · exact first
    · exact first.toBoolean .bool
  unfold Expr.convertTo at read
  dsimp only at read
  split at read
  · exact Except.ok.inj read ▸ first
  split at read
  · exact Except.ok.inj read ▸ second
  rename_i other
  split at read
  · obtain rfl := Except.ok.inj read
    unfold Expr.qualificationConverted
    split
    · exact second.convert (fun same => other (by simp [same, Ty.equivalent])) _ _
    · exact second
  · cases read

theorem commonInteger {l r : Expr} (hl : l.Reads ds) (hr : r.Reads ds') {p₁ p₂ : Nat} {s₁ s₂ : Bool}
    (left : l.type.unqualified = .integer p₁ s₁) (right : r.type.unqualified = .integer p₂ s₂) :
    (l.commonInteger r p₁ s₁ p₂ s₂).1.Reads ds ∧ (l.commonInteger r p₁ s₁ p₂ s₂).2.Reads ds' := by
  unfold Expr.commonInteger
  dsimp only
  repeat' split
  all_goals first
    | exact ⟨hl, hr⟩
    | exact ⟨hl.toInteger left _, hr⟩
    | exact ⟨hl, hr.toInteger right _⟩
    | exact ⟨hl.toInteger left _, hr.toInteger right _⟩

theorem common {l r l' r' : Expr} (hl : l.Reads ds) (hr : r.Reads ds')
    (met : l.common r = .ok (l', r')) : l'.Reads ds ∧ r'.Reads ds' := by
  unfold Expr.common at met
  split at met
  · obtain ⟨rfl, rfl⟩ := Prod.mk.inj (Except.ok.inj met)
    exact ⟨hl, hr⟩
  split at met
  · split at met
    · obtain ⟨rfl, rfl⟩ := Prod.mk.inj (Except.ok.inj met)
      exact ⟨hl.toWiderFloat _, hr⟩
    split at met
    · obtain ⟨rfl, rfl⟩ := Prod.mk.inj (Except.ok.inj met)
      exact ⟨hl, hr.toWiderFloat _⟩
    · obtain ⟨rfl, rfl⟩ := Prod.mk.inj (Except.ok.inj met)
      exact ⟨hl, hr⟩
  · obtain ⟨rfl, rfl⟩ := Prod.mk.inj (Except.ok.inj met)
    exact ⟨hl.integerToFloat _, hr⟩
  · obtain ⟨rfl, rfl⟩ := Prod.mk.inj (Except.ok.inj met)
    exact ⟨hl, hr.integerToFloat _⟩
  · rename_i left right
    have both := commonInteger hl hr left right
    rw [Except.ok.inj met] at both
    exact both
  · cases met

theorem ofUnary {op : UnaryOp} {e' : Expr} {span : Span} (h : e.Reads ds)
    (typed : Expr.ofUnary op e span = .ok e') : e'.Reads ds := by
  cases op with
  | negate =>
    simp only [Expr.ofUnary] at typed
    have operand := h.asValue
    split at typed
    · obtain ⟨_, -, typed⟩ := bind_eq_ok_iff.mp typed
      exact Except.ok.inj typed ▸ ⟨operand.names, operand.direct⟩
    · exact Except.ok.inj typed ▸ ⟨operand.names, operand.direct⟩
  | not =>
    obtain ⟨operand, read, typed⟩ := bind_eq_ok_iff.mp typed
    have operand := h.asCondition read
    exact Except.ok.inj typed ▸ ⟨operand.names, operand.direct⟩

theorem binary {l r : Expr} (hl : l.Reads ds) (hr : r.Reads ds') (op : BinaryOp) (t : Ty)
    (span : Span) : Reads (ds ++ ds') ⟨.binary op l r, t, span⟩ :=
  ⟨by simp only [constantNames, hl.names, hr.names], hl.direct, hr.direct⟩

theorem ofOperands {op : BinaryOp} {l r : Expr} (hl : l.Reads ds) (hr : r.Reads ds')
    (typed : Expr.ofOperands op l r = .ok e) : e.Reads (ds ++ ds') := by
  have left := hl.asValue
  have right := hr.asValue
  rcases ofOperands_cases typed with ⟨rfl, -⟩ | ⟨rfl, -, -⟩ | ⟨l', r', rfl, met, -, -, -⟩
  · exact left.binary right _ _ _
  · exact left.binary right _ _ _
  obtain ⟨left, right⟩ := left.common right met
  exact left.binary right _ _ _

theorem ofBinary {op : BinaryOp} {l r : Expr} (hl : l.Reads ds) (hr : r.Reads ds')
    (typed : Expr.ofBinary op l r = .ok e) : e.Reads (ds ++ ds') := by
  cases op with
  | arithmetic op => exact hl.ofOperands hr typed
  | comparison op => exact hl.ofOperands hr typed
  | connective op =>
    obtain ⟨l', left, typed⟩ := bind_eq_ok_iff.mp typed
    obtain ⟨r', right, typed⟩ := bind_eq_ok_iff.mp typed
    exact Except.ok.inj typed ▸ (hl.asCondition left).binary (hr.asCondition right) _ _ _

end Reads

end Expr

namespace SymbolTable

theorem reads_of_reference {table : SymbolTable} {t : Token} {e : Expr}
    (typed : table.reference t = .ok e) : e.Reads (table.named? t.text).toList := by
  obtain ⟨set, found, typed⟩ := bind_eq_ok_iff.mp typed
  have set' : table.find t.text = some set := by
    unfold overloads at found
    split at found
    · rename_i set' found'
      rw [found', Except.ok.inj found]
    · cases found
  split at typed
  · cases typed
  · rename_i id preferred
    dsimp only at typed
    split at typed
    · obtain rfl := Except.ok.inj typed
      exact ⟨by simp [Expr.constantNames, named?, set', preferred], trivial⟩
    · cases typed

end SymbolTable

/-- A phrase is typed as an expression that reads the constants of the phrase. -/
theorem Phrase.reads_of_typed {table : SymbolTable} : ∀ (p : Phrase) (e : Expr),
    p.typed table = .ok e → e.Reads (p.constantNames table)
  | .number t => by
    intro e typed
    change Expr.ofNumber t = .ok e at typed
    unfold Expr.ofNumber at typed
    dsimp only at typed
    repeat' split at typed
    all_goals first
      | exact Except.ok.inj typed ▸ ⟨rfl, trivial⟩
      | cases typed
  | .truth _ _ => fun _ typed => Except.ok.inj typed ▸ ⟨rfl, trivial⟩
  | .name _ => fun _ typed => SymbolTable.reads_of_reference typed
  | .unary _ _ operand => by
    intro _ typed
    obtain ⟨e, first, typed⟩ := bind_eq_ok_iff.mp typed
    exact (reads_of_typed operand e first).ofUnary typed
  | .binary _ left right => by
    intro _ typed
    obtain ⟨l, first, typed⟩ := bind_eq_ok_iff.mp typed
    obtain ⟨r, second, typed⟩ := bind_eq_ok_iff.mp typed
    exact (reads_of_typed left l first).ofBinary (reads_of_typed right r second) typed
  | .assign _ _ => by
    intro _ typed
    obtain ⟨t, -, typed⟩ := bind_eq_ok_iff.mp typed
    obtain ⟨v, -, typed⟩ := bind_eq_ok_iff.mp typed
    obtain ⟨bound, -, typed⟩ := bind_eq_ok_iff.mp typed
    exact Except.ok.inj typed ▸ ⟨rfl, trivial⟩
  | .call _ _ _ => by
    intro _ typed
    obtain ⟨f, -, typed⟩ := bind_eq_ok_iff.mp typed
    obtain ⟨es, -, typed⟩ := bind_eq_ok_iff.mp typed
    unfold Expr.ofCall at typed
    split at typed
    · dsimp only at typed
      split at typed
      · cases typed
      split at typed
      · cases typed
      obtain ⟨bound, -, typed⟩ := bind_eq_ok_iff.mp typed
      exact Except.ok.inj typed ▸ ⟨rfl, trivial⟩
    · split at typed
      · exact Except.ok.inj typed ▸ ⟨rfl, trivial⟩
      · cases typed

namespace Expr

/-- Where a constant without a value is read, only a truth value comes out, from a connective or a
comparison. -/
theorem truth_of_unknown {table : SymbolTable} {store : DeclId → Option Constant} {c : DeclId}
    (unknown : store c = none) {e : Expr} (well : e.WellTyped table) (direct : e.Direct)
    (reads : c ∈ e.constantNames) {v : Constant} (value : e.value? store = some v) :
    (∃ b, v = .boolean b) ∧ e.type = .bool := by
  induction well generalizing v with
  | boolean => cases reads
  | integer _ _ => cases reads
  | float => cases reads
  | name _ _ _ =>
    obtain rfl := List.mem_singleton.mp reads
    change store c = some v at value
    rw [unknown] at value
    cases value
  | negate _ _ _ ih =>
    obtain ⟨w, operand, value⟩ := Option.bind_eq_some_iff.mp value
    obtain ⟨⟨b, rfl⟩, -⟩ := ih direct reads operand
    cases value
  | not _ _ _ =>
    obtain ⟨w, -, value⟩ := Option.bind_eq_some_iff.mp value
    cases w with
    | boolean b => exact ⟨⟨!b, (Option.some.inj value).symm⟩, rfl⟩
    | integer _ => cases value
    | float _ => cases value
  | connective _ _ _ _ _ _ =>
    obtain ⟨w, -, value⟩ := Option.bind_eq_some_iff.mp value
    obtain ⟨l, -, value⟩ := Option.bind_eq_some_iff.mp value
    refine ⟨?_, rfl⟩
    split at value
    · exact ⟨l, (Option.some.inj value).symm⟩
    · obtain ⟨w, -, value⟩ := Option.bind_eq_some_iff.mp value
      obtain ⟨r, -, value⟩ := Option.bind_eq_some_iff.mp value
      exact ⟨r, (Option.some.inj value).symm⟩
  | arithmetic _ _ _ _ _ ihl ihr =>
    obtain ⟨l, left, value⟩ := Option.bind_eq_some_iff.mp value
    obtain ⟨r, right, value⟩ := Option.bind_eq_some_iff.mp value
    rcases List.mem_append.mp reads with member | member
    · obtain ⟨⟨b, rfl⟩, -⟩ := ihl direct.1 member left
      cases r <;> cases value
    · obtain ⟨⟨b, rfl⟩, -⟩ := ihr direct.2 member right
      cases l <;> cases value
  | @comparison op _ _ _ _ _ _ _ _ _ _ =>
    obtain ⟨l, -, value⟩ := Option.bind_eq_some_iff.mp value
    obtain ⟨r, -, value⟩ := Option.bind_eq_some_iff.mp value
    refine ⟨?_, rfl⟩
    cases l <;> cases r <;> first
      | exact ⟨_, (Option.some.inj value).symm⟩
      | cases value
      | (cases op <;> first
          | exact ⟨_, (Option.some.inj value).symm⟩
          | cases value)
  | call _ _ _ _ _ _ => cases reads
  | callUnknown _ _ _ _ _ _ => cases reads
  | assign _ _ _ _ _ _ => cases reads
  | dereference _ _ ih | toBoolean _ _ ih | toInteger _ _ _ ih | toFloat _ _ ih | unqualify _ _ ih
  | requalify _ _ _ _ ih =>
    obtain ⟨w, source, -⟩ := Option.bind_eq_some_iff.mp value
    exact absurd (ih direct.2 reads source).2 direct.1

end Expr

end Deferral
