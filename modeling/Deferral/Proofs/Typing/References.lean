import Deferral.Proofs.Conversion.Wrapping
import Deferral.Proofs.Typing.Phrase

/-!
# References

The names in an expression and the declarations they are bound to. A name is bound to the first
declaration of its overload set that is no extension, and converting an expression or putting it into
a greater one binds no name anew.
-/

namespace Deferral

mutual

/-- The declarations that an expression refers to, each with the name it is referred to by. -/
def Expr.references : Expr → List (DeclId × String)
  | ⟨.name d name, _, _⟩ => [(d, name)]
  | ⟨.unary _ e, _, _⟩ | ⟨.converted _ e, _, _⟩ => e.references
  | ⟨.binary _ left right, _, _⟩ => left.references ++ right.references
  | ⟨.assign target value, _, _⟩ => target.references ++ value.references
  | ⟨.call callee arguments, _, _⟩ => callee.references ++ referencesIn arguments
  | ⟨.deferred _, _, _⟩ | ⟨.boolean _, _, _⟩ | ⟨.integer _, _, _⟩ | ⟨.float _, _, _⟩ => []

def Expr.referencesIn : List Expr → List (DeclId × String)
  | [] => []
  | e :: rest => e.references ++ referencesIn rest

end

namespace Expr

attribute [local simp] references referencesIn

/-! ## Conversions -/

variable {e e' l r : Expr} {target : Ty}

theorem references_of_wraps (h : e.Wraps e') : e'.references = e.references :=
  h.eq fun _ _ _ => rfl

@[simp] theorem references_asValue (e : Expr) : e.asValue.references = e.references :=
  references_of_wraps e.wraps_asValue

theorem references_asCondition (h : e.asCondition = .ok e') : e'.references = e.references :=
  references_of_wraps (e.meant_asCondition.of_ok h)

theorem references_initializer (h : e.initializer target = .ok e') :
    e'.references = e.references :=
  references_of_wraps ((e.meant_initializer target).of_ok h)

theorem references_definingInitializer (h : e.definingInitializer target = .ok e') :
    e'.references = e.references :=
  references_of_wraps ((e.meant_definingInitializer target).of_ok h)

theorem references_common {l' r' : Expr} (h : l.common r = .ok (l', r')) :
    l'.references = l.references ∧ r'.references = r.references :=
  have ⟨left, right⟩ := (l.meant_common r).of_ok h
  ⟨references_of_wraps left, references_of_wraps right⟩

/-! ## Operations -/

theorem references_ofNumber {t : Token} (h : ofNumber t = .ok e) : e.references = [] := by
  unfold ofNumber at h
  dsimp only at h
  split at h <;> split at h
  · obtain rfl := Except.ok.inj h
    rfl
  · cases h
  · split at h
    · obtain rfl := Except.ok.inj h
      rfl
    · cases h
  · cases h

theorem references_ofUnary {op : UnaryOp} {span : Span} (h : ofUnary op e span = .ok e') :
    e'.references = e.references := by
  unfold ofUnary at h
  split at h
  · dsimp only at h
    split at h
    · obtain ⟨_, -, h⟩ := bind_eq_ok_iff.mp h
      obtain rfl := Except.ok.inj h
      simp
    · obtain rfl := Except.ok.inj h
      simp
  · obtain ⟨operand, condition, h⟩ := bind_eq_ok_iff.mp h
    obtain rfl := Except.ok.inj h
    simpa using references_asCondition condition

theorem references_ofBinary {op : BinaryOp} (h : ofBinary op l r = .ok e) :
    e.references = l.references ++ r.references := by
  have operands (h : ofOperands op l r = .ok e) : e.references = l.references ++ r.references := by
    rcases ofOperands_cases h with ⟨rfl, -⟩ | ⟨rfl, -⟩ | ⟨l', r', rfl, met, -⟩
    · simp
    · simp
    · obtain ⟨left, right⟩ := references_common met
      simp [left, right]
  cases op with
  | arithmetic op => exact operands h
  | comparison op => exact operands h
  | connective op =>
    obtain ⟨l', left, h⟩ := bind_eq_ok_iff.mp h
    obtain ⟨r', right, h⟩ := bind_eq_ok_iff.mp h
    obtain rfl := Except.ok.inj h
    simp [references_asCondition left, references_asCondition right]

/-- Arguments without a parameter are left out. -/
theorem references_bindArguments {arguments bound : List Expr} {parameters : List Ty}
    (h : bindArguments arguments parameters = .ok bound) :
    ∀ ref ∈ referencesIn bound, ref ∈ referencesIn arguments := by
  induction arguments generalizing parameters bound with
  | nil =>
    obtain rfl := Except.ok.inj h
    exact fun _ none => by cases none
  | cons e rest ih =>
    cases parameters with
    | nil =>
      obtain rfl := Except.ok.inj h
      exact fun _ none => by cases none
    | cons parameter parameters =>
      obtain ⟨first, initialized, h⟩ := bind_eq_ok_iff.mp h
      obtain ⟨others, bound', h⟩ := bind_eq_ok_iff.mp h
      obtain rfl := Except.ok.inj h
      intro ref member
      simp only [referencesIn, references_initializer initialized, List.mem_append] at member ⊢
      exact member.imp_right (ih bound' ref)

theorem referencesIn_map_asValue (es : List Expr) :
    referencesIn (es.map asValue) = referencesIn es := by
  induction es with
  | nil => rfl
  | cons e rest ih => simp [ih]

theorem references_ofCall {callee : Expr} {arguments : List Expr} {span : Span}
    (h : ofCall callee arguments span = .ok e) :
    ∀ ref ∈ e.references, ref ∈ callee.references ∨ ref ∈ referencesIn arguments := by
  unfold ofCall at h
  split at h
  · dsimp only at h
    split at h
    · cases h
    split at h
    · cases h
    obtain ⟨bound, bound', h⟩ := bind_eq_ok_iff.mp h
    obtain rfl := Except.ok.inj h
    intro ref member
    exact (List.mem_append.mp member).imp_right (references_bindArguments bound' ref)
  · split at h
    · obtain rfl := Except.ok.inj h
      intro ref member
      exact (List.mem_append.mp member).imp_right fun member => referencesIn_map_asValue _ ▸ member
    · cases h

theorem references_ofAssign (h : ofAssign l r = .ok e) :
    e.references = l.references ++ r.references := by
  obtain ⟨bound, initialized, h⟩ := bind_eq_ok_iff.mp h
  obtain rfl := Except.ok.inj h
  simp [references_initializer initialized]

end Expr

/-- What is set aside refers to nothing yet. -/
theorem Expr.references_of_excerpt? {e : Expr} (h : e.excerpt?.isSome = true) :
    e.references = [] := by
  match e with
  | ⟨.deferred _, _, _⟩ => rfl

/-! ## What names stand for -/

namespace SymbolTable

/-- The first declaration of an overload set that is no extension. -/
def firstProper? (t : SymbolTable) (set : Overloads) : Option DeclId :=
  set.find? fun d => !(t.decl d).isExtension

/-- A name, seen from a scope, stands for a declaration in expressions: the first that is no extension
in the nearest overload set of the name. -/
def Denotes (t : SymbolTable) (s : ScopeId) (name : String) (d : DeclId) : Prop :=
  ∃ set, t.findFrom s name = some set ∧ t.firstProper? set = some d

/-- Every name in an expression stands for what it is bound to, seen from a scope. -/
def Lexical (t : SymbolTable) (s : ScopeId) (e : Expr) : Prop :=
  ∀ ref ∈ e.references, t.Denotes s ref.2 ref.1

variable {t : SymbolTable}

theorem typeOfUse?_of_isExtension {d : Decl} (h : d.isExtension = true) : typeOfUse? d = none := by
  unfold Decl.isExtension at h
  unfold typeOfUse?
  split at h <;> simp_all

/-- An extension is never referred to, since it has no value. -/
theorem lexical_reference {token : Token} {e : Expr} (h : t.reference token = .ok e) :
    t.Lexical t.innermost e := by
  unfold reference at h
  obtain ⟨set, found, h⟩ := bind_eq_ok_iff.mp h
  split at h
  · cases h
  rename_i d preferred
  dsimp only at h
  split at h
  · rename_i type used
    obtain rfl := Except.ok.inj h
    intro ref member
    obtain rfl := List.mem_singleton.mp member
    have proper : (t.decl d).isExtension = false := by
      by_contra extension
      rw [typeOfUse?_of_isExtension (by simpa using extension)] at used
      cases used
    refine ⟨set, ?_, ?_⟩
    · unfold overloads at found
      split at found
      · rename_i known
        exact Except.ok.inj found ▸ known
      · cases found
    · unfold preferred? at preferred
      rcases Option.or_eq_some_iff.mp preferred with first | ⟨none, first⟩
      · exact first
      · have all := List.find?_eq_none.mp none d (List.mem_of_head? first)
        simp [proper] at all
  · cases h

end SymbolTable

namespace Phrase

mutual

theorem lexical_typed {t : SymbolTable} : ∀ (p : Phrase) {e : Expr}, p.typed t = .ok e →
    t.Lexical t.innermost e
  | .number token, e, h => by
    unfold SymbolTable.Lexical
    rw [Expr.references_ofNumber h]
    exact fun _ none => by cases none
  | .truth value token, e, h => by
    obtain rfl := Except.ok.inj h
    exact fun _ none => by cases none
  | .name token, e, h => SymbolTable.lexical_reference h
  | .unary op start operand, e, h => by
    obtain ⟨inner, typed, h⟩ := bind_eq_ok_iff.mp h
    unfold SymbolTable.Lexical
    rw [Expr.references_ofUnary h]
    exact lexical_typed operand typed
  | .binary op left right, e, h => by
    obtain ⟨l, typedLeft, h⟩ := bind_eq_ok_iff.mp h
    obtain ⟨r, typedRight, h⟩ := bind_eq_ok_iff.mp h
    intro ref member
    rw [Expr.references_ofBinary h] at member
    exact (List.mem_append.mp member).elim (lexical_typed left typedLeft ref)
      (lexical_typed right typedRight ref)
  | .assign target value, e, h => by
    obtain ⟨l, typedLeft, h⟩ := bind_eq_ok_iff.mp h
    obtain ⟨r, typedRight, h⟩ := bind_eq_ok_iff.mp h
    intro ref member
    rw [Expr.references_ofAssign h] at member
    exact (List.mem_append.mp member).elim (lexical_typed target typedLeft ref)
      (lexical_typed value typedRight ref)
  | .call callee arguments stop, e, h => by
    obtain ⟨f, typedCallee, h⟩ := bind_eq_ok_iff.mp h
    obtain ⟨es, typedArguments, h⟩ := bind_eq_ok_iff.mp h
    intro ref member
    exact (Expr.references_ofCall h ref member).elim (lexical_typed callee typedCallee ref)
      (lexical_typedAll arguments typedArguments ref)

theorem lexical_typedAll {t : SymbolTable} : ∀ (ps : List Phrase) {es : List Expr},
    typedAll t ps = .ok es → ∀ ref ∈ Expr.referencesIn es, t.Denotes t.innermost ref.2 ref.1
  | [], es, h => by
    obtain rfl := Except.ok.inj h
    exact fun _ none => by cases none
  | p :: rest, es, h => by
    obtain ⟨e, typed, h⟩ := bind_eq_ok_iff.mp h
    obtain ⟨others, typedRest, h⟩ := bind_eq_ok_iff.mp h
    obtain rfl := Except.ok.inj h
    intro ref member
    exact (List.mem_append.mp member).elim (lexical_typed p typed ref)
      (lexical_typedAll rest typedRest ref)

end

end Phrase

namespace SymbolTable

variable {t : SymbolTable} {e e' : Expr}

theorem lexical_of_excerpt? (h : e.excerpt?.isSome = true) (t : SymbolTable) (s : ScopeId) :
    t.Lexical s e := by
  intro ref member
  rw [Expr.references_of_excerpt? h] at member
  cases member

/-- An expression that is read refers to what its names stand for in the innermost scope. -/
theorem lexical_forceExpression (h : t.forceExpression e = .ok e') :
    e' = e ∨ t.Lexical t.innermost e' := by
  unfold forceExpression at h
  split at h
  · exact .inl (Except.ok.inj h).symm
  · right
    have read := mapError_eq_ok_iff.mp h
    unfold expressionOf at read
    split at read
    · exact Phrase.lexical_typed _ read
    · obtain ⟨_, -, wrong⟩ := bind_eq_ok_iff.mp read
      cases wrong

end SymbolTable

end Deferral
