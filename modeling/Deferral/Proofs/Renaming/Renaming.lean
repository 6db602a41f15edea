import Mathlib.Logic.Equiv.Basic
import Deferral.Conversion.Equivalence
import Deferral.Tree.Text

/-!
# Renaming identifiers

A renaming gives every identifier another name. Trees are renamed by renaming the identifiers in them,
those in their excerpts included; numbers of declarations and places stay. What is asked of the shape of
a type has the same answer for the renamed type.
-/

namespace Deferral

/-- A one to one renaming of identifiers. The builtin types keep their names, and so do the type
parameters that a function gets for its parameters declared `auto`. -/
structure Renaming where
  name : Equiv.Perm String
  builtin : ∀ n, (Ty.builtin? n).isSome = true → name n = n
  typeParameter : ∀ k : Nat, name ("T" ++ k.repr) = "T" ++ k.repr

variable (σ : Renaming)

/-- A token of another name, if it is an identifier. -/
def Token.renamed (t : Token) : Token :=
  if t.kind = .identifier then { t with text := σ.name t.text } else t

/-- An excerpt with its identifiers renamed. -/
def Excerpt.renamed (f : Excerpt) : Excerpt := { f with tokens := f.tokens.map (·.renamed σ) }

mutual

/-- A type with its identifiers renamed. -/
def Ty.renamed : Ty → Ty
  | .decltype e => .decltype e.renamed
  | .function parameters result => .function (Ty.allRenamed parameters) result.renamed
  | .reference t => .reference t.renamed
  | .qualified t q => .qualified t.renamed q
  | .pointer t => .pointer t.renamed
  | .array t n => .array t.renamed n
  | .sequence t => .sequence t.renamed
  | .named sort decl name => .named sort decl (σ.name name)
  | .deferred excerpt => .deferred (excerpt.renamed σ)
  | .void => .void
  | .bool => .bool
  | .integer precision signed => .integer precision signed
  | .float precision => .float precision
  | .auto => .auto
  | .decltypeAuto => .decltypeAuto
  | .metatype => .metatype

/-- Types with their identifiers renamed. -/
def Ty.allRenamed : List Ty → List Ty
  | [] => []
  | t :: rest => t.renamed :: Ty.allRenamed rest

/-- What an expression does, with the identifiers renamed. -/
def Node.renamed : Node → Node
  | .deferred excerpt => .deferred (excerpt.renamed σ)
  | .boolean b => .boolean b
  | .integer n => .integer n
  | .float x => .float x
  | .name decl name => .name decl (σ.name name)
  | .unary op e => .unary op e.renamed
  | .binary op l r => .binary op l.renamed r.renamed
  | .call callee arguments => .call callee.renamed (Expr.allRenamed arguments)
  | .assign target value => .assign target.renamed value.renamed
  | .converted conversion e => .converted conversion e.renamed

/-- An expression with its identifiers renamed. -/
def Expr.renamed : Expr → Expr
  | ⟨node, type, span⟩ => ⟨node.renamed, type.renamed, span⟩

/-- Expressions with their identifiers renamed. -/
def Expr.allRenamed : List Expr → List Expr
  | [] => []
  | e :: rest => e.renamed :: Expr.allRenamed rest

end

variable {σ}

namespace Token

@[simp] theorem kind_renamed (t : Token) : (t.renamed σ).kind = t.kind := by
  unfold renamed
  split <;> rfl

@[simp] theorem span_renamed (t : Token) : (t.renamed σ).span = t.span := by
  unfold renamed
  split <;> rfl

theorem renamed_of_ne {t : Token} (other : t.kind ≠ .identifier) : t.renamed σ = t := if_neg other

theorem text_renamed_of_eq {t : Token} (identifier : t.kind = .identifier) :
    (t.renamed σ).text = σ.name t.text := by
  unfold renamed
  rw [if_pos identifier]

theorem renamed_injective : Function.Injective (Token.renamed σ) := by
  intro t u same
  have kinds : t.kind = u.kind := by simpa using congrArg Token.kind same
  have spans : t.span = u.span := by simpa using congrArg Token.span same
  by_cases identifier : t.kind = .identifier
  · have texts := congrArg Token.text same
    rw [text_renamed_of_eq identifier, text_renamed_of_eq (kinds ▸ identifier)] at texts
    obtain ⟨kind, text, span⟩ := t
    obtain ⟨kind', text', span'⟩ := u
    obtain rfl : text = text' := σ.name.injective texts
    obtain rfl : kind = kind' := kinds
    obtain rfl : span = span' := spans
    rfl
  · rwa [renamed_of_ne identifier, renamed_of_ne (kinds ▸ identifier)] at same

end Token

theorem Excerpt.renamed_injective : Function.Injective (Excerpt.renamed σ) := by
  rintro ⟨tokens, position⟩ ⟨tokens', position'⟩ same
  obtain ⟨same, rfl⟩ := Excerpt.mk.inj same
  have tokens := (List.map_inj_right fun _ _ equal => Token.renamed_injective equal).mp same
  exact congrArg (Excerpt.mk · position) tokens

@[simp] theorem Excerpt.span_renamed (f : Excerpt) : (f.renamed σ).span = f.span := by
  simp [span, renamed, List.getLast?_map, Function.comp_def]

theorem Ty.allRenamed_eq_map (ts : List Ty) : Ty.allRenamed σ ts = ts.map (Ty.renamed σ) := by
  induction ts with
  | nil => rfl
  | cons t rest ih => exact congrArg _ ih

theorem Expr.allRenamed_eq_map (es : List Expr) :
    Expr.allRenamed σ es = es.map (Expr.renamed σ) := by
  induction es with
  | nil => rfl
  | cons e rest ih => exact congrArg _ ih

namespace Expr

@[simp] theorem type_renamed (e : Expr) : (e.renamed σ).type = e.type.renamed σ := by
  cases e; rfl

@[simp] theorem span_renamed (e : Expr) : (e.renamed σ).span = e.span := by
  cases e; rfl

@[simp] theorem start_renamed (e : Expr) : (e.renamed σ).start = e.start := by
  cases e; rfl

@[simp] theorem renamed_convert (e : Expr) (conversion : Conversion) (target : Ty) :
    (e.convert conversion target).renamed σ =
      (e.renamed σ).convert conversion (target.renamed σ) := by
  cases e; rfl

theorem excerpt?_renamed (e : Expr) :
    (e.renamed σ).excerpt? = e.excerpt?.map (Excerpt.renamed σ) := by
  obtain ⟨node, type, span⟩ := e
  cases node <;> rfl

end Expr

/-! ## Outer shapes -/

namespace Ty

@[simp] theorem renamed_toReference (t : Ty) :
    t.toReference.renamed σ = (t.renamed σ).toReference := by
  cases t <;> rfl

@[simp] theorem renamed_addQualifiers (t : Ty) (q : Qualifiers) :
    (t.addQualifiers q).renamed σ = (t.renamed σ).addQualifiers q := by
  unfold addQualifiers
  split
  · rfl
  · cases t <;> rfl

@[simp] theorem renamed_unqualified (t : Ty) :
    t.unqualified.renamed σ = (t.renamed σ).unqualified := by
  cases t <;> rfl

@[simp] theorem renamed_referent (t : Ty) : t.referent.renamed σ = (t.renamed σ).referent := by
  cases t <;> rfl

@[simp] theorem renamed_valueType (t : Ty) :
    t.valueType.renamed σ = (t.renamed σ).valueType := by
  simp [valueType]

@[simp] theorem isReference_renamed (t : Ty) : (t.renamed σ).isReference = t.isReference := by
  cases t <;> rfl

@[simp] theorem isDeferred_renamed (t : Ty) : (t.renamed σ).isDeferred = t.isDeferred := by
  cases t <;> rfl

@[simp] theorem isPlaceholder_renamed (t : Ty) : (t.renamed σ).isPlaceholder = t.isPlaceholder := by
  cases t <;> rfl

@[simp] theorem isInteger_renamed (t : Ty) : (t.renamed σ).isInteger = t.isInteger := by
  unfold isInteger
  rw [← renamed_unqualified]
  cases t.unqualified <;> rfl

@[simp] theorem isFloat_renamed (t : Ty) : (t.renamed σ).isFloat = t.isFloat := by
  unfold isFloat
  rw [← renamed_unqualified]
  cases t.unqualified <;> rfl

@[simp] theorem isArithmetic_renamed (t : Ty) : (t.renamed σ).isArithmetic = t.isArithmetic := by
  simp [isArithmetic]

mutual

theorem isDependent_renamed : ∀ t : Ty, (t.renamed σ).isDependent = t.isDependent
  | .decltype ⟨_, t, _⟩ => isDependent_renamed t
  | .function parameters result => by
    show ((result.renamed σ).isDependent || anyDependent (allRenamed σ parameters)) = _
    rw [isDependent_renamed result, anyDependent_allRenamed parameters]
    rfl
  | .reference t | .qualified t _ | .pointer t | .array t _ | .sequence t => isDependent_renamed t
  | .named sort _ _ => by cases sort <;> rfl
  | .void | .bool | .integer _ _ | .float _ | .auto | .decltypeAuto | .metatype | .deferred _ => rfl

theorem anyDependent_allRenamed :
    ∀ ts : List Ty, anyDependent (allRenamed σ ts) = anyDependent ts
  | [] => rfl
  | t :: rest => by
    show ((t.renamed σ).isDependent || anyDependent (allRenamed σ rest)) = _
    rw [isDependent_renamed t, anyDependent_allRenamed rest]
    rfl

end

attribute [simp] isDependent_renamed

/-- A type with a name of its own mentions no identifier. -/
theorem renamed_builtin? {name : String} {t : Ty} (h : builtin? name = some t) :
    t.renamed σ = t := by
  have plain : ∀ entry ∈ ([("void", .void), ("bool", .bool), ("int8", .int 8), ("int16", .int 16),
      ("int32", .int 32), ("int64", .int 64), ("uint8", .uint 8), ("uint16", .uint 16),
      ("uint32", .uint 32), ("uint64", .uint 64), ("float32", .float 32), ("float64", .float 64),
      ("type", .metatype)] : List (String × Ty)), entry.2.renamed σ = entry.2 := by
    simp [int, uint, renamed]
  obtain ⟨l₁, l₂, same, -⟩ := List.lookup_eq_some_iff.mp h
  exact plain (name, t) (same ▸ by simp)

/-- No other name than that of a builtin type is renamed to it. -/
theorem builtin?_name (name : String) : builtin? (σ.name name) = builtin? name := by
  cases own : builtin? name with
  | some type => rw [σ.builtin name (by simp [own]), own]
  | none =>
    cases renamed : builtin? (σ.name name) with
    | none => rfl
    | some type =>
      have fixed := σ.name.injective (σ.builtin _ (by rw [renamed]; rfl))
      rw [fixed, own] at renamed
      cases renamed

end Ty

/-! ## Sameness, equivalence and similarity -/

mutual

theorem Ty.same_renamed : ∀ t u : Ty, (t.renamed σ).same (u.renamed σ) = t.same u
  | .decltype e, u => by
    cases u with
    | decltype e' => exact Expr.same_renamed e e'
    | _ => rfl
  | .function ts t, u => by
    cases u with
    | function us u =>
      show (Ty.sameAll (Ty.allRenamed σ ts) (Ty.allRenamed σ us) &&
        (t.renamed σ).same (u.renamed σ)) = _
      rw [Ty.same_renamed t, Ty.sameAll_allRenamed ts]
      rfl
    | _ => rfl
  | .reference t, u => by
    cases u with
    | reference u => exact Ty.same_renamed t u
    | _ => rfl
  | .qualified t q, u => by
    cases u with
    | qualified u r => exact congrArg (· && q == r) (Ty.same_renamed t u)
    | _ => rfl
  | .pointer t, u => by
    cases u with
    | pointer u => exact Ty.same_renamed t u
    | _ => rfl
  | .array t n, u => by
    cases u with
    | array u m => exact congrArg (· && n == m) (Ty.same_renamed t u)
    | _ => rfl
  | .sequence t, u => by
    cases u with
    | sequence u => exact Ty.same_renamed t u
    | _ => rfl
  | .named sort decl name, u => by
    cases u with
    | named sort' decl' name' =>
      refine congrArg (sort == sort' && decl == decl' && ·) ?_
      rw [Bool.eq_iff_iff, beq_iff_eq, beq_iff_eq, σ.name.injective.eq_iff]
    | _ => rfl
  | .deferred f, u => by
    cases u with
    | deferred f' =>
      show (f.renamed σ == f'.renamed σ) = (f == f')
      rw [Bool.eq_iff_iff, beq_iff_eq, beq_iff_eq, Excerpt.renamed_injective.eq_iff]
    | _ => rfl
  | .void, u | .bool, u | .integer _ _, u | .float _, u | .auto, u | .decltypeAuto, u
  | .metatype, u => by cases u <;> rfl

theorem Ty.sameAll_allRenamed : ∀ ts us : List Ty,
    Ty.sameAll (Ty.allRenamed σ ts) (Ty.allRenamed σ us) = Ty.sameAll ts us
  | [], us => by cases us <;> rfl
  | t :: ts, us => by
    cases us with
    | nil => rfl
    | cons u us =>
      show ((t.renamed σ).same (u.renamed σ) &&
        Ty.sameAll (Ty.allRenamed σ ts) (Ty.allRenamed σ us)) = _
      rw [Ty.same_renamed t, Ty.sameAll_allRenamed ts]
      rfl

theorem Node.same_renamed : ∀ n m : Node, (n.renamed σ).same (m.renamed σ) = n.same m
  | .deferred f, m => by
    cases m with
    | deferred f' =>
      show (f.renamed σ == f'.renamed σ) = (f == f')
      rw [Bool.eq_iff_iff, beq_iff_eq, beq_iff_eq, Excerpt.renamed_injective.eq_iff]
    | _ => rfl
  | .name decl name, m => by
    cases m with
    | name decl' name' =>
      refine congrArg (decl == decl' && ·) ?_
      rw [Bool.eq_iff_iff, beq_iff_eq, beq_iff_eq, σ.name.injective.eq_iff]
    | _ => rfl
  | .unary op e, m => by
    cases m with
    | unary op' e' => exact congrArg (op == op' && ·) (Expr.same_renamed e e')
    | _ => rfl
  | .binary op l r, m => by
    cases m with
    | binary op' l' r' =>
      show (op == op' && (l.renamed σ).same (l'.renamed σ) && (r.renamed σ).same (r'.renamed σ)) = _
      rw [Expr.same_renamed l, Expr.same_renamed r]
      rfl
    | _ => rfl
  | .call c es, m => by
    cases m with
    | call c' es' =>
      show ((c.renamed σ).same (c'.renamed σ) &&
        Expr.sameAll (Expr.allRenamed σ es) (Expr.allRenamed σ es')) = _
      rw [Expr.same_renamed c, Expr.sameAll_allRenamed es]
      rfl
    | _ => rfl
  | .assign l r, m => by
    cases m with
    | assign l' r' =>
      show ((l.renamed σ).same (l'.renamed σ) && (r.renamed σ).same (r'.renamed σ)) = _
      rw [Expr.same_renamed l, Expr.same_renamed r]
      rfl
    | _ => rfl
  | .converted conversion e, m => by
    cases m with
    | converted conversion' e' =>
      exact congrArg (conversion == conversion' && ·) (Expr.same_renamed e e')
    | _ => rfl
  | .boolean _, m | .integer _, m | .float _, m => by cases m <;> rfl

theorem Expr.same_renamed : ∀ e e' : Expr, (e.renamed σ).same (e'.renamed σ) = e.same e'
  | ⟨n, t, s⟩, ⟨n', t', s'⟩ => by
    show ((n.renamed σ).same (n'.renamed σ) && (t.renamed σ).same (t'.renamed σ) && s == s') = _
    rw [Node.same_renamed n, Ty.same_renamed t]
    rfl

theorem Expr.sameAll_allRenamed : ∀ es es' : List Expr,
    Expr.sameAll (Expr.allRenamed σ es) (Expr.allRenamed σ es') = Expr.sameAll es es'
  | [], es' => by cases es' <;> rfl
  | e :: es, es' => by
    cases es' with
    | nil => rfl
    | cons e' es' =>
      show ((e.renamed σ).same (e'.renamed σ) &&
        Expr.sameAll (Expr.allRenamed σ es) (Expr.allRenamed σ es')) = _
      rw [Expr.same_renamed e, Expr.sameAll_allRenamed es]
      rfl

end

namespace Ty

mutual

theorem equivalent_renamed : ∀ t u : Ty, (t.renamed σ).equivalent (u.renamed σ) = t.equivalent u
  | .decltype e, u => by
    cases u with
    | decltype e' => exact Expr.same_renamed e e'
    | _ => rfl
  | .function ts t, u => by
    cases u with
    | function us u =>
      show (equivalentAll (allRenamed σ ts) (allRenamed σ us) &&
        (t.renamed σ).equivalent (u.renamed σ)) = _
      rw [equivalent_renamed t, equivalentAll_allRenamed ts]
      rfl
    | _ => rfl
  | .reference t, u => by
    cases u with
    | reference u => exact equivalent_renamed t u
    | _ => rfl
  | .qualified t q, u => by
    cases u with
    | qualified u r => exact congrArg (q == r && ·) (equivalent_renamed t u)
    | _ => rfl
  | .pointer t, u => by
    cases u with
    | pointer u => exact equivalent_renamed t u
    | _ => rfl
  | .array t n, u => by
    cases u with
    | array u m => exact congrArg (n == m && ·) (equivalent_renamed t u)
    | _ => rfl
  | .sequence t, u => by
    cases u with
    | sequence u => exact equivalent_renamed t u
    | _ => rfl
  | .named _ _ _, u | .void, u | .bool, u | .integer _ _, u | .float _, u | .auto, u
  | .decltypeAuto, u | .metatype, u | .deferred _, u => by cases u <;> rfl

theorem equivalentAll_allRenamed : ∀ ts us : List Ty,
    equivalentAll (allRenamed σ ts) (allRenamed σ us) = equivalentAll ts us
  | [], us => by cases us <;> rfl
  | t :: ts, us => by
    cases us with
    | nil => rfl
    | cons u us =>
      show ((t.renamed σ).equivalent (u.renamed σ) &&
        equivalentAll (allRenamed σ ts) (allRenamed σ us)) = _
      rw [equivalent_renamed t, equivalentAll_allRenamed ts]
      rfl

end

theorem layersAgree_renamed (t u : Ty) :
    (t.renamed σ).layersAgree (u.renamed σ) = t.layersAgree u := by
  cases t with
  | pointer t | sequence t | array t n => cases u <;> rfl
  | _ => rfl

theorem similarBare_renamed (t u : Ty) :
    (t.renamed σ).similarBare (u.renamed σ) = t.similarBare u := by
  have bare {t : Ty} (plain : ∀ u q, t = .qualified u q → False) : t.unqualified = t := by
    cases t with
    | qualified u q => exact (plain u q rfl).elim
    | _ => rfl
  induction t, u using similarBare.induct with
  | case1 t q u ih =>
    show (pointer ((qualified t q).renamed σ)).similarBare (pointer (u.renamed σ)) = _
    rw [similarBare_pointer, ← renamed_unqualified u]
    exact ih
  | case2 t q u ih =>
    show (sequence ((qualified t q).renamed σ)).similarBare (sequence (u.renamed σ)) = _
    rw [similarBare_sequence, ← renamed_unqualified u]
    exact ih
  | case3 t u plain ih =>
    show (pointer (t.renamed σ)).similarBare (pointer (u.renamed σ)) = _
    rw [similarBare_pointer, similarBare_pointer, ← renamed_unqualified, ← renamed_unqualified,
      bare plain]
    exact ih
  | case4 t u plain ih =>
    show (sequence (t.renamed σ)).similarBare (sequence (u.renamed σ)) = _
    rw [similarBare_sequence, similarBare_sequence, ← renamed_unqualified, ← renamed_unqualified,
      bare plain]
    exact ih
  | case5 t q n u m ih =>
    show (array ((qualified t q).renamed σ) n).similarBare (array (u.renamed σ) m) = _
    rw [similarBare_array, ← renamed_unqualified u]
    exact congrArg (n == m && ·) ih
  | case6 t n u m plain ih =>
    show (array (t.renamed σ) n).similarBare (array (u.renamed σ) m) = _
    rw [similarBare_array, similarBare_array, ← renamed_unqualified, ← renamed_unqualified,
      bare plain]
    exact congrArg (n == m && ·) ih
  | case7 t u _ _ pointers sequences _ arrays =>
    have unlike := layersAgree_eq_false pointers sequences arrays
    rw [similarBare_eq_equivalent unlike,
      similarBare_eq_equivalent ((layersAgree_renamed t u).trans unlike)]
    exact equivalent_renamed t u

theorem similar_renamed (t u : Ty) : (t.renamed σ).similar (u.renamed σ) = t.similar u := by
  unfold similar
  rw [← renamed_unqualified, ← renamed_unqualified]
  exact similarBare_renamed _ _

theorem signature_renamed (t : Ty) : (t.renamed σ).signature = t.signature := by
  induction t using signature.induct with
  | case1 t q ih | case2 t n q ih | case3 t q ih => exact congrArg (q :: ·) ih
  | case4 t q pointer array sequence =>
    cases t with
    | pointer t => exact (pointer t rfl).elim
    | array t n => exact (array t n rfl).elim
    | sequence t => exact (sequence t rfl).elim
    | _ => rfl
  | case5 t ih | case6 t n ih | case7 t ih => exact congrArg (Qualifiers.empty :: ·) ih
  | case8 t => cases t <;> first | rfl | simp_all

end Ty

end Deferral
