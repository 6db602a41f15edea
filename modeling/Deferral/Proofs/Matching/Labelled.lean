import Mathlib.Logic.Function.Basic
import Deferral.Declaration.Basic
import Deferral.Proofs.Conversion.NormalForm
import Deferral.Proofs.Table.Contents
import Deferral.Tree.Text

/-!
# Trees with labels for numbers

Declarations, scopes and blocks are numbered in the order in which they are read, and every part of a tree
has its place in a source. What is written in another order, or elsewhere, gives trees with other numbers
and places. Two such trees are compared with the numbers replaced by labels and the places forgotten; what
is asked of the shape of a type has the same answer for the labelled type.
-/

namespace Deferral

/-- A label for every number. Declarations have one label where they are named and another where they are
held by a declaration statement, so that what is named may be told apart from what is passed over. -/
structure Labels where
  decl : DeclId → DeclId
  held : DeclId → DeclId
  block : Nat → Nat
  scope : ScopeId → ScopeId

/-! ## Forgetting places -/

/-- A token wherever it stands. -/
def Token.unplaced (t : Token) : Token := { t with span := .nowhere }

/-- An excerpt wherever its tokens stand. -/
def Excerpt.unplaced (f : Excerpt) : Excerpt := ⟨f.tokens.map Token.unplaced, .nowhere⟩

@[simp] theorem Token.kind_unplaced (t : Token) : t.unplaced.kind = t.kind := rfl

@[simp] theorem Token.text_unplaced (t : Token) : t.unplaced.text = t.text := rfl

@[simp] theorem Token.unplaced_unplaced (t : Token) : t.unplaced.unplaced = t.unplaced := rfl

@[simp] theorem Excerpt.unplaced_unplaced (f : Excerpt) : f.unplaced.unplaced = f.unplaced := by
  simp [unplaced, Function.comp_def]

@[simp] theorem Excerpt.shown_unplaced (f : Excerpt) : f.unplaced.shown = f.shown := by
  simp [shown, text, unplaced, Function.comp_def]

/-! ## Types and expressions -/

section Trees

variable (l : DeclId → DeclId)

mutual

/-- A type with labels for declarations, apart from places. -/
def Ty.labelled : Ty → Ty
  | .decltype e => .decltype e.labelled
  | .function parameters result => .function (Ty.allLabelled parameters) result.labelled
  | .reference t => .reference t.labelled
  | .qualified t q => .qualified t.labelled q
  | .pointer t => .pointer t.labelled
  | .array t n => .array t.labelled n
  | .sequence t => .sequence t.labelled
  | .named sort decl name => .named sort (l decl) name
  | .deferred excerpt => .deferred excerpt.unplaced
  | .void => .void
  | .bool => .bool
  | .integer precision signed => .integer precision signed
  | .float precision => .float precision
  | .auto => .auto
  | .decltypeAuto => .decltypeAuto
  | .metatype => .metatype

/-- Types with labels for declarations. -/
def Ty.allLabelled : List Ty → List Ty
  | [] => []
  | t :: rest => t.labelled :: Ty.allLabelled rest

/-- What an expression does, with labels for declarations. -/
def Node.labelled : Node → Node
  | .deferred excerpt => .deferred excerpt.unplaced
  | .boolean b => .boolean b
  | .integer n => .integer n
  | .float x => .float x
  | .name decl name => .name (l decl) name
  | .unary op e => .unary op e.labelled
  | .binary op left right => .binary op left.labelled right.labelled
  | .call callee arguments => .call callee.labelled (Expr.allLabelled arguments)
  | .assign target value => .assign target.labelled value.labelled
  | .converted conversion e => .converted conversion e.labelled

/-- An expression with labels for declarations, apart from places. -/
def Expr.labelled : Expr → Expr
  | ⟨node, type, _⟩ => ⟨node.labelled, type.labelled, .nowhere⟩

/-- Expressions with labels for declarations. -/
def Expr.allLabelled : List Expr → List Expr
  | [] => []
  | e :: rest => e.labelled :: Expr.allLabelled rest

end

end Trees

variable {l m : DeclId → DeclId}

theorem Ty.allLabelled_eq_map (ts : List Ty) : Ty.allLabelled l ts = ts.map (Ty.labelled l) := by
  induction ts with
  | nil => rfl
  | cons t rest ih => exact congrArg _ ih

theorem Expr.allLabelled_eq_map (es : List Expr) :
    Expr.allLabelled l es = es.map (Expr.labelled l) := by
  induction es with
  | nil => rfl
  | cons e rest ih => exact congrArg _ ih

mutual

/-- Labels may be given labels in turn. -/
theorem Ty.labelled_labelled : ∀ t : Ty, (t.labelled l).labelled m = t.labelled (m ∘ l)
  | .decltype e => congrArg Ty.decltype (Expr.labelled_labelled e)
  | .function ts t => congrArg₂ Ty.function (Ty.allLabelled_allLabelled ts) (Ty.labelled_labelled t)
  | .reference t => congrArg Ty.reference (Ty.labelled_labelled t)
  | .qualified t q => congrArg (Ty.qualified · q) (Ty.labelled_labelled t)
  | .pointer t => congrArg Ty.pointer (Ty.labelled_labelled t)
  | .array t n => congrArg (Ty.array · n) (Ty.labelled_labelled t)
  | .sequence t => congrArg Ty.sequence (Ty.labelled_labelled t)
  | .deferred f => congrArg Ty.deferred f.unplaced_unplaced
  | .named _ _ _ | .void | .bool | .integer _ _ | .float _ | .auto | .decltypeAuto | .metatype => rfl

theorem Ty.allLabelled_allLabelled :
    ∀ ts : List Ty, Ty.allLabelled m (Ty.allLabelled l ts) = Ty.allLabelled (m ∘ l) ts
  | [] => rfl
  | t :: rest => congrArg₂ List.cons (Ty.labelled_labelled t) (Ty.allLabelled_allLabelled rest)

theorem Node.labelled_labelled : ∀ n : Node, (n.labelled l).labelled m = n.labelled (m ∘ l)
  | .deferred f => congrArg Node.deferred f.unplaced_unplaced
  | .unary op e => congrArg (Node.unary op) (Expr.labelled_labelled e)
  | .binary op e e' =>
    congrArg₂ (Node.binary op) (Expr.labelled_labelled e) (Expr.labelled_labelled e')
  | .call callee es =>
    congrArg₂ Node.call (Expr.labelled_labelled callee) (Expr.allLabelled_allLabelled es)
  | .assign e e' => congrArg₂ Node.assign (Expr.labelled_labelled e) (Expr.labelled_labelled e')
  | .converted c e => congrArg (Node.converted c) (Expr.labelled_labelled e)
  | .boolean _ | .integer _ | .float _ | .name _ _ => rfl

theorem Expr.labelled_labelled : ∀ e : Expr, (e.labelled l).labelled m = e.labelled (m ∘ l)
  | ⟨n, t, _⟩ =>
    congrArg₂ (Expr.mk · · .nowhere) (Node.labelled_labelled n) (Ty.labelled_labelled t)

theorem Expr.allLabelled_allLabelled :
    ∀ es : List Expr, Expr.allLabelled m (Expr.allLabelled l es) = Expr.allLabelled (m ∘ l) es
  | [] => rfl
  | e :: rest => congrArg₂ List.cons (Expr.labelled_labelled e) (Expr.allLabelled_allLabelled rest)

end

namespace Expr

@[simp] theorem type_labelled (e : Expr) : (e.labelled l).type = e.type.labelled l := by
  cases e; rfl

@[simp] theorem span_labelled (e : Expr) : (e.labelled l).span = .nowhere := by
  cases e; rfl

@[simp] theorem start_labelled (e : Expr) : (e.labelled l).start = .nowhere := by
  cases e; rfl

@[simp] theorem labelled_convert (e : Expr) (conversion : Conversion) (target : Ty) :
    (e.convert conversion target).labelled l = (e.labelled l).convert conversion (target.labelled l) := by
  cases e; rfl

theorem excerpt?_labelled (e : Expr) :
    (e.labelled l).excerpt? = e.excerpt?.map Excerpt.unplaced := by
  obtain ⟨node, type, span⟩ := e
  cases node <;> rfl

end Expr

/-! ## Texts -/

mutual

/-- Neither numbers nor places are shown. -/
theorem Ty.shown_labelled : ∀ t : Ty, (t.labelled l).shown = t.shown
  | .decltype e => by simp only [Ty.labelled, Ty.shown, Expr.shown_labelled e]
  | .function ts t => by
    simp only [Ty.labelled, Ty.shown, Ty.shownAll_allLabelled ts, Ty.shown_labelled t]
  | .reference t => by simp only [Ty.labelled, Ty.shown, Ty.shown_labelled t]
  | .qualified t q => by simp only [Ty.labelled, Ty.shown, Ty.shown_labelled t]
  | .pointer t => by simp only [Ty.labelled, Ty.shown, Ty.shown_labelled t]
  | .array t n => by simp only [Ty.labelled, Ty.shown, Ty.shown_labelled t]
  | .sequence t => by simp only [Ty.labelled, Ty.shown, Ty.shown_labelled t]
  | .deferred f => f.shown_unplaced
  | .named _ _ _ | .void | .bool | .integer _ _ | .float _ | .auto | .decltypeAuto | .metatype => rfl

theorem Ty.shownAll_allLabelled :
    ∀ ts : List Ty, Ty.shownAll (Ty.allLabelled l ts) = Ty.shownAll ts
  | [] => rfl
  | [t] => by simp only [Ty.allLabelled, Ty.shownAll, Ty.shown_labelled t]
  | t :: u :: rest => by
    have others := Ty.shownAll_allLabelled (u :: rest)
    simp only [Ty.allLabelled] at others
    simp only [Ty.allLabelled, Ty.shownAll, Ty.shown_labelled t, others]

theorem Node.shown_labelled : ∀ n : Node, (n.labelled l).shown = n.shown
  | .deferred f => f.shown_unplaced
  | .unary op e => by simp only [Node.labelled, Node.shown, Expr.shown_labelled e]
  | .binary op e e' => by
    simp only [Node.labelled, Node.shown, Expr.shown_labelled e, Expr.shown_labelled e']
  | .call callee es => by
    simp only [Node.labelled, Node.shown, Expr.shown_labelled callee, Expr.shownAll_allLabelled es]
  | .assign e e' => by
    simp only [Node.labelled, Node.shown, Expr.shown_labelled e, Expr.shown_labelled e']
  | .converted c e => by simp only [Node.labelled, Node.shown, Expr.shown_labelled e]
  | .boolean _ | .integer _ | .float _ | .name _ _ => rfl

theorem Expr.shown_labelled : ∀ e : Expr, (e.labelled l).shown = e.shown
  | ⟨n, _, _⟩ => by simp only [Expr.labelled, Expr.shown, Node.shown_labelled n]

theorem Expr.shownAll_allLabelled :
    ∀ es : List Expr, Expr.shownAll (Expr.allLabelled l es) = Expr.shownAll es
  | [] => rfl
  | [e] => by simp only [Expr.allLabelled, Expr.shownAll, Expr.shown_labelled e]
  | e :: e' :: rest => by
    have others := Expr.shownAll_allLabelled (e' :: rest)
    simp only [Expr.allLabelled] at others
    simp only [Expr.allLabelled, Expr.shownAll, Expr.shown_labelled e, others]

end

attribute [simp] Ty.shown_labelled

/-! ## Outer shapes -/

namespace Ty

@[simp] theorem labelled_toReference (t : Ty) :
    t.toReference.labelled l = (t.labelled l).toReference := by
  cases t <;> rfl

@[simp] theorem labelled_addQualifiers (t : Ty) (q : Qualifiers) :
    (t.addQualifiers q).labelled l = (t.labelled l).addQualifiers q := by
  unfold addQualifiers
  split
  · rfl
  · cases t <;> rfl

@[simp] theorem labelled_unqualified (t : Ty) :
    t.unqualified.labelled l = (t.labelled l).unqualified := by
  cases t <;> rfl

@[simp] theorem labelled_referent (t : Ty) : t.referent.labelled l = (t.labelled l).referent := by
  cases t <;> rfl

@[simp] theorem labelled_valueType (t : Ty) : t.valueType.labelled l = (t.labelled l).valueType := by
  simp [valueType]

@[simp] theorem isReference_labelled (t : Ty) : (t.labelled l).isReference = t.isReference := by
  cases t <;> rfl

@[simp] theorem isDeferred_labelled (t : Ty) : (t.labelled l).isDeferred = t.isDeferred := by
  cases t <;> rfl

@[simp] theorem isPlaceholder_labelled (t : Ty) : (t.labelled l).isPlaceholder = t.isPlaceholder := by
  cases t <;> rfl

@[simp] theorem isInteger_labelled (t : Ty) : (t.labelled l).isInteger = t.isInteger := by
  unfold isInteger
  rw [← labelled_unqualified]
  cases t.unqualified <;> rfl

@[simp] theorem isFloat_labelled (t : Ty) : (t.labelled l).isFloat = t.isFloat := by
  unfold isFloat
  rw [← labelled_unqualified]
  cases t.unqualified <;> rfl

@[simp] theorem isArithmetic_labelled (t : Ty) : (t.labelled l).isArithmetic = t.isArithmetic := by
  simp [isArithmetic]

mutual

theorem isDependent_labelled : ∀ t : Ty, (t.labelled l).isDependent = t.isDependent
  | .decltype ⟨_, t, _⟩ => isDependent_labelled t
  | .function parameters result => by
    show ((result.labelled l).isDependent || anyDependent (allLabelled l parameters)) = _
    rw [isDependent_labelled result, anyDependent_allLabelled parameters]
    rfl
  | .reference t | .qualified t _ | .pointer t | .array t _ | .sequence t => isDependent_labelled t
  | .named sort _ _ => by cases sort <;> rfl
  | .void | .bool | .integer _ _ | .float _ | .auto | .decltypeAuto | .metatype | .deferred _ => rfl

theorem anyDependent_allLabelled :
    ∀ ts : List Ty, anyDependent (allLabelled l ts) = anyDependent ts
  | [] => rfl
  | t :: rest => by
    show ((t.labelled l).isDependent || anyDependent (allLabelled l rest)) = _
    rw [isDependent_labelled t, anyDependent_allLabelled rest]
    rfl

end

attribute [simp] isDependent_labelled

/-- A type with a name of its own mentions no declaration. -/
theorem labelled_builtin? {name : String} {t : Ty} (h : builtin? name = some t) :
    t.labelled l = t := by
  have plain : ∀ entry ∈ ([("void", .void), ("bool", .bool), ("int8", .int 8), ("int16", .int 16),
      ("int32", .int 32), ("int64", .int 64), ("uint8", .uint 8), ("uint16", .uint 16),
      ("uint32", .uint 32), ("uint64", .uint 64), ("float32", .float 32), ("float64", .float 64),
      ("type", .metatype)] : List (String × Ty)), entry.2.labelled l = entry.2 := by
    simp [int, uint, labelled]
  obtain ⟨l₁, l₂, same, -⟩ := List.lookup_eq_some_iff.mp h
  exact plain (name, t) (same ▸ by simp)

/-! ## Tame types -/

mutual

/-- An expression is kept in a type only while its own type is dependent. -/
def Tame : Ty → Prop
  | .decltype e => e.type.isDependent = true
  | .function parameters result => AllTame parameters ∧ result.Tame
  | .reference t | .qualified t _ | .pointer t | .array t _ | .sequence t => t.Tame
  | .void | .bool | .integer _ _ | .float _ | .auto | .decltypeAuto | .named _ _ _ | .metatype
  | .deferred _ => True

def AllTame : List Ty → Prop
  | [] => True
  | t :: rest => t.Tame ∧ AllTame rest

end

theorem Tame.toReference {t : Ty} (h : t.Tame) : t.toReference.Tame := by
  cases t <;> exact h

theorem Tame.addQualifiers {t : Ty} (h : t.Tame) (q : Qualifiers) : (t.addQualifiers q).Tame := by
  unfold Ty.addQualifiers
  split
  · exact h
  · cases t <;> exact h

theorem Tame.unqualified {t : Ty} (h : t.Tame) : t.unqualified.Tame := by
  cases t <;> exact h

theorem Tame.referent {t : Ty} (h : t.Tame) : t.referent.Tame := by
  cases t <;> exact h

theorem Tame.valueType {t : Ty} (h : t.Tame) : t.valueType.Tame := h.referent.unqualified

theorem tame_builtin? {name : String} {t : Ty} (h : builtin? name = some t) : t.Tame := by
  have plain : ∀ entry ∈ ([("void", .void), ("bool", .bool), ("int8", .int 8), ("int16", .int 16),
      ("int32", .int 32), ("int64", .int 64), ("uint8", .uint 8), ("uint16", .uint 16),
      ("uint32", .uint 32), ("uint64", .uint 64), ("float32", .float 32), ("float64", .float 64),
      ("type", .metatype)] : List (String × Ty)), entry.2.Tame := by
    simp [int, uint, Tame]
  obtain ⟨l₁, l₂, same, -⟩ := List.lookup_eq_some_iff.mp h
  exact plain (name, t) (same ▸ by simp)

/-! ## Equivalence and similarity -/

mutual

/-- Types that are known are equivalent with labels if they are without. The expressions that dependent
types keep are compared with their places, which labelled ones have not. -/
theorem equivalent_labelled (distinct : Function.Injective l) : ∀ t u : Ty, t.Tame →
    t.isDependent = false → (t.labelled l).equivalent (u.labelled l) = t.equivalent u
  | .decltype ⟨_, _, _⟩, u, tame, known => by rw [Tame, Expr.type_mk] at tame; simp_all [isDependent]
  | .function ts t, u, tame, known => by
    cases u with
    | function us u =>
      obtain ⟨result, parameters⟩ := Bool.or_eq_false_iff.mp known
      show (equivalentAll (allLabelled l ts) (allLabelled l us) &&
        (t.labelled l).equivalent (u.labelled l)) = _
      rw [equivalent_labelled distinct t u tame.2 result,
        equivalentAll_allLabelled distinct ts us tame.1 parameters]
      rfl
    | _ => rfl
  | .reference t, u, tame, known => by
    cases u with
    | reference u => exact equivalent_labelled distinct t u tame known
    | _ => rfl
  | .qualified t q, u, tame, known => by
    cases u with
    | qualified u r => exact congrArg (q == r && ·) (equivalent_labelled distinct t u tame known)
    | _ => rfl
  | .pointer t, u, tame, known => by
    cases u with
    | pointer u => exact equivalent_labelled distinct t u tame known
    | _ => rfl
  | .array t n, u, tame, known => by
    cases u with
    | array u m => exact congrArg (n == m && ·) (equivalent_labelled distinct t u tame known)
    | _ => rfl
  | .sequence t, u, tame, known => by
    cases u with
    | sequence u => exact equivalent_labelled distinct t u tame known
    | _ => rfl
  | .named sort decl name, u, tame, known => by
    cases u with
    | named sort' decl' name' =>
      refine congrArg (sort == sort' && ·) ?_
      rw [Bool.eq_iff_iff, beq_iff_eq, beq_iff_eq, distinct.eq_iff]
    | _ => rfl
  | .void, u, _, _ | .bool, u, _, _ | .integer _ _, u, _, _ | .float _, u, _, _ | .auto, u, _, _
  | .decltypeAuto, u, _, _ | .metatype, u, _, _ | .deferred _, u, _, _ => by cases u <;> rfl

theorem equivalentAll_allLabelled (distinct : Function.Injective l) : ∀ ts us : List Ty, AllTame ts →
    anyDependent ts = false → equivalentAll (allLabelled l ts) (allLabelled l us) = equivalentAll ts us
  | [], us, _, _ => by cases us <;> rfl
  | t :: ts, us, tame, known => by
    cases us with
    | nil => rfl
    | cons u us =>
      obtain ⟨first, rest⟩ := Bool.or_eq_false_iff.mp known
      show ((t.labelled l).equivalent (u.labelled l) &&
        equivalentAll (allLabelled l ts) (allLabelled l us)) = _
      rw [equivalent_labelled distinct t u tame.1 first,
        equivalentAll_allLabelled distinct ts us tame.2 rest]
      rfl

end

theorem layersAgree_labelled (t u : Ty) :
    (t.labelled l).layersAgree (u.labelled l) = t.layersAgree u := by
  cases t with
  | pointer t | sequence t | array t n => cases u <;> rfl
  | _ => rfl

theorem similarBare_labelled (distinct : Function.Injective l) (t u : Ty) (tame : t.Tame)
    (known : t.isDependent = false) :
    (t.labelled l).similarBare (u.labelled l) = t.similarBare u := by
  have bare {t : Ty} (plain : ∀ u q, t = .qualified u q → False) : t.unqualified = t := by
    cases t with
    | qualified u q => exact (plain u q rfl).elim
    | _ => rfl
  induction t, u using similarBare.induct with
  | case1 t q u ih =>
    show (pointer ((qualified t q).labelled l)).similarBare (pointer (u.labelled l)) = _
    rw [similarBare_pointer, ← labelled_unqualified u]
    exact ih tame known
  | case2 t q u ih =>
    show (sequence ((qualified t q).labelled l)).similarBare (sequence (u.labelled l)) = _
    rw [similarBare_sequence, ← labelled_unqualified u]
    exact ih tame known
  | case3 t u plain ih =>
    show (pointer (t.labelled l)).similarBare (pointer (u.labelled l)) = _
    rw [similarBare_pointer, similarBare_pointer, ← labelled_unqualified, ← labelled_unqualified,
      bare plain]
    exact ih tame known
  | case4 t u plain ih =>
    show (sequence (t.labelled l)).similarBare (sequence (u.labelled l)) = _
    rw [similarBare_sequence, similarBare_sequence, ← labelled_unqualified, ← labelled_unqualified,
      bare plain]
    exact ih tame known
  | case5 t q n u m ih =>
    show (array ((qualified t q).labelled l) n).similarBare (array (u.labelled l) m) = _
    rw [similarBare_array, ← labelled_unqualified u]
    exact congrArg (n == m && ·) (ih tame known)
  | case6 t n u m plain ih =>
    show (array (t.labelled l) n).similarBare (array (u.labelled l) m) = _
    rw [similarBare_array, similarBare_array, ← labelled_unqualified, ← labelled_unqualified,
      bare plain]
    exact congrArg (n == m && ·) (ih tame known)
  | case7 t u _ _ pointers sequences _ arrays =>
    have unlike := layersAgree_eq_false pointers sequences arrays
    rw [similarBare_eq_equivalent unlike,
      similarBare_eq_equivalent ((layersAgree_labelled t u).trans unlike)]
    exact equivalent_labelled distinct t u tame known

theorem similar_labelled (distinct : Function.Injective l) (t u : Ty) (tame : t.Tame)
    (known : t.isDependent = false) : (t.labelled l).similar (u.labelled l) = t.similar u := by
  unfold similar
  rw [← labelled_unqualified, ← labelled_unqualified]
  exact similarBare_labelled distinct _ _ tame.unqualified (by simpa using known)

@[simp] theorem signature_labelled (t : Ty) : (t.labelled l).signature = t.signature := by
  induction t using signature.induct with
  | case1 t q ih | case2 t n q ih | case3 t q ih => exact congrArg (q :: ·) ih
  | case4 t q pointer array sequence =>
    cases t with
    | pointer t => exact (pointer t rfl).elim
    | array t n => exact (array t n rfl).elim
    | sequence t => exact (sequence t rfl).elim
    | _ => rfl
  | case5 t ih | case6 t n ih | case7 t ih => exact congrArg (Qualifiers.empty :: ·) ih
  | case8 t => cases t <;> first | rfl | simp_all

end Ty

/-! ## Statements and declarations with labels for numbers

A declaration statement has the label of what it holds, and a declaration the label of the scope it lies
in. What is asked of a declaration, and what is changed in it, commutes with giving labels.
-/

namespace Labels

/-- The labels of `L`, given labels by `M` in turn. -/
def through (L M : Labels) : Labels where
  decl := M.decl ∘ L.decl
  held := M.held ∘ L.held
  block := M.block ∘ L.block
  scope := M.scope ∘ L.scope

end Labels

section Trees

variable (L : Labels)

mutual

/-- A statement with labels for numbers, apart from places. -/
def Stmt.labelled : Stmt → Stmt
  | .block id body _ => .block (L.block id) (Stmt.allLabelled body) .nowhere
  | .returning value _ => .returning (value.map (Expr.labelled L.decl)) .nowhere
  | .yielding e _ => .yielding (e.labelled L.decl) .nowhere
  | .conditional e onTrue onFalse _ =>
    .conditional (e.labelled L.decl) onTrue.labelled (Stmt.elseLabelled onFalse) .nowhere
  | .whileLoop e body _ => .whileLoop (e.labelled L.decl) body.labelled .nowhere
  | .breaking _ => .breaking .nowhere
  | .continuing _ => .continuing .nowhere
  | .declaration id _ => .declaration (L.held id) .nowhere
  | .expression e => .expression (e.labelled L.decl)

/-- Statements with labels for numbers. -/
def Stmt.allLabelled : List Stmt → List Stmt
  | [] => []
  | s :: rest => s.labelled :: Stmt.allLabelled rest

/-- The statement behind an `else`, if there is one, with labels for numbers. -/
def Stmt.elseLabelled : Option Stmt → Option Stmt
  | none => none
  | some s => some s.labelled

end

/-- A body with labels for numbers. -/
def Body.labelled : Body → Body
  | .absent => .absent
  | .statement s => .statement (s.labelled L)
  | .expression e => .expression (e.labelled L.decl)

/-- The parts of a function with labels for numbers. -/
def Callable.labelled (c : Callable) : Callable where
  parameters := c.parameters.map L.decl
  result := c.result.labelled L.decl
  type := c.type.labelled L.decl
  body := c.body.labelled L
  typeParameters := c.typeParameters.map L.decl

/-- What a declaration declares with labels for numbers. The members of a class are left out: they are
compared by themselves. -/
def Declared.labelled : Declared → Declared
  | .object sort type init => .object sort (type.labelled L.decl) (init.map (Expr.labelled L.decl))
  | .parameter type => .parameter (type.labelled L.decl)
  | .super type => .super (type.labelled L.decl)
  | .callable sort c => .callable sort (c.labelled L)
  | .classDecl sort kind _ => .classDecl sort (kind.labelled L.decl) []
  | .typeParameter => .typeParameter

/-- A declaration apart from its members, with labels for numbers and wherever it stands. -/
def Decl.labelled (d : Decl) : Decl :=
  { name := d.name, kind := d.kind.labelled L, scope := L.scope d.scope, span := .nowhere }

end Trees

variable {L M : Labels}

namespace Stmt

mutual

theorem labelled_labelled : ∀ s : Stmt, (s.labelled L).labelled M = s.labelled (L.through M)
  | .block id body _ => by
    simp only [labelled, allLabelled_allLabelled body]
    rfl
  | .returning value _ => by
    cases value with
    | none => rfl
    | some e => exact congrArg (fun e => Stmt.returning (some e) .nowhere) e.labelled_labelled
  | .yielding e _ => congrArg (Stmt.yielding · .nowhere) e.labelled_labelled
  | .conditional e onTrue onFalse _ => by
    simp only [labelled, e.labelled_labelled, labelled_labelled onTrue, elseLabelled_elseLabelled onFalse]
    rfl
  | .whileLoop e body _ => by
    simp only [labelled, e.labelled_labelled, labelled_labelled body]
    rfl
  | .expression e => congrArg Stmt.expression e.labelled_labelled
  | .breaking _ | .continuing _ | .declaration _ _ => rfl

theorem allLabelled_allLabelled :
    ∀ body : List Stmt, allLabelled M (allLabelled L body) = allLabelled (L.through M) body
  | [] => rfl
  | s :: rest => congrArg₂ List.cons (labelled_labelled s) (allLabelled_allLabelled rest)

theorem elseLabelled_elseLabelled :
    ∀ onFalse : Option Stmt, elseLabelled M (elseLabelled L onFalse) = elseLabelled (L.through M) onFalse
  | none => rfl
  | some s => congrArg some (labelled_labelled s)

end

end Stmt

theorem Body.labelled_labelled (b : Body) : (b.labelled L).labelled M = b.labelled (L.through M) := by
  cases b with
  | absent => rfl
  | statement s => exact congrArg Body.statement s.labelled_labelled
  | expression e => exact congrArg Body.expression e.labelled_labelled

theorem Callable.labelled_labelled (c : Callable) :
    (c.labelled L).labelled M = c.labelled (L.through M) := by
  simp [labelled, Labels.through, Ty.labelled_labelled, Body.labelled_labelled]

theorem Declared.labelled_labelled (k : Declared) :
    (k.labelled L).labelled M = k.labelled (L.through M) := by
  cases k with
  | object sort type init =>
    cases init <;> simp [labelled, Labels.through, Ty.labelled_labelled, Expr.labelled_labelled]
  | callable sort c => exact congrArg (Declared.callable sort) c.labelled_labelled
  | _ => simp [labelled, Labels.through, Ty.labelled_labelled]

theorem Decl.labelled_labelled (d : Decl) : (d.labelled L).labelled M = d.labelled (L.through M) := by
  simp only [labelled, Declared.labelled_labelled]
  rfl

/-! ## What is asked of declarations -/

namespace Decl

variable (d : Decl)

@[simp] theorem name_labelled : (d.labelled L).name = d.name := rfl

@[simp] theorem scope_labelled : (d.labelled L).scope = L.scope d.scope := rfl

@[simp] theorem kind_labelled : (d.labelled L).kind = d.kind.labelled L := rfl

@[simp] theorem subject_labelled : (d.labelled L).subject = d.subject := by
  unfold subject
  rw [kind_labelled]
  cases d.kind with
  | object sort _ _ => cases sort <;> rfl
  | callable sort _ => cases sort <;> rfl
  | classDecl sort _ _ => cases sort <;> rfl
  | _ => rfl

@[simp] theorem isExtension_labelled : (d.labelled L).isExtension = d.isExtension := by
  unfold isExtension
  rw [kind_labelled]
  cases d.kind with
  | classDecl sort _ _ => cases sort <;> rfl
  | _ => rfl

@[simp] theorem isPrimaryClass_labelled : (d.labelled L).isPrimaryClass = d.isPrimaryClass := by
  unfold isPrimaryClass
  rw [kind_labelled]
  cases d.kind with
  | classDecl sort _ _ => cases sort <;> rfl
  | _ => rfl

@[simp] theorem isTypeParameter_labelled : (d.labelled L).isTypeParameter = d.isTypeParameter := by
  unfold isTypeParameter
  rw [kind_labelled]
  cases d.kind <;> rfl

@[simp] theorem isConstant_labelled : (d.labelled L).isConstant = d.isConstant := by
  unfold isConstant
  rw [kind_labelled]
  cases d.kind with
  | object sort _ _ => cases sort <;> rfl
  | _ => rfl

@[simp] theorem typeIn?_labelled (slot : TypeSlot) :
    (d.labelled L).typeIn? slot = (d.typeIn? slot).map (Ty.labelled L.decl) := by
  unfold typeIn?
  rw [kind_labelled]
  cases slot <;> cases d.kind <;> rfl

@[simp] theorem ownType?_labelled : (d.labelled L).ownType? = d.ownType?.map (Ty.labelled L.decl) :=
  d.typeIn?_labelled .declared

@[simp] theorem initializer?_labelled :
    (d.labelled L).initializer? = d.initializer?.map (Expr.labelled L.decl) := by
  unfold initializer?
  rw [kind_labelled]
  cases d.kind <;> rfl

@[simp] theorem callable?_labelled :
    (d.labelled L).callable? = d.callable?.map (Callable.labelled L) := by
  unfold callable?
  rw [kind_labelled]
  cases d.kind <;> rfl

/-- Members are left out, but not that there may be some. -/
theorem isSome_members?_labelled : (d.labelled L).members?.isSome = d.members?.isSome := by
  unfold members?
  rw [kind_labelled]
  cases d.kind <;> rfl

/-! ## What is changed in declarations -/

@[simp] theorem labelled_withTypeIn (slot : TypeSlot) (type : Ty) :
    (d.withTypeIn slot type).labelled L = (d.labelled L).withTypeIn slot (type.labelled L.decl) := by
  obtain ⟨name, kind, scope, span⟩ := d
  cases slot <;> cases kind <;> rfl

@[simp] theorem labelled_withInitializer (e : Expr) :
    (d.withInitializer e).labelled L = (d.labelled L).withInitializer (e.labelled L.decl) := by
  obtain ⟨name, kind, scope, span⟩ := d
  cases kind with
  | object sort type init => cases init <;> rfl
  | _ => rfl

/-- The parts of a function change in step with the labelled ones. -/
theorem labelled_mapCallable {f g : Callable → Callable}
    (step : ∀ c, (f c).labelled L = g (c.labelled L)) :
    (d.mapCallable f).labelled L = (d.labelled L).mapCallable g := by
  obtain ⟨name, kind, scope, span⟩ := d
  cases kind with
  | callable sort c => exact congrArg (fun c => Decl.mk name (.callable sort c) _ _) (step c)
  | _ => rfl

/-- Members are left out. -/
@[simp] theorem labelled_mapMembers (f : List Stmt → List Stmt) :
    (d.mapMembers f).labelled L = d.labelled L := by
  obtain ⟨name, kind, scope, span⟩ := d
  cases kind <;> rfl

end Decl

/-! ## Tame declarations -/

/-- The types in what a declaration declares are tame, and those of the expressions in it, members left
out. -/
def Declared.Tame : Declared → Prop
  | .object _ type init => type.Tame ∧ ∀ e ∈ init, e.type.Tame
  | .parameter type | .super type => type.Tame
  | .callable _ c => c.result.Tame ∧ c.type.Tame ∧ ∀ e ∈ c.body.expressions, e.type.Tame
  | .classDecl _ kind _ => kind.Tame
  | .typeParameter => True

namespace Decl

variable {d : Decl}

theorem tame_typeIn? (tame : d.kind.Tame) {slot : TypeSlot} {type : Ty}
    (held : d.typeIn? slot = some type) : type.Tame := by
  unfold typeIn? at held
  cases slot <;> cases kind : d.kind <;> rw [kind] at held tame <;> cases held
  all_goals first | exact tame | exact tame.1

theorem tame_initializer? (tame : d.kind.Tame) {e : Expr} (held : d.initializer? = some e) :
    e.type.Tame := by
  unfold initializer? at held
  cases kind : d.kind <;> rw [kind] at held tame <;> cases held
  exact tame.2 e rfl

theorem tame_callable? (tame : d.kind.Tame) {c : Callable} (held : d.callable? = some c) :
    c.result.Tame ∧ c.type.Tame ∧ ∀ e ∈ c.body.expressions, e.type.Tame := by
  unfold callable? at held
  cases kind : d.kind <;> rw [kind] at held tame <;> cases held
  exact tame

theorem tame_withTypeIn (tame : d.kind.Tame) (slot : TypeSlot) {type : Ty} (new : type.Tame) :
    (d.withTypeIn slot type).kind.Tame := by
  obtain ⟨name, kind, scope, span⟩ := d
  cases slot <;> cases kind <;> first | exact tame | exact new | exact ⟨new, tame.2⟩

theorem tame_withInitializer (tame : d.kind.Tame) {e : Expr} (new : e.type.Tame) :
    (d.withInitializer e).kind.Tame := by
  obtain ⟨name, kind, scope, span⟩ := d
  cases kind with
  | object sort type init =>
    cases init with
    | none => exact tame
    | some _ => exact ⟨tame.1, fun e' held => Option.some.inj held ▸ new⟩
  | _ => exact tame

theorem tame_mapMembers (tame : d.kind.Tame) (f : List Stmt → List Stmt) :
    (d.mapMembers f).kind.Tame := by
  obtain ⟨name, kind, scope, span⟩ := d
  cases kind <;> exact tame

end Decl

end Deferral
