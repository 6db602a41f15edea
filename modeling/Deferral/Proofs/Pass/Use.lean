import Deferral.Proofs.Pass.Advance
import Deferral.Proofs.Pass.Merged
import Deferral.Unit.Definition

/-!
# What expressions are used for

A statement asks something of each expression in it: a condition is read as a truth value, a returned
expression has the result type of the function. The second pass rewrites expressions only, so that
blocks and declarations stay where they are.
-/

namespace Deferral

/-- What a statement does with an expression, or with none. -/
inductive Use where
  | condition (e : Expr)
  | returned (e : Expr)
  | nothing
  | yielded (e : Expr)
  | value (e : Expr)

mutual

/-- The uses of expressions in a statement. -/
def Stmt.uses : Stmt → List Use
  | .block _ body _ => usesIn body
  | .returning (some e) _ => [.returned e]
  | .returning none _ => [.nothing]
  | .yielding e _ => [.yielded e]
  | .conditional e onTrue onFalse _ => .condition e :: (onTrue.uses ++ usesBehindElse onFalse)
  | .whileLoop e body _ => .condition e :: body.uses
  | .expression e => [.value e]
  | .breaking _ | .continuing _ | .declaration _ _ => []

def Stmt.usesIn : List Stmt → List Use
  | [] => []
  | s :: rest => s.uses ++ usesIn rest

def Stmt.usesBehindElse : Option Stmt → List Use
  | none => []
  | some s => s.uses

end

/-- The uses of expressions in the body of a function; an expression is returned. -/
def Body.uses : Body → List Use
  | .absent => []
  | .statement s => s.uses
  | .expression e => [.returned e]

mutual

/-- The declarations stated in the sequences of a statement. -/
def Stmt.listed : Stmt → List DeclId
  | .block _ body _ => listedIn body
  | .conditional _ onTrue onFalse _ => onTrue.listed ++ listedBehindElse onFalse
  | .whileLoop _ body _ => body.listed
  | .returning _ _ | .yielding _ _ | .expression _ | .breaking _ | .continuing _ => []
  | .declaration _ _ => []

def Stmt.listedIn : List Stmt → List DeclId
  | [] => []
  | s :: rest => s.declaration?.toList ++ s.listed ++ listedIn rest

def Stmt.listedBehindElse : Option Stmt → List DeclId
  | none => []
  | some s => s.listed

end

/-- The expression that is used. -/
def Use.expression? : Use → Option Expr
  | .condition e | .returned e | .yielded e | .value e => some e
  | .nothing => none

namespace Stmt

mutual

theorem expressions_eq_uses : ∀ s : Stmt, s.expressions = s.uses.filterMap Use.expression?
  | .block _ body _ => expressionsIn_eq_uses body
  | .conditional _ onTrue onFalse _ => by
    simp only [expressions, uses, List.filterMap_cons, Use.expression?, List.filterMap_append,
      expressions_eq_uses onTrue, expressionsBehindElse_eq_uses onFalse]
  | .whileLoop _ body _ => by
    simp only [expressions, uses, List.filterMap_cons, Use.expression?, expressions_eq_uses body]
  | .returning none _ | .returning (some _) _ | .yielding _ _ | .expression _ => rfl
  | .breaking _ | .continuing _ | .declaration _ _ => rfl

theorem expressionsIn_eq_uses : ∀ body : List Stmt,
    expressionsIn body = (usesIn body).filterMap Use.expression?
  | [] => rfl
  | s :: rest => by
    simp only [expressionsIn, usesIn, List.filterMap_append, expressions_eq_uses s,
      expressionsIn_eq_uses rest]

theorem expressionsBehindElse_eq_uses : ∀ onFalse : Option Stmt,
    expressionsBehindElse onFalse = (usesBehindElse onFalse).filterMap Use.expression?
  | none => rfl
  | some s => expressions_eq_uses s

end

/-! ## Statements in which no extension is listed -/

theorem length_mergedIn_le (t : SymbolTable) (body : List Stmt) :
    (mergedIn t body).length ≤ body.length := by
  induction body with
  | nil => exact Nat.le_refl _
  | cons s rest ih =>
    rw [mergedIn]
    split
    · exact Nat.le_succ_of_le ih
    · simpa using ih

/-- A sequence keeps all its statements only if none of them declares an extension. -/
theorem mergedIn_cons_eq_self {t : SymbolTable} {s : Stmt} {rest : List Stmt} :
    mergedIn t (s :: rest) = s :: rest ↔
      (∀ id, s.declaration? = some id → (t.decl id).isExtension = false) ∧ s.merged t = s ∧
        mergedIn t rest = rest := by
  rw [mergedIn]
  cases extension : s.declaration?.any fun id => (t.decl id).isExtension with
  | true =>
    constructor
    · intro same
      have le := length_mergedIn_le t rest
      rw [if_pos rfl] at same
      rw [same, List.length_cons] at le
      omega
    · rintro ⟨none, -⟩
      obtain ⟨id, span, rfl⟩ := eq_declaration extension
      have other := none id rfl
      simp [declaration?, other] at extension
  | false =>
    rw [if_neg (by simp), List.cons.injEq]
    refine ⟨fun same => ⟨fun id states => ?_, same⟩, fun same => same.2⟩
    simpa [states] using extension

variable {t : SymbolTable}

mutual

theorem merged_eq_self : ∀ s : Stmt,
    s.merged t = s ↔ ∀ id ∈ s.listed, (t.decl id).isExtension = false
  | .block _ body _ => by simp [merged, listed, mergedIn_eq_self body]
  | .conditional _ onTrue onFalse _ => by
    simp only [merged, listed, conditional.injEq, merged_eq_self onTrue,
      mergedBehindElse_eq_self onFalse, List.mem_append, or_imp, forall_and, true_and, and_true]
  | .whileLoop _ body _ => by simp [merged, listed, merged_eq_self body]
  | .returning _ _ | .yielding _ _ | .expression _ | .breaking _ | .continuing _ => by
    simp [merged, listed]
  | .declaration _ _ => by simp [merged, listed]

theorem mergedIn_eq_self : ∀ body : List Stmt,
    mergedIn t body = body ↔ ∀ id ∈ listedIn body, (t.decl id).isExtension = false
  | [] => by simp [mergedIn, listedIn]
  | s :: rest => by
    rw [mergedIn_cons_eq_self, merged_eq_self s, mergedIn_eq_self rest]
    simp [listedIn, or_imp, forall_and]

theorem mergedBehindElse_eq_self : ∀ onFalse : Option Stmt,
    mergedBehindElse t onFalse = onFalse ↔
      ∀ id ∈ listedBehindElse onFalse, (t.decl id).isExtension = false
  | none => by simp [mergedBehindElse, listedBehindElse]
  | some s => by simp [mergedBehindElse, listedBehindElse, merged_eq_self s]

end

/-- Statements that state the same declarations and hold the same blocks, in the same places. -/
structure Alike (s s' : Stmt) : Prop where
  states : s'.declaration? = s.declaration?
  declares : s'.declares = s.declares
  blocks : s'.blocks = s.blocks
  listed : s'.listed = s.listed

theorem Alike.refl (s : Stmt) : s.Alike s := ⟨rfl, rfl, rfl, rfl⟩

/-- Sequences that state the same declarations and hold the same blocks, in the same places. -/
structure AlikeIn (body body' : List Stmt) : Prop where
  declares : declaresIn body' = declaresIn body
  blocks : blocksIn body' = blocksIn body
  listed : listedIn body' = listedIn body

theorem AlikeIn.refl (body : List Stmt) : AlikeIn body body := ⟨rfl, rfl, rfl⟩

theorem AlikeIn.cons {s s' : Stmt} {rest rest' : List Stmt} (h : s.Alike s')
    (h' : AlikeIn rest rest') : AlikeIn (s :: rest) (s' :: rest') := by
  refine ⟨?_, ?_, ?_⟩
  · simp only [declaresIn, h.declares, h'.declares]
  · simp only [blocksIn, h.blocks, h'.blocks]
  · simp only [listedIn, h.states, h.listed, h'.listed]

/-- What stands behind an `else` states the same declarations and holds the same blocks. -/
structure AlikeBehindElse (onFalse onFalse' : Option Stmt) : Prop where
  declares : declaresBehindElse onFalse' = declaresBehindElse onFalse
  blocks : blocksBehindElse onFalse' = blocksBehindElse onFalse
  listed : listedBehindElse onFalse' = listedBehindElse onFalse

theorem AlikeBehindElse.refl (onFalse : Option Stmt) : AlikeBehindElse onFalse onFalse :=
  ⟨rfl, rfl, rfl⟩

end Stmt

/-! ## Uses that have been defined -/

namespace SymbolTable

variable {t t' : SymbolTable}

/-- A function has a result type that the expression fits, unless the expression may turn out to. -/
def Returned (t : SymbolTable) (id : DeclId) (e : Expr) : Prop :=
  ∃ sort c, (t.decl id).kind = .callable sort c ∧
    (e.type.isDependent = true ∨ c.result.isPlaceholder = false ∧ e.type.Fits c.result)

/-- A function has the result type `void`, or one that may turn out to be. -/
def ReturnsNothing (t : SymbolTable) (id : DeclId) : Prop :=
  ∃ sort c, (t.decl id).kind = .callable sort c ∧ c.result.isPlaceholder = false ∧
    (c.result = .void ∨ c.result.isDependent = true)

/-- The function around a statement, if there is one, has got its type. -/
def Inside (t : SymbolTable) (function : Option DeclId) : Prop :=
  ∀ id, function = some id → ∃ sort c, (t.decl id).kind = .callable sort c ∧ c.type ≠ .auto

/-- A function that has got its type keeps the result type, unless that is a placeholder. -/
theorem Evolves.callable (h : t.Evolves t') {id : DeclId} {sort : CallableSort} {c : Callable}
    (kind : (t.decl id).kind = .callable sort c) (typed : c.type ≠ .auto) :
    ∃ c', (t'.decl id).kind = .callable sort c' ∧ c'.type ≠ .auto ∧
      (c'.result = c.result ∨ c.result.isPlaceholder = true) := by
  have evolves := (h.decls id (lt_size_of_kind (by simp [kind]))).kind
  rw [kind] at evolves
  generalize (t'.decl id).kind = k at evolves
  cases evolves with
  | callable _ known =>
    obtain ⟨typed', -, result⟩ := known typed
    exact ⟨_, rfl, typed', result⟩

theorem Inside.of_evolves {function : Option DeclId} (h : t.Inside function)
    (evolves : t.Evolves t') : t'.Inside function := by
  intro id same
  obtain ⟨sort, c, kind, typed⟩ := h id same
  obtain ⟨c', kind', typed', -⟩ := evolves.callable kind typed
  exact ⟨sort, c', kind', typed'⟩

/-- A function that has got its type has it from its signature. -/
theorem Sound.signed (h : t.Sound) {id : DeclId} {sort : CallableSort} {c : Callable}
    (kind : (t.decl id).kind = .callable sort c) (typed : c.type ≠ .auto) : c.Signed t := by
  have sound := h.decls id
  rw [kind] at sound
  exact sound.type.resolve_left typed

theorem Returned.of_evolves {id : DeclId} {e : Expr} (h : t.Returned id e)
    (inside : t.Inside (some id)) (evolves : t.Evolves t') : t'.Returned id e := by
  obtain ⟨sort, c, kind, fits⟩ := h
  obtain ⟨sort', c', kind', typed⟩ := inside id rfl
  obtain ⟨rfl, rfl⟩ := Declared.callable.inj (kind.symm.trans kind')
  obtain ⟨c', kind', -, result⟩ := evolves.callable kind typed
  refine ⟨sort, c', kind', fits.imp_right fun ⟨known, fits⟩ => ?_⟩
  rw [result.resolve_right (by simp [known])]
  exact ⟨known, fits⟩

theorem ReturnsNothing.of_evolves {id : DeclId} (h : t.ReturnsNothing id)
    (inside : t.Inside (some id)) (evolves : t.Evolves t') : t'.ReturnsNothing id := by
  obtain ⟨sort, c, kind, known, result⟩ := h
  obtain ⟨sort', c', kind', typed⟩ := inside id rfl
  obtain ⟨rfl, rfl⟩ := Declared.callable.inj (kind.symm.trans kind')
  obtain ⟨c', kind', -, same⟩ := evolves.callable kind typed
  have same := same.resolve_right (by simp [known])
  exact ⟨sort, c', kind', same ▸ known, same ▸ result⟩

end SymbolTable

/-- A use of an expression has been checked in the body of `function`, if it is in one. -/
def Use.IsDefined (t : SymbolTable) (function : Option DeclId) : Use → Prop
  | .condition e => e.WellTyped t ∧ e.asCondition = .ok e
  | .returned e => e.WellTyped t ∧ ∀ id, function = some id → t.Returned id e
  | .nothing => ∀ id, function = some id → t.ReturnsNothing id
  | .yielded e | .value e => e.WellTyped t

theorem Use.IsDefined.of_evolves {t t' : SymbolTable} {function : Option DeclId} {use : Use}
    (h : use.IsDefined t function) (inside : t.Inside function) (evolves : t.Evolves t') :
    use.IsDefined t' function := by
  cases use with
  | condition e => exact ⟨evolves.wellTyped h.1, h.2⟩
  | returned e =>
    refine ⟨evolves.wellTyped h.1, fun id same => ?_⟩
    subst same
    exact (h.2 id rfl).of_evolves inside evolves
  | nothing =>
    intro id same
    subst same
    exact (h id rfl).of_evolves inside evolves
  | yielded e => exact evolves.wellTyped h
  | value e => exact evolves.wellTyped h

theorem Use.IsDefined.wellTyped {t : SymbolTable} {function : Option DeclId} {use : Use}
    (h : use.IsDefined t function) {e : Expr} (uses : use.expression? = some e) :
    e.WellTyped t := by
  cases use with
  | condition _ => exact Option.some.inj uses ▸ h.1
  | returned _ => exact Option.some.inj uses ▸ h.1
  | nothing => cases uses
  | yielded _ => exact Option.some.inj uses ▸ h
  | value _ => exact Option.some.inj uses ▸ h

end Deferral
