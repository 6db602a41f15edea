import Deferral.Declaration.Basic

/-!
# What statements and declarations hold

The expressions that stand in a statement, at any depth but not inside the declarations it states,
and the declarations that are stated in it. A declaration holds what its initializer, its body or
its members hold.
-/

namespace Deferral

mutual

/-- The expressions in a statement. -/
def Stmt.expressions : Stmt → List Expr
  | .block _ body _ => expressionsIn body
  | .returning value _ => value.toList
  | .yielding e _ | .expression e => [e]
  | .conditional e onTrue onFalse _ => e :: (onTrue.expressions ++ expressionsBehindElse onFalse)
  | .whileLoop e body _ => e :: body.expressions
  | .breaking _ | .continuing _ | .declaration _ _ => []

def Stmt.expressionsIn : List Stmt → List Expr
  | [] => []
  | s :: rest => s.expressions ++ expressionsIn rest

def Stmt.expressionsBehindElse : Option Stmt → List Expr
  | none => []
  | some s => s.expressions

end

mutual

/-- The declarations that a statement states. -/
def Stmt.declares : Stmt → List DeclId
  | .block _ body _ => declaresIn body
  | .conditional _ onTrue onFalse _ => onTrue.declares ++ declaresBehindElse onFalse
  | .whileLoop _ body _ => body.declares
  | .declaration id _ => [id]
  | .returning _ _ | .yielding _ _ | .expression _ | .breaking _ | .continuing _ => []

def Stmt.declaresIn : List Stmt → List DeclId
  | [] => []
  | s :: rest => s.declares ++ declaresIn rest

def Stmt.declaresBehindElse : Option Stmt → List DeclId
  | none => []
  | some s => s.declares

end

mutual

/-- The blocks in a statement, by their numbers. -/
def Stmt.blocks : Stmt → List Nat
  | .block id body _ => id :: blocksIn body
  | .conditional _ onTrue onFalse _ => onTrue.blocks ++ blocksBehindElse onFalse
  | .whileLoop _ body _ => body.blocks
  | .returning _ _ | .yielding _ _ | .expression _ | .breaking _ | .continuing _ => []
  | .declaration _ _ => []

def Stmt.blocksIn : List Stmt → List Nat
  | [] => []
  | s :: rest => s.blocks ++ blocksIn rest

def Stmt.blocksBehindElse : Option Stmt → List Nat
  | none => []
  | some s => s.blocks

end

namespace Stmt

theorem mem_expressionsIn {e : Expr} {body : List Stmt} :
    e ∈ expressionsIn body ↔ ∃ s ∈ body, e ∈ s.expressions := by
  induction body with
  | nil => simp [expressionsIn]
  | cons s rest ih => simp [expressionsIn, ih]

theorem mem_declaresIn {id : DeclId} {body : List Stmt} :
    id ∈ declaresIn body ↔ ∃ s ∈ body, id ∈ s.declares := by
  induction body with
  | nil => simp [declaresIn]
  | cons s rest ih => simp [declaresIn, ih]

@[simp] theorem expressionsIn_append (body rest : List Stmt) :
    expressionsIn (body ++ rest) = expressionsIn body ++ expressionsIn rest := by
  induction body with
  | nil => simp [expressionsIn]
  | cons s body ih => simp [expressionsIn, ih]

@[simp] theorem declaresIn_append (body rest : List Stmt) :
    declaresIn (body ++ rest) = declaresIn body ++ declaresIn rest := by
  induction body with
  | nil => simp [declaresIn]
  | cons s body ih => simp [declaresIn, ih]

@[simp] theorem blocksIn_append (body rest : List Stmt) :
    blocksIn (body ++ rest) = blocksIn body ++ blocksIn rest := by
  induction body with
  | nil => simp [blocksIn]
  | cons s body ih => simp [blocksIn, ih]

end Stmt

namespace Body

def expressions : Body → List Expr
  | .absent => []
  | .statement s => s.expressions
  | .expression e => [e]

def declares : Body → List DeclId
  | .statement s => s.declares
  | .absent | .expression _ => []

end Body

namespace Decl

/-- The expressions that a declaration holds, those inside other declarations left out. -/
def expressions (d : Decl) : List Expr :=
  match d.kind with
  | .object _ _ initializer => initializer.toList
  | .callable _ c => c.body.expressions
  | .classDecl _ _ body => Stmt.expressionsIn body
  | .parameter _ | .super _ | .typeParameter => []

/-- The declarations that are stated inside a declaration. -/
def declares (d : Decl) : List DeclId :=
  match d.kind with
  | .callable _ c => c.body.declares
  | .classDecl _ _ body => Stmt.declaresIn body
  | .object _ _ _ | .parameter _ | .super _ | .typeParameter => []

end Decl

end Deferral
