import Deferral.Proofs.FirstPass.Announcing
import Deferral.Proofs.Scope.Signature

/-!
# Expressions and their scopes

Every expression stands in a scope: in that of the nearest block around it, or of the function or class
whose body it is in. What is lexical where it stands stays so as long as no scope changes.
-/

namespace Deferral

open SymbolTable

/-! ## The scopes of expressions -/

mutual

/-- The expressions in a statement, each with the scope it stands in, if that has been saved. -/
def Stmt.located (t : SymbolTable) (scope : Option ScopeId) : Stmt → List (Option ScopeId × Expr)
  | .block id body _ => locatedIn t (t.scopeOf? (.block id)) body
  | .returning value _ => value.toList.map fun e => (scope, e)
  | .yielding e _ | .expression e => [(scope, e)]
  | .conditional e onTrue onFalse _ =>
    (scope, e) :: (onTrue.located t scope ++ locatedBehindElse t scope onFalse)
  | .whileLoop e body _ => (scope, e) :: body.located t scope
  | .breaking _ | .continuing _ | .declaration _ _ => []

def Stmt.locatedIn (t : SymbolTable) (scope : Option ScopeId) :
    List Stmt → List (Option ScopeId × Expr)
  | [] => []
  | s :: rest => s.located t scope ++ locatedIn t scope rest

def Stmt.locatedBehindElse (t : SymbolTable) (scope : Option ScopeId) :
    Option Stmt → List (Option ScopeId × Expr)
  | none => []
  | some s => s.located t scope

end

/-- The expressions in the body of a function: a statement stands in the function's own scope. -/
def Body.located (t : SymbolTable) (id : DeclId) : Body → List (Option ScopeId × Expr)
  | .absent => []
  | .statement s => s.located t (t.scopeOf? (.decl id))
  | .expression e => [(t.scopeOf? (.body id), e)]

/-- The expressions that a declaration holds: an initializer stands where its object lies. -/
def SymbolTable.located (t : SymbolTable) (id : DeclId) : List (Option ScopeId × Expr) :=
  match (t.decl id).kind with
  | .object _ _ initializer => initializer.toList.map fun e => (some (t.decl id).scope, e)
  | .callable _ c => c.body.located t id
  | .classDecl _ _ body => Stmt.locatedIn t (t.scopeOf? (.decl id)) body
  | .parameter _ | .super _ | .typeParameter => []

namespace Stmt

variable {t t' : SymbolTable}

mutual

theorem located_congr (saved : ∀ owner, t'.scopeOf? owner = t.scopeOf? owner)
    (scope : Option ScopeId) : ∀ s : Stmt, s.located t' scope = s.located t scope
  | .block id body _ => by simp only [located, saved, locatedIn_congr saved _ body]
  | .conditional _ onTrue onFalse _ => by
    simp only [located, located_congr saved scope onTrue,
      locatedBehindElse_congr saved scope onFalse]
  | .whileLoop _ body _ => by simp only [located, located_congr saved scope body]
  | .returning _ _ | .yielding _ _ | .expression _ | .breaking _ | .continuing _ => rfl
  | .declaration _ _ => rfl

theorem locatedIn_congr (saved : ∀ owner, t'.scopeOf? owner = t.scopeOf? owner)
    (scope : Option ScopeId) : ∀ body : List Stmt, locatedIn t' scope body = locatedIn t scope body
  | [] => rfl
  | s :: rest => by
    simp only [locatedIn, located_congr saved scope s, locatedIn_congr saved scope rest]

theorem locatedBehindElse_congr (saved : ∀ owner, t'.scopeOf? owner = t.scopeOf? owner)
    (scope : Option ScopeId) : ∀ onFalse : Option Stmt,
    locatedBehindElse t' scope onFalse = locatedBehindElse t scope onFalse
  | none => rfl
  | some s => by simp only [locatedBehindElse, located_congr saved scope s]

end

mutual

/-- The walk meets the expressions in a statement and no others. -/
theorem map_located (t : SymbolTable) (scope : Option ScopeId) : ∀ s : Stmt,
    (s.located t scope).map Prod.snd = s.expressions
  | .block _ body _ => map_locatedIn t _ body
  | .conditional _ onTrue onFalse _ => by
    simp only [located, expressions, List.map_cons, List.map_append, map_located t scope onTrue,
      map_locatedBehindElse t scope onFalse]
  | .whileLoop _ body _ => by
    simp only [located, expressions, List.map_cons, map_located t scope body]
  | .returning value _ => by cases value <;> rfl
  | .yielding _ _ | .expression _ | .breaking _ | .continuing _ | .declaration _ _ => rfl

theorem map_locatedIn (t : SymbolTable) (scope : Option ScopeId) : ∀ body : List Stmt,
    (locatedIn t scope body).map Prod.snd = expressionsIn body
  | [] => rfl
  | s :: rest => by
    simp only [locatedIn, expressionsIn, List.map_append, map_located t scope s,
      map_locatedIn t scope rest]

theorem map_locatedBehindElse (t : SymbolTable) (scope : Option ScopeId) :
    ∀ onFalse : Option Stmt,
    (locatedBehindElse t scope onFalse).map Prod.snd = expressionsBehindElse onFalse
  | none => rfl
  | some s => map_located t scope s

end

mutual

/-- Every expression has a scope once scopes have been saved for blocks. -/
theorem isSome_of_located {scope : Option ScopeId} (known : scope.isSome = true) : ∀ s : Stmt,
    t.HasBlocks s.blocks → ∀ p ∈ s.located t scope, p.1.isSome = true
  | .block id body _, blocks => by
    have own : (t.scopeOf? (.block id)).isSome = true :=
      Option.isSome_iff_exists.mpr (blocks id (by simp [Stmt.blocks]))
    exact isSome_of_locatedIn own body fun b member => blocks b (List.mem_cons_of_mem _ member)
  | .conditional _ onTrue onFalse _, blocks => by
    intro p member
    rcases List.mem_cons.mp member with rfl | member
    · exact known
    rcases List.mem_append.mp member with member | member
    · exact isSome_of_located known onTrue
        (fun b inside => blocks b (List.mem_append_left _ inside)) p member
    · exact isSome_of_locatedBehindElse known onFalse
        (fun b inside => blocks b (List.mem_append_right _ inside)) p member
  | .whileLoop _ body _, blocks => by
    intro p member
    rcases List.mem_cons.mp member with rfl | member
    · exact known
    · exact isSome_of_located known body blocks p member
  | .returning value _, _ => by
    intro p member
    obtain ⟨e, -, rfl⟩ := List.mem_map.mp member
    exact known
  | .yielding _ _, _ | .expression _, _ => by
    intro p member
    obtain rfl := List.mem_singleton.mp member
    exact known
  | .breaking _, _ | .continuing _, _ | .declaration _ _, _ => fun _ none => by cases none

theorem isSome_of_locatedIn {scope : Option ScopeId} (known : scope.isSome = true) :
    ∀ body : List Stmt, t.HasBlocks (blocksIn body) →
    ∀ p ∈ locatedIn t scope body, p.1.isSome = true
  | [], _ => fun _ none => by cases none
  | s :: rest, blocks => by
    intro p member
    rcases List.mem_append.mp member with member | member
    · exact isSome_of_located known s
        (fun b inside => blocks b (List.mem_append_left _ inside)) p member
    · exact isSome_of_locatedIn known rest
        (fun b inside => blocks b (List.mem_append_right _ inside)) p member

theorem isSome_of_locatedBehindElse {scope : Option ScopeId} (known : scope.isSome = true) :
    ∀ onFalse : Option Stmt, t.HasBlocks (blocksBehindElse onFalse) →
    ∀ p ∈ locatedBehindElse t scope onFalse, p.1.isSome = true
  | none, _ => fun _ none => by cases none
  | some s, blocks => isSome_of_located known s blocks

end

end Stmt

namespace Body

variable {t t' : SymbolTable}

theorem located_congr (saved : ∀ owner, t'.scopeOf? owner = t.scopeOf? owner) (id : DeclId)
    (body : Body) : body.located t' id = body.located t id := by
  cases body with
  | absent => rfl
  | statement s => simp only [located, saved, Stmt.located_congr saved]
  | expression e => simp only [located, saved]

theorem map_located (t : SymbolTable) (id : DeclId) (body : Body) :
    (body.located t id).map Prod.snd = body.expressions := by
  cases body with
  | statement s => exact Stmt.map_located t _ s
  | _ => rfl

end Body

/-! ## Tables that are lexical -/

namespace SymbolTable

variable {t t' t'' : SymbolTable} {s : ScopeId} {id : DeclId}

/-- Expressions are lexical in the scopes they stand in. -/
def LexicalAt (t : SymbolTable) (located : List (Option ScopeId × Expr)) : Prop :=
  ∀ p ∈ located, ∀ s, p.1 = some s → t.Lexical s p.2

@[simp] theorem lexicalAt_nil (t : SymbolTable) : t.LexicalAt [] := fun _ none => by cases none

@[simp] theorem lexicalAt_cons {e : Expr} {located : List (Option ScopeId × Expr)} :
    t.LexicalAt ((some s, e) :: located) ↔ t.Lexical s e ∧ t.LexicalAt located := by
  simp [LexicalAt]

@[simp] theorem lexicalAt_append {located located' : List (Option ScopeId × Expr)} :
    t.LexicalAt (located ++ located') ↔ t.LexicalAt located ∧ t.LexicalAt located' := by
  simp only [LexicalAt, List.mem_append, or_imp, forall_and]

/-- What has not been read is lexical wherever it stands. -/
theorem lexicalAt_of_unread {located : List (Option ScopeId × Expr)}
    (unread : ∀ e ∈ located.map Prod.snd, e.excerpt?.isSome = true) : t.LexicalAt located :=
  fun p member s _ => lexical_of_excerpt? (unread p.2 (List.mem_map_of_mem member)) t s

/-- What declarations hold is lexical in the scopes it stands in. -/
structure Bound (t : SymbolTable) : Prop where
  initializers : t.LexicalIn fun _ => True
  body : ∀ id, t.LexicalAt ((t.decl id).body.located t id)
  members : ∀ id, t.LexicalAt (Stmt.locatedIn t (t.scopeOf? (.decl id)) (t.members id))

theorem Bound.legible (h : t.Bound) : t.Legible fun _ => True :=
  ⟨fun _ _ _ _ _ _ => trivial, h.initializers⟩

/-- Nothing stands elsewhere because other scopes are active. -/
theorem Bound.of_same (h : t.Bound) (decls : t'.decls = t.decls) (scopes : t'.scopes = t.scopes)
    (saved : t'.saved = t.saved) : t'.Bound := by
  have same : ∀ id, t'.decl id = t.decl id := fun id => by simp [decl, decls]
  have owners : ∀ owner, t'.scopeOf? owner = t.scopeOf? owner :=
    fun owner => by simp only [scopeOf?, saved]
  have keeps {located : List (Option ScopeId × Expr)} (lexical : t.LexicalAt located) :
      t'.LexicalAt located :=
    fun p member s known => (lexical p member s known).of_scopes scopes fun id => by rw [same]
  refine ⟨(h.legible.of_same decls scopes).initializers, fun id => ?_, fun id => ?_⟩
  · rw [Body.located_congr owners, same]
    exact keeps (h.body id)
  · rw [owners, Stmt.locatedIn_congr owners, SymbolTable.members, same]
    exact keeps (h.members id)

theorem Bound.located (h : t.Bound) (id : DeclId) : t.LexicalAt (t.located id) := by
  unfold SymbolTable.located
  split
  · rename_i sort type init kind
    intro p member s same
    obtain ⟨e, held, rfl⟩ := List.mem_map.mp member
    obtain rfl := Option.some.inj same
    refine h.legible.lexical ?_
    simpa [Decl.initializer?, kind] using Option.mem_toList.mp held
  · rename_i sort c kind
    exact Decl.body_of_kind kind ▸ h.body id
  · rename_i sort kind' body kind
    have members : t.members id = body := by simp [SymbolTable.members, Decl.members?, kind]
    exact members ▸ h.members id
  all_goals exact lexicalAt_nil t

/-! ## Steps that move nothing -/

/-- A step that changes no scope. -/
structure Rests (t t' : SymbolTable) : Prop where
  scopes : t'.scopes = t.scopes
  saved : t'.saved = t.saved
  active : t'.active = t.active
  extensions : ∀ id, (t'.decl id).isExtension = (t.decl id).isExtension

namespace Rests

theorem refl (t : SymbolTable) : t.Rests t := ⟨rfl, rfl, rfl, fun _ => rfl⟩

theorem trans (h : t.Rests t') (h' : t'.Rests t'') : t.Rests t'' where
  scopes := h'.scopes.trans h.scopes
  saved := h'.saved.trans h.saved
  active := h'.active.trans h.active
  extensions id := (h'.extensions id).trans (h.extensions id)

theorem leave {scope : ScopeId} (h : (t.enter scope).Rests t') : t.Rests t'.leave :=
  ⟨h.scopes, h.saved, congrArg List.tail h.active, h.extensions⟩

theorem mapCallable (t : SymbolTable) (id : DeclId) (f : Callable → Callable) :
    t.Rests (t.modifyDecl id (·.mapCallable f)) :=
  ⟨rfl, rfl, rfl, (Rebinds.mapCallable t .global id f).extensions⟩

theorem mapMembers (t : SymbolTable) (id : DeclId) (f : List Stmt → List Stmt) :
    t.Rests (t.modifyDecl id (·.mapMembers f)) := by
  refine ⟨rfl, rfl, rfl, fun other => ?_⟩
  rw [decl_modifyDecl]
  split
  · rename_i same
    rw [same.1]
    unfold Decl.mapMembers
    split
    · rename_i sort _ _ kind
      cases sort <;> simp [Decl.isExtension, kind]
    · rfl
  · rfl

theorem scopeOf? (h : t.Rests t') (owner : ScopeOwner) : t'.scopeOf? owner = t.scopeOf? owner := by
  simp only [SymbolTable.scopeOf?, h.saved]

theorem innermost (h : t.Rests t') : t'.innermost = t.innermost := by
  simp only [SymbolTable.innermost, h.active]

theorem lexicalAt (h : t.Rests t') {located : List (Option ScopeId × Expr)}
    (lexical : t.LexicalAt located) : t'.LexicalAt located :=
  fun p member s same => (lexical p member s same).of_scopes h.scopes h.extensions

end Rests

namespace Bound

/-- What is changed in bodies and members is lexical where it stands. -/
theorem of_cases (h : t.Bound) (rests : t.Rests t') (initializers : t'.LexicalIn fun _ => True)
    (body : ∀ id, (t'.decl id).body = (t.decl id).body ∨
      t.LexicalAt ((t'.decl id).body.located t id))
    (members : ∀ id, t'.members id = t.members id ∨
      t.LexicalAt (Stmt.locatedIn t (t.scopeOf? (.decl id)) (t'.members id))) : t'.Bound := by
  refine ⟨initializers, fun id => ?_, fun id => ?_⟩
  · rw [Body.located_congr rests.scopeOf?]
    rcases body id with same | lexical
    · rw [same]
      exact rests.lexicalAt (h.body id)
    · exact rests.lexicalAt lexical
  · rw [rests.scopeOf?, Stmt.locatedIn_congr rests.scopeOf?]
    rcases members id with same | lexical
    · rw [same]
      exact rests.lexicalAt (h.members id)
    · exact rests.lexicalAt lexical

theorem initializers_of_rests (h : t.Bound) (rests : t.Rests t')
    (same : ∀ id, (t'.decl id).initializer? = (t.decl id).initializer? ∧
      (t'.decl id).scope = (t.decl id).scope) : t'.LexicalIn fun _ => True :=
  h.initializers.of_agreesOn (Nat.le_of_eq (by rw [rests.scopes]))
    (fun _ _ a _ => .of_scope rests.extensions (scope_congr rests.scopes a)) (fun _ _ => trivial)
    (fun id => (same id).1) fun id _ _ => (same id).2

/-- A change of functions that concerns their bodies at most. -/
theorem mapCallable (h : t.Bound) (id : DeclId) (f : Callable → Callable)
    (body : ((t.decl id).mapCallable f).body = (t.decl id).body ∨
      t.LexicalAt (((t.decl id).mapCallable f).body.located t id)) :
    (t.modifyDecl id (·.mapCallable f)).Bound := by
  have rebinds := Rebinds.mapCallable t .global id f
  have rests := Rests.mapCallable t id f
  refine h.of_cases rests (h.initializers_of_rests rests fun other =>
    ⟨rebinds.initializers other, rebinds.scopes other⟩) (fun other => ?_)
    fun other => .inl (Signature.members_mapCallable ..)
  rw [decl_modifyDecl]
  split
  · rename_i same
    rw [same.1]
    exact body
  · exact .inl rfl

/-- The members of a class are replaced. -/
theorem mapMembers (h : t.Bound) (id : DeclId) (body : List Stmt)
    (lexical : t.LexicalAt (Stmt.locatedIn t (t.scopeOf? (.decl id)) body)) :
    (t.modifyDecl id (·.mapMembers fun _ => body)).Bound := by
  have rests := Rests.mapMembers t id fun _ => body
  have scope : ∀ other, ((t.modifyDecl id (·.mapMembers fun _ => body)).decl other).scope =
      (t.decl other).scope := by
    intro other
    rw [decl_modifyDecl]
    split
    · rename_i same
      rw [same.1]
      unfold Decl.mapMembers
      split <;> rfl
    · rfl
  refine h.of_cases rests (h.initializers_of_rests rests fun other =>
    ⟨initializer?_mapMembers t id other _, scope other⟩)
    (fun other => .inl (body_mapMembers ..)) fun other => ?_
  by_cases same : other = id
  · subst same
    cases isClass : (t.decl other).members?.isSome with
    | true =>
      rw [members_mapMembers_self isClass]
      exact .inr lexical
    | false =>
      have none : (t.decl other).mapMembers (fun _ => body) = t.decl other := by
        unfold Decl.mapMembers
        split
        · rename_i kind
          simp [Decl.members?, kind] at isClass
        · rfl
      refine .inl ?_
      unfold SymbolTable.members
      rw [decl_modifyDecl]
      split
      · rw [none]
      · rfl
  · exact .inl (members_modifyDecl_of_ne same _)

end Bound

/-- A step that changes no scope, after which what declarations hold is lexical. -/
structure Reads (t t' : SymbolTable) : Prop extends t.Rests t' where
  bound : t'.Bound

namespace Reads

theorem refl (bound : t.Bound) : t.Reads t := ⟨.refl t, bound⟩

theorem trans (h : t.Reads t') (h' : t'.Reads t'') : t.Reads t'' :=
  ⟨h.toRests.trans h'.toRests, h'.bound⟩

theorem leave {scope : ScopeId} (h : (t.enter scope).Reads t') : t.Reads t'.leave :=
  ⟨h.toRests.leave, h.bound.of_same rfl rfl rfl⟩

theorem of_names (bound : t.Bound) (h : t.Names (fun _ => True) t') : t.Reads t' := by
  have rests : t.Rests t' := ⟨h.scopes, h.saved, h.active, h.extensions⟩
  exact ⟨rests, bound.of_cases rests (h.legible bound.legible).initializers
    (fun id => .inl (h.keeps.body id)) fun id => .inl (h.keeps.members id)⟩

end Reads

end SymbolTable

end Deferral
