import Deferral.Proofs.Pass.Overload
import Deferral.Proofs.Renaming.Outcome
import Deferral.Unit.Signature

/-!
# Tables of renamed declarations

Two tables correspond when the one holds what the other one holds, with the identifiers renamed. The
order of names in a scope is another one after renaming, so that scopes correspond by what they bind.
-/

namespace Deferral

variable (σ : Renaming)

/-! ## Statements and declarations -/

mutual

/-- A statement with its identifiers renamed. -/
def Stmt.renamed : Stmt → Stmt
  | .block id body span => .block id (Stmt.allRenamed body) span
  | .returning value span => .returning (value.map (Expr.renamed σ)) span
  | .yielding e span => .yielding (e.renamed σ) span
  | .conditional e onTrue onFalse span =>
    .conditional (e.renamed σ) onTrue.renamed (Stmt.renamedBehindElse onFalse) span
  | .whileLoop e body span => .whileLoop (e.renamed σ) body.renamed span
  | .breaking span => .breaking span
  | .continuing span => .continuing span
  | .declaration id span => .declaration id span
  | .expression e => .expression (e.renamed σ)

/-- Statements with their identifiers renamed. -/
def Stmt.allRenamed : List Stmt → List Stmt
  | [] => []
  | s :: rest => s.renamed :: Stmt.allRenamed rest

def Stmt.renamedBehindElse : Option Stmt → Option Stmt
  | none => none
  | some s => some s.renamed

end

def Body.renamed : Body → Body
  | .absent => .absent
  | .statement s => .statement (s.renamed σ)
  | .expression e => .expression (e.renamed σ)

def Callable.renamed (c : Callable) : Callable :=
  { c with result := c.result.renamed σ, type := c.type.renamed σ, body := c.body.renamed σ }

/-- What a declaration declares, with the identifiers renamed. -/
def Declared.renamed : Declared → Declared
  | .object sort type init => .object sort (type.renamed σ) (init.map (Expr.renamed σ))
  | .parameter type => .parameter (type.renamed σ)
  | .super type => .super (type.renamed σ)
  | .callable sort c => .callable sort (c.renamed σ)
  | .classDecl sort kind body => .classDecl sort (kind.renamed σ) (Stmt.allRenamed σ body)
  | .typeParameter => .typeParameter

/-- A declaration with its name and the identifiers in it renamed. -/
def Decl.renamed (d : Decl) : Decl :=
  { d with name := σ.name d.name, kind := d.kind.renamed σ }

variable {σ}

theorem Stmt.allRenamed_eq_map (body : List Stmt) :
    Stmt.allRenamed σ body = body.map (Stmt.renamed σ) := by
  induction body with
  | nil => rfl
  | cons s rest ih => exact congrArg _ ih

@[simp] theorem Stmt.declaration?_renamed (s : Stmt) :
    (s.renamed σ).declaration? = s.declaration? := by
  cases s <;> rfl

theorem Stmt.renamedBehindElse_eq_map (onFalse : Option Stmt) :
    Stmt.renamedBehindElse σ onFalse = onFalse.map (Stmt.renamed σ) := by
  cases onFalse <;> rfl

namespace Decl

variable (d : Decl)

theorem renamed_withTypeIn (slot : TypeSlot) (type : Ty) :
    (d.withTypeIn slot type).renamed σ = (d.renamed σ).withTypeIn slot (type.renamed σ) := by
  obtain ⟨name, kind, scope, span⟩ := d
  cases slot <;> cases kind <;> rfl

theorem renamed_mapCallable {f g : Callable → Callable}
    (commutes : ∀ c, (f c).renamed σ = g (c.renamed σ)) :
    (d.mapCallable f).renamed σ = (d.renamed σ).mapCallable g := by
  obtain ⟨name, kind, scope, span⟩ := d
  cases kind with
  | callable sort c =>
    exact congrArg (fun c => Decl.mk (σ.name name) (.callable sort c) scope span) (commutes c)
  | _ => rfl

theorem renamed_mapMembers {f g : List Stmt → List Stmt}
    (commutes : ∀ body, Stmt.allRenamed σ (f body) = g (Stmt.allRenamed σ body)) :
    (d.mapMembers f).renamed σ = (d.renamed σ).mapMembers g := by
  obtain ⟨name, kind, scope, span⟩ := d
  cases kind with
  | classDecl sort type body =>
    exact congrArg (fun body => Decl.mk (σ.name name) (.classDecl sort (type.renamed σ) body)
      scope span) (commutes body)
  | _ => rfl

theorem renamed_withInitializer (e : Expr) :
    (d.withInitializer e).renamed σ = (d.renamed σ).withInitializer (e.renamed σ) := by
  obtain ⟨name, kind, scope, span⟩ := d
  cases kind with
  | object sort type init => cases init <;> rfl
  | _ => rfl

end Decl

/-- A declaration and the renamed one. One that was never made has no name. -/
structure Decl.Renamed (σ : Renaming) (d d' : Decl) : Prop where
  name : σ.Names d.name d'.name
  kind : d'.kind = d.kind.renamed σ
  scope : d'.scope = d.scope
  span : d'.span = d.span

namespace Decl.Renamed

variable {d d' : Decl} (h : d.Renamed σ d')

include h

theorem subject : d'.subject = d.subject := by
  unfold Decl.subject
  rw [h.kind]
  cases d.kind with
  | object sort _ _ => cases sort <;> rfl
  | callable sort _ => cases sort <;> rfl
  | classDecl sort _ _ => cases sort <;> rfl
  | _ => rfl

theorem isExtension : d'.isExtension = d.isExtension := by
  unfold Decl.isExtension
  rw [h.kind]
  cases d.kind with
  | classDecl sort _ _ => cases sort <;> rfl
  | _ => rfl

theorem isPrimaryClass : d'.isPrimaryClass = d.isPrimaryClass := by
  unfold Decl.isPrimaryClass
  rw [h.kind]
  cases d.kind with
  | classDecl sort _ _ => cases sort <;> rfl
  | _ => rfl

theorem isTypeParameter : d'.isTypeParameter = d.isTypeParameter := by
  unfold Decl.isTypeParameter
  rw [h.kind]
  cases d.kind <;> rfl

theorem isConstant : d'.isConstant = d.isConstant := by
  unfold Decl.isConstant
  rw [h.kind]
  cases d.kind with
  | object sort _ _ => cases sort <;> rfl
  | _ => rfl

theorem typeIn? (slot : TypeSlot) : d'.typeIn? slot = (d.typeIn? slot).map (Ty.renamed σ) := by
  unfold Decl.typeIn?
  rw [h.kind]
  cases slot <;> cases d.kind <;> rfl

theorem ownType? : d'.ownType? = d.ownType?.map (Ty.renamed σ) := h.typeIn? .declared

theorem initializer? : d'.initializer? = d.initializer?.map (Expr.renamed σ) := by
  unfold Decl.initializer?
  rw [h.kind]
  cases d.kind <;> rfl

theorem callable? : d'.callable? = d.callable?.map (Callable.renamed σ) := by
  unfold Decl.callable?
  rw [h.kind]
  cases d.kind <;> rfl

theorem members? : d'.members? = d.members?.map (Stmt.allRenamed σ) := by
  unfold Decl.members?
  rw [h.kind]
  cases d.kind <;> rfl

theorem typeOfUse? :
    SymbolTable.typeOfUse? d' = (SymbolTable.typeOfUse? d).map (Ty.renamed σ) := by
  have use (type : Ty) :
      SymbolTable.useType (type.renamed σ) = (SymbolTable.useType type).renamed σ := by
    unfold SymbolTable.useType
    rw [Ty.isDeferred_renamed]
    split <;> rfl
  unfold SymbolTable.typeOfUse?
  rw [h.kind]
  cases d.kind with
  | object sort type init => exact congrArg some (use type)
  | parameter type => exact congrArg some (use type)
  | _ => rfl

end Decl.Renamed

theorem Decl.renames (d : Decl) : d.Renamed σ (d.renamed σ) := ⟨.declared _, rfl, rfl, rfl⟩

theorem Decl.renames_default : (default : Decl).Renamed σ default := ⟨.undeclared, rfl, rfl, rfl⟩

/-! ## Scopes -/

namespace Names

theorem find?_extendAll {names : Names} (increasing : names.Increasing) {s : Scope}
    (ordered : s.names.Increasing) (name : String) :
    (s.extendAll names).find? name =
      ((names.find? name).map ((s.find? name).getD [] ++ ·)).or (s.find? name) := by
  unfold Scope.extendAll
  induction names generalizing s with
  | nil => rfl
  | cons entry rest ih =>
    obtain ⟨other, set⟩ := entry
    obtain ⟨first, increasing⟩ := List.pairwise_cons.mp increasing
    rw [List.foldl_cons, ih increasing (Names.increasing_alter ordered ..), find?_cons]
    by_cases same : name = other
    · subst same
      have absent : find? rest name = none := find?_eq_none_of_lt first
      rw [if_pos rfl, absent, Scope.find?_extend_self ordered]
      rfl
    · rw [if_neg same, Scope.find?_extend_of_ne s same]

end Names

/-- A scope and the one that binds the renamed names. -/
structure Scope.Renamed (σ : Renaming) (s s' : Scope) : Prop where
  parent : s'.parent = s.parent
  find? : ∀ name, s'.find? (σ.name name) = s.find? name
  increasing : s.names.Increasing
  increasing' : s'.names.Increasing

namespace Scope.Renamed

variable {s s' u u' : Scope}

/-- A scope without names. -/
theorem nameless (parent : Option ScopeId) : Scope.Renamed σ ⟨parent, []⟩ ⟨parent, []⟩ :=
  ⟨rfl, fun _ => rfl, List.Pairwise.nil, List.Pairwise.nil⟩

theorem withParent (h : s.Renamed σ s') (parent : Option ScopeId) :
    Scope.Renamed σ { s with parent } { s' with parent } :=
  ⟨rfl, h.find?, h.increasing, h.increasing'⟩

/-- The set of a name changes together with that of the renamed one. -/
theorem alter (h : s.Renamed σ s') (name : String) (f : Overloads → Overloads) :
    Scope.Renamed σ { s with names := Names.alter name f s.names }
      { s' with names := Names.alter (σ.name name) f s'.names } where
  parent := h.parent
  find? other := by
    by_cases same : other = name
    · subst same
      exact (Names.find?_alter_self h.increasing' ..).trans
        ((congrArg (fun set => some (f (set.getD []))) (h.find? other)).trans
          (Names.find?_alter_self h.increasing ..).symm)
    · have same' : σ.name other ≠ σ.name name := fun equal => same (σ.name.injective equal)
      exact (Names.find?_alter_of_ne same' ..).trans
        ((h.find? other).trans (Names.find?_alter_of_ne same ..).symm)
  increasing := Names.increasing_alter h.increasing ..
  increasing' := Names.increasing_alter h.increasing' ..

theorem extendAll (h : s.Renamed σ s') (more : u.Renamed σ u') :
    (s.extendAll u.names).Renamed σ (s'.extendAll u'.names) where
  parent := by
    have kept (names : Names) (s : Scope) : (s.extendAll names).parent = s.parent := by
      unfold Scope.extendAll
      induction names generalizing s with
      | nil => rfl
      | cons entry rest ih => exact ih _
    rw [kept, kept, h.parent]
  find? name := by
    rw [Names.find?_extendAll more.increasing' h.increasing',
      Names.find?_extendAll more.increasing h.increasing, h.find?]
    exact congrArg (fun set => (set.map ((s.find? name).getD [] ++ ·)).or (s.find? name))
      (more.find? name)
  increasing := Scope.increasing_extendAll h.increasing _
  increasing' := Scope.increasing_extendAll h.increasing' _

end Scope.Renamed

/-! ## Tables -/

/-- A table and the one that holds the same under the renamed names. -/
structure SymbolTable.Renamed (σ : Renaming) (t t' : SymbolTable) : Prop where
  decls : t'.decls = t.decls.map (Decl.renamed σ)
  size : t'.scopes.size = t.scopes.size
  scope : ∀ id, (t.scope id).Renamed σ (t'.scope id)
  saved : t'.saved = t.saved
  active : t'.active = t.active
  constants : t'.constants = t.constants
  binding : t'.binding = t.binding
  nextBlock : t'.nextBlock = t.nextBlock

namespace SymbolTable.Renamed

theorem empty : SymbolTable.Renamed σ .empty .empty where
  decls := by simp [SymbolTable.empty]
  size := rfl
  scope id := by
    have nameless : (SymbolTable.empty.scope id).names = [] := by
      obtain ⟨_ | n⟩ := id <;> rfl
    generalize SymbolTable.empty.scope id = s at nameless
    obtain ⟨parent, names⟩ := s
    obtain rfl : names = [] := nameless
    exact .nameless parent
  saved := rfl
  active := rfl
  constants := rfl
  binding := rfl
  nextBlock := rfl

variable {t t' : SymbolTable} (h : t.Renamed σ t')

include h

/-! ### What is found -/

theorem size_decls : t'.decls.size = t.decls.size := by
  rw [h.decls, Array.size_map]

theorem decl_of_lt {id : DeclId} (lt : id.index < t.decls.size) :
    t'.decl id = (t.decl id).renamed σ := by
  simp [SymbolTable.decl, h.decls, Array.getD_eq_getD_getElem?, lt]

theorem decl (id : DeclId) : (t.decl id).Renamed σ (t'.decl id) := by
  by_cases lt : id.index < t.decls.size
  · rw [h.decl_of_lt lt]
    exact (t.decl id).renames
  · have absent : t.decl id = default := decl_eq_default (Nat.le_of_not_lt lt)
    have absent' : t'.decl id = default := decl_eq_default (by rw [h.size_decls]; omega)
    rw [absent, absent']
    exact Decl.renames_default

theorem nextDecl : t'.nextDecl = t.nextDecl := by
  unfold SymbolTable.nextDecl
  rw [h.size_decls]

theorem nextScope : t'.nextScope = t.nextScope := by
  unfold SymbolTable.nextScope
  rw [h.size]

theorem innermost : t'.innermost = t.innermost := by
  unfold SymbolTable.innermost
  rw [h.active]

theorem scopeOf? (owner : ScopeOwner) : t'.scopeOf? owner = t.scopeOf? owner := by
  unfold SymbolTable.scopeOf?
  rw [h.saved]

theorem constant? (id : DeclId) : t'.constant? id = t.constant? id := by
  unfold SymbolTable.constant?
  rw [h.constants]

theorem members (id : DeclId) : t'.members id = Stmt.allRenamed σ (t.members id) := by
  unfold SymbolTable.members
  rw [(h.decl id).members?]
  cases (t.decl id).members? <;> rfl

theorem findWithin (name : String) (steps : Nat) (id : ScopeId) :
    t'.findWithin (σ.name name) steps id = t.findWithin name steps id := by
  induction steps generalizing id with
  | zero => rfl
  | succ steps ih =>
    unfold SymbolTable.findWithin
    rw [(h.scope id).find?, (h.scope id).parent, funext ih]

/-- A renamed name is bound to what the name is bound to. -/
theorem find (name : String) : t'.find (σ.name name) = t.find name := by
  unfold SymbolTable.find SymbolTable.findFrom
  rw [h.innermost, h.size, h.findWithin]

theorem isOverloaded (enclosing : ScopeId) (name : String) :
    t'.isOverloaded enclosing (σ.name name) = t.isOverloaded enclosing name := by
  unfold SymbolTable.isOverloaded
  rw [(h.scope enclosing).find?]

/-! ### What changes -/

theorem enter (id : ScopeId) : (t.enter id).Renamed σ (t'.enter id) :=
  { h with active := congrArg (id :: ·) h.active }

theorem leave : t.leave.Renamed σ t'.leave :=
  { h with active := congrArg List.tail h.active }

theorem takeBlock : t.takeBlock.Renamed σ t'.takeBlock :=
  { h with nextBlock := congrArg (· + 1) h.nextBlock }

theorem assignScope (owner : ScopeOwner) (id : ScopeId) :
    (t.assignScope owner id).Renamed σ (t'.assignScope owner id) :=
  { h with saved := congrArg ((owner, id) :: ·) h.saved }

theorem setConstant (id : DeclId) (value : Constant) :
    (t.setConstant id value).Renamed σ (t'.setConstant id value) :=
  { h with constants := congrArg ((id, value) :: ·) h.constants }

theorem withBinding (binding : List DeclId) :
    SymbolTable.Renamed σ { t with binding } { t' with binding } :=
  { h with binding := rfl }

theorem finishBinding (id : DeclId) : (t.finishBinding id).Renamed σ (t'.finishBinding id) := by
  unfold SymbolTable.finishBinding
  rw [h.binding]
  exact h.withBinding _

theorem addScope (parent : ScopeId) : (t.addScope parent).Renamed σ (t'.addScope parent) :=
  { h with
    size := by simp [SymbolTable.addScope, h.size]
    scope := fun id => by
      by_cases next : id = t.nextScope
      · subst next
        have fresh := scope_addScope_nextScope t' parent
        rw [h.nextScope] at fresh
        rw [scope_addScope_nextScope, fresh]
        exact .nameless _
      · have kept {u : SymbolTable} (ne : id ≠ u.nextScope) :
            (u.addScope parent).scope id = u.scope id := by
          have ne : id.index ≠ u.scopes.size := fun same => ne (congrArg ScopeId.mk same)
          simp [SymbolTable.scope, SymbolTable.addScope, Array.getD_eq_getD_getElem?,
            Array.getElem?_push, ne]
        rw [kept next, kept (h.nextScope ▸ next)]
        exact h.scope id }

theorem modifyScope (id : ScopeId) {f g : Scope → Scope}
    (step : (f (t.scope id)).Renamed σ (g (t'.scope id))) :
    (t.modifyScope id f).Renamed σ (t'.modifyScope id g) :=
  { h with
    size := by simp [SymbolTable.modifyScope, h.size]
    scope := fun other => by
      rw [scope_modifyScope, scope_modifyScope, h.size]
      split
      · exact step
      · exact h.scope other }

theorem bindName (id : ScopeId) (name : String) (d : DeclId) :
    (t.bindName id name d).Renamed σ (t'.bindName id (σ.name name) d) :=
  h.modifyScope id ((h.scope id).alter name _)

theorem reparent (id parent : ScopeId) : (t.reparent id parent).Renamed σ (t'.reparent id parent) :=
  h.modifyScope id ((h.scope id).withParent _)

theorem keepOnly (id : ScopeId) (name : String) {keep keep' : Decl → Bool}
    (same : ∀ d, keep' (t'.decl d) = keep (t.decl d)) :
    (t.keepOnly id name keep).Renamed σ (t'.keepOnly id (σ.name name) keep') := by
  unfold SymbolTable.keepOnly
  rw [(h.scope id).find?]
  cases (t.scope id).find? name with
  | none => exact h
  | some set =>
    refine h.modifyScope id ?_
    rw [funext same]
    exact (h.scope id).alter name _

theorem addUnnamed (d : Decl) : (t.addUnnamed d).Renamed σ (t'.addUnnamed (d.renamed σ)) :=
  { h with decls := by simp [SymbolTable.addUnnamed, h.decls] }

theorem declare (d : Decl) : (t.declare d).Renamed σ (t'.declare (d.renamed σ)) := by
  unfold SymbolTable.declare
  rw [h.nextDecl]
  exact (h.addUnnamed d).bindName d.scope d.name _

theorem modifyDecl (id : DeclId) {f f' : Decl → Decl}
    (commutes : ∀ d, (f d).renamed σ = f' (d.renamed σ)) :
    (t.modifyDecl id f).Renamed σ (t'.modifyDecl id f') :=
  { h with
    decls := by
      simp only [SymbolTable.modifyDecl, h.decls]
      refine Array.ext (by simp) fun i lt lt' => ?_
      simp only [Array.getElem_modify, Array.getElem_map]
      split
      · exact (commutes _).symm
      · rfl }

theorem withTypeIn (id : DeclId) (slot : TypeSlot) (type : Ty) :
    (t.modifyDecl id (·.withTypeIn slot type)).Renamed σ
      (t'.modifyDecl id (·.withTypeIn slot (type.renamed σ))) :=
  h.modifyDecl id fun d => d.renamed_withTypeIn slot type

theorem mapCallable (id : DeclId) {f f' : Callable → Callable}
    (commutes : ∀ c, (f c).renamed σ = f' (c.renamed σ)) :
    (t.modifyDecl id (·.mapCallable f)).Renamed σ (t'.modifyDecl id (·.mapCallable f')) :=
  h.modifyDecl id fun d => d.renamed_mapCallable commutes

theorem mapMembers (id : DeclId) {f f' : List Stmt → List Stmt}
    (commutes : ∀ body, Stmt.allRenamed σ (f body) = f' (Stmt.allRenamed σ body)) :
    (t.modifyDecl id (·.mapMembers f)).Renamed σ (t'.modifyDecl id (·.mapMembers f')) :=
  h.modifyDecl id fun d => d.renamed_mapMembers commutes

theorem withMembers (id : DeclId) (body : List Stmt) :
    (t.modifyDecl id (·.mapMembers fun _ => body)).Renamed σ
      (t'.modifyDecl id (·.mapMembers fun _ => Stmt.allRenamed σ body)) :=
  h.mapMembers id fun _ => rfl

theorem withInitializer (id : DeclId) (e : Expr) :
    (t.modifyDecl id (·.withInitializer e)).Renamed σ
      (t'.modifyDecl id (·.withInitializer (e.renamed σ))) :=
  h.modifyDecl id fun d => d.renamed_withInitializer e

theorem withBody (id : DeclId) (body : Body) :
    (Signature.withBody t id body).Renamed σ (Signature.withBody t' id (body.renamed σ)) :=
  h.mapCallable id fun _ => rfl

theorem withoutBody (id : DeclId) :
    (Signature.withoutBody t id).Renamed σ (Signature.withoutBody t' id) :=
  h.mapCallable id fun _ => rfl

theorem rebuildType (id : DeclId) :
    (Signature.rebuildType t id).Renamed σ (Signature.rebuildType t' id) := by
  refine h.mapCallable id fun c => ?_
  have parameter (p : DeclId) :
      (t'.decl p).ownType?.getD .auto = ((t.decl p).ownType?.getD .auto).renamed σ := by
    rw [(h.decl p).ownType?]
    cases (t.decl p).ownType? <;> rfl
  have type : (Signature.signatureType t c).renamed σ =
      Signature.signatureType t' (c.renamed σ) := by
    unfold Signature.signatureType Callable.renamed
    simp [Ty.renamed, Ty.allRenamed_eq_map, Function.comp_def, parameter]
  exact congrArg (fun type => ({ c.renamed σ with type } : Callable)) type

/-- A class takes in the members of the same extensions. -/
theorem absorb (cls extension : DeclId) (inner outer : ScopeId) :
    (t.absorb cls extension inner outer).Renamed σ (t'.absorb cls extension inner outer) := by
  unfold SymbolTable.absorb
  rw [h.members]
  have imported := h.modifyScope outer (f := (·.extendAll (t.scope inner).names))
    (g := (·.extendAll (t'.scope inner).names)) ((h.scope outer).extendAll (h.scope inner))
  refine ((imported.reparent inner outer).withMembers extension []).mapMembers cls fun body => ?_
  simp [Stmt.allRenamed_eq_map]

end SymbolTable.Renamed

end Deferral
