import Deferral.Constant.Basic
import Deferral.Declaration.Basic
import Deferral.SymbolTable.Scope

/-!
# The symbol table

All declarations and scopes of one compilation, the scopes that were saved to be entered again, the
scopes that are active, and the values of the constants that are known. Declarations and scopes are
never removed, so that their numbers stay valid.
-/

namespace Deferral

structure SymbolTable where
  decls : Array Decl
  scopes : Array Scope
  saved : List (ScopeOwner × ScopeId)
  /-- The scopes entered and not left, the innermost first. -/
  active : List ScopeId
  constants : List (DeclId × Constant)
  /-- The constants whose values are being computed. -/
  binding : List DeclId
  nextBlock : Nat

namespace SymbolTable

/-- Nothing is declared and the global scope is active. -/
def empty : SymbolTable :=
  { decls := #[]
    scopes := #[⟨none, []⟩]
    saved := []
    active := [.global]
    constants := []
    binding := []
    nextBlock := 0 }

instance : Inhabited SymbolTable := ⟨empty⟩

/-! ## Scopes -/

def scope (t : SymbolTable) (id : ScopeId) : Scope := t.scopes.getD id.index default

/-- The number that the next scope gets. -/
def nextScope (t : SymbolTable) : ScopeId := ⟨t.scopes.size⟩

/-- Adds a scope without names inside `parent`; its number is `nextScope`. -/
def addScope (t : SymbolTable) (parent : ScopeId) : SymbolTable :=
  { t with scopes := t.scopes.push (.child parent) }

def modifyScope (t : SymbolTable) (id : ScopeId) (f : Scope → Scope) : SymbolTable :=
  { t with scopes := t.scopes.modify id.index f }

def reparent (t : SymbolTable) (id parent : ScopeId) : SymbolTable :=
  t.modifyScope id fun s => { s with parent := some parent }

def innermost (t : SymbolTable) : ScopeId := t.active.head?.getD .global

def enter (t : SymbolTable) (id : ScopeId) : SymbolTable := { t with active := id :: t.active }

def leave (t : SymbolTable) : SymbolTable := { t with active := t.active.tail }

/-- How many scopes are active. -/
def depth (t : SymbolTable) : Nat := t.active.length

@[simp] theorem innermost_enter (t : SymbolTable) (id : ScopeId) : (t.enter id).innermost = id :=
  rfl

@[simp] theorem leave_enter (t : SymbolTable) (id : ScopeId) : (t.enter id).leave = t := rfl

@[simp] theorem depth_enter (t : SymbolTable) (id : ScopeId) : (t.enter id).depth = t.depth + 1 :=
  rfl

theorem scope_addScope_nextScope (t : SymbolTable) (parent : ScopeId) :
    (t.addScope parent).scope t.nextScope = .child parent := by
  simp [scope, addScope, nextScope, Array.getD_eq_getD_getElem?]

theorem scope_addScope_of_lt {t : SymbolTable} {id : ScopeId} (h : id.index < t.scopes.size)
    (parent : ScopeId) : (t.addScope parent).scope id = t.scope id := by
  simp [scope, addScope, Array.getD_eq_getD_getElem?, Array.getElem?_push, Nat.ne_of_lt h]

theorem scope_modifyScope_self {t : SymbolTable} {id : ScopeId} (h : id.index < t.scopes.size)
    (f : Scope → Scope) : (t.modifyScope id f).scope id = f (t.scope id) := by
  simp [scope, modifyScope, Array.getD_eq_getD_getElem?, Array.getElem_modify, h]

theorem scope_modifyScope_of_ne {id other : ScopeId} (h : other ≠ id) (t : SymbolTable)
    (f : Scope → Scope) : (t.modifyScope id f).scope other = t.scope other := by
  have ne : id.index ≠ other.index := fun same => h (congrArg ScopeId.mk same.symm)
  simp [scope, modifyScope, Array.getD_eq_getD_getElem?, Array.getElem?_modify, ne]

def assignScope (t : SymbolTable) (owner : ScopeOwner) (id : ScopeId) : SymbolTable :=
  { t with saved := (owner, id) :: t.saved }

def scopeOf? (t : SymbolTable) (owner : ScopeOwner) : Option ScopeId := t.saved.lookup owner

@[simp] theorem scopeOf?_assignScope_self (t : SymbolTable) (owner : ScopeOwner) (id : ScopeId) :
    (t.assignScope owner id).scopeOf? owner = some id := by
  simp [scopeOf?, assignScope]

theorem scopeOf?_assignScope_of_ne {owner other : ScopeOwner} (h : other ≠ owner)
    (t : SymbolTable) (id : ScopeId) :
    (t.assignScope owner id).scopeOf? other = t.scopeOf? other := by
  simp [scopeOf?, assignScope, List.lookup_cons, beq_eq_false_iff_ne.mpr h]

/-! ## Names -/

/-- The overload set of a name in the nearest of a scope and at most `steps - 1` scopes around it
that has one. -/
def findWithin (t : SymbolTable) (name : String) : (steps : Nat) → ScopeId → Option Overloads
  | 0, _ => none
  | steps + 1, id =>
    match (t.scope id).find? name with
    | some set => some set
    | none => (t.scope id).parent.bind (t.findWithin name steps)

/-- The overload set of a name in the nearest enclosing scope that has one. No chain of enclosing
scopes is longer than there are scopes. -/
def findFrom (t : SymbolTable) (id : ScopeId) (name : String) : Option Overloads :=
  t.findWithin name t.scopes.size id

/-- The overload set of a name as seen from the innermost scope. -/
def find (t : SymbolTable) (name : String) : Option Overloads :=
  t.findFrom t.innermost name

/-! ## Declarations -/

def decl (t : SymbolTable) (id : DeclId) : Decl := t.decls.getD id.index default

/-- The members of a class or an extension. -/
def members (t : SymbolTable) (id : DeclId) : List Stmt := (t.decl id).members?.getD []

/-- The number that the next declaration gets. -/
def nextDecl (t : SymbolTable) : DeclId := ⟨t.decls.size⟩

/-- Adds a declaration that no name leads to; its number is `nextDecl`. -/
def addUnnamed (t : SymbolTable) (d : Decl) : SymbolTable := { t with decls := t.decls.push d }

/-- Binds a name to a declaration in a scope, behind those it has there. -/
def bindName (t : SymbolTable) (id : ScopeId) (name : String) (d : DeclId) : SymbolTable :=
  t.modifyScope id (·.extend name [d])

/-- Adds a declaration and binds its name in its scope; its number is `nextDecl`. -/
def declare (t : SymbolTable) (d : Decl) : SymbolTable :=
  (t.addUnnamed d).bindName d.scope d.name t.nextDecl

def modifyDecl (t : SymbolTable) (id : DeclId) (f : Decl → Decl) : SymbolTable :=
  { t with decls := t.decls.modify id.index f }

theorem decl_addUnnamed_nextDecl (t : SymbolTable) (d : Decl) :
    (t.addUnnamed d).decl t.nextDecl = d := by
  simp [decl, addUnnamed, nextDecl, Array.getD_eq_getD_getElem?]

theorem decl_addUnnamed_of_lt {t : SymbolTable} {id : DeclId} (h : id.index < t.decls.size)
    (d : Decl) : (t.addUnnamed d).decl id = t.decl id := by
  simp [decl, addUnnamed, Array.getD_eq_getD_getElem?, Array.getElem?_push, Nat.ne_of_lt h]

theorem decl_modifyDecl_self {t : SymbolTable} {id : DeclId} (h : id.index < t.decls.size)
    (f : Decl → Decl) : (t.modifyDecl id f).decl id = f (t.decl id) := by
  simp [decl, modifyDecl, Array.getD_eq_getD_getElem?, Array.getElem_modify, h]

theorem decl_modifyDecl_of_ne {id other : DeclId} (h : other ≠ id) (t : SymbolTable)
    (f : Decl → Decl) : (t.modifyDecl id f).decl other = t.decl other := by
  have ne : id.index ≠ other.index := fun same => h (congrArg DeclId.mk same.symm)
  simp [decl, modifyDecl, Array.getD_eq_getD_getElem?, Array.getElem?_modify, ne]

/-- Keeps only those declarations of a name in a scope that satisfy `keep`. -/
def keepOnly (t : SymbolTable) (id : ScopeId) (name : String) (keep : Decl → Bool) : SymbolTable :=
  match (t.scope id).find? name with
  | none => t
  | some _ =>
    t.modifyScope id fun s =>
      { s with names := Names.alter name (List.filter fun d => keep (t.decl d)) s.names }

/-! ## Constants and blocks -/

def constant? (t : SymbolTable) (id : DeclId) : Option Constant := t.constants.lookup id

def setConstant (t : SymbolTable) (id : DeclId) (value : Constant) : SymbolTable :=
  { t with constants := (id, value) :: t.constants }

@[simp] theorem constant?_setConstant_self (t : SymbolTable) (id : DeclId) (value : Constant) :
    (t.setConstant id value).constant? id = some value := by
  simp [constant?, setConstant]

theorem constant?_setConstant_of_ne {id other : DeclId} (h : other ≠ id) (t : SymbolTable)
    (value : Constant) : (t.setConstant id value).constant? other = t.constant? other := by
  simp [constant?, setConstant, List.lookup_cons, beq_eq_false_iff_ne.mpr h]

/-- Marks a constant as being computed, unless it is already. -/
def startBinding? (t : SymbolTable) (id : DeclId) : Option SymbolTable :=
  if t.binding.contains id then none else some { t with binding := id :: t.binding }

def finishBinding (t : SymbolTable) (id : DeclId) : SymbolTable :=
  { t with binding := t.binding.filter (· ≠ id) }

/-- Uses up a block number. -/
def takeBlock (t : SymbolTable) : SymbolTable := { t with nextBlock := t.nextBlock + 1 }

end SymbolTable

end Deferral
