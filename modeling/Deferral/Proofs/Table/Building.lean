import Mathlib.Logic.Function.Basic
import Deferral.Proofs.FirstPass.Visited
import Deferral.Proofs.Scope.Visible

/-!
# Building the symbol table

Reading only adds to the symbol table: declarations under the innermost scope, and saved scopes inside
it. A declaration lies where its scope says, and no two owners share a scope.
-/

namespace Deferral

namespace SymbolTable

variable {t t' t'' : SymbolTable} {rank rank' rank'' : ScopeId → Nat}

/-- Declarations and scopes are added, and those that are there stay as they are. -/
structure Grows (rank : ScopeId → Nat) (t : SymbolTable) (rank' : ScopeId → Nat)
    (t' : SymbolTable) : Prop where
  size : t.decls.size ≤ t'.decls.size
  scopes : t.scopes.size ≤ t'.scopes.size
  decls : ∀ id, id.index < t.decls.size → t'.decl id = t.decl id
  rank : ∀ s, s.index < t.scopes.size → rank' s = rank s
  parent : ∀ s, s.index < t.scopes.size → (t'.scope s).parent = (t.scope s).parent
  saved : ∀ owner s, t.scopeOf? owner = some s → t'.scopeOf? owner = some s
  fresh : ∀ owner s, t'.scopeOf? owner = some s → t.scopeOf? owner = some s ∨ t.scopes.size ≤ s.index
  active : t'.active = t.active

namespace Grows

theorem refl (rank : ScopeId → Nat) (t : SymbolTable) : Grows rank t rank t :=
  ⟨Nat.le_refl _, Nat.le_refl _, fun _ _ => rfl, fun _ _ => rfl, fun _ _ => rfl,
    fun _ _ known => known, fun _ _ known => .inl known, rfl⟩

theorem trans (h : Grows rank t rank' t') (h' : Grows rank' t' rank'' t'') :
    Grows rank t rank'' t'' where
  size := Nat.le_trans h.size h'.size
  scopes := Nat.le_trans h.scopes h'.scopes
  decls id lt := (h'.decls id (Nat.lt_of_lt_of_le lt h.size)).trans (h.decls id lt)
  rank s lt := (h'.rank s (Nat.lt_of_lt_of_le lt h.scopes)).trans (h.rank s lt)
  parent s lt := (h'.parent s (Nat.lt_of_lt_of_le lt h.scopes)).trans (h.parent s lt)
  saved owner s known := h'.saved owner s (h.saved owner s known)
  fresh owner s known := by
    rcases h'.fresh owner s known with known | outside
    · exact h.fresh owner s known
    · exact .inr (Nat.le_trans h.scopes outside)
  active := h'.active.trans h.active

theorem innermost (h : Grows rank t rank' t') : t'.innermost = t.innermost := by
  simp only [SymbolTable.innermost, h.active]

/-- What is read under a scope is added once the scope is left. -/
theorem leave {scope : ScopeId} (h : Grows rank (t.enter scope) rank' t') :
    Grows rank t rank' t'.leave :=
  ⟨h.size, h.scopes, h.decls, h.rank, h.parent, h.saved, h.fresh, congrArg List.tail h.active⟩

end Grows

/-- An owner has been declared, or taken its number. -/
def Owned (t : SymbolTable) : ScopeOwner → Prop
  | .decl id | .body id => id.index < t.decls.size
  | .block b => b < t.nextBlock

/-- What lies where in a table that has only been read into, and that nothing else in it has been
read. Statements stand in no function's own scope, so that no constant does. -/
structure Laid (t : SymbolTable) : Prop where
  titled : ∀ {s name d}, t.Binds s name d → (t.decl d).name = name
  parents : ∀ {s p}, t.IsInside s p → p.index < t.scopes.size
  within : ∀ {id s}, t.scopeOf? (.decl id) = some s → t.IsInside s (t.decl id).scope
  encloses : ∀ h, ∀ w ∈ (t.decl h).declares, ∃ a, t.scopeOf? (.decl h) = some a ∧
    t.Encloses a (t.decl w).scope
  constants : ∀ {f s d}, (t.decl f).callable?.isSome = true → t.scopeOf? (.decl f) = some s →
    (t.decl d).isConstant = true → (t.decl d).scope ≠ s
  unread : ∀ id, ∀ e ∈ (t.decl id).expressions, e.excerpt?.isSome = true

/-- The innermost scope is no function's own scope. -/
def Stating (t : SymbolTable) : Prop :=
  ∀ f s, (t.decl f).callable?.isSome = true → t.scopeOf? (.decl f) = some s → t.innermost ≠ s

/-- What holds of a table that has only been read into: `rank` tells how deep a scope lies. -/
structure Built (rank : ScopeId → Nat) (t : SymbolTable) : Prop where
  sound : t.Sound
  ordered : t.Ordered
  named : ∀ d, d.index < t.decls.size → t.Binds (t.decl d).scope (t.decl d).name d
  bound : ∀ {s name d}, t.Binds s name d → d.index < t.decls.size ∧ (t.decl d).scope = s
  active : ∀ s ∈ t.active, s.index < t.scopes.size
  global : ScopeId.global.index < t.scopes.size
  scopes : ∀ d, d.index < t.decls.size → (t.decl d).scope.index < t.scopes.size
  owned : ∀ {owner s}, t.scopeOf? owner = some s →
    t.Owned owner ∧ s.index < t.scopes.size ∧ s ≠ .global
  distinct : ∀ {owner owner' s}, t.scopeOf? owner = some s → t.scopeOf? owner' = some s →
    owner = owner'
  opened : ∀ {id s}, t.scopeOf? (.decl id) = some s → rank s = rank (t.decl id).scope + 1
  inside : ∀ h, ∀ w ∈ (t.decl h).declares, t.Houses rank h w
  laid : t.Laid

theorem Built.innermost (h : t.Built rank) : t.innermost.index < t.scopes.size := by
  unfold SymbolTable.innermost
  cases active : t.active with
  | nil => exact h.global
  | cons s rest => exact h.active s (by simp [active])

theorem Built.placed (h : t.Built rank) : t.Placed rank where
  ordered := h.ordered
  named c primary := h.named c (lt_size_of_isPrimaryClass primary)
  level b := congrArg rank (h.bound b).2
  opened := h.opened
  inside := h.inside
  present b := (h.bound b).1
  owned known := (h.owned known).1

theorem lt_size_of_callable {f : DeclId} (h : (t.decl f).callable?.isSome = true) :
    f.index < t.decls.size := by
  refine lt_size_of_kind fun absent => ?_
  simp [Decl.callable?, absent] at h

theorem lt_size_of_isConstant {d : DeclId} (h : (t.decl d).isConstant = true) :
    d.index < t.decls.size := by
  refine lt_size_of_kind fun absent => ?_
  simp [Decl.isConstant, absent] at h

/-- Statements go on standing where they stand while the table grows. -/
theorem Stating.of_grows (h : t.Stating) (built : t.Built rank) (grows : Grows rank t rank' t') :
    t'.Stating := by
  intro f s callable owns same
  rw [grows.innermost] at same
  rcases grows.fresh _ _ owns with owns | outside
  · rw [grows.decls f (built.owned owns).1] at callable
    exact h f s callable owns same
  · have lt := built.innermost
    rw [same] at lt
    omega

/-- What a scope encloses it encloses in a table that has grown. -/
theorem Encloses.of_grows {a s : ScopeId} (h : t.Encloses a s) (built : t.Built rank)
    (grows : Grows rank t rank' t') : t'.Encloses a s := by
  refine Relation.ReflTransGen.mono (fun s p block => ?_) _ _ h
  obtain ⟨inside, b, owns⟩ := block
  refine ⟨?_, b, grows.saved _ _ owns⟩
  unfold IsInside
  rw [grows.parent s (built.owned owns).2.1]
  exact inside

theorem Laid.of_same (h : t.Laid) (decls : t'.decls = t.decls) (scopes : t'.scopes = t.scopes)
    (saved : t'.saved = t.saved) : t'.Laid := by
  have decl : ∀ id, t'.decl id = t.decl id := fun id => by simp [SymbolTable.decl, decls]
  have scope := scope_congr scopes
  have inside : ∀ s p, t'.IsInside s p ↔ t.IsInside s p := fun s p => by
    unfold IsInside
    rw [scope]
  have owner : ∀ o, t'.scopeOf? o = t.scopeOf? o := fun o => by simp [scopeOf?, saved]
  exact
    { titled := fun {s name d} b => by
        unfold Binds at b
        rw [scope] at b
        rw [decl]
        exact h.titled b
      parents := fun {s p} parent => by
        rw [scopes]
        exact h.parents ((inside s p).mp parent)
      within := fun {id s} owns => by
        rw [owner] at owns
        rw [decl, inside]
        exact h.within owns
      encloses := fun holder w member => by
        rw [decl] at member
        obtain ⟨a, owns, encloses⟩ := h.encloses holder w member
        refine ⟨a, by rw [owner]; exact owns, ?_⟩
        rw [decl]
        exact Relation.ReflTransGen.mono (fun s p block =>
          ⟨(inside s p).mpr block.1, block.2.imp fun b owns => by rw [owner]; exact owns⟩) _ _ encloses
      constants := fun {f s d} callable owns constant => by
        rw [decl] at callable constant ⊢
        rw [owner] at owns
        exact h.constants callable owns constant
      unread := fun id e member => h.unread id e (decl id ▸ member) }

/-- What lies inside a declaration lies there in a table that has grown. -/
theorem Houses.of_grows {h w : DeclId} (houses : t.Houses rank h w) (lt : h.index < t.decls.size)
    (built : t.Built rank) (grows : Grows rank t rank' t') : t'.Houses rank' h w := by
  have scope := built.scopes w houses.lt
  refine ⟨Nat.lt_of_lt_of_le houses.lt grows.size, ?_, fun c primary owns => ?_⟩
  · rw [grows.decls h lt, grows.decls w houses.lt, grows.rank _ (built.scopes h lt),
      grows.rank _ scope]
    exact houses.deeper
  · rw [grows.decls w houses.lt] at owns
    rcases grows.fresh _ _ owns with owns | outside
    · have present := (built.owned owns).1
      rw [grows.decls c present] at primary
      exact houses.house c primary owns
    · omega

/-! ## Declaring -/

theorem binds_bindName {scope : ScopeId} (lt : scope.index < t.scopes.size) {name other : String}
    {p d : DeclId} {s : ScopeId} :
    (t.bindName scope name p).Binds s other d ↔
      t.Binds s other d ∨ s = scope ∧ other = name ∧ d = p := by
  unfold bindName Binds
  rw [scope_modifyScope]
  split
  · rename_i same
    obtain ⟨rfl, -⟩ := same
    unfold Scope.Binds Scope.extend
    rw [Names.binds_extend]
    simp
  · rename_i ne
    constructor
    · exact .inl
    · rintro (old | ⟨rfl, -, -⟩)
      · exact old
      · exact absurd ⟨rfl, lt⟩ ne

theorem decl_declare_nextDecl (t : SymbolTable) (d : Decl) :
    (t.declare d).decl t.nextDecl = d :=
  decl_addUnnamed_nextDecl t d

theorem decl_declare_of_lt {id : DeclId} (lt : id.index < t.decls.size) (d : Decl) :
    (t.declare d).decl id = t.decl id :=
  decl_addUnnamed_of_lt lt d

theorem size_declare (t : SymbolTable) (d : Decl) :
    (t.declare d).decls.size = t.decls.size + 1 := by
  simp [declare, bindName, modifyScope, addUnnamed]

theorem size_scopes_declare (t : SymbolTable) (d : Decl) :
    (t.declare d).scopes.size = t.scopes.size := by
  simp [declare, bindName, modifyScope, addUnnamed]

theorem parent_declare (t : SymbolTable) (d : Decl) (s : ScopeId) :
    ((t.declare d).scope s).parent = (t.scope s).parent := by
  unfold SymbolTable.declare SymbolTable.bindName
  rw [scope_modifyScope]
  split
  · rename_i same
    rw [same.1]
    rfl
  · rfl

theorem declares_of_isUnread {d : Decl} (h : d.kind.IsUnread) : d.declares = [] := by
  unfold Decl.declares
  cases kind : d.kind with
  | callable sort c =>
    rw [kind] at h
    obtain rfl : c = .announced := h
    rfl
  | classDecl sort kind' body =>
    rw [kind] at h
    obtain ⟨-, rfl⟩ := h
    rfl
  | _ => rfl

theorem grows_declare (rank : ScopeId → Nat) (t : SymbolTable) (d : Decl) :
    Grows rank t rank (t.declare d) :=
  ⟨by rw [size_declare]; omega, (size_scopes_declare t d).ge, fun _ lt => decl_declare_of_lt lt d,
    fun _ _ => rfl, fun s _ => parent_declare t d s, fun _ _ known => known,
    fun _ _ known => .inl known, rfl⟩

theorem lt_size_declare {t : SymbolTable} {d : Decl} {id : DeclId}
    (lt : id.index < (t.declare d).decls.size) : id.index < t.decls.size ∨ id = t.nextDecl := by
  rw [size_declare] at lt
  by_cases old : id.index < t.decls.size
  · exact .inl old
  · exact .inr (congrArg DeclId.mk (show id.index = t.decls.size by omega))

theorem binds_declare {d : Decl} (inRange : d.scope.index < t.scopes.size) {s : ScopeId}
    {name : String} {id : DeclId} : (t.declare d).Binds s name id ↔
      t.Binds s name id ∨ s = d.scope ∧ name = d.name ∧ id = t.nextDecl :=
  binds_bindName (t := t.addUnnamed d) inRange

theorem unread_of_isUnread {d : Decl} (h : d.kind.IsUnread) :
    ∀ e ∈ d.expressions, e.excerpt?.isSome = true := by
  intro e member
  unfold Decl.expressions at member
  split at member
  · rename_i kind
    rw [kind] at h
    exact h.2.1 e (Option.mem_toList.mp member)
  · rename_i kind
    rw [kind] at h
    obtain rfl : _ = Callable.announced := h
    cases member
  · rename_i kind
    rw [kind] at h
    obtain ⟨-, rfl⟩ := h
    cases member
  all_goals cases member

/-- A constant is declared in the scope that statements stand in. -/
theorem Built.laid_declare (h : t.Built rank) {d : Decl} (unread : d.kind.IsUnread)
    (scope : d.scope = t.innermost) (stating : d.isConstant = true → t.Stating) :
    (t.declare d).Laid := by
  have inRange : d.scope.index < t.scopes.size := scope ▸ h.innermost
  have inside : ∀ s p, (t.declare d).IsInside s p ↔ t.IsInside s p := fun s p => by
    unfold IsInside
    rw [parent_declare]
  exact
    { titled := fun b => by
        rcases (binds_declare inRange).mp b with b | ⟨-, rfl, rfl⟩
        · rw [decl_declare_of_lt (h.bound b).1]
          exact h.laid.titled b
        · rw [decl_declare_nextDecl]
      parents := fun {s p} parent => by
        rw [size_scopes_declare]
        exact h.laid.parents ((inside s p).mp parent)
      within := fun {id s} owns => by
        rw [inside, decl_declare_of_lt (h.owned owns).1]
        exact h.laid.within owns
      encloses := fun holder w member => by
        rcases lt_size_declare (lt_size_of_mem_declares member) with lt | rfl
        · rw [decl_declare_of_lt lt] at member
          rw [decl_declare_of_lt (h.inside holder w member).lt]
          obtain ⟨a, owns, encloses⟩ := h.laid.encloses holder w member
          exact ⟨a, owns, encloses.of_grows h (grows_declare rank t d)⟩
        · rw [decl_declare_nextDecl, declares_of_isUnread unread] at member
          cases member
      constants := fun {f s c} callable owns constant => by
        have present := (h.owned owns).1
        rw [decl_declare_of_lt present] at callable
        rcases lt_size_declare (lt_size_of_isConstant constant) with lt | rfl
        · rw [decl_declare_of_lt lt] at constant ⊢
          exact h.laid.constants callable owns constant
        · rw [decl_declare_nextDecl] at constant ⊢
          rw [scope]
          exact stating constant f s callable owns
      unread := fun id e member => by
        by_cases lt : id.index < t.decls.size
        · rw [decl_declare_of_lt lt] at member
          exact h.laid.unread id e member
        by_cases next : id = t.nextDecl
        · subst next
          rw [decl_declare_nextDecl] at member
          exact unread_of_isUnread unread e member
        · have outside : (t.declare d).decls.size ≤ id.index := by
            by_contra inside
            rcases lt_size_declare (Nat.lt_of_not_le inside) with lt' | same
            · exact lt lt'
            · exact next same
          rw [decl_eq_default outside] at member
          cases member }

theorem Built.declare (h : t.Built rank) {d : Decl} (unread : d.kind.IsUnread)
    (scope : d.scope = t.innermost) (stating : d.isConstant = true → t.Stating) :
    (t.declare d).Built rank := by
  have inRange : d.scope.index < t.scopes.size := scope ▸ h.innermost
  have cases_of : ∀ {id : DeclId}, id.index < (t.declare d).decls.size →
      id.index < t.decls.size ∨ id = t.nextDecl := lt_size_declare
  have binds : ∀ {s name id}, (t.declare d).Binds s name id ↔
      t.Binds s name id ∨ s = d.scope ∧ name = d.name ∧ id = t.nextDecl := binds_declare inRange
  exact
    { sound := (Edit.declare unread scope).sound h.sound
      ordered := Ordered.modifyScope (t := t.addUnnamed d) h.ordered
        (Names.increasing_alter (h.ordered _) _ _)
      named := fun id lt => by
        rcases cases_of lt with lt | rfl
        · rw [decl_declare_of_lt lt]
          exact binds.mpr (.inl (h.named id lt))
        · rw [decl_declare_nextDecl]
          exact binds.mpr (.inr ⟨rfl, rfl, rfl⟩)
      bound := fun b => by
        rcases binds.mp b with b | ⟨rfl, rfl, rfl⟩
        · obtain ⟨lt, same⟩ := h.bound b
          exact ⟨by rw [size_declare]; omega, by rw [decl_declare_of_lt lt]; exact same⟩
        · exact ⟨by rw [size_declare]; exact Nat.lt_succ_self _, by rw [decl_declare_nextDecl]⟩
      active := fun s member => by rw [size_scopes_declare]; exact h.active s member
      global := by rw [size_scopes_declare]; exact h.global
      scopes := fun id lt => by
        rw [size_scopes_declare]
        rcases cases_of lt with lt | rfl
        · rw [decl_declare_of_lt lt]
          exact h.scopes id lt
        · rw [decl_declare_nextDecl]
          exact inRange
      owned := fun {owner s} known => by
        obtain ⟨owned, lt, ne⟩ := h.owned known
        refine ⟨?_, by rw [size_scopes_declare]; exact lt, ne⟩
        have le : t.decls.size ≤ (t.declare d).decls.size := by rw [size_declare]; omega
        cases owner with
        | decl id => exact Nat.lt_of_lt_of_le owned le
        | body id => exact Nat.lt_of_lt_of_le owned le
        | block b => exact owned
      distinct := h.distinct
      opened := fun {id s} known => by
        rw [decl_declare_of_lt (h.owned known).1]
        exact h.opened known
      inside := fun holder w member => by
        have lt := lt_size_of_mem_declares member
        rcases cases_of lt with lt | rfl
        · rw [decl_declare_of_lt lt] at member
          exact (h.inside holder w member).of_grows lt h (grows_declare rank t d)
        · rw [decl_declare_nextDecl, declares_of_isUnread unread] at member
          cases member
      laid := h.laid_declare unread scope stating }

/-! ## Scopes and blocks -/

theorem Built.enter (h : t.Built rank) {scope : ScopeId} (lt : scope.index < t.scopes.size) :
    (t.enter scope).Built rank where
  sound := h.sound.enter scope
  ordered := h.ordered
  named := h.named
  bound := h.bound
  active := by
    rintro s member
    rcases List.mem_cons.mp member with rfl | member
    · exact lt
    · exact h.active s member
  global := h.global
  scopes := h.scopes
  owned := h.owned
  distinct := h.distinct
  opened := h.opened
  inside holder w member :=
    let houses := h.inside holder w member
    ⟨houses.lt, houses.deeper, houses.house⟩
  laid := h.laid.of_same rfl rfl rfl

theorem Built.leave (h : t.Built rank) : t.leave.Built rank where
  sound := Edit.leave.sound h.sound
  ordered := h.ordered
  named := h.named
  bound := h.bound
  active s member := h.active s (List.mem_of_mem_tail member)
  global := h.global
  scopes := h.scopes
  owned := h.owned
  distinct := h.distinct
  opened := h.opened
  inside holder w member :=
    let houses := h.inside holder w member
    ⟨houses.lt, houses.deeper, houses.house⟩
  laid := h.laid.of_same rfl rfl rfl

theorem Built.takeBlock (h : t.Built rank) : t.takeBlock.Built rank where
  sound := Edit.takeBlock.sound h.sound
  ordered := h.ordered
  named := h.named
  bound := h.bound
  active := h.active
  global := h.global
  scopes := h.scopes
  owned {owner s} known := by
    obtain ⟨owned, lt, ne⟩ := h.owned known
    refine ⟨?_, lt, ne⟩
    cases owner with
    | decl id => exact owned
    | body id => exact owned
    | block b => exact Nat.lt_succ_of_lt owned
  distinct := h.distinct
  opened := h.opened
  inside holder w member :=
    let houses := h.inside holder w member
    ⟨houses.lt, houses.deeper, houses.house⟩
  laid := h.laid.of_same rfl rfl rfl

theorem grows_takeBlock (rank : ScopeId → Nat) (t : SymbolTable) : Grows rank t rank t.takeBlock :=
  ⟨Nat.le_refl _, Nat.le_refl _, fun _ _ => rfl, fun _ _ => rfl, fun _ _ => rfl,
    fun _ _ known => known, fun _ _ known => .inl known, rfl⟩

/-- A new scope inside the innermost one, saved for an owner. -/
def openFor (t : SymbolTable) (owner : ScopeOwner) : SymbolTable :=
  (t.addScope t.innermost).assignScope owner t.nextScope

/-- The ranks once a scope has been made inside the innermost one. -/
def rankOpen (rank : ScopeId → Nat) (t : SymbolTable) : ScopeId → Nat :=
  Function.update rank t.nextScope (rank t.innermost + 1)

theorem rankOpen_of_lt (rank : ScopeId → Nat) {s : ScopeId} (lt : s.index < t.scopes.size) :
    rankOpen rank t s = rank s := by
  refine Function.update_of_ne (fun same => ?_) _ _
  rw [same] at lt
  exact Nat.lt_irrefl _ lt

theorem rankOpen_nextScope (rank : ScopeId → Nat) (t : SymbolTable) :
    rankOpen rank t t.nextScope = rank t.innermost + 1 :=
  Function.update_self ..

theorem size_scopes_openFor (t : SymbolTable) (owner : ScopeOwner) :
    (t.openFor owner).scopes.size = t.scopes.size + 1 := by
  simp [openFor, assignScope, addScope]

theorem scopeOf?_openFor_cases {owner other : ScopeOwner} {s : ScopeId}
    (known : (t.openFor owner).scopeOf? other = some s) :
    (other = owner ∧ s = t.nextScope) ∨ other ≠ owner ∧ t.scopeOf? other = some s := by
  by_cases same : other = owner
  · subst same
    rw [openFor, scopeOf?_assignScope_self] at known
    exact .inl ⟨rfl, (Option.some.inj known).symm⟩
  · rw [openFor, scopeOf?_assignScope_of_ne same] at known
    exact .inr ⟨same, known⟩

theorem grows_openFor (rank : ScopeId → Nat) {owner : ScopeOwner} (free : t.scopeOf? owner = none) :
    Grows rank t (rankOpen rank t) (t.openFor owner) where
  size := Nat.le_refl _
  scopes := by rw [size_scopes_openFor]; omega
  decls _ _ := rfl
  rank s lt := rankOpen_of_lt rank lt
  parent s lt := congrArg Scope.parent (scope_addScope_of_lt lt t.innermost)
  saved other s known := by
    have ne : other ≠ owner := by
      rintro rfl
      rw [free] at known
      cases known
    rw [openFor, scopeOf?_assignScope_of_ne ne]
    exact known
  fresh other s known := by
    rcases scopeOf?_openFor_cases known with ⟨-, rfl⟩ | ⟨-, known⟩
    · exact .inr (Nat.le_refl _)
    · exact .inl known
  active := rfl

theorem isInside_openFor (t : SymbolTable) (owner : ScopeOwner) :
    (t.openFor owner).IsInside t.nextScope t.innermost :=
  congrArg Scope.parent (scope_addScope_nextScope t t.innermost)

theorem Built.laid_openFor (h : t.Built rank) {owner : ScopeOwner} (free : t.scopeOf? owner = none)
    (here : ∀ id, owner = .decl id → (t.decl id).scope = t.innermost) :
    (t.openFor owner).Laid := by
  have grows := grows_openFor rank free
  have names : ∀ s, ((t.openFor owner).scope s).names = (t.scope s).names :=
    fun s => names_addScope t t.innermost s
  exact
    { titled := fun {s name d} b => by
        unfold SymbolTable.Binds Scope.Binds at b
        rw [names] at b
        exact h.laid.titled b
      parents := fun {s p} parent => by
        by_cases lt : s.index < t.scopes.size
        · unfold IsInside at parent
          rw [grows.parent s lt] at parent
          exact Nat.lt_of_lt_of_le (h.laid.parents parent) grows.scopes
        by_cases next : s = t.nextScope
        · subst next
          obtain rfl := Option.some.inj ((isInside_openFor t owner).symm.trans parent)
          exact Nat.lt_of_lt_of_le h.innermost grows.scopes
        · have ne : s.index ≠ t.scopes.size := fun same => next (congrArg ScopeId.mk same)
          have absent : (t.openFor owner).scope s = default := by
            simp [SymbolTable.scope, SymbolTable.openFor, assignScope, addScope,
              Array.getD_eq_getD_getElem?, Array.getElem?_push, ne, lt]
          unfold IsInside at parent
          rw [absent] at parent
          cases parent
      within := fun {id s} owns => by
        rcases scopeOf?_openFor_cases owns with ⟨same, rfl⟩ | ⟨-, owns⟩
        · have lies : ((t.openFor owner).decl id).scope = t.innermost := here id same.symm
          rw [lies]
          exact isInside_openFor t owner
        · unfold IsInside
          rw [grows.parent s (h.owned owns).2.1]
          exact h.laid.within owns
      encloses := fun holder w member => by
        obtain ⟨a, owns, encloses⟩ := h.laid.encloses holder w member
        exact ⟨a, grows.saved _ _ owns, encloses.of_grows h grows⟩
      constants := fun {f s d} callable owns constant => by
        rcases scopeOf?_openFor_cases owns with ⟨-, rfl⟩ | ⟨-, owns⟩
        · intro same
          have lt := h.scopes d (lt_size_of_isConstant constant)
          rw [show (t.decl d).scope = t.nextScope from same] at lt
          exact Nat.lt_irrefl _ lt
        · exact h.laid.constants callable owns constant
      unread := h.laid.unread }

/-- A scope is opened for an owner that lies in the innermost scope. -/
theorem Built.openFor (h : t.Built rank) (owner : ScopeOwner) (owned : t.Owned owner)
    (free : t.scopeOf? owner = none)
    (here : ∀ id, owner = .decl id → (t.decl id).scope = t.innermost) :
    (t.openFor owner).Built (rankOpen rank t) := by
  have grows := grows_openFor rank free
  have names : ∀ s, ((t.openFor owner).scope s).names = (t.scope s).names :=
    fun s => names_addScope t t.innermost s
  have binds : ∀ {s name d}, (t.openFor owner).Binds s name d ↔ t.Binds s name d := by
    intro s name d
    unfold SymbolTable.Binds Scope.Binds
    rw [names]
  have next : t.nextScope.index = t.scopes.size := rfl
  exact
    { sound := (Edit.saveScope owner).sound h.sound
      ordered := fun s => by rw [names]; exact h.ordered s
      named := fun d lt => binds.mpr (h.named d lt)
      bound := fun b => h.bound (binds.mp b)
      active := fun s member => Nat.lt_of_lt_of_le (h.active s member) grows.scopes
      global := Nat.lt_of_lt_of_le h.global grows.scopes
      scopes := fun d lt => Nat.lt_of_lt_of_le (h.scopes d lt) grows.scopes
      owned := fun {other s} known => by
        rcases scopeOf?_openFor_cases known with ⟨rfl, rfl⟩ | ⟨-, known⟩
        · refine ⟨owned, by rw [size_scopes_openFor, next]; omega, fun same => ?_⟩
          have global := h.global
          rw [← same, next] at global
          exact Nat.lt_irrefl _ global
        · obtain ⟨owned, lt, ne⟩ := h.owned known
          exact ⟨owned, Nat.lt_of_lt_of_le lt grows.scopes, ne⟩
      distinct := fun {a b s} known known' => by
        have old : ∀ {other}, t.scopeOf? other = some s → s ≠ t.nextScope := by
          rintro other known rfl
          exact Nat.lt_irrefl _ (h.owned known).2.1
        rcases scopeOf?_openFor_cases known with ⟨first, new⟩ | ⟨-, known₁⟩ <;>
          rcases scopeOf?_openFor_cases known' with ⟨second, new'⟩ | ⟨-, known₂⟩
        · exact first.trans second.symm
        · exact absurd new (old known₂)
        · exact absurd new' (old known₁)
        · exact h.distinct known₁ known₂
      opened := fun {id s} known => by
        change rankOpen rank t s = rankOpen rank t (t.decl id).scope + 1
        rcases scopeOf?_openFor_cases known with ⟨same, rfl⟩ | ⟨-, known⟩
        · have lies := here id same.symm
          rw [lies, rankOpen_nextScope, rankOpen_of_lt rank h.innermost]
        · obtain ⟨present, lt, -⟩ := h.owned known
          rw [rankOpen_of_lt rank lt, rankOpen_of_lt rank (h.scopes id present)]
          exact h.opened known
      inside := fun holder w member => (h.inside holder w member).of_grows
        (lt_size_of_mem_declares member) h grows
      laid := h.laid_openFor free here }

/-! ## Completing what was declared by name -/

/-- What a declaration turns into whose parts are filled in: they lie in its scope and are unread. -/
structure Fills (t : SymbolTable) (id : DeclId) (d : Decl) : Prop where
  name : d.name = (t.decl id).name
  scope : d.scope = (t.decl id).scope
  constant : d.isConstant = (t.decl id).isConstant
  callable : d.callable?.isSome = (t.decl id).callable?.isSome
  encloses : ∀ w ∈ d.declares, ∃ a, t.scopeOf? (.decl id) = some a ∧ t.Encloses a (t.decl w).scope
  unread : ∀ e ∈ d.expressions, e.excerpt?.isSome = true

theorem Laid.fill (h : t.Laid) {id : DeclId} {f : Decl → Decl} (fills : t.Fills id (f (t.decl id))) :
    (t.modifyDecl id f).Laid := by
  -- The changed declaration agrees with the old one on where it lies and of which sort it is.
  have same {α : Type} (pick : Decl → α) (known : pick (f (t.decl id)) = pick (t.decl id))
      (other : DeclId) : pick ((t.modifyDecl id f).decl other) = pick (t.decl other) := by
    rw [decl_modifyDecl]
    split
    · rename_i eq
      rw [eq.1, known]
    · rfl
  have names := same Decl.name fills.name
  have scopes := same Decl.scope fills.scope
  have constants := same Decl.isConstant fills.constant
  have callables := same (·.callable?.isSome) fills.callable
  exact
    { titled := fun b => (names _).trans (h.titled b)
      parents := h.parents
      within := fun owns => (scopes _).symm ▸ h.within owns
      encloses := fun holder w member => by
        rw [scopes]
        rw [decl_modifyDecl] at member
        split at member
        · rename_i eq
          exact eq.1 ▸ fills.encloses w member
        · exact h.encloses holder w member
      constants := fun {g s d} callable owns constant => by
        rw [callables] at callable
        rw [constants] at constant
        rw [scopes]
        exact h.constants callable owns constant
      unread := fun other e member => by
        rw [decl_modifyDecl] at member
        split at member
        · exact fills.unread e member
        · exact h.unread other e member }

/-- The parts of a function or class that has been declared by name are filled in. -/
theorem Built.fill (h : t.Built rank) {id : DeclId} {f : Decl → Decl}
    (edit : t.Edit (t.modifyDecl id f)) (fills : t.Fills id (f (t.decl id)))
    (houses : ∀ w ∈ (f (t.decl id)).declares, t.Houses rank id w) :
    (t.modifyDecl id f).Built rank := by
  have scope := fills.scope
  have name := fills.name
  have scopes : ∀ d, ((t.modifyDecl id f).decl d).scope = (t.decl d).scope := fun d => by
    rw [decl_modifyDecl]
    split
    · rename_i same
      rw [same.1, scope]
    · rfl
  have names : ∀ d, ((t.modifyDecl id f).decl d).name = (t.decl d).name := fun d => by
    rw [decl_modifyDecl]
    split
    · rename_i same
      rw [same.1, name]
    · rfl
  have advances : t.Advances (t.modifyDecl id f) := .of_modifyDecl h.sound edit
  exact
    { sound := edit.sound h.sound
      ordered := h.ordered
      named := fun d lt => by
        rw [size_modifyDecl] at lt
        rw [scopes, names]
        exact h.named d lt
      bound := fun b => by
        rw [size_modifyDecl, scopes]
        exact h.bound b
      active := h.active
      global := h.global
      scopes := fun d lt => by
        rw [size_modifyDecl] at lt
        rw [scopes]
        exact h.scopes d lt
      owned := fun {owner s} known => by
        obtain ⟨owned, rest⟩ := h.owned known
        refine ⟨?_, rest⟩
        cases owner with
        | decl d => exact Nat.lt_of_lt_of_eq owned (size_modifyDecl t id f).symm
        | body d => exact Nat.lt_of_lt_of_eq owned (size_modifyDecl t id f).symm
        | block b => exact owned
      distinct := h.distinct
      opened := fun {d s} known => by
        rw [scopes]
        exact h.opened known
      inside := fun holder w member => by
        have lt := lt_size_of_mem_declares member
        rw [size_modifyDecl] at lt
        by_cases same : holder = id
        · subst same
          rw [decl_modifyDecl_self lt] at member
          exact (houses w member).of_advances lt advances
        · rw [decl_modifyDecl_of_ne same] at member
          exact (h.inside holder w member).of_advances lt advances
      laid := h.laid.fill fills }

/-- The table grows that had not had the declaration which is filled in. -/
theorem Grows.fill (h : Grows rank t rank' t') {id : DeclId} (f : Decl → Decl)
    (new : t.decls.size ≤ id.index) : Grows rank t rank' (t'.modifyDecl id f) where
  size := by rw [size_modifyDecl]; exact h.size
  scopes := h.scopes
  decls other lt := by
    have ne : other ≠ id := by
      rintro rfl
      omega
    rw [decl_modifyDecl_of_ne ne]
    exact h.decls other lt
  rank := h.rank
  parent := h.parent
  saved := h.saved
  fresh := h.fresh
  active := h.active

end SymbolTable

end Deferral
