import Mathlib.Logic.Function.Basic
import Mathlib.Order.Defs.Unbundled
import Deferral.Proofs.FirstPass.Absorbing
import Deferral.Proofs.Scope.Binding
import Deferral.Proofs.Table.Building

/-!
# Layers of scopes

The order in which scopes are made says nothing about which lies inside which: a class takes in the
scope of an extension that may be older. Scopes lie in layers instead, each one layer below the scope
it was opened in. A class and its extensions lie in one layer, and so do their scopes.
-/

namespace Deferral

namespace Decl

variable (d : Decl)

theorem isExtension_mapCallable (f : Callable → Callable) :
    (d.mapCallable f).isExtension = d.isExtension := by
  unfold mapCallable
  split <;> simp_all [isExtension]

theorem isExtension_mapMembers (f : List Stmt → List Stmt) :
    (d.mapMembers f).isExtension = d.isExtension := by
  unfold mapMembers
  split <;> simp_all [isExtension]
  rename_i sort _ _ _
  cases sort <;> rfl

theorem isExtension_withInitializer (e : Expr) : (d.withInitializer e).isExtension = d.isExtension := by
  unfold withInitializer
  split <;> simp_all [isExtension]

end Decl

theorem Scope.parent_extendAll (s : Scope) (names : Names) :
    (s.extendAll names).parent = s.parent := by
  unfold Scope.extendAll
  induction names generalizing s with
  | nil => rfl
  | cons entry rest ih => exact ih (s.extend entry.1 entry.2)

namespace SymbolTable

variable {t t' t'' : SymbolTable} {s p scope : ScopeId} {id : DeclId}

/-! ## Changes of declarations only -/

/-- Nothing changes but what declarations are, and none becomes an extension or ceases to be one. -/
structure LeavesScopes (t t' : SymbolTable) : Prop where
  scopes : t'.scopes = t.scopes
  saved : t'.saved = t.saved
  active : t'.active = t.active
  size : t'.decls.size = t.decls.size
  scope : ∀ id, (t'.decl id).scope = (t.decl id).scope
  isExtension : ∀ id, (t'.decl id).isExtension = (t.decl id).isExtension

namespace LeavesScopes

theorem refl (t : SymbolTable) : t.LeavesScopes t :=
  ⟨rfl, rfl, rfl, rfl, fun _ => rfl, fun _ => rfl⟩

theorem trans (h : t.LeavesScopes t') (h' : t'.LeavesScopes t'') : t.LeavesScopes t'' where
  scopes := h'.scopes.trans h.scopes
  saved := h'.saved.trans h.saved
  active := h'.active.trans h.active
  size := h'.size.trans h.size
  scope id := (h'.scope id).trans (h.scope id)
  isExtension id := (h'.isExtension id).trans (h.isExtension id)

theorem leave (h : (t.enter scope).LeavesScopes t') : t.LeavesScopes t'.leave :=
  ⟨h.scopes, h.saved, congrArg List.tail h.active, h.size, h.scope, h.isExtension⟩

theorem modifyDecl (t : SymbolTable) (id : DeclId) {f : Decl → Decl}
    (scope : ∀ d, (f d).scope = d.scope) (isExtension : ∀ d, (f d).isExtension = d.isExtension) :
    t.LeavesScopes (t.modifyDecl id f) := by
  refine ⟨rfl, rfl, rfl, size_modifyDecl t id f, fun other => ?_, fun other => ?_⟩ <;>
    rw [decl_modifyDecl] <;> split
  · rename_i same
    rw [same.1, scope]
  · rfl
  · rename_i same
    rw [same.1, isExtension]
  · rfl

theorem withTypeIn (t : SymbolTable) (id : DeclId) (slot : TypeSlot) (type : Ty) :
    t.LeavesScopes (t.modifyDecl id (·.withTypeIn slot type)) :=
  .modifyDecl t id (·.scope_withTypeIn slot type) (·.isExtension_withTypeIn slot type)

theorem withInitializer (t : SymbolTable) (id : DeclId) (e : Expr) :
    t.LeavesScopes (t.modifyDecl id (·.withInitializer e)) :=
  .modifyDecl t id (·.scope_withInitializer e) (·.isExtension_withInitializer e)

theorem mapCallable (t : SymbolTable) (id : DeclId) (f : Callable → Callable) :
    t.LeavesScopes (t.modifyDecl id (·.mapCallable f)) :=
  .modifyDecl t id (·.scope_mapCallable f) (·.isExtension_mapCallable f)

theorem mapMembers (t : SymbolTable) (id : DeclId) (f : List Stmt → List Stmt) :
    t.LeavesScopes (t.modifyDecl id (·.mapMembers f)) :=
  .modifyDecl t id (·.scope_mapMembers f) (·.isExtension_mapMembers f)

end LeavesScopes

/-! ## Layers -/

/-- How deep scopes lie, and which of them are scopes of extensions. -/
structure Layering where
  depth : ScopeId → Nat
  ofExtension : ScopeId → Bool

namespace Layering

variable (L : Layering)

/-- What falls from every scope to the one around it. The scopes of extensions come below others of
the same depth, since a class may take them in. -/
def rank (s : ScopeId) : Nat := 2 * L.depth s + (L.ofExtension s).toNat

/-- One more scope is put into a layer. -/
def put (s : ScopeId) (depth : Nat) (ofExtension : Bool) : Layering :=
  ⟨Function.update L.depth s depth, Function.update L.ofExtension s ofExtension⟩

theorem rank_lt_of_depth_lt {L : Layering} (h : L.depth p < L.depth s) : L.rank p < L.rank s := by
  have := Bool.toNat_le (L.ofExtension p)
  unfold rank
  omega

end Layering

/-- The scopes of a table lie in layers, and names lead to declarations of their own layer only. -/
structure Layers (L : Layering) (t : SymbolTable) : Prop where
  global : ScopeId.global.index < t.scopes.size
  outermost : (t.scope .global).parent = none
  surface : L.depth .global = 0
  inside : ∀ s, s.index < t.scopes.size → s ≠ .global →
    ∃ p, t.IsInside s p ∧ p.index < t.scopes.size ∧ L.rank p < L.rank s
  bound : ∀ {s name d}, t.Binds s name d →
    d.index < t.decls.size ∧ L.depth (t.decl d).scope = L.depth s
  opened : ∀ {id s}, t.scopeOf? (.decl id) = some s →
    id.index < t.decls.size ∧ L.depth s = L.depth (t.decl id).scope + 1 ∧
      L.ofExtension s = (t.decl id).isExtension
  saved : ∀ {owner s}, t.scopeOf? owner = some s → s.index < t.scopes.size
  declared : ∀ id, (t.decl id).scope.index < t.scopes.size
  active : ∀ s ∈ t.active, s.index < t.scopes.size

/-- The scopes of a table lie in some layers. -/
def Layered (t : SymbolTable) : Prop := ∃ L, t.Layers L

theorem lt_size_of_binds {name : String} {d : DeclId} (h : t.Binds s name d) :
    s.index < t.scopes.size := by
  obtain ⟨set, found, -⟩ := h
  by_contra outside
  simp [SymbolTable.scope, Array.getD_eq_getD_getElem?, outside] at found
  cases found

namespace Layers

variable {L : Layering}

theorem innermost (h : t.Layers L) : t.innermost.index < t.scopes.size := by
  unfold SymbolTable.innermost
  cases active : t.active with
  | nil => exact h.global
  | cons s rest => exact h.active s (by simp [active])

theorem rests (h : t.Layers L) (rests : t.LeavesScopes t') : t'.Layers L where
  global := by rw [rests.scopes]; exact h.global
  outermost := by rw [scope_congr rests.scopes]; exact h.outermost
  surface := h.surface
  inside s lt ne := by
    rw [rests.scopes] at lt ⊢
    unfold IsInside
    rw [scope_congr rests.scopes]
    exact h.inside s lt ne
  bound {s name d} b := by
    unfold Binds at b
    rw [scope_congr rests.scopes] at b
    rw [rests.size, rests.scope]
    exact h.bound b
  opened {id s} owns := by
    rw [scopeOf?, rests.saved] at owns
    rw [rests.size, rests.scope, rests.isExtension]
    exact h.opened owns
  saved {owner s} owns := by
    rw [scopeOf?, rests.saved] at owns
    rw [rests.scopes]
    exact h.saved owns
  declared id := by
    rw [rests.scopes, rests.scope]
    exact h.declared id
  active := by
    rw [rests.scopes, rests.active]
    exact h.active

theorem enter (h : t.Layers L) (lt : scope.index < t.scopes.size) : (t.enter scope).Layers L :=
  { h with active := List.forall_mem_cons.mpr ⟨lt, h.active⟩ }

theorem leave (h : t.Layers L) : t.leave.Layers L :=
  { h with active := fun s member => h.active s (List.mem_of_mem_tail member) }

/-! ### Declaring -/

theorem addUnnamed (h : t.Layers L) {d : Decl} (lt : d.scope.index < t.scopes.size) :
    (t.addUnnamed d).Layers L where
  global := h.global
  outermost := h.outermost
  surface := h.surface
  inside := h.inside
  bound b := by
    obtain ⟨present, same⟩ := h.bound b
    rw [decl_addUnnamed_of_lt present]
    exact ⟨by simp only [SymbolTable.addUnnamed, Array.size_push]; omega, same⟩
  opened owns := by
    obtain ⟨present, layer⟩ := h.opened owns
    rw [decl_addUnnamed_of_lt present]
    exact ⟨by simp only [SymbolTable.addUnnamed, Array.size_push]; omega, layer⟩
  saved := h.saved
  declared id := by
    by_cases present : id.index < t.decls.size
    · rw [decl_addUnnamed_of_lt present]
      exact h.declared id
    by_cases next : id = t.nextDecl
    · rw [next, decl_addUnnamed_nextDecl]
      exact lt
    · have ne : id.index ≠ t.decls.size := fun same => next (congrArg DeclId.mk same)
      rw [decl_eq_default (by simp only [SymbolTable.addUnnamed, Array.size_push]; omega)]
      exact h.global
  active := h.active

/-- The names of a scope change. -/
theorem modifyScope (h : t.Layers L) {f : Scope → Scope} (parent : ∀ s, (f s).parent = s.parent)
    (bound : ∀ {name d}, (f (t.scope scope)).Binds name d →
      d.index < t.decls.size ∧ L.depth (t.decl d).scope = L.depth scope) :
    (t.modifyScope scope f).Layers L := by
  have size : (t.modifyScope scope f).scopes.size = t.scopes.size := by simp [SymbolTable.modifyScope]
  have parents (s : ScopeId) : ((t.modifyScope scope f).scope s).parent = (t.scope s).parent := by
    rw [scope_modifyScope]
    split
    · rename_i same
      rw [parent, same.1]
    · rfl
  exact
    { global := by rw [size]; exact h.global
      outermost := by rw [parents]; exact h.outermost
      surface := h.surface
      inside := fun s inRange ne => by
        rw [size] at inRange ⊢
        unfold IsInside
        rw [parents]
        exact h.inside s inRange ne
      bound := fun {s name d} b => by
        unfold Binds at b
        rw [scope_modifyScope] at b
        split at b
        · rename_i same
          exact same.1 ▸ bound b
        · exact h.bound b
      opened := h.opened
      saved := fun owns => by rw [size]; exact h.saved owns
      declared := fun id => by rw [size]; exact h.declared id
      active := fun s member => by rw [size]; exact h.active s member }

/-- A name may be bound to a declaration in any scope as deep as that of the declaration. -/
theorem bindName (h : t.Layers L) (present : id.index < t.decls.size)
    (layer : L.depth (t.decl id).scope = L.depth scope) (name : String) :
    (t.bindName scope name id).Layers L := by
  refine h.modifyScope (fun _ => rfl) fun b => ?_
  rcases Names.binds_extend.mp b with old | ⟨-, member⟩
  · exact h.bound old
  · obtain rfl := List.mem_singleton.mp member
    exact ⟨present, layer⟩

theorem declare (h : t.Layers L) {d : Decl} (lt : d.scope.index < t.scopes.size) :
    (t.declare d).Layers L := by
  have present : t.nextDecl.index < (t.addUnnamed d).decls.size := by
    simp [SymbolTable.addUnnamed, nextDecl]
  exact (h.addUnnamed lt).bindName present (by rw [decl_addUnnamed_nextDecl]) d.name

/-! ### Opening scopes -/

theorem depth_put_of_lt (L : Layering) (lt : s.index < t.scopes.size) (depth : Nat) (b : Bool) :
    (L.put t.nextScope depth b).depth s = L.depth s := by
  refine Function.update_of_ne (fun same => ?_) _ _
  rw [same] at lt
  exact Nat.lt_irrefl _ lt

theorem ofExtension_put_of_lt (L : Layering) (lt : s.index < t.scopes.size) (depth : Nat) (b : Bool) :
    (L.put t.nextScope depth b).ofExtension s = L.ofExtension s := by
  refine Function.update_of_ne (fun same => ?_) _ _
  rw [same] at lt
  exact Nat.lt_irrefl _ lt

theorem rank_put_of_lt (L : Layering) (lt : s.index < t.scopes.size) (depth : Nat) (b : Bool) :
    (L.put t.nextScope depth b).rank s = L.rank s := by
  unfold Layering.rank
  rw [depth_put_of_lt L lt, ofExtension_put_of_lt L lt]

/-- A new scope lies one layer below the scope it is opened in. -/
theorem addScope (h : t.Layers L) (inRange : p.index < t.scopes.size) (b : Bool) :
    (t.addScope p).Layers (L.put t.nextScope (L.depth p + 1) b) := by
  have size : (t.addScope p).scopes.size = t.scopes.size + 1 := by simp [SymbolTable.addScope]
  have wider : ∀ {s : ScopeId}, s.index < t.scopes.size → s.index < (t.addScope p).scopes.size :=
    fun lt => by omega
  have declared (id : DeclId) : (L.put t.nextScope (L.depth p + 1) b).depth
      ((t.addScope p).decl id).scope = L.depth (t.decl id).scope :=
    depth_put_of_lt L (h.declared id) _ _
  exact
    { global := wider h.global
      outermost := by rw [scope_addScope_of_lt h.global]; exact h.outermost
      surface := by rw [depth_put_of_lt L h.global]; exact h.surface
      inside := fun s lt ne => by
        by_cases old : s.index < t.scopes.size
        · obtain ⟨outer, parent, lt', less⟩ := h.inside s old ne
          refine ⟨outer, ?_, wider lt', ?_⟩
          · unfold IsInside
            rw [scope_addScope_of_lt old]
            exact parent
          · rw [rank_put_of_lt L old, rank_put_of_lt L lt']
            exact less
        · obtain rfl : s = t.nextScope := congrArg ScopeId.mk (show s.index = t.scopes.size by omega)
          refine ⟨p, congrArg Scope.parent (scope_addScope_nextScope t p), wider inRange, ?_⟩
          apply Layering.rank_lt_of_depth_lt
          rw [depth_put_of_lt L inRange]
          simp [Layering.put]
      bound := fun {s name d} b => by
        have old : t.Binds s name d := by
          unfold Binds Scope.Binds at b
          rwa [names_addScope] at b
        rw [depth_put_of_lt L (lt_size_of_binds old), declared]
        exact h.bound old
      opened := fun {id s} owns => by
        rw [depth_put_of_lt L (h.saved owns), declared, ofExtension_put_of_lt L (h.saved owns)]
        exact h.opened owns
      saved := fun owns => wider (h.saved owns)
      declared := fun id => wider (h.declared id)
      active := fun s member => wider (h.active s member) }

/-- A scope is saved for a declaration if it lies where the scope of that declaration should. -/
theorem assignScope (h : t.Layers L) {owner : ScopeOwner} (lt : s.index < t.scopes.size)
    (layer : ∀ id, owner = .decl id → id.index < t.decls.size ∧
      L.depth s = L.depth (t.decl id).scope + 1 ∧ L.ofExtension s = (t.decl id).isExtension) :
    (t.assignScope owner s).Layers L :=
  { h with
    opened := fun {id other} owns => by
      by_cases same : ScopeOwner.decl id = owner
      · subst same
        rw [scopeOf?_assignScope_self] at owns
        exact Option.some.inj owns ▸ layer id rfl
      · rw [scopeOf?_assignScope_of_ne same] at owns
        exact h.opened owns
    saved := fun {owner' other} owns => by
      by_cases same : owner' = owner
      · subst same
        rw [scopeOf?_assignScope_self] at owns
        exact Option.some.inj owns ▸ lt
      · rw [scopeOf?_assignScope_of_ne same] at owns
        exact h.saved owns }

end Layers

/-- The declaration that a scope is opened for stands in the innermost scope. -/
def StandsHere (t : SymbolTable) (owner : ScopeOwner) : Prop :=
  ∀ id, owner = .decl id → id.index < t.decls.size ∧ (t.decl id).scope = t.innermost

theorem Layers.openFor {L : Layering} (h : t.Layers L) {owner : ScopeOwner}
    (stands : t.StandsHere owner) : (t.openFor owner).Layered := by
  have inRange : t.nextScope.index < (t.addScope t.innermost).scopes.size := by
    simp [SymbolTable.addScope, nextScope]
  -- Whether the new scope is one of an extension hangs on whom it is opened for.
  have saved (b : Bool) (sort : ∀ id, owner = .decl id → (t.decl id).isExtension = b) :
      (t.openFor owner).Layered := by
    refine ⟨_, (h.addScope h.innermost b).assignScope inRange fun id same => ?_⟩
    obtain ⟨present, scope⟩ := stands id same
    refine ⟨present, ?_, ?_⟩
    · rw [show ((t.addScope t.innermost).decl id).scope = t.innermost from scope,
        Layers.depth_put_of_lt L h.innermost]
      simp [Layering.put]
    · rw [show ((t.addScope t.innermost).decl id).isExtension = b from sort id same]
      simp [Layering.put]
  cases owner with
  | decl id => exact saved _ fun other same => by obtain rfl := ScopeOwner.decl.inj same; rfl
  | block b => exact saved false fun _ same => by cases same
  | body id => exact saved false fun _ same => by cases same

/-! ## Merging extensions -/

namespace Layers

variable {L : Layering} {cls e : DeclId} {inner outer : ScopeId}

/-- A scope comes to lie inside another one of a lower rank. -/
theorem reparent (h : t.Layers L) (ne : inner ≠ .global) (inRange : outer.index < t.scopes.size)
    (less : L.rank outer < L.rank inner) : (t.reparent inner outer).Layers L := by
  have size : (t.reparent inner outer).scopes.size = t.scopes.size := by
    simp [SymbolTable.reparent, SymbolTable.modifyScope]
  have names (s : ScopeId) : ((t.reparent inner outer).scope s).names = (t.scope s).names := by
    unfold SymbolTable.reparent
    rw [scope_modifyScope]
    split
    · rename_i same
      rw [same.1]
    · rfl
  exact
    { global := by rw [size]; exact h.global
      outermost := by
        unfold SymbolTable.reparent
        rw [scope_modifyScope_of_ne ne.symm]
        exact h.outermost
      surface := h.surface
      inside := fun s lt other => by
        rw [size] at lt ⊢
        unfold IsInside SymbolTable.reparent
        by_cases same : s = inner
        · subst same
          rw [scope_modifyScope_self lt]
          exact ⟨outer, rfl, inRange, less⟩
        · rw [scope_modifyScope_of_ne same]
          exact h.inside s lt other
      bound := fun {s name d} b => by
        unfold Binds Scope.Binds at b
        rw [names] at b
        exact h.bound b
      opened := h.opened
      saved := fun owns => by rw [size]; exact h.saved owns
      declared := fun id => by rw [size]; exact h.declared id
      active := fun s member => by rw [size]; exact h.active s member }

theorem rests_absorb (t : SymbolTable) (cls e : DeclId) (inner outer : ScopeId) :
    ((t.modifyScope outer (·.extendAll (t.scope inner).names)).reparent inner outer).LeavesScopes
      (t.absorb cls e inner outer) :=
  (LeavesScopes.mapMembers _ e _).trans (LeavesScopes.mapMembers _ cls _)

/-- A class takes in an extension declared in its own layer. -/
theorem absorb (h : t.Layers L) (proper : (t.decl cls).isExtension = false)
    (extension : (t.decl e).isExtension = true)
    (layer : L.depth (t.decl e).scope = L.depth (t.decl cls).scope)
    (inside : t.scopeOf? (.decl e) = some inner) (owns : t.scopeOf? (.decl cls) = some outer) :
    (t.absorb cls e inner outer).Layers L := by
  obtain ⟨-, deepInner, sortInner⟩ := h.opened inside
  obtain ⟨-, deepOuter, sortOuter⟩ := h.opened owns
  have deep : L.depth inner = L.depth outer := by omega
  have ne : inner ≠ .global := by
    rintro rfl
    rw [h.surface] at deepInner
    omega
  have less : L.rank outer < L.rank inner := by
    unfold Layering.rank
    rw [deep, sortInner, sortOuter, extension, proper]
    exact Nat.lt_succ_self _
  have imported : (t.modifyScope outer (·.extendAll (t.scope inner).names)).Layers L := by
    refine h.modifyScope (fun s => Scope.parent_extendAll s _) fun b => ?_
    rcases Scope.binds_extendAll.mp b with own | absorbed
    · exact h.bound own
    · rw [← deep]
      exact h.bound (s := inner) absorbed
  have inRange : outer.index <
      (t.modifyScope outer (·.extendAll (t.scope inner).names)).scopes.size := by
    simpa [SymbolTable.modifyScope] using h.saved owns
  exact (imported.reparent ne inRange less).rests (rests_absorb t cls e inner outer)

theorem keepOnly (h : t.Layers L) (scope : ScopeId) (name : String) (keep : Decl → Bool) :
    (t.keepOnly scope name keep).Layers L := by
  unfold SymbolTable.keepOnly
  split
  · exact h
  · refine h.modifyScope (fun _ => rfl) fun {other d} ⟨set, found, member⟩ => ?_
    rcases Names.mem_alter_cases found with old | ⟨rfl, rfl | ⟨old, before, rfl⟩⟩
    · exact h.bound ⟨set, old, member⟩
    · cases member
    · exact h.bound ⟨old, before, List.mem_of_mem_filter member⟩

end Layers

/-! ## What a pass and the reader do -/

/-- A table has become layered, and what was in it has stayed where it was. -/
structure StaysLayered (t t' : SymbolTable) : Prop where
  layered : t'.Layered
  decls : t.decls.size ≤ t'.decls.size
  scopes : t.scopes.size ≤ t'.scopes.size
  scope : ∀ id, id.index < t.decls.size → (t'.decl id).scope = (t.decl id).scope

namespace StaysLayered

theorem refl (h : t.Layered) : t.StaysLayered t :=
  ⟨h, Nat.le_refl _, Nat.le_refl _, fun _ _ => rfl⟩

theorem trans (h : t.StaysLayered t') (h' : t'.StaysLayered t'') : t.StaysLayered t'' where
  layered := h'.layered
  decls := Nat.le_trans h.decls h'.decls
  scopes := Nat.le_trans h.scopes h'.scopes
  scope id lt := (h'.scope id (Nat.lt_of_lt_of_le lt h.decls)).trans (h.scope id lt)

theorem of_rests (h : t.Layered) (rests : t.LeavesScopes t') : t.StaysLayered t' :=
  ⟨h.imp fun _ layers => layers.rests rests, rests.size.ge, by rw [rests.scopes],
    fun id _ => rests.scope id⟩

theorem leave (h : (t.enter scope).StaysLayered t') : t.StaysLayered t'.leave :=
  ⟨h.layered.imp fun _ layers => layers.leave, h.decls, h.scopes, h.scope⟩

end StaysLayered

/-- A table that is layered stays so, and what is in it stays where it is. -/
def Tends (t t' : SymbolTable) : Prop := t.Layered → t.StaysLayered t'

instance : Std.Refl Tends := ⟨fun _ => .refl⟩

instance : IsTrans SymbolTable Tends :=
  ⟨fun _ _ _ h h' layered => (h layered).trans (h' (h layered).layered)⟩

theorem Layered.enter (h : t.Layered) (lt : scope.index < t.scopes.size) :
    (t.enter scope).Layered :=
  h.imp fun _ layers => layers.enter lt

theorem Layered.lt_size (h : t.Layered) {owner : ScopeOwner} (owns : t.scopeOf? owner = some s) :
    s.index < t.scopes.size :=
  h.elim fun _ layers => layers.saved owns

theorem stays_addUnnamed (h : t.Layered) {d : Decl} (lt : d.scope.index < t.scopes.size) :
    t.StaysLayered (t.addUnnamed d) where
  layered := h.imp fun _ layers => layers.addUnnamed lt
  decls := by simp [addUnnamed]
  scopes := Nat.le_refl _
  scope _ present := by rw [decl_addUnnamed_of_lt present]

/-- A name is bound in the scope of its declaration. -/
theorem stays_bindName (h : t.Layered) (present : id.index < t.decls.size)
    (lies : (t.decl id).scope = scope) (name : String) : t.StaysLayered (t.bindName scope name id) where
  layered := h.imp fun L layers => layers.bindName present (congrArg L.depth lies) name
  decls := Nat.le_refl _
  scopes := by simp [bindName, modifyScope]
  scope _ _ := rfl

theorem stays_declare (h : t.Layered) {d : Decl} (lies : d.scope = t.innermost) :
    t.StaysLayered (t.declare d) where
  layered := h.imp fun _ layers => layers.declare (lies ▸ layers.innermost)
  decls := by rw [size_declare]; omega
  scopes := (size_scopes_declare t d).ge
  scope _ present := by rw [decl_declare_of_lt present]

theorem stays_addScope (h : t.Layered) : t.StaysLayered (t.addScope t.innermost) where
  layered := h.elim fun _ layers => ⟨_, layers.addScope layers.innermost false⟩
  decls := Nat.le_refl _
  scopes := by simp [addScope]
  scope _ _ := rfl

theorem stays_openFor (h : t.Layered) {owner : ScopeOwner} (stands : t.StandsHere owner) :
    t.StaysLayered (t.openFor owner) where
  layered := h.elim fun _ layers => layers.openFor stands
  decls := Nat.le_refl _
  scopes := by rw [size_scopes_openFor]; omega
  scope _ _ := rfl

/-- A class takes in an extension. -/
theorem stays_absorb {cls e : DeclId} {inner outer : ScopeId}
    (h : (t.absorb cls e inner outer).Layered) : t.StaysLayered (t.absorb cls e inner outer) where
  layered := h
  decls := (Layers.rests_absorb t cls e inner outer).size.ge
  scopes := by
    rw [(Layers.rests_absorb t cls e inner outer).scopes]
    simp [reparent, modifyScope]
  scope id _ := (Layers.rests_absorb t cls e inner outer).scope id

theorem stays_keepOnly (h : t.Layered) (scope : ScopeId) (name : String) (keep : Decl → Bool) :
    t.StaysLayered (t.keepOnly scope name keep) where
  layered := h.imp fun _ layers => layers.keepOnly scope name keep
  decls := by unfold SymbolTable.keepOnly; split <;> exact Nat.le_refl _
  scopes := by unfold SymbolTable.keepOnly; split <;> simp [modifyScope]
  scope id _ := by rw [decl_keepOnly]

end SymbolTable

end Deferral
