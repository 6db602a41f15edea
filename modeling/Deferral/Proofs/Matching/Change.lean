import Mathlib.Data.Set.Basic
import Deferral.Proofs.Extension.Changes
import Deferral.Proofs.Matching.Declaration
import Deferral.Proofs.Table.FirstPassLayered

/-!
# Changes confined to some declarations and scopes

A pass over some declarations changes those and what they name, and leaves others alone until it comes to
them. A table is confined while only certain declarations, the members of certain ones and certain scopes
have changed.
-/

namespace Deferral

/-! ## What changes of a declaration keep -/

/-- A change of declarations after which they are called and lie as before and are of the same sort. -/
structure Decl.KeepsNature (f : Decl → Decl) : Prop where
  name : ∀ d, (f d).name = d.name
  scope : ∀ d, (f d).scope = d.scope
  isExtension : ∀ d, (f d).isExtension = d.isExtension
  isPrimaryClass : ∀ d, (f d).isPrimaryClass = d.isPrimaryClass
  isSome_members? : ∀ d, (f d).members?.isSome = d.members?.isSome

namespace Decl

@[simp] theorem members?_withInitializer (d : Decl) (e : Expr) :
    (d.withInitializer e).members? = d.members? := by
  obtain ⟨name, kind, scope, span⟩ := d
  cases kind with
  | object sort type init => cases init <;> rfl
  | _ => rfl

theorem KeepsNature.withTypeIn (slot : TypeSlot) (type : Ty) : KeepsNature (·.withTypeIn slot type) where
  name d := d.name_withTypeIn slot type
  scope d := d.scope_withTypeIn slot type
  isExtension d := by
    obtain ⟨name, kind, scope, span⟩ := d
    cases slot <;> cases kind <;> try rfl
    rename_i sort _ _
    cases sort <;> rfl
  isPrimaryClass d := by
    obtain ⟨name, kind, scope, span⟩ := d
    cases slot <;> cases kind <;> try rfl
    rename_i sort _ _
    cases sort <;> rfl
  isSome_members? d := congrArg Option.isSome (d.members?_withTypeIn slot type)

theorem KeepsNature.withInitializer (e : Expr) : KeepsNature (·.withInitializer e) where
  name d := d.name_withInitializer e
  scope d := d.scope_withInitializer e
  isExtension d := d.isExtension_withInitializer e
  isPrimaryClass d := by
    obtain ⟨name, kind, scope, span⟩ := d
    cases kind with
    | object sort type init => cases init <;> rfl
    | _ => rfl
  isSome_members? d := congrArg Option.isSome (d.members?_withInitializer e)

theorem KeepsNature.mapCallable (f : Callable → Callable) : KeepsNature (·.mapCallable f) where
  name d := d.name_mapCallable f
  scope d := d.scope_mapCallable f
  isExtension d := d.isExtension_mapCallable f
  isPrimaryClass d := by
    obtain ⟨name, kind, scope, span⟩ := d
    cases kind <;> rfl
  isSome_members? d := congrArg Option.isSome (d.members?_mapCallable f)

theorem KeepsNature.mapMembers (f : List Stmt → List Stmt) : KeepsNature (·.mapMembers f) where
  name d := d.name_mapMembers f
  scope d := d.scope_mapMembers f
  isExtension d := d.isExtension_mapMembers f
  isPrimaryClass d := d.isPrimaryClass_mapMembers f
  isSome_members? d := by rw [d.members?_mapMembers, Option.isSome_map]

end Decl

namespace SymbolTable

variable {P H : Set DeclId} {Q : Set ScopeId} {b t t' : SymbolTable} {x : DeclId} {s : ScopeId}

/-- Since the table `b` nothing has changed but the declarations in `P`, the members of those in `H` and
the scopes in `Q`; the table is in order, and the same declarations have members as before. -/
structure Confined (P H : Set DeclId) (Q : Set ScopeId) (b t : SymbolTable) : Prop where
  layered : t.Layered
  ordered : t.Ordered
  saved : t.saved = b.saved
  decl : ∀ x ∉ P, t.decl x = b.decl x
  constant : ∀ x ∉ P, t.constant? x = b.constant? x
  binding : ∀ x ∉ P, (x ∈ t.binding ↔ x ∈ b.binding)
  members : ∀ x ∉ H, t.members x = b.members x
  classes : ∀ x, (t.decl x).members?.isSome = (b.decl x).members?.isSome
  scope : ∀ s ∉ Q, t.scope s = b.scope s
  size : b.decls.size ≤ t.decls.size
  title : ∀ x : DeclId, x.index < b.decls.size →
    (t.decl x).name = (b.decl x).name ∧ (t.decl x).scope = (b.decl x).scope

/-- A table is confined wherever it has changed since it was itself. -/
theorem Confined.refl {P H : Set DeclId} {Q : Set ScopeId} {t : SymbolTable} (layered : t.Layered)
    (ordered : t.Ordered) : Confined P H Q t t where
  layered
  ordered
  saved := rfl
  decl _ _ := rfl
  constant _ _ := rfl
  binding _ _ := .rfl
  members _ _ := rfl
  classes _ := rfl
  scope _ _ := rfl
  size := Nat.le_refl _
  title _ _ := ⟨rfl, rfl⟩

/-- The declaration that is made next is not there yet. -/
theorem decl_nextDecl (t : SymbolTable) : t.decl t.nextDecl = default := decl_eq_default (Nat.le_refl _)

theorem decl_addUnnamed (t : SymbolTable) (d : Decl) (y : DeclId) :
    (t.addUnnamed d).decl y = if y = t.nextDecl then d else t.decl y := by
  split
  · rename_i next
    rw [next, decl_addUnnamed_nextDecl]
  · rename_i other
    by_cases lt : y.index < t.decls.size
    · exact decl_addUnnamed_of_lt lt d
    · have ne : y.index ≠ t.decls.size := fun same => other (congrArg DeclId.mk same)
      simp [decl, addUnnamed, Array.getD_eq_getD_getElem?, Array.getElem?_push, ne]

theorem scope_addScope (t : SymbolTable) (parent other : ScopeId) :
    (t.addScope parent).scope other = if other = t.nextScope then .child parent else t.scope other := by
  split
  · rename_i next
    rw [next, scope_addScope_nextScope]
  · rename_i differs
    by_cases lt : other.index < t.scopes.size
    · exact scope_addScope_of_lt lt parent
    · have ne : other.index ≠ t.scopes.size := fun same => differs (congrArg ScopeId.mk same)
      simp [scope, addScope, Array.getD_eq_getD_getElem?, Array.getElem?_push, ne]

theorem members_modifyDecl {f : Decl → Decl} (same : ∀ d, (f d).members? = d.members?)
    (t : SymbolTable) (x y : DeclId) : (t.modifyDecl x f).members y = t.members y := by
  unfold SymbolTable.members
  rw [decl_modifyDecl]
  split
  · rename_i here
    rw [same, here.1]
  · rfl

namespace Confined

theorem scopeOf? (h : Confined P H Q b t) (owner : ScopeOwner) : t.scopeOf? owner = b.scopeOf? owner := by
  unfold SymbolTable.scopeOf?
  rw [h.saved]

theorem enter (h : Confined P H Q b t) (lt : s.index < t.scopes.size) : Confined P H Q b (t.enter s) :=
  { h with layered := h.layered.enter lt }

theorem leave (h : Confined P H Q b t) : Confined P H Q b t.leave :=
  { h with layered := h.layered.imp fun _ layers => layers.leave }

theorem modifyDecl (h : Confined P H Q b t) (inside : x ∈ P) {f : Decl → Decl} (nature : Decl.KeepsNature f)
    (members : x ∈ H ∨ ∀ d, (f d).members? = d.members?) : Confined P H Q b (t.modifyDecl x f) where
  layered := h.layered.imp fun _ layers => layers.rests (.modifyDecl t x nature.scope nature.isExtension)
  ordered := h.ordered
  saved := h.saved
  decl y outside := by
    rw [decl_modifyDecl_of_ne (ne_of_mem_of_not_mem inside outside).symm]
    exact h.decl y outside
  constant := h.constant
  binding := h.binding
  members y outside := by
    rcases members with held | same
    · rw [members_modifyDecl_of_ne (ne_of_mem_of_not_mem held outside).symm]
      exact h.members y outside
    · rw [members_modifyDecl same]
      exact h.members y outside
  classes y := by
    rw [decl_modifyDecl]
    split
    · rename_i here
      rw [nature.isSome_members?, ← here.1, h.classes]
    · exact h.classes y
  scope := h.scope
  size := by simpa [SymbolTable.modifyDecl] using h.size
  title y lt := by
    rw [decl_modifyDecl]
    split
    · rename_i here
      rw [nature.name, nature.scope, ← here.1]
      exact h.title y lt
    · exact h.title y lt

theorem setConstant (h : Confined P H Q b t) (inside : x ∈ P) (value : Constant) :
    Confined P H Q b (t.setConstant x value) :=
  { h with
    layered := h.layered.imp fun _ layers => layers.rests ⟨rfl, rfl, rfl, rfl, fun _ => rfl, fun _ => rfl⟩
    constant := fun y outside =>
      (constant?_setConstant_of_ne (ne_of_mem_of_not_mem inside outside).symm t value).trans
        (h.constant y outside) }

theorem withBinding (h : Confined P H Q b t) {ids : List DeclId}
    (same : ∀ y ∉ P, (y ∈ ids ↔ y ∈ t.binding)) : Confined P H Q b { t with binding := ids } :=
  { h with
    layered := h.layered.imp fun _ layers => layers.rests ⟨rfl, rfl, rfl, rfl, fun _ => rfl, fun _ => rfl⟩
    binding := fun y outside => (same y outside).trans (h.binding y outside) }

theorem addUnnamed (h : Confined P H Q b t) (inside : t.nextDecl ∈ P) {d : Decl}
    (lies : d.scope.index < t.scopes.size) (none : d.members? = none) :
    Confined P H Q b (t.addUnnamed d) where
  layered := (stays_addUnnamed h.layered lies).layered
  ordered := h.ordered
  saved := h.saved
  decl y outside := by
    rw [decl_addUnnamed]
    split
    · rename_i next
      exact absurd (next ▸ inside) outside
    · exact h.decl y outside
  constant := h.constant
  binding := h.binding
  members y outside := by
    rw [← h.members y outside]
    unfold SymbolTable.members
    rw [decl_addUnnamed]
    split
    · rename_i next
      subst next
      rw [none, decl_nextDecl]
      rfl
    · rfl
  classes y := by
    rw [decl_addUnnamed, ← h.classes]
    split
    · rename_i next
      rw [next, none, decl_nextDecl]
      rfl
    · rfl
  scope := h.scope
  size := by
    refine h.size.trans ?_
    simp [SymbolTable.addUnnamed]
  title y lt := by
    rw [decl_addUnnamed, if_neg fun next => absurd (Nat.lt_of_lt_of_le lt h.size) (by simp [next, nextDecl])]
    exact h.title y lt

theorem modifyScope (h : Confined P H Q b t) (inside : s ∈ Q) {f : Scope → Scope}
    (layered : (t.modifyScope s f).Layered) (increasing : (f (t.scope s)).names.Increasing) :
    Confined P H Q b (t.modifyScope s f) :=
  { h with
    layered
    ordered := h.ordered.modifyScope increasing
    scope := fun other outside =>
      (scope_modifyScope_of_ne (ne_of_mem_of_not_mem inside outside).symm t f).trans (h.scope other outside) }

theorem bindName (h : Confined P H Q b t) (inside : s ∈ Q) (present : x.index < t.decls.size)
    (lies : (t.decl x).scope = s) (name : String) : Confined P H Q b (t.bindName s name x) :=
  h.modifyScope inside (stays_bindName h.layered present lies name).layered
    (Names.increasing_alter (h.ordered s) ..)

theorem addScope (h : Confined P H Q b t) (inside : t.nextScope ∈ Q) :
    Confined P H Q b (t.addScope t.innermost) :=
  { h with
    layered := (stays_addScope h.layered).layered
    ordered := fun other => by
      rw [names_addScope]
      exact h.ordered other
    scope := fun other outside => by
      rw [scope_addScope, if_neg (ne_of_mem_of_not_mem inside outside).symm]
      exact h.scope other outside }

/-- A class takes in an extension. -/
theorem absorb (h : Confined P H Q b t) {cls e : DeclId} {inner outer : ScopeId} (hcls : cls ∈ P)
    (he : e ∈ P) (heldCls : cls ∈ H) (heldE : e ∈ H) (hinner : inner ∈ Q) (houter : outer ∈ Q)
    (layered : (t.absorb cls e inner outer).Layered) : Confined P H Q b (t.absorb cls e inner outer) where
  layered := layered
  ordered := ordered_absorb h.ordered cls e inner outer
  saved := h.saved
  decl y outside := by
    unfold SymbolTable.absorb
    rw [decl_modifyDecl_of_ne (ne_of_mem_of_not_mem hcls outside).symm,
      decl_modifyDecl_of_ne (ne_of_mem_of_not_mem he outside).symm]
    exact h.decl y outside
  constant := h.constant
  binding := h.binding
  members y outside := by
    unfold SymbolTable.absorb
    rw [members_modifyDecl_of_ne (ne_of_mem_of_not_mem heldCls outside).symm,
      members_modifyDecl_of_ne (ne_of_mem_of_not_mem heldE outside).symm]
    exact h.members y outside
  classes y := by
    have emptied (u : SymbolTable) (z : DeclId) (f : List Stmt → List Stmt) :
        ((u.modifyDecl z (·.mapMembers f)).decl y).members?.isSome = (u.decl y).members?.isSome := by
      rw [decl_modifyDecl]
      split
      · rename_i here
        rw [Decl.members?_mapMembers, Option.isSome_map, here.1]
      · rfl
    unfold SymbolTable.absorb
    rw [emptied, emptied]
    exact h.classes y
  scope other outside := by
    show ((t.modifyScope outer _).reparent inner outer).scope other = _
    unfold reparent
    rw [scope_modifyScope_of_ne (ne_of_mem_of_not_mem hinner outside).symm,
      scope_modifyScope_of_ne (ne_of_mem_of_not_mem houter outside).symm]
    exact h.scope other outside
  size := by simpa [SymbolTable.absorb, reparent, SymbolTable.modifyScope] using h.size
  title y lt := by
    have kept (u : SymbolTable) (z : DeclId) (f : List Stmt → List Stmt) :
        ((u.modifyDecl z (·.mapMembers f)).decl y).name = (u.decl y).name ∧
          ((u.modifyDecl z (·.mapMembers f)).decl y).scope = (u.decl y).scope := by
      rw [decl_modifyDecl]
      split
      · rename_i here
        rw [Decl.name_mapMembers, Decl.scope_mapMembers, here.1]
        exact ⟨rfl, rfl⟩
      · exact ⟨rfl, rfl⟩
    unfold SymbolTable.absorb
    rw [(kept _ _ _).1, (kept _ _ _).2, (kept _ _ _).1, (kept _ _ _).2]
    exact h.title y lt

theorem keepOnly (h : Confined P H Q b t) (inside : s ∈ Q) (name : String) (keep : Decl → Bool) :
    Confined P H Q b (t.keepOnly s name keep) where
  layered := h.layered.imp fun _ layers => layers.keepOnly s name keep
  ordered := ordered_keepOnly h.ordered s name keep
  saved := by
    unfold SymbolTable.keepOnly
    split <;> exact h.saved
  decl y outside := by
    rw [decl_keepOnly]
    exact h.decl y outside
  constant := by
    unfold SymbolTable.keepOnly
    split <;> exact h.constant
  binding := by
    unfold SymbolTable.keepOnly
    split <;> exact h.binding
  members y outside := by
    unfold SymbolTable.members
    rw [decl_keepOnly]
    exact h.members y outside
  classes y := by
    rw [decl_keepOnly]
    exact h.classes y
  scope other outside := by
    unfold SymbolTable.keepOnly
    split
    · exact h.scope other outside
    · rw [scope_modifyScope_of_ne (ne_of_mem_of_not_mem inside outside).symm]
      exact h.scope other outside
  size := by
    unfold SymbolTable.keepOnly
    split <;> exact h.size
  title y lt := by
    rw [decl_keepOnly]
    exact h.title y lt

end Confined

end SymbolTable

/-! ## Tables that match

Declarations, scopes and blocks of two tables are paired by labels: those with the same label belong
together. In tables that match, paired declarations are the same with their labels, and names lead from
paired scopes to declarations that are paired. A scope of the one table may be paired with a scope of the
other that several scopes of the one are paired with; then all of them but one lie inside that one and have
no names but those that it has as well. Whatever is paired with nothing stays as it was.
-/

/-- Labels for the numbers of two tables, which grow in step from the tables `base` and `base'`. -/
structure Matching where
  left : Labels
  right : Labels
  base : SymbolTable
  base' : SymbolTable
  /-- The declarations that have something to be paired with. -/
  keep : DeclId → Bool
  /-- The name under which the global scope may have declarations that are not kept. -/
  name : String
  /-- Whether the scopes of functions and classes may change, as they do in the first pass. -/
  signing : Prop
  distinct : Function.Injective left.decl
  distinct' : Function.Injective right.decl
  distinctScopes' : Function.Injective right.scope
  held : ∀ {x x'}, left.held x = right.held x' → left.decl x = right.decl x'
  global : left.scope .global = right.scope .global
  freshDecl : ∀ k, left.decl ⟨base.decls.size + k⟩ = right.decl ⟨base'.decls.size + k⟩
  freshScope : ∀ k, left.scope ⟨base.scopes.size + k⟩ = right.scope ⟨base'.scopes.size + k⟩
  plainFresh : ∀ k s, left.scope s = left.scope ⟨base.scopes.size + k⟩ → s = ⟨base.scopes.size + k⟩
  kept : ∀ k, keep ⟨base.decls.size + k⟩ = true
  saved : ∀ {x x'}, left.held x = right.held x' →
    (base.scopeOf? (.decl x)).map left.scope = (base'.scopeOf? (.decl x')).map right.scope
  savedBody : ∀ {x x'}, left.held x = right.held x' →
    (base.scopeOf? (.body x)).map left.scope = (base'.scopeOf? (.body x')).map right.scope
  savedBlock : ∀ {b b'}, left.block b = right.block b' →
    (base.scopeOf? (.block b)).map left.scope = (base'.scopeOf? (.block b')).map right.scope
  plainSaved : signing → ∀ {x x' s}, left.held x = right.held x' →
    base.scopeOf? (.decl x) = some s → ∀ other, left.scope other = left.scope s → other = s

namespace Matching

variable {M : Matching} {n m : Nat} {t t' : SymbolTable} {x x' y y' : DeclId} {s s' : ScopeId}

/-- Nothing else has the label of a scope. -/
def Plain (M : Matching) (s : ScopeId) : Prop := ∀ other, M.left.scope other = M.left.scope s → other = s

/-- The labels of those declarations of an overload set that are kept. -/
def shown (M : Matching) (set : Overloads) : List DeclId := (set.filter M.keep).map M.left.decl

/-- Two scopes lie in scopes that are paired, and have the same names for declarations that are. -/
structure Aligned (M : Matching) (a a' : Scope) : Prop where
  parent : a.parent.map M.left.scope = a'.parent.map M.right.scope
  names : ∀ name, (a.find? name).map M.shown = (a'.find? name).map (List.map M.right.decl)

/-- The scope `a` lies in the scope `outer`, which is `o`, has all its names and is aligned instead. -/
structure Detours (M : Matching) (a : Scope) (outer : ScopeId) (o : Scope) (s' : ScopeId) (a' : Scope) :
    Prop where
  inside : a.parent = some outer
  same : M.left.scope outer = M.right.scope s'
  aligned : M.Aligned o a'
  names : ∀ name set, a.find? name = some set → o.find? name = some set

/-- No name of a scope is overloaded. -/
def Single (a : Scope) : Prop := ∀ name set, a.find? name = some set → set.length ≤ 1

/-- What is not kept in an overload set are extensions that share the one name with a class. -/
structure Lacks (M : Matching) (decl : DeclId → Decl) (s : ScopeId) (name : String) (set : Overloads) :
    Prop where
  scope : s = .global
  name : name = M.name
  hasClass : ∃ c ∈ set, M.keep c = true ∧ (decl c).isPrimaryClass = true
  extensions : ∀ e ∈ set, M.keep e = false → (decl e).isExtension = true

/-- Two tables match, and of the second no more than `n` declarations have others inside them. -/
structure Joins (M : Matching) (n : Nat) (t t' : SymbolTable) : Prop where
  decl : ∀ {x x'}, M.left.decl x = M.right.decl x' → (t.decl x).Matches M.left M.right (t'.decl x')
  members : ∀ {x x'}, M.left.held x = M.right.held x' →
    Stmt.AllMatch M.left M.right (t.members x) (t'.members x')
  extension : M.signing → ∀ {x x'}, M.left.decl x = M.right.decl x' → (t.decl x).isExtension = true →
    M.left.held x = M.right.held x'
  apart : M.signing → ∀ {x x'}, M.left.held x = M.right.held x' → (t.decl x).isPrimaryClass = true →
    (t.decl x).scope = .global → (t.decl x).name ≠ M.name
  scope : ∀ {s s'}, M.left.scope s = M.right.scope s' →
    M.Aligned (t.scope s) (t'.scope s') ∨
      ∃ outer, M.Detours (t.scope s) outer (t.scope outer) s' (t'.scope s')
  single : M.signing → ∀ {s s'}, M.left.scope s = M.right.scope s' →
    M.Plain s ∨ Single (t.scope s) ∧ Single (t'.scope s')
  lacks : ∀ {s name set}, (t.scope s).find? name = some set →
    (∀ d ∈ set, M.keep d = true) ∨ M.Lacks t.decl s name set
  own : (t.scope .global).find? M.name = (M.base.scope .global).find? M.name
  active : t.active.map M.left.scope = t'.active.map M.right.scope
  constant : ∀ {x x'}, M.left.decl x = M.right.decl x' → t'.constant? x' = t.constant? x
  binding : ∀ {x x'}, M.left.decl x = M.right.decl x' → (x' ∈ t'.binding ↔ x ∈ t.binding)
  decls : ∃ k, t.decls.size = M.base.decls.size + k ∧ t'.decls.size = M.base'.decls.size + k
  scopes : ∃ k, t.scopes.size = M.base.scopes.size + k ∧ t'.scopes.size = M.base'.scopes.size + k
  confined : SymbolTable.Confined (Set.preimage M.left.decl (Set.range M.right.decl))
    (Set.preimage M.left.held (Set.range M.right.held))
    (Set.preimage M.left.scope (Set.range M.right.scope)) M.base t
  confined' : SymbolTable.Confined (Set.preimage M.right.decl (Set.range M.left.decl))
    (Set.preimage M.right.held (Set.range M.left.held))
    (Set.preimage M.right.scope (Set.range M.left.scope)) M.base' t'
  bounded : t'.Bounded n

/-! ## Pairs -/

theorem left_unique (h : M.left.decl x = M.right.decl x') (h' : M.left.decl y = M.right.decl x') :
    y = x := M.distinct (h'.trans h.symm)

theorem right_unique (h : M.left.decl x = M.right.decl x') (h' : M.left.decl x = M.right.decl y') :
    y' = x' := M.distinct' (h'.symm.trans h)

theorem Lacks.mono {decl decl' : DeclId → Decl} {name : String} {set : Overloads}
    (h : M.Lacks decl s name set) (isExtension : ∀ d, (decl' d).isExtension = (decl d).isExtension)
    (isPrimaryClass : ∀ d, (decl d).isPrimaryClass = true → (decl' d).isPrimaryClass = true) :
    M.Lacks decl' s name set where
  scope := h.scope
  name := h.name
  hasClass := h.hasClass.imp fun c ⟨member, keep, primary⟩ => ⟨member, keep, isPrimaryClass c primary⟩
  extensions e member dropped := (isExtension e).trans (h.extensions e member dropped)

namespace Joins

variable (h : M.Joins n t t')

include h

theorem lt_size_iff (paired : M.left.decl x = M.right.decl x') :
    x.index < t.decls.size ↔ x'.index < t'.decls.size := by
  obtain ⟨k, size, size'⟩ := h.decls
  constructor
  · intro lt
    by_contra outside
    obtain ⟨j, index⟩ := Nat.exists_eq_add_of_le (Nat.le_of_not_lt outside)
    have same : x = ⟨M.base.decls.size + (k + j)⟩ := left_unique (M.freshDecl (k + j))
      (paired.trans (congrArg M.right.decl (congrArg DeclId.mk (by omega))))
    simp [same] at lt
    omega
  · intro lt
    by_contra outside
    obtain ⟨j, index⟩ := Nat.exists_eq_add_of_le (Nat.le_of_not_lt outside)
    have same : x' = ⟨M.base'.decls.size + (k + j)⟩ := right_unique (M.freshDecl (k + j))
      ((congrArg M.left.decl (congrArg DeclId.mk (by omega))).trans paired)
    simp [same] at lt
    omega

theorem scope_lt_size_iff (paired : M.left.scope s = M.right.scope s') :
    s.index < t.scopes.size ↔ s'.index < t'.scopes.size := by
  obtain ⟨k, size, size'⟩ := h.scopes
  constructor
  · intro lt
    by_contra outside
    obtain ⟨j, index⟩ := Nat.exists_eq_add_of_le (Nat.le_of_not_lt outside)
    have same : s = ⟨M.base.scopes.size + (k + j)⟩ := M.plainFresh (k + j) s
      (paired.trans ((congrArg M.right.scope (congrArg ScopeId.mk (by omega))).trans
        (M.freshScope (k + j)).symm))
    simp [same] at lt
    omega
  · intro lt
    by_contra outside
    obtain ⟨j, index⟩ := Nat.exists_eq_add_of_le (Nat.le_of_not_lt outside)
    have same : s' = ⟨M.base'.scopes.size + (k + j)⟩ := M.distinctScopes'
      (paired.symm.trans ((congrArg M.left.scope (congrArg ScopeId.mk (by omega))).trans
        (M.freshScope (k + j))))
    simp [same] at lt
    omega

theorem nextDecl : M.left.decl t.nextDecl = M.right.decl t'.nextDecl := by
  obtain ⟨k, size, size'⟩ := h.decls
  have fresh := M.freshDecl k
  rwa [← size, ← size'] at fresh

theorem nextScope : M.left.scope t.nextScope = M.right.scope t'.nextScope := by
  obtain ⟨k, size, size'⟩ := h.scopes
  have fresh := M.freshScope k
  rwa [← size, ← size'] at fresh

theorem plain_nextScope : M.Plain t.nextScope := by
  obtain ⟨k, size, -⟩ := h.scopes
  have plain := M.plainFresh k
  rwa [← size] at plain

theorem keep_nextDecl : M.keep t.nextDecl = true := by
  obtain ⟨k, size, -⟩ := h.decls
  have kept := M.kept k
  rwa [← size] at kept

/-! ## What is asked of tables that match -/

theorem innermost : M.left.scope t.innermost = M.right.scope t'.innermost := by
  have same := h.active
  unfold SymbolTable.innermost
  cases active : t.active with
  | nil =>
    cases active' : t'.active with
    | nil => exact M.global
    | cons s' rest' => simp [active, active'] at same
  | cons s rest =>
    cases active' : t'.active with
    | nil => simp [active, active'] at same
    | cons s' rest' =>
      rw [active, active'] at same
      exact (List.cons.inj same).1

theorem scopeOf?_decl (held : M.left.held x = M.right.held x') :
    (t.scopeOf? (.decl x)).map M.left.scope = (t'.scopeOf? (.decl x')).map M.right.scope := by
  rw [h.confined.scopeOf?, h.confined'.scopeOf?]
  exact M.saved held

theorem plain_scopeOf? (signing : M.signing) (held : M.left.held x = M.right.held x')
    (owns : t.scopeOf? (.decl x) = some s) : M.Plain s := by
  rw [h.confined.scopeOf?] at owns
  exact M.plainSaved signing held owns

/-- A scope that is paired with nothing that another one is paired with is aligned. -/
theorem aligned (plain : M.Plain s) (paired : M.left.scope s = M.right.scope s') :
    M.Aligned (t.scope s) (t'.scope s') := by
  rcases h.scope paired with aligned | ⟨outer, detours⟩
  · exact aligned
  · obtain rfl := plain outer (detours.same.trans paired.symm)
    exact detours.aligned

/-! ## Scopes entered and left -/

theorem enter (paired : M.left.scope s = M.right.scope s') (lt : s.index < t.scopes.size) :
    M.Joins n (t.enter s) (t'.enter s') :=
  { h with
    active := congrArg₂ List.cons paired h.active
    confined := h.confined.enter lt
    confined' := h.confined'.enter ((h.scope_lt_size_iff paired).mp lt) }

theorem leave : M.Joins n t.leave t'.leave :=
  { h with
    active := by
      show t.active.tail.map _ = t'.active.tail.map _
      rw [List.map_tail, List.map_tail, h.active]
    confined := h.confined.leave
    confined' := h.confined'.leave }

/-! ## Constants -/

theorem setConstant (paired : M.left.decl x = M.right.decl x') (value : Constant) :
    M.Joins n (t.setConstant x value) (t'.setConstant x' value) :=
  { h with
    constant := fun {y y'} other => by
      by_cases same : y = x
      · subst same
        rw [right_unique paired other, SymbolTable.constant?_setConstant_self,
          SymbolTable.constant?_setConstant_self]
      · have same' : y' ≠ x' := by
          rintro rfl
          exact same (left_unique paired other)
        rw [SymbolTable.constant?_setConstant_of_ne same, SymbolTable.constant?_setConstant_of_ne same']
        exact h.constant other
    confined := h.confined.setConstant ⟨x', paired.symm⟩ value
    confined' := h.confined'.setConstant ⟨x, paired⟩ value
    bounded := h.bounded.of_declares fun _ => rfl }

theorem startBinding (paired : M.left.decl x = M.right.decl x') :
    M.Joins n { t with binding := x :: t.binding } { t' with binding := x' :: t'.binding } :=
  { h with
    binding := fun {y y'} other => by
      have same : y' = x' ↔ y = x :=
        ⟨fun same => left_unique paired (same ▸ other), fun same => right_unique paired (same ▸ other)⟩
      simp only [List.mem_cons, same, h.binding other]
    confined := h.confined.withBinding fun y outside => by
      have ne : y ≠ x := by
        rintro rfl
        exact outside ⟨x', paired.symm⟩
      simp [ne]
    confined' := h.confined'.withBinding fun y outside => by
      have ne : y ≠ x' := by
        rintro rfl
        exact outside ⟨x, paired⟩
      simp [ne]
    bounded := h.bounded.of_declares fun _ => rfl }

theorem finishBinding (paired : M.left.decl x = M.right.decl x') :
    M.Joins n (t.finishBinding x) (t'.finishBinding x') :=
  { h with
    binding := fun {y y'} other => by
      have same : y' = x' ↔ y = x :=
        ⟨fun same => left_unique paired (same ▸ other), fun same => right_unique paired (same ▸ other)⟩
      simp [SymbolTable.finishBinding, same, h.binding other]
    confined := h.confined.withBinding fun y outside => by
      have ne : y ≠ x := by
        rintro rfl
        exact outside ⟨x', paired.symm⟩
      simp [ne]
    confined' := h.confined'.withBinding fun y outside => by
      have ne : y ≠ x' := by
        rintro rfl
        exact outside ⟨x, paired⟩
      simp [ne]
    bounded := h.bounded.of_declares fun _ => rfl }

/-! ## Declarations changed -/

/-- Paired declarations may be changed so that they match again, with members that do. -/
theorem modifyDecl (paired : M.left.decl x = M.right.decl x') {f f' : Decl → Decl}
    (nature : Decl.KeepsNature f) (nature' : Decl.KeepsNature f')
    (new : (f (t.decl x)).Matches M.left M.right (f' (t'.decl x')))
    (members : (∀ d, (f d).members? = d.members?) ∧ (∀ d, (f' d).members? = d.members?) ∨
      M.left.held x = M.right.held x' ∧
        Stmt.AllMatch M.left M.right ((t.modifyDecl x f).members x) ((t'.modifyDecl x' f').members x'))
    (bounded : (t'.modifyDecl x' f').Bounded m) : M.Joins m (t.modifyDecl x f) (t'.modifyDecl x' f') := by
  have isExtension (d : DeclId) : ((t.modifyDecl x f).decl d).isExtension = (t.decl d).isExtension :=
    (SymbolTable.LeavesScopes.modifyDecl t x nature.scope nature.isExtension).isExtension d
  have isPrimaryClass (d : DeclId) :
      ((t.modifyDecl x f).decl d).isPrimaryClass = (t.decl d).isPrimaryClass := by
    rw [SymbolTable.decl_modifyDecl]
    split
    · rename_i here
      rw [nature.isPrimaryClass, here.1]
    · rfl
  exact
  { h with
    decl := fun {y y'} other => by
      rw [SymbolTable.decl_modifyDecl, SymbolTable.decl_modifyDecl]
      by_cases here : y = x ∧ x.index < t.decls.size
      · rw [if_pos here, if_pos ⟨right_unique paired (here.1 ▸ other), (h.lt_size_iff paired).mp here.2⟩]
        exact new
      · rw [if_neg here, if_neg fun here' : y' = x' ∧ x'.index < t'.decls.size =>
          here ⟨left_unique paired (here'.1 ▸ other), (h.lt_size_iff paired).mpr here'.2⟩]
        exact h.decl other
    members := fun {y y'} other => by
      rcases members with ⟨same, same'⟩ | ⟨-, all⟩
      · rw [SymbolTable.members_modifyDecl same, SymbolTable.members_modifyDecl same']
        exact h.members other
      · by_cases here : y = x
        · obtain rfl := here
          rw [right_unique paired (M.held other)]
          exact all
        · have here' : y' ≠ x' := by
            rintro rfl
            exact here (left_unique paired (M.held other))
          rw [SymbolTable.members_modifyDecl_of_ne here, SymbolTable.members_modifyDecl_of_ne here']
          exact h.members other
    extension := fun signing {y y'} other extension =>
      h.extension signing other ((isExtension y).symm.trans extension)
    apart := fun signing {y y'} other primary global => by
      have kept := SymbolTable.decl_modifyDecl t x y f
      have name : ((t.modifyDecl x f).decl y).name = (t.decl y).name := by
        rw [kept]
        split
        · rename_i here
          rw [nature.name, here.1]
        · rfl
      have scope := (SymbolTable.LeavesScopes.modifyDecl t x nature.scope nature.isExtension).scope y
      rw [name]
      exact h.apart signing other ((isPrimaryClass y).symm.trans primary) (scope.symm.trans global)
    lacks := fun {s name set} found => (h.lacks found).imp id fun lacks =>
      lacks.mono isExtension fun d => (isPrimaryClass d).trans
    decls := by simpa using h.decls
    confined := h.confined.modifyDecl ⟨x', paired.symm⟩ nature
      (members.symm.imp (fun all => ⟨x', all.1.symm⟩) And.left)
    confined' := h.confined'.modifyDecl ⟨x, paired⟩ nature'
      (members.symm.imp (fun all => ⟨x, all.1⟩) And.right)
    bounded }

/-- A change after which there are the same declarations inside as before. -/
theorem modifyDecl_of_declares (paired : M.left.decl x = M.right.decl x') {f f' : Decl → Decl}
    (nature : Decl.KeepsNature f) (nature' : Decl.KeepsNature f')
    (new : (f (t.decl x)).Matches M.left M.right (f' (t'.decl x')))
    (members : ∀ d, (f d).members? = d.members?) (members' : ∀ d, (f' d).members? = d.members?)
    (declares : ∀ d, (f' d).declares = d.declares) :
    M.Joins n (t.modifyDecl x f) (t'.modifyDecl x' f') := by
  refine h.modifyDecl paired nature nature' new (.inl ⟨members, members'⟩)
    (h.bounded.of_declares fun id => ?_)
  rw [SymbolTable.decl_modifyDecl]
  split
  · rename_i here
    rw [declares, here.1]
  · rfl

theorem withTypeIn (paired : M.left.decl x = M.right.decl x') (slot : TypeSlot) {type type' : Ty}
    (new : type.Matches M.left.decl M.right.decl type') :
    M.Joins n (t.modifyDecl x (·.withTypeIn slot type)) (t'.modifyDecl x' (·.withTypeIn slot type')) :=
  h.modifyDecl_of_declares paired (.withTypeIn slot type) (.withTypeIn slot type')
    ((h.decl paired).withTypeIn slot new) (fun d => d.members?_withTypeIn slot type)
    (fun d => d.members?_withTypeIn slot type') fun d => d.declares_withTypeIn slot type'

theorem withInitializer (paired : M.left.decl x = M.right.decl x') {e e' : Expr}
    (new : e.Matches M.left.decl M.right.decl e') :
    M.Joins n (t.modifyDecl x (·.withInitializer e)) (t'.modifyDecl x' (·.withInitializer e')) :=
  h.modifyDecl_of_declares paired (.withInitializer e) (.withInitializer e')
    ((h.decl paired).withInitializer new) (fun d => d.members?_withInitializer e)
    (fun d => d.members?_withInitializer e') fun d => d.declares_withInitializer e'

/-- The parts of paired functions but for their bodies may be changed so that they match again. -/
theorem mapCallable (paired : M.left.decl x = M.right.decl x') {f f' : Callable → Callable}
    (step : ∀ c c', c.Matches M.left M.right c' → (f c).Matches M.left M.right (f' c'))
    (body : ∀ c, (f' c).body = c.body) :
    M.Joins n (t.modifyDecl x (·.mapCallable f)) (t'.modifyDecl x' (·.mapCallable f')) :=
  h.modifyDecl_of_declares paired (.mapCallable f) (.mapCallable f') ((h.decl paired).mapCallable step)
    (fun d => d.members?_mapCallable f) (fun d => d.members?_mapCallable f') fun d =>
      d.declares_mapCallable body

/-- Paired functions get bodies that match. -/
theorem withBody (paired : M.left.decl x = M.right.decl x') {b b' : Body}
    (new : b.Matches M.left M.right b') (bounded : (Signature.withBody t' x' b').Bounded m) :
    M.Joins m (Signature.withBody t x b) (Signature.withBody t' x' b') :=
  h.modifyDecl paired (.mapCallable _) (.mapCallable _)
    ((h.decl paired).mapCallable fun _ _ same =>
      ⟨same.parameters, same.result, same.type, new, same.typeParameters⟩)
    (.inl ⟨fun d => d.members?_mapCallable _, fun d => d.members?_mapCallable _⟩) bounded

/-- Paired classes get members that match. -/
theorem withMembers (held : M.left.held x = M.right.held x') {body body' : List Stmt}
    (new : Stmt.AllMatch M.left M.right body body')
    (bounded : (t'.modifyDecl x' (·.mapMembers fun _ => body')).Bounded m) :
    M.Joins m (t.modifyDecl x (·.mapMembers fun _ => body))
      (t'.modifyDecl x' (·.mapMembers fun _ => body')) := by
  have paired := M.held held
  refine h.modifyDecl paired (.mapMembers _) (.mapMembers _) ((h.decl paired).mapMembers _ _)
    (.inr ⟨held, ?_⟩) bounded
  have members (u : SymbolTable) (y : DeclId) (b : List Stmt) :
      (u.modifyDecl y (·.mapMembers fun _ => b)).members y =
        if (u.decl y).members?.isSome then b else [] := by
    split
    · rename_i isClass
      exact SymbolTable.members_mapMembers_self isClass _
    · rename_i none
      unfold SymbolTable.members
      rw [SymbolTable.decl_modifyDecl]
      split <;> simp [Decl.members?_mapMembers, Option.not_isSome_iff_eq_none.mp none]
  rw [members, members, (h.decl paired).isSome_members?]
  split
  · exact new
  · exact .nil

/-- The types of paired declarations match, one after the other. -/
theorem ownTypes : ∀ ps ps' : List DeclId, ps.map M.left.decl = ps'.map M.right.decl →
    Ty.allLabelled M.left.decl (ps.map fun id => (t.decl id).ownType?.getD .auto) =
      Ty.allLabelled M.right.decl (ps'.map fun id => (t'.decl id).ownType?.getD .auto) ∧
    Ty.AllTame (ps.map fun id => (t.decl id).ownType?.getD .auto) ∧
    Ty.AllTame (ps'.map fun id => (t'.decl id).ownType?.getD .auto)
  | [], [], _ => ⟨rfl, trivial, trivial⟩
  | p :: ps, p' :: ps', same => by
    obtain ⟨first, others⟩ := List.cons.inj same
    obtain ⟨rest, tame, tame'⟩ := ownTypes ps ps' others
    have own := (h.decl first).ownType?
    have one : ((t.decl p).ownType?.getD .auto).Matches M.left.decl M.right.decl
        ((t'.decl p').ownType?.getD .auto) := by
      generalize (t.decl p).ownType? = type? at own
      generalize (t'.decl p').ownType? = type?' at own
      cases own with
      | none => exact ⟨rfl, trivial, trivial⟩
      | some one => exact one
    exact ⟨congrArg₂ List.cons one.same rest, ⟨one.tame, tame⟩, one.tame', tame'⟩
  | [], _ :: _, same => by cases same
  | _ :: _, [], same => by cases same

/-- The types of paired functions are rebuilt. -/
theorem rebuildType (paired : M.left.decl x = M.right.decl x') :
    M.Joins n (Signature.rebuildType t x) (Signature.rebuildType t' x') := by
  refine h.mapCallable paired (fun c c' same => ?_) fun _ => rfl
  obtain ⟨all, tame, tame'⟩ := h.ownTypes c.parameters c'.parameters same.parameters
  exact ⟨same.parameters, same.result, ⟨congrArg₂ Ty.function all same.result.same,
    ⟨tame, same.result.tame⟩, tame', same.result.tame'⟩, same.body, same.typeParameters⟩

end Joins

end Matching

end Deferral
