import Deferral.Proofs.Matching.Change
import Deferral.Proofs.Matching.Labelled
import Deferral.Proofs.Matching.Typing
import Deferral.Proofs.Reading.Building
import Deferral.Proofs.Reading.Copying

/-!
# Numbers that are shifted

What is read by itself is numbered from zero and declared in the global scope. What is read inside some
scope behind something else gets the numbers that come next instead. A table that has grown from another
one holds what a table of its own would hold, with these numbers.
-/

namespace Deferral

/-! ## Shifts -/

/-- How many declarations, scopes and blocks a table has numbered. -/
@[ext]
structure Extent where
  decls : Nat
  scopes : Nat
  blocks : Nat

instance : Preorder Extent := Preorder.lift fun e => (e.decls, e.scopes, e.blocks)

def SymbolTable.extent (t : SymbolTable) : Extent := ⟨t.decls.size, t.scopes.size, t.nextBlock⟩

/-- By how much the numbers of declarations, scopes and blocks are shifted. The global scope has no room of
its own: what lies in it lies in the scope `outer` instead. -/
structure Shift where
  decls : Nat
  scopes : Nat
  blocks : Nat
  outer : ScopeId

namespace Shift

variable (σ : Shift)

def decl (x : DeclId) : DeclId := ⟨σ.decls + x.index⟩

def block (b : Nat) : Nat := σ.blocks + b

def scope (s : ScopeId) : ScopeId := if s = .global then σ.outer else ⟨σ.scopes + (s.index - 1)⟩

def owner : ScopeOwner → ScopeOwner
  | .decl x => .decl (σ.decl x)
  | .block b => .block (σ.block b)
  | .body x => .body (σ.decl x)

@[simp] theorem scope_global : σ.scope .global = σ.outer := if_pos rfl

variable {σ}

theorem index_scope {s : ScopeId} (inner : s ≠ .global) : (σ.scope s).index + 1 = σ.scopes + s.index := by
  have positive : s.index ≠ 0 := fun zero => inner (congrArg ScopeId.mk zero)
  rw [scope, if_neg inner]
  show σ.scopes + (s.index - 1) + 1 = _
  omega

@[simp] theorem decl_inj {x y : DeclId} : σ.decl x = σ.decl y ↔ x = y := by
  obtain ⟨x⟩ := x
  obtain ⟨y⟩ := y
  simp [decl]

theorem owner_injective : Function.Injective σ.owner := by
  intro o o' same
  cases o <;> cases o' <;> simp_all [owner, block]

/-- Scopes keep apart while the one that stands for the global scope is not among the shifted ones. -/
theorem scope_inj (outside : σ.outer.index < σ.scopes) {s s' : ScopeId} :
    σ.scope s = σ.scope s' ↔ s = s' := by
  refine ⟨fun same => ?_, congrArg _⟩
  by_cases global : s = .global <;> by_cases global' : s' = .global
  · rw [global, global']
  · have index := index_scope (σ := σ) global'
    have positive : s'.index ≠ 0 := fun zero => global' (congrArg ScopeId.mk zero)
    rw [← same, global, scope_global] at index
    omega
  · have index := index_scope (σ := σ) global
    have positive : s.index ≠ 0 := fun zero => global (congrArg ScopeId.mk zero)
    rw [same, global', scope_global] at index
    omega
  · have index := index_scope (σ := σ) global
    have index' := index_scope (σ := σ) global'
    rw [same] at index
    exact congrArg ScopeId.mk (show s.index = s'.index by omega)

/-- What has been numbered has the same labels as its shifted numbers. -/
structure Agrees (σ : Shift) (e : Extent) (L L' : Labels) : Prop where
  decl : ∀ x : DeclId, x.index < e.decls → L.decl x = L'.decl (σ.decl x)
  held : ∀ x : DeclId, x.index < e.decls → L.held x = L'.held (σ.decl x)
  block : ∀ b < e.blocks, L.block b = L'.block (σ.block b)
  scope : ∀ s : ScopeId, s.index < e.scopes → L.scope s = L'.scope (σ.scope s)

variable {e e' : Extent} {L L' : Labels}

theorem Agrees.mono (h : σ.Agrees e' L L') (le : e ≤ e') : σ.Agrees e L L' where
  decl x lt := h.decl x (Nat.lt_of_lt_of_le lt le.1)
  held x lt := h.held x (Nat.lt_of_lt_of_le lt le.1)
  block b lt := h.block b (Nat.lt_of_lt_of_le lt le.2.2)
  scope s lt := h.scope s (Nat.lt_of_lt_of_le lt le.2.1)

/-- Two things are the same, whatever labels they get, as long as shifted numbers have the labels of the
numbers. -/
def Same {β : Type} (σ : Shift) (e : Extent) (f f' : Labels → β) : Prop :=
  ∀ L L', σ.Agrees e L L' → f L = f' L'

variable {β γ : Type} {f f' : Labels → β}

theorem Same.mono (h : σ.Same e f f') (le : e ≤ e') : σ.Same e' f f' :=
  fun L L' agrees => h L L' (agrees.mono le)

theorem Same.map (h : σ.Same e f f') (g : β → γ) : σ.Same e (fun L => g (f L)) fun L => g (f' L) :=
  fun L L' agrees => congrArg g (h L L' agrees)

theorem Same.map₂ {δ : Type} {g g' : Labels → γ} (h : σ.Same e f f') (h' : σ.Same e g g') (k : β → γ → δ) :
    σ.Same e (fun L => k (f L) (g L)) fun L => k (f' L) (g' L) :=
  fun L L' agrees => congrArg₂ k (h L L' agrees) (h' L L' agrees)

theorem same_const (b : β) : σ.Same e (fun _ => b) fun _ => b := fun _ _ _ => rfl

end Shift

/-! ## Tables -/

namespace SymbolTable

variable {b t t' : SymbolTable} {inner : List ScopeId} {s : ScopeId}

/-- The shift of what is read next. -/
def shift (b : SymbolTable) : Shift := ⟨b.decls.size, b.scopes.size, b.nextBlock, b.innermost⟩

theorem scope_openFor (t : SymbolTable) (owner : ScopeOwner) (s : ScopeId) : (t.openFor owner).scope s =
    if s = t.nextScope then .child t.innermost else t.scope s := scope_addScope t _ s

theorem find?_openFor (t : SymbolTable) (owner : ScopeOwner) (s : ScopeId) (name : String) :
    ((t.openFor owner).scope s).find? name = (t.scope s).find? name :=
  congrArg (Names.find? · name) (names_addScope t t.innermost s)

theorem Ordered.openFor (h : t.Ordered) (owner : ScopeOwner) : (t.openFor owner).Ordered := fun s => by
  show ((t.addScope t.innermost).scope s).names.Increasing
  rw [names_addScope]
  exact h s

theorem scope_declare (t : SymbolTable) (d : Decl) (s : ScopeId) : (t.declare d).scope s =
    if s = d.scope ∧ d.scope.index < t.scopes.size then (t.scope d.scope).extend d.name [t.nextDecl]
      else t.scope s := scope_modifyScope (t.addUnnamed d) d.scope s _

theorem Ordered.declare (h : t.Ordered) (d : Decl) : (t.declare d).Ordered :=
  Ordered.modifyScope (t := t.addUnnamed d) h (Names.increasing_alter (h _) ..)

theorem extent_le_openFor (t : SymbolTable) (owner : ScopeOwner) : t.extent ≤ (t.openFor owner).extent :=
  ⟨Nat.le_refl _, by simp [extent, size_scopes_openFor], Nat.le_refl _⟩

theorem extent_le_declare (t : SymbolTable) (d : Decl) : t.extent ≤ (t.declare d).extent :=
  ⟨by simp [extent, size_declare], by simp [extent, size_scopes_declare], Nat.le_refl _⟩

theorem extent_modifyDecl (t : SymbolTable) (x : DeclId) (f : Decl → Decl) :
    (t.modifyDecl x f).extent = t.extent := by
  simp [extent, modifyDecl]

/-- A scope that is not there has no names. -/
theorem find?_of_le (beyond : t.scopes.size ≤ s.index) (name : String) :
    (t.scope s).find? name = none := by
  simp only [SymbolTable.scope, Array.getD_eq_getD_getElem?, Array.getElem?_eq_none beyond]
  rfl

/-- The overload set `new` of a name behind the set it has. -/
def joined (old new : Option Overloads) : Option Overloads := Option.merge (· ++ ·) old new

theorem joined_some (old : Option Overloads) (new : Overloads) :
    joined old (some new) = some (old.getD [] ++ new) := by
  cases old <;> rfl

@[simp] theorem joined_none (old : Option Overloads) : joined old none = old := by
  cases old <;> rfl

@[simp] theorem none_joined (new : Option Overloads) : joined none new = new := by
  cases new <;> rfl

theorem getD_joined (old new : Option Overloads) :
    (joined old new).getD [] = old.getD [] ++ new.getD [] := by
  cases old <;> cases new <;> simp [joined]

/-- The table `t'` has grown from the table `b` as the table `t` has from nothing: it holds what `t` holds,
with shifted numbers, and otherwise what `b` holds. The scopes `inner` have been entered meanwhile. -/
structure GrownFrom (b : SymbolTable) (inner : List ScopeId) (t t' : SymbolTable) : Prop where
  size : t'.decls.size = b.decls.size + t.decls.size
  scopes : t'.scopes.size + 1 = b.scopes.size + t.scopes.size
  blocks : t'.nextBlock = b.nextBlock + t.nextBlock
  outside : b.innermost.index < b.scopes.size
  decl : ∀ x, x.index < t.decls.size →
    b.shift.Same t.extent (fun L => (t.decl x).labelled L) fun L => (t'.decl (b.shift.decl x)).labelled L
  members : ∀ x, x.index < t.decls.size → b.shift.Same t.extent (fun L => Stmt.allLabelled L (t.members x))
    fun L => Stmt.allLabelled L (t'.members (b.shift.decl x))
  earlier : ∀ x : DeclId, x.index < b.decls.size → t'.decl x = b.decl x
  parent : ∀ s, s ≠ .global → s.index < t.scopes.size →
    (t'.scope (b.shift.scope s)).parent = (t.scope s).parent.map b.shift.scope
  outermost : (t'.scope b.innermost).parent = (b.scope b.innermost).parent
  names : ∀ s : ScopeId, s.index < t.scopes.size → ∀ name, (t'.scope (b.shift.scope s)).find? name =
    joined ((b.scope (b.shift.scope s)).find? name) (((t.scope s).find? name).map (List.map b.shift.decl))
  others : ∀ s : ScopeId, s.index < b.scopes.size → s ≠ b.innermost → t'.scope s = b.scope s
  saved : t'.saved = t.saved.map (Prod.map b.shift.owner b.shift.scope) ++ b.saved
  constants : t'.constants = b.constants
  binding : t'.binding = b.binding
  active : ∃ rest, t.active = inner ++ .global :: rest
  active' : t'.active = inner.map b.shift.scope ++ b.active
  global : 0 < t.scopes.size
  entered : ∀ s ∈ inner, s.index < t.scopes.size
  ordered : t.Ordered
  ordered' : t'.Ordered

namespace GrownFrom

variable (h : GrownFrom b inner t t')

include h

theorem nextDecl : t'.nextDecl = b.shift.decl t.nextDecl := congrArg DeclId.mk h.size

theorem nextScope : t'.nextScope = b.shift.scope t.nextScope := by
  have inner : t.nextScope ≠ .global := fun same => by
    have zero : t.scopes.size = 0 := congrArg ScopeId.index same
    exact absurd h.global (by omega)
  have index : (b.shift.scope t.nextScope).index + 1 = b.scopes.size + t.scopes.size :=
    Shift.index_scope inner
  have scopes := h.scopes
  exact congrArg ScopeId.mk (show t'.scopes.size = (b.shift.scope t.nextScope).index by omega)

theorem innermost : t'.innermost = b.shift.scope t.innermost := by
  obtain ⟨rest, active⟩ := h.active
  unfold SymbolTable.innermost
  rw [active, h.active']
  cases inner with
  | nil => exact b.shift.scope_global.symm
  | cons s _ => rfl

theorem innermost_lt : t.innermost.index < t.scopes.size := by
  obtain ⟨rest, active⟩ := h.active
  unfold SymbolTable.innermost
  rw [active]
  cases inner with
  | nil => exact h.global
  | cons s _ => exact h.entered s (by simp)

theorem scope_lt_iff : (b.shift.scope s).index < t'.scopes.size ↔ s.index < t.scopes.size := by
  have outside := h.outside
  have scopes := h.scopes
  have positive := h.global
  by_cases global : s = .global
  · subst global
    rw [Shift.scope_global]
    exact ⟨fun _ => positive, fun _ => show b.innermost.index < _ by omega⟩
  · have index : (b.shift.scope s).index + 1 = b.scopes.size + s.index := Shift.index_scope global
    omega

theorem decl_lt_iff {x : DeclId} :
    (b.shift.decl x).index < t'.decls.size ↔ x.index < t.decls.size := by
  have size := h.size
  show b.decls.size + x.index < _ ↔ _
  omega

/-- Scopes that are new now are none of those that `b` has. -/
theorem ne_nextScope (lt : s.index < b.scopes.size) : s ≠ t'.nextScope := by
  rintro rfl
  have size : t'.scopes.size < b.scopes.size := lt
  have scopes := h.scopes
  have positive := h.global
  omega

/-! ### Scopes and blocks -/

theorem enter (lt : s.index < t.scopes.size) :
    GrownFrom b (s :: inner) (t.enter s) (t'.enter (b.shift.scope s)) :=
  { h with
    active := h.active.imp fun _ active => congrArg (s :: ·) active
    active' := congrArg (b.shift.scope s :: ·) h.active'
    entered := List.forall_mem_cons.mpr ⟨lt, h.entered⟩ }

omit h in
theorem leave (h : GrownFrom b (s :: inner) t t') : GrownFrom b inner t.leave t'.leave :=
  { h with
    active := by
      obtain ⟨rest, active⟩ := h.active
      exact ⟨rest, by rw [SymbolTable.leave, active]; rfl⟩
    active' := by
      rw [SymbolTable.leave, h.active']
      rfl
    entered := (List.forall_mem_cons.mp h.entered).2 }

theorem takeBlock : GrownFrom b inner t.takeBlock t'.takeBlock := by
  have le : t.extent ≤ t.takeBlock.extent := ⟨Nat.le_refl _, Nat.le_refl _, Nat.le_succ _⟩
  exact
  { h with
    blocks := congrArg Nat.succ h.blocks
    decl := fun x lt => (h.decl x lt).mono le
    members := fun x lt => (h.members x lt).mono le }

/-- A scope is made inside the innermost one. -/
theorem openFor (owner : ScopeOwner) :
    GrownFrom b inner (t.openFor owner) (t'.openFor (b.shift.owner owner)) := by
  have le := t.extent_le_openFor owner
  have next {s : ScopeId} : b.shift.scope s = t'.nextScope ↔ s = t.nextScope := by
    rw [h.nextScope, Shift.scope_inj h.outside]
  exact
  { h with
    scopes := by
      rw [size_scopes_openFor, size_scopes_openFor]
      have scopes := h.scopes
      omega
    decl := fun x lt => (h.decl x lt).mono le
    members := fun x lt => (h.members x lt).mono le
    parent := fun s inner lt => by
      rw [size_scopes_openFor] at lt
      rw [scope_openFor, scope_openFor]
      by_cases last : s = t.nextScope
      · rw [if_pos last, if_pos (next.mpr last), h.innermost]
        rfl
      · rw [if_neg last, if_neg (mt next.mp last)]
        have ne : s.index ≠ t.scopes.size := fun same => last (congrArg ScopeId.mk same)
        exact h.parent s inner (by omega)
    outermost := by
      rw [scope_openFor, if_neg (h.ne_nextScope h.outside)]
      exact h.outermost
    names := fun s lt name => by
      rw [size_scopes_openFor] at lt
      rw [find?_openFor, find?_openFor]
      by_cases old : s.index < t.scopes.size
      · exact h.names s old name
      · -- The scope that is made has no names, and neither had the place it takes.
        have last : s = t.nextScope := congrArg ScopeId.mk (show s.index = t.scopes.size by omega)
        have beyond : b.scopes.size ≤ (b.shift.scope s).index := by
          rw [last, ← h.nextScope]
          by_contra earlier
          exact h.ne_nextScope (Nat.lt_of_not_le earlier) rfl
        rw [find?_of_le (Nat.le_of_not_lt (mt h.scope_lt_iff.mp old)), find?_of_le beyond,
          find?_of_le (Nat.le_of_not_lt old)]
        rfl
    others := fun s lt ne => by
      rw [scope_openFor, if_neg (h.ne_nextScope lt)]
      exact h.others s lt ne
    saved := by
      show (b.shift.owner owner, t'.nextScope) :: t'.saved = _
      rw [h.saved, h.nextScope]
      rfl
    global := by
      rw [size_scopes_openFor]
      exact Nat.succ_pos _
    entered := fun s member => by
      rw [size_scopes_openFor]
      exact Nat.lt_succ_of_lt (h.entered s member)
    ordered := h.ordered.openFor owner
    ordered' := h.ordered'.openFor _ }

/-! ### Declarations -/

/-- A name is declared in the innermost scope. -/
theorem declare {name : String} {kind kind' : Declared} {span span' : Span}
    (new : b.shift.Same t.extent (fun L => kind.labelled L) fun L => kind'.labelled L)
    (empty : (Decl.mk name kind t.innermost span).members?.getD [] = [])
    (empty' : (Decl.mk name kind' t'.innermost span').members?.getD [] = []) :
    GrownFrom b inner (t.declare ⟨name, kind, t.innermost, span⟩)
      (t'.declare ⟨name, kind', t'.innermost, span'⟩) := by
  have le := t.extent_le_declare
  have present : t'.innermost.index < t'.scopes.size := by
    rw [h.innermost]
    exact h.scope_lt_iff.mpr h.innermost_lt
  have here {s : ScopeId} : b.shift.scope s = t'.innermost ↔ s = t.innermost := by
    rw [h.innermost, Shift.scope_inj h.outside]
  have labelled : b.shift.Same t.extent
      (fun L => (Decl.mk name kind t.innermost span).labelled L)
      fun L => (Decl.mk name kind' t'.innermost span').labelled L := by
    intro L L' agrees
    have same : kind.labelled L = kind'.labelled L' := new L L' agrees
    show Decl.mk name (kind.labelled L) (L.scope t.innermost) .nowhere = _
    rw [same, agrees.scope _ h.innermost_lt, h.innermost]
    rfl
  have lt_cases {x : DeclId} {d : Decl} (lt : x.index < (t.declare d).decls.size) :
      x.index < t.decls.size ∨ x = t.nextDecl := lt_size_declare lt
  have members (u : SymbolTable) (d : Decl) (none : d.members?.getD [] = []) :
      (u.declare d).members u.nextDecl = [] := by
    rw [SymbolTable.members, decl_declare_nextDecl, none]
  have kept (u : SymbolTable) (d : Decl) {x : DeclId} (lt : x.index < u.decls.size) :
      (u.declare d).members x = u.members x := by
    rw [SymbolTable.members, decl_declare_of_lt lt]
    rfl
  exact
  { h with
    size := by
      rw [size_declare, size_declare, h.size]
      omega
    scopes := by
      rw [size_scopes_declare, size_scopes_declare]
      exact h.scopes
    decl := fun x lt => by
      refine Shift.Same.mono ?_ (le _)
      rcases lt_cases lt with old | rfl
      · rw [decl_declare_of_lt old, decl_declare_of_lt (h.decl_lt_iff.mpr old)]
        exact h.decl x old
      · rw [← h.nextDecl, decl_declare_nextDecl, decl_declare_nextDecl]
        exact labelled
    members := fun x lt => by
      refine Shift.Same.mono ?_ (le _)
      rcases lt_cases lt with old | rfl
      · rw [kept _ _ old, kept _ _ (h.decl_lt_iff.mpr old)]
        exact h.members x old
      · rw [← h.nextDecl, members _ _ empty, members _ _ empty']
        exact fun _ _ _ => rfl
    earlier := fun x lt => by
      rw [decl_declare_of_lt (by rw [h.size]; omega)]
      exact h.earlier x lt
    parent := fun s inner lt => by
      rw [parent_declare, parent_declare]
      exact h.parent s inner (by rwa [size_scopes_declare] at lt)
    outermost := by
      rw [parent_declare]
      exact h.outermost
    names := fun s lt other => by
      rw [size_scopes_declare] at lt
      rw [scope_declare, scope_declare]
      by_cases inside : s = t.innermost
      · subst inside
        rw [if_pos ⟨h.innermost.symm, present⟩, if_pos ⟨rfl, lt⟩]
        have before := h.names t.innermost lt
        rw [← h.innermost] at before ⊢
        by_cases same : other = name
        · subst same
          rw [Scope.find?_extend_self (h.ordered' _), Scope.find?_extend_self (h.ordered _), before,
            Option.map_some, joined_some, getD_joined, List.map_append, h.nextDecl]
          cases (t.scope t.innermost).find? other <;> simp
        · rw [Scope.find?_extend_of_ne _ same, Scope.find?_extend_of_ne _ same, before]
      · rw [if_neg fun both => inside (here.mp both.1), if_neg fun both => inside both.1]
        exact h.names s lt other
    others := fun s lt ne => by
      rw [scope_declare, if_neg ?_]
      · exact h.others s lt ne
      · rintro ⟨same, -⟩
        obtain rfl : s = b.shift.scope t.innermost := Eq.trans same h.innermost
        have inner : t.innermost ≠ .global := fun global => by
          rw [global, Shift.scope_global] at ne
          exact ne rfl
        have index : (b.shift.scope t.innermost).index + 1 = b.scopes.size + t.innermost.index :=
          Shift.index_scope inner
        have positive : t.innermost.index ≠ 0 := fun zero => inner (congrArg ScopeId.mk zero)
        omega
    global := by
      rw [size_scopes_declare]
      exact h.global
    entered := fun s member => by
      rw [size_scopes_declare]
      exact h.entered s member
    ordered := h.ordered.declare _
    ordered' := h.ordered'.declare _ }

/-- What a declaration holds is changed in step. -/
theorem modifyDecl {x : DeclId} (lt : x.index < t.decls.size) {f f' : Decl → Decl}
    (new : b.shift.Same t.extent (fun L => (f (t.decl x)).labelled L)
      fun L => (f' (t'.decl (b.shift.decl x))).labelled L)
    (members : b.shift.Same t.extent (fun L => Stmt.allLabelled L ((f (t.decl x)).members?.getD []))
      fun L => Stmt.allLabelled L ((f' (t'.decl (b.shift.decl x))).members?.getD [])) :
    GrownFrom b inner (t.modifyDecl x f) (t'.modifyDecl (b.shift.decl x) f') := by
  have extent := t.extent_modifyDecl x f
  have lt' := h.decl_lt_iff.mpr lt
  exact
  { h with
    size := by
      rw [size_modifyDecl, size_modifyDecl]
      exact h.size
    decl := fun y inside => by
      rw [extent]
      by_cases same : y = x
      · subst same
        rw [decl_modifyDecl_self lt, decl_modifyDecl_self lt']
        exact new
      · rw [decl_modifyDecl_of_ne same, decl_modifyDecl_of_ne (mt Shift.decl_inj.mp same)]
        exact h.decl y (by rwa [size_modifyDecl] at inside)
    members := fun y inside => by
      rw [extent]
      unfold SymbolTable.members
      by_cases same : y = x
      · subst same
        rw [decl_modifyDecl_self lt, decl_modifyDecl_self lt']
        exact members
      · rw [decl_modifyDecl_of_ne same, decl_modifyDecl_of_ne (mt Shift.decl_inj.mp same)]
        exact h.members y (by rwa [size_modifyDecl] at inside)
    earlier := fun y inside => by
      rw [decl_modifyDecl_of_ne ?_]
      · exact h.earlier y inside
      · rintro rfl
        have outside : b.decls.size + x.index < b.decls.size := inside
        omega }

end GrownFrom

/-- Nothing has been read yet. -/
theorem GrownFrom.start (floor : List ScopeId) (outside : b.innermost.index < b.scopes.size)
    (ordered : b.Ordered) :
    GrownFrom b [] { empty with active := .global :: floor } b where
  size := rfl
  scopes := rfl
  blocks := rfl
  outside
  decl _ none := absurd none (Nat.not_lt_zero _)
  members _ none := absurd none (Nat.not_lt_zero _)
  earlier _ _ := rfl
  parent s inner lt := absurd (congrArg ScopeId.mk (show s.index = 0 by exact Nat.lt_one_iff.mp lt)) inner
  outermost := rfl
  names s lt name := by
    obtain rfl : s = .global := congrArg ScopeId.mk (Nat.lt_one_iff.mp lt)
    exact (joined_none _).symm
  others _ _ _ := rfl
  saved := rfl
  constants := rfl
  binding := rfl
  active := ⟨floor, rfl⟩
  active' := rfl
  global := Nat.zero_lt_one
  entered _ none := nomatch none
  ordered := built_empty.ordered
  ordered' := ordered

end SymbolTable

/-! ## Reading behind something else

What can be read by itself can be read behind other tokens and in front of others, where it makes of the
table what it makes of the empty one, with shifted numbers. Only an `else` would be read differently: it goes
on with an `if` that ends what stands in front of it, so that none may come next.
-/

open SymbolTable

/-- Where something is read: the table there, the tokens that come behind it and the end of the input. -/
structure Surroundings where
  base : SymbolTable
  behind : List Token
  stop : Token
  noElse : (behind.head?.getD stop).kind ≠ .keyword .elseKw

namespace Surroundings

variable (S : Surroundings)

abbrev shift : Shift := S.base.shift

/-- The cursor `c'` stands before the same tokens as `c`, apart from places, and then before those that come
behind. -/
structure Ahead (c c' : Cursor) : Prop where
  scanned : c.IsScanned
  upcoming : ∃ u, c'.upcoming = u ++ S.behind ∧ u.map Token.unplaced = c.upcoming.map Token.unplaced
  stop : c'.stop = S.stop

variable {S} {c c' : Cursor}

namespace Ahead

variable (h : S.Ahead c c')

include h

/-- Both cursors stand before tokens of the same kind and text, or the first is at the end. -/
theorem cases_cons : c.upcoming = [] ∧ c'.upcoming = S.behind ∨
    ∃ t rest t' rest', c.upcoming = t :: rest ∧ c'.upcoming = t' :: rest' ∧
      t'.unplaced = t.unplaced ∧ S.Ahead c.next c'.next := by
  obtain ⟨u, upcoming, same⟩ := h.upcoming
  cases front : c.upcoming with
  | nil =>
    rw [front, List.map_nil, List.map_eq_nil_iff] at same
    exact .inl ⟨rfl, by rw [upcoming, same, List.nil_append]⟩
  | cons t rest =>
    rw [front] at same
    obtain ⟨t', rest', rfl, token, others⟩ := List.map_eq_cons_iff.mp same
    refine .inr ⟨t, rest, t', rest' ++ S.behind, rfl, upcoming, token, ?_, ⟨rest', ?_, ?_⟩, ?_⟩
    · have kind : c.kind ≠ .endOfInput := by
        rw [Cursor.kind, Cursor.current, front]
        exact h.scanned.before t (front ▸ List.mem_cons_self ..)
      exact (Reader.passed_next h.scanned rfl kind).behind
    · rw [c'.upcoming_next, upcoming]
      rfl
    · rw [c.upcoming_next, front, others]
      rfl
    · rw [c'.stop_next]
      exact h.stop

theorem kind_eq (some : c.upcoming ≠ []) : c'.kind = c.kind := by
  rcases h.cases_cons with ⟨none, -⟩ | ⟨t, rest, t', rest', front, front', same, -⟩
  · exact absurd none some
  · rw [Cursor.kind, Cursor.kind, Cursor.current, Cursor.current, front, front']
    show t'.unplaced.kind = t.unplaced.kind
    rw [same]

/-- A token has been passed. -/
theorem pass {k : TokenKind} (kind : c.kind = k) (inside : k ≠ .endOfInput) :
    c'.kind = k ∧ c'.current.unplaced = c.current.unplaced ∧ S.Ahead c.next c'.next := by
  rcases h.cases_cons with ⟨none, -⟩ | ⟨t, rest, t', rest', front, front', same, next⟩
  · refine absurd (kind.symm.trans ?_) inside
    rw [Cursor.kind, Cursor.current, none]
    exact h.scanned.ended
  · refine ⟨(h.kind_eq (by simp [front])).trans kind, ?_, next⟩
    rw [Cursor.current, Cursor.current, front, front']
    exact same

theorem length_le : c.upcoming.length + S.behind.length = c'.upcoming.length := by
  obtain ⟨u, upcoming, same⟩ := h.upcoming
  have length := congrArg List.length same
  simp only [List.length_map] at length
  rw [upcoming, List.length_append, length]

end Ahead

end Surroundings

namespace Reader

variable {S : Surroundings} {e e' : Extent} {α α' β β' : Type} {A : Extent → α → α' → Prop}
  {B : Extent → β → β' → Prop} {x : Reader α} {x' : Reader α'} {c c' : Cursor} {t : SymbolTable}

/-- Whatever `x` reads by itself, from a table of at least the extent `e`, the reader `x'` reads in the
surroundings `S`, and the values correspond. -/
def Shifts (S : Surroundings) (e : Extent) (A : Extent → α → α' → Prop) (x : Reader α)
    (x' : Reader α') : Prop :=
  ∀ ⦃inner c t a c₁ t₁ c' t'⦄, e ≤ t.extent → GrownFrom S.base inner t t' → S.Ahead c c' →
    Reads x c t a c₁ t₁ → ∃ a' c₁' t₁', Reads x' c' t' a' c₁' t₁' ∧ GrownFrom S.base inner t₁ t₁' ∧
      S.Ahead c₁ c₁' ∧ t.extent ≤ t₁.extent ∧ A t₁.extent a a'

/-- What `x` reads from the cursor `c`, the reader `x'` reads from the cursor `c'`. -/
def ShiftsAt (S : Surroundings) (e : Extent) (A : Extent → α → α' → Prop) (x : Reader α)
    (x' : Reader α') (c c' : Cursor) : Prop :=
  ∀ ⦃inner t a c₁ t₁ t'⦄, e ≤ t.extent → GrownFrom S.base inner t t' → S.Ahead c c' →
    Reads x c t a c₁ t₁ → ∃ a' c₁' t₁', Reads x' c' t' a' c₁' t₁' ∧ GrownFrom S.base inner t₁ t₁' ∧
      S.Ahead c₁ c₁' ∧ t.extent ≤ t₁.extent ∧ A t₁.extent a a'

theorem Shifts.at (h : Shifts S e A x x') (c c' : Cursor) : ShiftsAt S e A x x' c c' :=
  fun _ _ _ _ _ _ within grown ahead reads => h within grown ahead reads

theorem shifts_pure {a : α} {a' : α'} (related : ∀ e₁, e ≤ e₁ → A e₁ a a') :
    Shifts S e A (pure a) (pure a') := by
  intro inner c t b c₁ t₁ c' t' within grown ahead reads
  obtain ⟨rfl, rfl, rfl⟩ := reads_pure.mp reads
  exact ⟨a', c', t', reads_pure.mpr ⟨rfl, rfl, rfl⟩, grown, ahead, le_refl _, related _ within⟩

theorem shifts_throw (d : Diagnostic) : Shifts S e A (throw d) x' :=
  fun _ _ _ _ _ _ _ _ _ _ _ reads => absurd reads reads_throw

theorem Shifts.bind (h : Shifts S e A x x') {f : α → Reader β} {f' : α' → Reader β'}
    (rest : ∀ e₁ a a', e ≤ e₁ → A e₁ a a' → Shifts S e₁ B (f a) (f' a')) :
    Shifts S e B (x >>= f) (x' >>= f') := by
  intro inner c t b c₂ t₂ c' t' within grown ahead reads
  obtain ⟨a, c₁, t₁, first, second⟩ := reads_bind.mp reads
  obtain ⟨a', c₁', t₁', first', grown₁, ahead₁, le₁, related⟩ := h within grown ahead first
  obtain ⟨b', c₂', t₂', second', grown₂, ahead₂, le₂, related'⟩ :=
    rest _ a a' (le_trans within le₁) related (le_refl _) grown₁ ahead₁ second
  exact ⟨b', c₂', t₂', reads_bind.mpr ⟨a', c₁', t₁', first', second'⟩, grown₂, ahead₂,
    le_trans le₁ le₂, related'⟩

theorem Shifts.map (h : Shifts S e A x x') {f : α → β} {f' : α' → β'}
    (rest : ∀ e₁ a a', A e₁ a a' → B e₁ (f a) (f' a')) :
    Shifts S e B (f <$> x) (f' <$> x') := by
  intro inner c t b c₁ t₁ c' t' within grown ahead reads
  obtain ⟨a, first, rfl⟩ := reads_map.mp reads
  obtain ⟨a', c₁', t₁', first', grown', ahead', le, related⟩ := h within grown ahead first
  exact ⟨f' a', c₁', t₁', reads_map.mpr ⟨a', first', rfl⟩, grown', ahead', le, rest _ _ _ related⟩

/-! ## Readers that need another token -/

/-- Nothing is read where no token is left. -/
def Starved (x : Reader α) : Prop :=
  ∀ ⦃c t a c' t'⦄, c.IsScanned → c.upcoming = [] → ¬Reads x c t a c' t'

theorem Starved.bind (h : Starved x) (f : α → Reader β) : Starved (x >>= f) := by
  intro c t b c' t' scanned ended reads
  obtain ⟨a, c₁, t₁, first, -⟩ := reads_bind.mp reads
  exact h scanned ended first

theorem starved_pure_bind {a : α} {f : α → Reader β} (h : Starved (f a)) : Starved (pure a >>= f) := by
  rwa [pure_bind]

theorem Starved.map (h : Starved x) (f : α → β) : Starved (f <$> x) := by
  intro c t b c' t' scanned ended reads
  obtain ⟨a, first, -⟩ := reads_map.mp reads
  exact h scanned ended first

/-- Where a reader stays, the next one needs a token. -/
theorem starved_bind_of_stays {f : α → Reader β}
    (stays : ∀ ⦃c t a c' t'⦄, Reads x c t a c' t' → c' = c) (rest : ∀ a, Starved (f a)) :
    Starved (x >>= f) := by
  intro c t b c' t' scanned ended reads
  obtain ⟨a, c₁, t₁, first, second⟩ := reads_bind.mp reads
  obtain rfl := stays first
  exact rest a scanned ended second

theorem Starved.under (h : Starved x) (scope : ScopeId) : Starved (under scope x) := by
  intro c t b c' t' scanned ended reads
  obtain ⟨t₁, inside, -⟩ := reads_under.mp reads
  exact h scanned ended inside

theorem starved_throw (d : Diagnostic) : Starved (throw d : Reader α) :=
  fun _ _ _ _ _ _ _ => reads_throw

theorem kind_of_ended {c : Cursor} (scanned : c.IsScanned) (ended : c.upcoming = []) :
    c.kind = .endOfInput := by
  rw [Cursor.kind, Cursor.current, ended]
  exact scanned.ended

theorem starved_bind_get {f : Cursor → Reader β}
    (rest : ∀ c : Cursor, c.kind = .endOfInput → Starved (f c)) : Starved (get >>= f) :=
  fun _ _ _ _ _ scanned ended reads =>
    rest _ (kind_of_ended scanned ended) scanned ended (peel_get reads)

theorem starved_bind_kind {f : TokenKind → Reader β} (rest : Starved (f .endOfInput)) :
    Starved (kind >>= f) := by
  intro c t b c' t' scanned ended reads
  have reads := peel_seen reads
  rw [kind_of_ended scanned ended] at reads
  exact rest scanned ended reads

theorem starved_bind_accept {k : TokenKind} (inside : k ≠ .endOfInput) {f : Bool → Reader β}
    (rest : Starved (f false)) : Starved (accept k >>= f) := by
  intro c t b c' t' scanned ended reads
  rcases peel_accept scanned inside reads with ⟨token, c₁, passed, -⟩ | ⟨-, reads⟩
  · have upcoming := passed.upcoming
    rw [ended] at upcoming
    cases upcoming
  · exact rest scanned ended reads

theorem starved_expect {k : TokenKind} (inside : k ≠ .endOfInput) : Starved (expect k) := by
  refine starved_bind_get fun c kind => ?_
  rw [Cursor.expect, kind, if_neg inside.symm]
  exact starved_throw _

theorem starved_identifierFor (purpose : String) : Starved (identifierFor purpose) := by
  refine starved_bind_get fun c kind => ?_
  rw [kind, if_neg (by decide)]
  exact starved_throw _

theorem starved_setAside (ends : List TokenKind) : Starved (setAside ends) := by
  intro c t f c' t' scanned ended reads
  obtain ⟨aside, -⟩ := reads_setAside scanned reads
  have upcoming := aside.upcoming
  rw [ended] at upcoming
  exact aside.run.nonempty (List.append_eq_nil_iff.mp upcoming.symm).1

/-! ## Tokens -/

theorem shifts_seen {see : Cursor → α} : Shifts S e (fun _ _ _ => True) (see <$> get) (see <$> get) := by
  intro inner c t a c₁ t₁ c' t' within grown ahead reads
  obtain ⟨a₁, got, rfl⟩ := reads_map.mp reads
  obtain ⟨rfl, rfl, rfl⟩ := reads_pure.mp got
  exact ⟨see c', c', t', reads_map.mpr ⟨c', reads_pure.mpr ⟨rfl, rfl, rfl⟩, rfl⟩, grown, ahead,
    le_refl _, trivial⟩

theorem reads_advance : Reads advance c t c.current c.next t := Resolution.runs_pure.mpr ⟨rfl, rfl⟩

theorem reads_expect {k : TokenKind} (kind : c.kind = k) : Reads (expect k) c t c.current c.next t := by
  refine reads_bind.mpr ⟨c, c, t, reads_pure.mpr ⟨rfl, rfl, rfl⟩, ?_⟩
  rw [Cursor.expect, if_pos kind]
  exact reads_bind.mpr ⟨⟨⟩, c.next, t, Resolution.runs_pure.mpr ⟨rfl, rfl⟩, reads_pure.mpr ⟨rfl, rfl, rfl⟩⟩

theorem reads_identifierFor {purpose : String} (kind : c.kind = .identifier) :
    Reads (identifierFor purpose) c t c.current c.next t := by
  refine reads_bind.mpr ⟨c, c, t, reads_pure.mpr ⟨rfl, rfl, rfl⟩, ?_⟩
  rw [if_pos kind]
  exact reads_advance

/-- The next kind is the same, where a token is needed anyway. -/
theorem shifts_bind_get {f : Cursor → Reader β} {f' : Cursor → Reader β'}
    (rest : ∀ c c' : Cursor, c'.kind = c.kind → c.kind ≠ .endOfInput → ShiftsAt S e B (f c) (f' c') c c')
    (starved : Starved (get >>= f)) : Shifts S e B (get >>= f) (get >>= f') := by
  intro inner c t b c₁ t₁ c' t' within grown ahead reads
  cases front : c.upcoming with
  | nil => exact absurd reads (starved ahead.scanned front)
  | cons token more =>
    have inside : c.kind ≠ .endOfInput := by
      rw [Cursor.kind, Cursor.current, front]
      exact ahead.scanned.before token (front ▸ List.mem_cons_self ..)
    obtain ⟨b', c₁', t₁', reads', after⟩ :=
      rest c c' (ahead.kind_eq (by simp [front])) inside within grown ahead (peel_get reads)
    exact ⟨b', c₁', t₁', reads_bind.mpr ⟨c', c', t', reads_pure.mpr ⟨rfl, rfl, rfl⟩, reads'⟩, after⟩

theorem shifts_bind_kind {f : TokenKind → Reader β} {f' : TokenKind → Reader β'} (rest : ∀ k, Shifts S e B (f k) (f' k))
    (starved : Starved (f .endOfInput)) : Shifts S e B (kind >>= f) (kind >>= f') := by
  unfold kind
  rw [map_eq_pure_bind, bind_assoc, bind_assoc]
  refine shifts_bind_get (fun c c' same _ => ?_) ?_
  · rw [pure_bind, pure_bind, same]
    exact (rest _).at c c'
  · refine starved_bind_get fun c kind => ?_
    rwa [pure_bind, kind]

/-- A token that is there is passed. -/
theorem shiftsAt_bind_advance (inside : c.kind ≠ .endOfInput) {f : Token → Reader β}
    {f' : Token → Reader β'} (rest : ∀ token token', Shifts S e B (f token) (f' token')) :
    ShiftsAt S e B (advance >>= f) (advance >>= f') c c' := by
  intro inner t b c₁ t₁ t' within grown ahead reads
  obtain ⟨token, c₂, t₂, moved, second⟩ := reads_bind.mp reads
  obtain ⟨same, rfl⟩ := Resolution.runs_pure.mp moved
  obtain ⟨rfl, rfl⟩ := Prod.mk.inj (Except.ok.inj same)
  obtain ⟨-, -, next⟩ := ahead.pass rfl inside
  obtain ⟨b', c₁', t₁', second', after⟩ := rest _ c'.current within grown next second
  exact ⟨b', c₁', t₁', reads_bind.mpr ⟨_, _, _, reads_advance, second'⟩, after⟩

theorem shifts_bind_advance {f : Token → Reader β} {f' : Token → Reader β'}
    (rest : ∀ token token' : Token, token'.unplaced = token.unplaced → Shifts S e B (f token) (f' token'))
    (starved : ∀ token, Starved (f token)) : Shifts S e B (advance >>= f) (advance >>= f') := by
  intro inner c t b c₁ t₁ c' t' within grown ahead reads
  obtain ⟨token, c₂, t₂, moved, second⟩ := reads_bind.mp reads
  obtain ⟨same, rfl⟩ := Resolution.runs_pure.mp moved
  obtain ⟨rfl, rfl⟩ := Prod.mk.inj (Except.ok.inj same)
  rcases ahead.cases_cons with ⟨none, -⟩ | ⟨t, rest₁, t', rest₁', front, front', token, next⟩
  · have stays : c.next = c := by
      obtain ⟨upcoming, stop, last⟩ := c
      obtain rfl : upcoming = [] := none
      rfl
    rw [stays] at second
    exact absurd second (starved _ ahead.scanned none)
  · have current : c'.current.unplaced = c.current.unplaced := by
      rw [Cursor.current, Cursor.current, front, front']
      exact token
    obtain ⟨b', c₁', t₁', second', after⟩ := rest _ _ current within grown next second
    exact ⟨b', c₁', t₁', reads_bind.mpr ⟨_, _, _, reads_advance, second'⟩, after⟩

theorem shifts_expect {k : TokenKind} (inside : k ≠ .endOfInput) :
    Shifts S e (fun _ _ _ => True) (expect k) (expect k) := by
  intro inner c t token c₁ t₁ c' t' within grown ahead reads
  have reads := peel_get reads
  unfold Cursor.expect at reads
  split at reads
  · rename_i taken
    split at taken
    · rename_i kind
      obtain ⟨rfl, rfl⟩ := Prod.mk.inj (Except.ok.inj taken)
      have last := peel_set reads
      obtain ⟨rfl, rfl, rfl⟩ := reads_pure.mp last
      obtain ⟨kind', -, next⟩ := ahead.pass kind inside
      exact ⟨c'.current, c'.next, t', reads_expect kind', grown, next, le_refl _, trivial⟩
    · cases taken
  · exact absurd reads reads_throw

theorem shifts_identifierFor (purpose : String) :
    Shifts S e (fun _ token token' => token'.text = token.text) (identifierFor purpose)
      (identifierFor purpose) := by
  intro inner c t token c₁ t₁ c' t' within grown ahead reads
  have reads := peel_get reads
  split at reads
  · rename_i kind
    obtain ⟨same, rfl⟩ := Resolution.runs_pure.mp reads
    obtain ⟨rfl, rfl⟩ := Prod.mk.inj (Except.ok.inj same)
    obtain ⟨kind', current, next⟩ := ahead.pass kind (by decide)
    have text : c'.current.unplaced.text = c.current.unplaced.text := by rw [current]
    exact ⟨c'.current, c'.next, t', reads_identifierFor kind', grown, next, le_refl _, text⟩
  · exact absurd reads reads_throw

theorem reads_accept_of_eq {k : TokenKind} (kind : c.kind = k) :
    Reads (accept k) c t true c.next t := by
  refine reads_bind.mpr ⟨c.kind, c, t, reads_map.mpr ⟨c, reads_pure.mpr ⟨rfl, rfl, rfl⟩, rfl⟩, ?_⟩
  rw [if_pos kind]
  exact reads_bind.mpr ⟨_, _, _, Resolution.runs_pure.mpr ⟨rfl, rfl⟩, reads_pure.mpr ⟨rfl, rfl, rfl⟩⟩

theorem reads_accept_of_ne {k : TokenKind} (other : c.kind ≠ k) : Reads (accept k) c t false c t := by
  refine reads_bind.mpr ⟨c.kind, c, t, reads_map.mpr ⟨c, reads_pure.mpr ⟨rfl, rfl, rfl⟩, rfl⟩, ?_⟩
  rw [if_neg other]
  exact reads_pure.mpr ⟨rfl, rfl, rfl⟩

theorem reads_accept {k : TokenKind} {accepted : Bool} {c₁ : Cursor} {t₁ : SymbolTable}
    (reads : Reads (accept k) c t accepted c₁ t₁) :
    t₁ = t ∧ (c.kind = k ∧ accepted = true ∧ c₁ = c.next ∨ c.kind ≠ k ∧ accepted = false ∧ c₁ = c) := by
  have reads := peel_seen reads
  split at reads
  · rename_i kind
    obtain ⟨_, _, _, moved, last⟩ := reads_bind.mp reads
    obtain ⟨same, rfl⟩ := Resolution.runs_pure.mp moved
    obtain ⟨rfl, rfl⟩ := Prod.mk.inj (Except.ok.inj same)
    obtain ⟨rfl, rfl, rfl⟩ := reads_pure.mp last
    exact ⟨rfl, .inl ⟨kind, rfl, rfl⟩⟩
  · rename_i other
    obtain ⟨rfl, rfl, rfl⟩ := reads_pure.mp reads
    exact ⟨rfl, .inr ⟨other, rfl, rfl⟩⟩

/-- A token is accepted in both places or in neither, where a token is needed anyway. -/
theorem shifts_bind_accept {k : TokenKind} (inside : k ≠ .endOfInput) {f : Bool → Reader β}
    {f' : Bool → Reader β'} (rest : ∀ accepted, Shifts S e B (f accepted) (f' accepted))
    (starved : Starved (f false)) : Shifts S e B (accept k >>= f) (accept k >>= f') := by
  intro inner c t b c₁ t₁ c' t' within grown ahead reads
  by_cases ended : c.upcoming = []
  · exact absurd reads (starved_bind_accept inside starved ahead.scanned ended)
  obtain ⟨accepted, c₂, t₂, first, second⟩ := reads_bind.mp reads
  obtain ⟨rfl, ⟨kind, rfl, rfl⟩ | ⟨other, rfl, rfl⟩⟩ := reads_accept first
  · obtain ⟨kind', -, next⟩ := ahead.pass kind inside
    obtain ⟨b', c₁', t₁', second', after⟩ := rest true within grown next second
    exact ⟨b', c₁', t₁', reads_bind.mpr ⟨_, _, _, reads_accept_of_eq kind', second'⟩, after⟩
  · obtain ⟨b', c₁', t₁', second', after⟩ := rest false within grown ahead second
    rw [← ahead.kind_eq ended] at other
    exact ⟨b', c₁', t₁', reads_bind.mpr ⟨_, _, _, reads_accept_of_ne other, second'⟩, after⟩

/-- An `else` is accepted in both places or in neither: none comes behind. -/
theorem shifts_accept_else : Shifts S e (fun _ accepted accepted' => accepted' = accepted)
    (accept (.keyword .elseKw)) (accept (.keyword .elseKw)) := by
  intro inner c t accepted c₁ t₁ c' t' within grown ahead reads
  obtain ⟨rfl, ⟨kind, rfl, rfl⟩ | ⟨other, rfl, rfl⟩⟩ := reads_accept reads
  · obtain ⟨kind', -, next⟩ := ahead.pass kind (by decide)
    exact ⟨true, c'.next, t', reads_accept_of_eq kind', grown, next, le_refl _, rfl⟩
  · refine ⟨false, c', t', reads_accept_of_ne ?_, grown, ahead, le_refl _, rfl⟩
    rcases ahead.cases_cons with ⟨-, behind⟩ | ⟨t, rest, _, _, front, -⟩
    · rw [Cursor.kind, Cursor.current, behind, ahead.stop]
      exact S.noElse
    · rw [ahead.kind_eq (by simp [front])]
      exact other

/-- What is set aside is set aside in front of other tokens as well. -/
theorem exists_setAsideFrom {ends : List TokenKind} (behind : List Token) {stop : Token} (stop' : Token) :
    ∀ {ts us taken : List Token} {depth : Nat} {last : Position} (last' : Position) {c : Cursor},
    us.map Token.unplaced = ts.map Token.unplaced →
    Cursor.setAsideFrom ends depth ts last stop = .ok (taken, c) →
    ∃ taken' u last₁, Cursor.setAsideFrom ends depth (us ++ behind) last' stop' =
        .ok (taken', ⟨u ++ behind, stop', last₁⟩) ∧
      taken'.map Token.unplaced = taken.map Token.unplaced ∧
      u.map Token.unplaced = c.upcoming.map Token.unplaced
  | [], us, taken, depth, last, _, c, same, h => by
    rw [Cursor.setAsideFrom] at h
    cases h
  | t :: ts, us, taken, depth, last, last', c, same, h => by
    obtain ⟨t', us, rfl, token, others⟩ := List.map_eq_cons_iff.mp same
    have kind : t'.kind = t.kind := by
      show t'.unplaced.kind = t.unplaced.kind
      rw [token]
    have goesOn {depth : Nat} {out : Except Diagnostic (List Token × Cursor)}
        (h : out.map (Prod.map (t :: ·) id) = .ok (taken, c))
        (deeper : Cursor.setAsideFrom ends depth ts t.span.stop stop = out) :
        ∃ taken' u last₁, (Cursor.setAsideFrom ends depth (us ++ behind) t'.span.stop stop').map
            (Prod.map (t' :: ·) id) = .ok (taken', ⟨u ++ behind, stop', last₁⟩) ∧
          taken'.map Token.unplaced = taken.map Token.unplaced ∧
          u.map Token.unplaced = c.upcoming.map Token.unplaced := by
      obtain _ | ⟨taken₁, c₁⟩ := out
      · cases h
      obtain ⟨rfl, rfl⟩ := Prod.mk.inj (Except.ok.inj h)
      obtain ⟨taken', u, last₁, run, all, front⟩ := exists_setAsideFrom behind stop' t'.span.stop
        others deeper
      exact ⟨t' :: taken', u, last₁, by rw [run]; rfl, by rw [List.map_cons, List.map_cons, token, all], front⟩
    rw [Cursor.setAsideFrom] at h
    rw [List.cons_append, Cursor.setAsideFrom, kind]
    split at h
    · cases h
    rename_i inside
    rw [if_neg inside]
    split at h
    · rename_i ends
      rw [if_pos ends]
      obtain ⟨rfl, rfl⟩ := Prod.mk.inj (Except.ok.inj h)
      exact ⟨[], t' :: us, last', rfl, rfl, same⟩
    rename_i going
    rw [if_neg going]
    split at h
    · rename_i opening
      rw [if_pos opening]
      exact goesOn h rfl
    rename_i flat
    rw [if_neg flat]
    split at h
    · rename_i closing
      rw [if_pos closing]
      split at h
      · cases h
      · rename_i deep
        rw [if_neg deep]
        exact goesOn h rfl
    · rename_i open'
      rw [if_neg open']
      exact goesOn h rfl

theorem shifts_setAside (ends : List TokenKind) :
    Shifts S e (fun _ f f' => f'.unplaced = f.unplaced) (setAside ends) (setAside ends) := by
  intro inner c t f c₁ t₁ c' t' within grown ahead reads
  have behind := (reads_setAside ahead.scanned reads).1.behind
  have reads := peel_get reads
  split at reads
  · rename_i out taken
    have last := peel_set reads
    obtain ⟨rfl, rfl, rfl⟩ := reads_pure.mp last
    obtain ⟨u, upcoming, same⟩ := ahead.upcoming
    unfold Cursor.setAside at taken
    split at taken
    · cases taken
    · cases taken
    · rename_i tokens after some run
      obtain ⟨rfl, rfl⟩ := Prod.mk.inj (Except.ok.inj taken)
      obtain ⟨taken', u', last₁, run', all, front⟩ := exists_setAsideFrom S.behind S.stop
        c'.endOfLast same run
      have aside : c'.setAside ends = .ok (⟨taken', c'.position⟩, ⟨u' ++ S.behind, S.stop, last₁⟩) := by
        unfold Cursor.setAside
        rw [upcoming, ahead.stop, run']
        cases taken' with
        | nil =>
          cases tokens with
          | nil => exact (some rfl).elim
          | cons _ _ => cases all
        | cons _ _ => rfl
      refine ⟨⟨taken', c'.position⟩, ⟨u' ++ S.behind, S.stop, last₁⟩, t', ?_, grown,
        ⟨behind, ⟨u', rfl, front⟩, rfl⟩, le_refl _, congrArg (Excerpt.mk · .nowhere) all⟩
      refine reads_bind.mpr ⟨c', c', t', reads_pure.mpr ⟨rfl, rfl, rfl⟩, ?_⟩
      rw [aside]
      exact reads_bind.mpr ⟨⟨⟩, _, t', Resolution.runs_pure.mpr ⟨rfl, rfl⟩,
        reads_pure.mpr ⟨rfl, rfl, rfl⟩⟩
  · exact absurd reads reads_throw

/-! ## Declarations and scopes -/

theorem reads_declare_iff {name : String} {kind : Declared} {span : Span} {id : DeclId}
    {t' : SymbolTable} : Reads (declare name kind span) c t id c' t' ↔
      id = t.nextDecl ∧ c' = c ∧ t' = t.declare { name, kind, scope := t.innermost, span } := by
  simp only [declare, reads_bind, reads_look, reads_change, reads_pure]
  grind

theorem reads_newScope_iff {owner : ScopeOwner} {id : ScopeId} {t' : SymbolTable} :
    Reads (newScope owner) c t id c' t' ↔ id = t.nextScope ∧ c' = c ∧ t' = t.openFor owner := by
  simp only [newScope, reads_bind, reads_look, reads_change, reads_pure]
  grind [SymbolTable.openFor]

theorem reads_takeBlock_iff {b : Nat} {t' : SymbolTable} :
    Reads takeBlock c t b c' t' ↔ b = t.nextBlock ∧ c' = c ∧ t' = t.takeBlock := by
  simp only [takeBlock, reads_bind, reads_look, reads_change, reads_pure]
  grind

theorem shifts_declare {name : String} (kind kind' : Declared) (span span' : Span)
    (new : S.shift.Same e (fun L => kind.labelled L) fun L => kind'.labelled L)
    (empty : ∀ scope, (Decl.mk name kind scope span).members?.getD [] = [])
    (empty' : ∀ scope, (Decl.mk name kind' scope span').members?.getD [] = []) :
    Shifts S e (fun e₁ id id' => id' = S.shift.decl id ∧ id.index < e₁.decls)
      (declare name kind span) (declare name kind' span') := by
  intro inner c t id c₁ t₁ c' t' within grown ahead reads
  obtain ⟨rfl, rfl, rfl⟩ := reads_declare_iff.mp reads
  refine ⟨_, c', _, reads_declare_iff.mpr ⟨rfl, rfl, rfl⟩,
    grown.declare (new.mono within) (empty _) (empty' _), ahead, ⟨?_, ?_, le_refl _⟩, grown.nextDecl, ?_⟩
  · show t.decls.size ≤ (t.declare _).decls.size
    rw [size_declare]
    exact Nat.le_succ _
  · exact (size_scopes_declare t _).ge
  · show t.decls.size < (t.declare _).decls.size
    rw [size_declare]
    exact Nat.lt_succ_self _

theorem shifts_newScope (owner : ScopeOwner) :
    Shifts S e (fun e₁ s s' => s' = S.shift.scope s ∧ s.index < e₁.scopes) (newScope owner)
      (newScope (S.shift.owner owner)) := by
  intro inner c t s c₁ t₁ c' t' within grown ahead reads
  obtain ⟨rfl, rfl, rfl⟩ := reads_newScope_iff.mp reads
  refine ⟨_, c', _, reads_newScope_iff.mpr ⟨rfl, rfl, rfl⟩, grown.openFor owner, ahead,
    ⟨le_refl _, ?_, le_refl _⟩, grown.nextScope, ?_⟩
  · show t.scopes.size ≤ (t.openFor owner).scopes.size
    rw [size_scopes_openFor]
    exact Nat.le_succ _
  · show t.scopes.size < (t.openFor owner).scopes.size
    rw [size_scopes_openFor]
    exact Nat.lt_succ_self _

theorem shifts_takeBlock :
    Shifts S e (fun e₁ b b' => b' = S.shift.block b ∧ b < e₁.blocks) takeBlock takeBlock := by
  intro inner c t b c₁ t₁ c' t' within grown ahead reads
  obtain ⟨rfl, rfl, rfl⟩ := reads_takeBlock_iff.mp reads
  exact ⟨_, c', _, reads_takeBlock_iff.mpr ⟨rfl, rfl, rfl⟩, grown.takeBlock, ahead,
    ⟨le_refl _, le_refl _, Nat.le_succ _⟩, grown.blocks, Nat.lt_succ_self _⟩

theorem Shifts.under (h : Shifts S e A x x') {s : ScopeId} (lt : s.index < e.scopes) :
    Shifts S e A (under s x) (under (S.shift.scope s) x') := by
  intro inner c t a c₁ t₁ c' t' within grown ahead reads
  obtain ⟨t₂, inside, rfl⟩ := reads_under.mp reads
  obtain ⟨a', c₁', t₁', inside', grown', ahead', le, related⟩ :=
    h (t := t.enter s) within (grown.enter (Nat.lt_of_lt_of_le lt within.2.1)) ahead inside
  exact ⟨a', c₁', _, reads_under.mpr ⟨t₁', inside', rfl⟩, grown'.leave, ahead', le, related⟩

/-- What a declaration holds is filled in. -/
theorem shifts_modifyDecl {id : DeclId} (lt : id.index < e.decls) {f f' : Decl → Decl}
    (new : ∀ d d' e₁, e ≤ e₁ → S.shift.Same e₁ (fun L => d.labelled L) (fun L => d'.labelled L) →
      S.shift.Same e₁ (fun L => (f d).labelled L) fun L => (f' d').labelled L)
    (members : ∀ d d' e₁, e ≤ e₁ → S.shift.Same e₁ (fun L => d.labelled L) (fun L => d'.labelled L) →
      S.shift.Same e₁ (fun L => Stmt.allLabelled L (d.members?.getD []))
        (fun L => Stmt.allLabelled L (d'.members?.getD [])) →
      S.shift.Same e₁ (fun L => Stmt.allLabelled L ((f d).members?.getD []))
        fun L => Stmt.allLabelled L ((f' d').members?.getD [])) :
    Shifts S e (fun _ _ _ => True) (change (·.modifyDecl id f))
      (change (·.modifyDecl (S.shift.decl id) f')) := by
  intro inner c t u c₁ t₁ c' t' within grown ahead reads
  obtain ⟨rfl, rfl⟩ := reads_change.mp reads
  have present := Nat.lt_of_lt_of_le lt within.1
  refine ⟨(), c', _, reads_change.mpr ⟨rfl, rfl⟩, grown.modifyDecl present ?_ ?_, ahead,
    ⟨(size_modifyDecl t id f).ge, le_refl _, le_refl _⟩, trivial⟩
  · exact new _ _ _ within (grown.decl id present)
  · exact members _ _ _ within (grown.decl id present) (grown.members id present)

/-! ## Items -/

/-- A reader passes tokens whenever it reads anything. -/
def Shortens (x : Reader α) : Prop :=
  ∀ ⦃c t a c' t'⦄, c.IsScanned → Reads x c t a c' t' → c'.upcoming.length < c.upcoming.length

/-- Items that are read by themselves are read in the surroundings, or there are no tokens left. -/
theorem shifts_manyWithin (h : Shifts S e A x x') (shortens : Shortens x)
    (grows : ∀ e₁ e₂ a a', e₁ ≤ e₂ → A e₁ a a' → A e₂ a a') (more : TokenKind → Bool) :
    ∀ (bound bound' : Nat) ⦃inner c t items c₁ t₁ c' t'⦄, e ≤ t.extent → GrownFrom S.base inner t t' →
      S.Ahead c c' → c.upcoming.length ≤ bound → c'.upcoming.length ≤ bound' →
      Reads (manyWithin more x bound) c t items c₁ t₁ → c₁.IsScanned ∧ c₁.upcoming = [] ∨
        ∃ items' c₁' t₁', Reads (manyWithin more x' bound') c' t' items' c₁' t₁' ∧
          GrownFrom S.base inner t₁ t₁' ∧ S.Ahead c₁ c₁' ∧ t.extent ≤ t₁.extent ∧
          List.Forall₂ (A t₁.extent) items items'
  | 0, _, _, c, _, _, _, _, _, _, _, _, ahead, short, _, reads => by
    obtain ⟨rfl, rfl, rfl⟩ := reads_pure.mp reads
    exact .inl ⟨ahead.scanned, List.length_eq_zero_iff.mp (Nat.le_zero.mp short)⟩
  | bound + 1, bound', inner, c, t, items, c₁, t₁, c', t', within, grown, ahead, short, short', reads => by
    have seen := peel_seen reads
    by_cases ended : c.upcoming = []
    · split at seen
      · obtain ⟨_, c₂, t₂, first, -⟩ := reads_bind.mp seen
        have shorter := shortens ahead.scanned first
        rw [ended] at shorter
        exact absurd shorter (Nat.not_lt_zero _)
      · obtain ⟨rfl, rfl, rfl⟩ := reads_pure.mp seen
        exact .inl ⟨ahead.scanned, ended⟩
    have positive := List.length_pos_iff.mpr ended
    have longer := ahead.length_le
    obtain _ | bound' := bound'
    · omega
    have goOn {items' : List α'} {c₁' : Cursor} {t₁' : SymbolTable}
        (rest : Reads (do
          if more c'.kind then
            let first ← x'
            let rest ← manyWithin more x' bound'
            return first :: rest
          else return []) c' t' items' c₁' t₁') :
        Reads (manyWithin more x' (bound' + 1)) c' t' items' c₁' t₁' :=
      reads_bind.mpr ⟨c'.kind, c', t', reads_map.mpr ⟨c', reads_pure.mpr ⟨rfl, rfl, rfl⟩, rfl⟩, rest⟩
    rw [← ahead.kind_eq ended] at seen
    split at seen
    · rename_i another
      obtain ⟨a, c₂, t₂, first, rest⟩ := reads_bind.mp seen
      have shorter := shortens ahead.scanned first
      obtain ⟨others, c₃, t₃, second, last⟩ := reads_bind.mp rest
      obtain ⟨rfl, rfl, rfl⟩ := reads_pure.mp last
      obtain ⟨a', c₂', t₂', first', grown₂, ahead₂, le₂, related⟩ := h within grown ahead first
      have longer₂ := ahead₂.length_le
      rcases shifts_manyWithin h shortens grows more bound bound' (le_trans within le₂) grown₂ ahead₂
        (by omega) (by omega) second with none | ⟨others', c₁', t₁', second', grown₁, ahead₁, le₁, all⟩
      · exact .inl none
      · refine .inr ⟨a' :: others', c₁', t₁', goOn ?_, grown₁, ahead₁, le_trans le₂ le₁,
          .cons (grows _ _ _ _ le₁ related) all⟩
        rw [if_pos another]
        exact reads_bind.mpr ⟨a', c₂', t₂', first',
          reads_bind.mpr ⟨others', c₁', t₁', second', reads_pure.mpr ⟨rfl, rfl, rfl⟩⟩⟩
    · rename_i last
      obtain ⟨rfl, rfl, rfl⟩ := reads_pure.mp seen
      refine .inr ⟨[], c', t', goOn ?_, grown, ahead, le_refl _, .nil⟩
      rw [if_neg last]
      exact reads_pure.mpr ⟨rfl, rfl, rfl⟩

/-- Items are read in the surroundings where something comes behind them. -/
theorem shifts_bind_many (h : Shifts S e A x x') (shortens : Shortens x)
    (grows : ∀ e₁ e₂ a a', e₁ ≤ e₂ → A e₁ a a' → A e₂ a a') (more : TokenKind → Bool)
    {f : List α → Reader β} {f' : List α' → Reader β'}
    (rest : ∀ e₁ items items', e ≤ e₁ → List.Forall₂ (A e₁) items items' →
      Shifts S e₁ B (f items) (f' items')) (starved : ∀ items, Starved (f items)) :
    Shifts S e B (many more x >>= f) (many more x' >>= f') := by
  intro inner c t b c₁ t₁ c' t' within grown ahead reads
  obtain ⟨items, c₂, t₂, first, second⟩ := reads_bind.mp reads
  have first := peel_get first
  rcases shifts_manyWithin h shortens grows more _ c'.upcoming.length within grown ahead (Nat.le_refl _)
    (Nat.le_refl _) first with ⟨scanned, none⟩ | ⟨items', c₂', t₂', first', grown₂, ahead₂, le₂, all⟩
  · exact absurd second (starved items scanned none)
  · obtain ⟨b', c₁', t₁', second', grown₁, ahead₁, le₁, related⟩ :=
      rest _ items items' (le_trans within le₂) all (le_refl _) grown₂ ahead₂ second
    refine ⟨b', c₁', t₁', reads_bind.mpr ⟨items', c₂', t₂', ?_, second'⟩, grown₁, ahead₁,
      le_trans le₂ le₁, related⟩
    exact reads_bind.mpr ⟨c', c', t', reads_pure.mpr ⟨rfl, rfl, rfl⟩, first'⟩

end Reader

end Deferral
