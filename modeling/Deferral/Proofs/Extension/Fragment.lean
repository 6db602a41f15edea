import Mathlib.Algebra.BigOperators.Group.List.Basic
import Deferral.Proofs.Extension.ShiftedGrammar
import Deferral.Proofs.Reading.Roundtrip

/-!
# Fragments

A fragment is read by itself as a unit. Where it stands among other things, a table holds what has been read
of it, with shifted numbers, and goes on doing so while more is read behind it.
-/

namespace Deferral

open Reader Grammar

/-! ## Reading on -/

namespace SymbolTable

variable {b t t' : SymbolTable} {new new' : String → Option Overloads}

/-- What can be read into. -/
structure Ready (b : SymbolTable) : Prop where
  ordered : b.Ordered
  innermost : b.innermost.index < b.scopes.size
  owned : ∀ {owner s}, b.scopeOf? owner = some s → b.Owned owner

theorem joined_assoc (old mid new : Option Overloads) :
    joined (joined old mid) new = joined old (joined mid new) := by
  cases old <;> cases mid <;> cases new <;> simp [joined]

theorem Owned.mono (le : b.extent ≤ t.extent) {owner : ScopeOwner} (h : b.Owned owner) : t.Owned owner := by
  cases owner with
  | decl x => exact Nat.lt_of_lt_of_le h le.1
  | block n => exact Nat.lt_of_lt_of_le h le.2.2
  | body x => exact Nat.lt_of_lt_of_le h le.1

/-- Everything is as it was, but for what has been added, and for the names of the innermost scope: they have
got the declarations `new` behind those that they had. -/
structure Continues (b t : SymbolTable) (new : String → Option Overloads) : Prop where
  ready : t.Ready
  extent : b.extent ≤ t.extent
  decl : ∀ x : DeclId, x.index < b.decls.size → t.decl x = b.decl x
  scope : ∀ s : ScopeId, s.index < b.scopes.size → s ≠ b.innermost → t.scope s = b.scope s
  parent : (t.scope b.innermost).parent = (b.scope b.innermost).parent
  names : ∀ name,
    (t.scope b.innermost).find? name = joined ((b.scope b.innermost).find? name) (new name)
  saved : ∀ owner, b.Owned owner → t.scopeOf? owner = b.scopeOf? owner
  constants : t.constants = b.constants
  binding : t.binding = b.binding
  active : t.active = b.active

namespace Continues

theorem refl (ready : b.Ready) : Continues b b fun _ => none where
  ready
  extent := le_refl _
  decl _ _ := rfl
  scope _ _ _ := rfl
  parent := rfl
  names _ := (joined_none _).symm
  saved _ _ := rfl
  constants := rfl
  binding := rfl
  active := rfl

theorem innermost (h : Continues b t new) : t.innermost = b.innermost := by
  unfold SymbolTable.innermost
  rw [h.active]

theorem trans (h : Continues b t new) (h' : Continues t t' new') :
    Continues b t' fun name => joined (new name) (new' name) where
  ready := h'.ready
  extent := le_trans h.extent h'.extent
  decl x lt := (h'.decl x (Nat.lt_of_lt_of_le lt h.extent.1)).trans (h.decl x lt)
  scope s lt ne := (h'.scope s (Nat.lt_of_lt_of_le lt h.extent.2.1) (h.innermost ▸ ne)).trans (h.scope s lt ne)
  parent := by
    have later := h'.parent
    rw [h.innermost] at later
    exact later.trans h.parent
  names name := by
    have later := h'.names name
    rw [h.innermost] at later
    rw [later, h.names, joined_assoc]
  saved owner owned := (h'.saved owner (owned.mono h.extent)).trans (h.saved owner owned)
  constants := h'.constants.trans h.constants
  binding := h'.binding.trans h.binding
  active := h'.active.trans h.active

/-- A name is declared in the innermost scope. -/
theorem declare (ready : b.Ready) {d : Decl} (here : d.scope = b.innermost) :
    b.Continues (b.declare d) fun name => if name = d.name then some [b.nextDecl] else none where
  ready :=
    { ordered := ready.ordered.declare d
      innermost := by
        rw [size_scopes_declare]
        exact ready.innermost
      owned := fun {_ s} known => Owned.mono (b.extent_le_declare d) (ready.owned (s := s) known) }
  extent := b.extent_le_declare d
  decl _ lt := decl_declare_of_lt lt d
  scope s _ ne := by
    rw [scope_declare, if_neg fun both => ne (both.1.trans here)]
  parent := parent_declare b d _
  names name := by
    rw [scope_declare, if_pos ⟨here.symm, here ▸ ready.innermost⟩, here]
    split
    · rename_i same
      subst same
      rw [Scope.find?_extend_self (ready.ordered _), joined_some]
    · rename_i other
      rw [Scope.find?_extend_of_ne _ other, joined_none]
  saved _ _ := rfl
  constants := rfl
  binding := rfl
  active := rfl

/-- More is read, and then a declaration changes that was not there before. -/
theorem modifyDecl (h : Continues b t new) {x : DeclId} (late : b.decls.size ≤ x.index) (f : Decl → Decl) :
    Continues b (t.modifyDecl x f) new :=
  { h with
    ready :=
      { h.ready with
        owned := fun {owner s} known => by
          cases owner <;> first | exact h.ready.owned known | simpa [Owned] using h.ready.owned known }
    extent := by
      rw [extent_modifyDecl]
      exact h.extent
    decl := fun y lt => by
      have ne : y ≠ x := by
        rintro rfl
        omega
      exact (decl_modifyDecl_of_ne ne t f).trans (h.decl y lt) }

end Continues

/-- The scope of an owner has been entered. -/
theorem Ready.openFor (ready : b.Ready) {owner : ScopeOwner} (owned : b.Owned owner) :
    ((b.openFor owner).enter b.nextScope).Ready where
  ordered := ready.ordered.openFor owner
  innermost := by
    show b.scopes.size < (b.openFor owner).scopes.size
    rw [size_scopes_openFor]
    exact Nat.lt_succ_self _
  owned {other s} known := by
    rcases scopeOf?_openFor_cases known with ⟨rfl, -⟩ | ⟨-, known⟩
    · exact owned
    · exact ready.owned known

/-- What is read in the scope of a new owner adds no names around it. -/
theorem Continues.under {u : SymbolTable} {inner : String → Option Overloads} (h : Continues b t new)
    {owner : ScopeOwner} (late : ¬b.Owned owner)
    (inside : Continues ((t.openFor owner).enter t.nextScope) u inner) : Continues b u.leave new := by
  have le : t.extent ≤ u.extent := le_trans (t.extent_le_openFor owner) inside.extent
  have scope (s : ScopeId) (lt : s.index < t.scopes.size) : u.scope s = t.scope s := by
    have ne : s ≠ t.nextScope := fun same => Nat.lt_irrefl _ (congrArg ScopeId.index same ▸ lt)
    refine (inside.scope s (Nat.lt_of_lt_of_le lt (t.extent_le_openFor owner).2.1) ne).trans ?_
    exact (t.scope_openFor owner s).trans (if_neg ne)
  have outer : b.innermost.index < t.scopes.size := h.innermost ▸ h.ready.innermost
  have active : u.leave.active = t.active := congrArg List.tail inside.active
  exact
  { ready :=
      { ordered := inside.ready.ordered
        innermost := by
          have same : u.leave.innermost = t.innermost := by
            unfold SymbolTable.innermost
            rw [active]
          rw [same]
          exact Nat.lt_of_lt_of_le h.ready.innermost le.2.1
        owned := fun {other s} known => by
          have owned : u.Owned other := inside.ready.owned (s := s) known
          cases other <;> exact owned }
    extent := le_trans h.extent le
    decl := fun x lt => (inside.decl x (Nat.lt_of_lt_of_le lt h.extent.1)).trans (h.decl x lt)
    scope := fun s lt ne => (scope s (Nat.lt_of_lt_of_le lt h.extent.2.1)).trans (h.scope s lt ne)
    parent := (congrArg Scope.parent (scope _ outer)).trans h.parent
    names := fun name => (congrArg (Scope.find? · name) (scope _ outer)).trans (h.names name)
    saved := fun other before => by
      have ne : other ≠ owner := fun same => late (same ▸ before)
      have owned := before.mono (t := t.openFor owner) (le_trans h.extent (t.extent_le_openFor owner))
      refine (inside.saved other (by cases other <;> exact owned)).trans ?_
      exact (scopeOf?_assignScope_of_ne ne (t.addScope t.innermost) t.nextScope).trans (h.saved other before)
    constants := inside.constants.trans h.constants
    binding := inside.binding.trans h.binding
    active := active.trans h.active }

/-- What is numbered later is not owned before. -/
theorem not_owned_owner (b : SymbolTable) (owner : ScopeOwner) : ¬b.Owned (b.shift.owner owner) := by
  intro owned
  cases owner with
  | decl x | body x =>
    have lt : b.decls.size + x.index < b.decls.size := owned
    omega
  | block n =>
    have lt : b.nextBlock + n < b.nextBlock := owned
    omega

namespace GrownFrom

variable {inner : List ScopeId} (h : GrownFrom b inner t t')

include h

theorem owned_owner_iff {owner : ScopeOwner} : t'.Owned (b.shift.owner owner) ↔ t.Owned owner := by
  cases owner with
  | decl x => exact h.decl_lt_iff
  | body x => exact h.decl_lt_iff
  | block n =>
    show b.nextBlock + n < t'.nextBlock ↔ n < t.nextBlock
    have blocks := h.blocks
    omega

/-- What owns a scope owns the shifted one. -/
theorem scopeOf?_owner (ready : b.Ready) (owner : ScopeOwner) :
    t'.scopeOf? (b.shift.owner owner) = (t.scopeOf? owner).map b.shift.scope := by
  have before : b.scopeOf? (b.shift.owner owner) = none :=
    Option.eq_none_iff_forall_ne_some.mpr fun _ known => b.not_owned_owner owner (ready.owned known)
  have shifted (saved : List (ScopeOwner × ScopeId)) :
      (saved.map (Prod.map b.shift.owner b.shift.scope)).lookup (b.shift.owner owner) =
        (saved.lookup owner).map b.shift.scope := by
    induction saved with
    | nil => rfl
    | cons entry rest ih =>
      obtain ⟨other, s⟩ := entry
      rw [List.map_cons, Prod.map, List.lookup_cons, List.lookup_cons]
      by_cases same : owner = other
      · simp [same]
      · have ne : b.shift.owner owner ≠ b.shift.owner other := fun eq => same (Shift.owner_injective eq)
        simp [beq_eq_false_iff_ne.mpr same, beq_eq_false_iff_ne.mpr ne, ih]
  unfold scopeOf? at before ⊢
  rw [h.saved, List.lookup_append, before, shifted, Option.or_none]

end GrownFrom

theorem GrownFrom.continues (h : GrownFrom b [] t t') (ready : b.Ready)
    (owned : ∀ {owner s}, t.scopeOf? owner = some s → t.Owned owner) :
    Continues b t' fun name => ((t.scope .global).find? name).map (List.map b.shift.decl) := by
  have extent : b.extent ≤ t'.extent := by
    have scopes := h.scopes
    have positive := h.global
    exact ⟨by show _ ≤ t'.decls.size; rw [h.size]; exact Nat.le_add_right _ _,
      show b.scopes.size ≤ t'.scopes.size by omega,
      by show _ ≤ t'.nextBlock; rw [h.blocks]; exact Nat.le_add_right _ _⟩
  have active : t'.active = b.active := h.active'
  exact
  { ready :=
      { ordered := h.ordered'
        innermost := by
          have same : t'.innermost = b.innermost := by
            unfold SymbolTable.innermost
            rw [active]
          rw [same]
          exact Nat.lt_of_lt_of_le ready.innermost extent.2.1
        owned := fun {owner s} known => by
          unfold scopeOf? at known
          rw [h.saved, List.lookup_append] at known
          cases shifted : (t.saved.map (Prod.map b.shift.owner b.shift.scope)).lookup owner with
          | none =>
            rw [shifted, Option.none_or] at known
            exact (ready.owned known).mono extent
          | some s' =>
            obtain ⟨l₁, l₂, split, -⟩ := List.lookup_eq_some_iff.mp shifted
            have member : (owner, s') ∈ t.saved.map (Prod.map b.shift.owner b.shift.scope) := by
              rw [split]
              simp
            obtain ⟨⟨other, s''⟩, inside, same⟩ := List.mem_map.mp member
            obtain ⟨rfl, -⟩ := Prod.mk.inj same
            refine h.owned_owner_iff.mpr ?_
            obtain ⟨s₁, found⟩ : ∃ s₁, t.scopeOf? other = some s₁ :=
              Option.ne_none_iff_exists'.mp fun none => by
                simpa using List.lookup_eq_none_iff.mp none _ inside
            exact owned found }
    extent
    decl := h.earlier
    scope := h.others
    parent := h.outermost
    names := fun name => by
      have here := h.names .global h.global name
      rwa [Shift.scope_global] at here
    saved := fun owner before => by
      have none : (t.saved.map (Prod.map b.shift.owner b.shift.scope)).lookup owner = none := by
        refine List.lookup_eq_none_iff.mpr fun entry member => ?_
        obtain ⟨⟨other, s⟩, -, rfl⟩ := List.mem_map.mp member
        refine bne_iff_ne.mpr ?_
        rintro rfl
        exact b.not_owned_owner other before
      unfold scopeOf?
      rw [h.saved, List.lookup_append, none, Option.none_or]
    constants := h.constants
    binding := h.binding
    active }

end SymbolTable

/-! ## Fragments -/

/-- A text that forms a unit by itself. -/
structure Fragment where
  tokens : List Token
  unit : SourceUnit
  table : SymbolTable
  scanned : ∃ source file, Token.scan source file = .ok tokens
  read : (SourceUnit.read tokens).run.run .empty = (.ok unit, table)

namespace Fragment

variable (f : Fragment)

/-- The tokens of a fragment, wherever they stand. -/
def spelled : List Token := (Token.beforeEnd f.tokens).map Token.unplaced

/-- What a name is declared as outside all blocks of a fragment. -/
def find? (name : String) : Option Overloads := (f.table.scope .global).find? name

theorem isRead : ∃ rank, f.unit.IsRead rank f.table := SourceUnit.isRead_read f.read

/-- The statements of a fragment are read up to its end. -/
theorem reads : ∃ c c₁ t₁, c.IsScanned ∧ c.upcoming.map Token.unplaced = f.spelled ∧
    Reads (manyWithin (· ≠ .endOfInput) statement c.upcoming.length) c (SymbolTable.empty.enter .global)
      f.unit.body c₁ t₁ ∧ f.table = t₁.leave := by
  obtain ⟨source, file, scanned⟩ := f.scanned
  obtain ⟨isScanned, upcoming⟩ := Cursor.isScanned_ofTokens scanned
  obtain ⟨c₁, t₁, reads, -, left⟩ := SourceUnit.runs_read.mp f.read
  exact ⟨_, c₁, t₁, isScanned, congrArg _ upcoming, peel_get reads, left⟩

end Fragment

/-- A fragment that has been read behind something else: the table before it, and the statements that have
been read. -/
structure Inset where
  fragment : Fragment
  base : SymbolTable
  body : List Stmt
  outside : base.innermost.index < base.scopes.size
  same : base.shift.Same fragment.table.extent (fun L => Stmt.allLabelled L fragment.unit.body)
    fun L => Stmt.allLabelled L body

namespace Inset

variable (p : Inset)

/-- The number that a number of the fragment has become. -/
abbrev shift : Shift := p.base.shift

abbrev table : SymbolTable := p.fragment.table

/-- The numbers of the fragment begin here. -/
def start : Extent := p.base.extent

/-- The numbers of the fragment end here. -/
def stop : Extent where
  decls := p.base.decls.size + p.table.decls.size
  scopes := p.base.scopes.size + (p.table.scopes.size - 1)
  blocks := p.base.nextBlock + p.table.nextBlock

theorem start_le_stop : p.start ≤ p.stop :=
  ⟨Nat.le_add_right _ _, Nat.le_add_right _ _, Nat.le_add_right _ _⟩

/-- What a name is declared as outside all blocks of the fragment. -/
def find? (name : String) : Option Overloads := (p.fragment.find? name).map (List.map p.shift.decl)

/-- A table holds what has been read of the fragment. -/
structure Stands (t : SymbolTable) : Prop where
  within : p.stop ≤ t.extent
  decl : ∀ x, x.index < p.table.decls.size → p.shift.Same p.table.extent
    (fun L => (p.table.decl x).labelled L) fun L => (t.decl (p.shift.decl x)).labelled L
  members : ∀ x, x.index < p.table.decls.size → p.shift.Same p.table.extent
    (fun L => Stmt.allLabelled L (p.table.members x)) fun L => Stmt.allLabelled L (t.members (p.shift.decl x))
  parent : ∀ s, s ≠ .global → s.index < p.table.scopes.size →
    (t.scope (p.shift.scope s)).parent = (p.table.scope s).parent.map p.shift.scope
  names : ∀ s, s ≠ .global → s.index < p.table.scopes.size → ∀ name,
    (t.scope (p.shift.scope s)).find? name = ((p.table.scope s).find? name).map (List.map p.shift.decl)
  saved : ∀ owner, p.table.Owned owner →
    t.scopeOf? (p.shift.owner owner) = (p.table.scopeOf? owner).map p.shift.scope

variable {p} {t t' : SymbolTable}

/-- Nothing that has been read of the fragment has changed. -/
theorem Stands.of_same (h : p.Stands t) (within : p.stop ≤ t'.extent)
    (decl : ∀ x : DeclId, x.index < p.table.decls.size → t'.decl (p.shift.decl x) = t.decl (p.shift.decl x))
    (scope : ∀ s, s ≠ .global → s.index < p.table.scopes.size →
      t'.scope (p.shift.scope s) = t.scope (p.shift.scope s))
    (saved : ∀ owner, p.table.Owned owner →
      t'.scopeOf? (p.shift.owner owner) = t.scopeOf? (p.shift.owner owner)) : p.Stands t' where
  within
  decl x lt := by
    rw [decl x lt]
    exact h.decl x lt
  members x lt := by
    have same : t'.members (p.shift.decl x) = t.members (p.shift.decl x) := by
      unfold SymbolTable.members
      rw [decl x lt]
    rw [same]
    exact h.members x lt
  parent s inner lt := by
    rw [scope s inner lt]
    exact h.parent s inner lt
  names s inner lt name := by
    rw [scope s inner lt]
    exact h.names s inner lt name
  saved owner owned := (saved owner owned).trans (h.saved owner owned)

/-! ### The numbers of a fragment -/

theorem start_le_decl (x : DeclId) : p.start.decls ≤ (p.shift.decl x).index := Nat.le_add_right _ _

theorem decl_lt_stop {x : DeclId} (lt : x.index < p.table.decls.size) :
    (p.shift.decl x).index < p.stop.decls := Nat.add_lt_add_left lt _

theorem start_le_scope {s : ScopeId} (inner : s ≠ .global) : p.start.scopes ≤ (p.shift.scope s).index := by
  have index : (p.shift.scope s).index + 1 = p.base.scopes.size + s.index := Shift.index_scope inner
  have positive : s.index ≠ 0 := fun zero => inner (congrArg ScopeId.mk zero)
  show p.base.scopes.size ≤ _
  omega

theorem scope_lt_stop {s : ScopeId} (inner : s ≠ .global) (lt : s.index < p.table.scopes.size) :
    (p.shift.scope s).index < p.stop.scopes := by
  have index : (p.shift.scope s).index + 1 = p.base.scopes.size + s.index := Shift.index_scope inner
  show _ < p.base.scopes.size + (p.table.scopes.size - 1)
  omega

theorem owned_owner (within : p.stop ≤ t.extent) {owner : ScopeOwner} (owned : p.table.Owned owner) :
    t.Owned (p.shift.owner owner) := by
  cases owner with
  | decl x => exact Nat.lt_of_lt_of_le (decl_lt_stop owned) within.1
  | body x => exact Nat.lt_of_lt_of_le (decl_lt_stop owned) within.1
  | block b => exact Nat.lt_of_lt_of_le (Nat.add_lt_add_left owned _) within.2.2

theorem Stands.leave (h : p.Stands t) : p.Stands t.leave :=
  h.of_same h.within (fun _ _ => rfl) (fun _ _ _ => rfl) fun _ _ => rfl

/-- More is read, into a scope that was there before the fragment. -/
theorem Stands.continues {new : String → Option Overloads} (h : p.Stands t) (goesOn : t.Continues t' new)
    (before : t.innermost.index < p.start.scopes) : p.Stands t' := by
  refine h.of_same (le_trans h.within goesOn.extent) (fun x lt => ?_) (fun s inner lt => ?_)
    fun owner owned => goesOn.saved _ (owned_owner h.within owned)
  · exact goesOn.decl _ (Nat.lt_of_lt_of_le (decl_lt_stop lt) h.within.1)
  · refine goesOn.scope _ (Nat.lt_of_lt_of_le (scope_lt_stop inner lt) h.within.2.1) fun same => ?_
    have le := start_le_scope (p := p) inner
    rw [same] at le
    omega

/-- A declaration in front of the fragment changes. -/
theorem Stands.modifyDecl (h : p.Stands t) {x : DeclId} (before : x.index < p.start.decls)
    (f : Decl → Decl) : p.Stands (t.modifyDecl x f) := by
  refine h.of_same ?_ (fun y _ => ?_) (fun _ _ _ => rfl) fun _ _ => rfl
  · rw [SymbolTable.extent_modifyDecl]
    exact h.within
  · refine SymbolTable.decl_modifyDecl_of_ne (fun same => ?_) t f
    have le := start_le_decl (p := p) y
    rw [same] at le
    omega

end Inset

/-- What has been read stands where it has been read. -/
theorem SymbolTable.GrownFrom.stands {p : Inset} {t t' : SymbolTable} (h : GrownFrom p.base [] t t')
    (ready : p.base.Ready) (table : p.table = t.leave) : p.Stands t' where
  within := by
    have size := h.size
    have scopes := h.scopes
    have blocks := h.blocks
    have positive := h.global
    unfold Inset.stop
    rw [table]
    exact ⟨Nat.le_of_eq size.symm, show _ + (t.scopes.size - 1) ≤ t'.scopes.size by omega,
      Nat.le_of_eq blocks.symm⟩
  decl := by
    rw [table]
    exact h.decl
  members := by
    rw [table]
    exact h.members
  parent := by
    rw [table]
    exact h.parent
  names s inner lt name := by
    rw [table] at lt ⊢
    have beyond := Inset.start_le_scope (p := p) inner
    have names := h.names s lt name
    rwa [find?_of_le beyond, none_joined] at names
  saved owner _ := by
    rw [table]
    exact h.scopeOf?_owner ready owner

/-! ## Fragments one behind the other -/

/-- What takes up a range of numbers. -/
inductive Cell where
  /-- A fragment. -/
  | part (p : Inset)
  /-- A class or an extension, and the scope of its members. -/
  | head (start : Extent)

namespace Cell

def start : Cell → Extent
  | part p => p.start
  | head start => start

def stop : Cell → Extent
  | part p => p.stop
  | head start => ⟨start.decls + 1, start.scopes + 1, start.blocks⟩

theorem start_le_stop (c : Cell) : c.start ≤ c.stop := by
  cases c with
  | part p => exact p.start_le_stop
  | head start => exact ⟨Nat.le_succ _, Nat.le_succ _, Nat.le_refl _⟩

/-- Cells one behind the other that fill a range. -/
def Laid : Extent → List Cell → Extent → Prop
  | lo, [], hi => lo = hi
  | lo, c :: rest, hi => lo = c.start ∧ Laid c.stop rest hi

/-- Cells that share no number. -/
def Apart (c d : Cell) : Prop := c.stop ≤ d.start ∨ d.stop ≤ c.start

theorem Apart.symm {c d : Cell} (h : c.Apart d) : d.Apart c := Or.symm h

theorem Laid.append : ∀ {cells cells' : List Cell} {lo mid hi : Extent}, Laid lo cells mid →
    Laid mid cells' hi → Laid lo (cells ++ cells') hi
  | [], _, _, _, _, h, h' => Eq.symm h ▸ h'
  | _ :: _, _, _, _, _, h, h' => ⟨h.1, h.2.append h'⟩

theorem Laid.within : ∀ {cells : List Cell} {lo hi : Extent}, Laid lo cells hi →
    ∀ c ∈ cells, lo ≤ c.start ∧ c.stop ≤ hi
  | first :: rest, lo, hi, h, c, member => by
    rcases List.mem_cons.mp member with rfl | member
    · refine ⟨le_of_eq h.1, ?_⟩
      cases rest with
      | nil => exact le_of_eq h.2
      | cons next _ =>
        exact le_trans (le_trans (le_of_eq h.2.1) next.start_le_stop) (h.2.within next (List.mem_cons_self ..)).2
    · obtain ⟨after, before⟩ := h.2.within c member
      exact ⟨le_trans (le_of_eq h.1) (le_trans first.start_le_stop after), before⟩

theorem Laid.apart : ∀ {cells : List Cell} {lo hi : Extent}, Laid lo cells hi → cells.Pairwise Apart
  | [], _, _, _ => .nil
  | _ :: _, _, _, h => List.pairwise_cons.mpr ⟨fun d member => .inl (h.2.within d member).1, h.2.apart⟩

end Cell

/-- What a name is declared as in fragments together. -/
def Inset.findAll (ps : List Inset) (name : String) : Option Overloads :=
  ps.foldr (fun p found => SymbolTable.joined (p.find? name) found) none

/-! ## Classes and extensions -/

/-- A class or an extension at the outermost level, with fragments between its braces. -/
structure Frame where
  sort : ClassSort
  name : String
  start : Extent
  span : Span
  parts : List Inset

namespace Frame

variable (f : Frame)

def id : DeclId := ⟨f.start.decls⟩

/-- The scope of the members. -/
def scope : ScopeId := ⟨f.start.scopes⟩

def body : List Stmt := f.parts.flatMap Inset.body

def cells : List Cell := .head f.start :: f.parts.map .part

/-- A table holds the class or extension, with what has been read of the fragments. -/
structure Stands (t : SymbolTable) : Prop where
  decl : t.decl f.id = ⟨f.name, .classDecl f.sort .metatype f.body, .global, f.span⟩
  declared : f.id.index < t.decls.size
  opened : f.scope.index < t.scopes.size
  inner : f.scope ≠ .global
  parent : (t.scope f.scope).parent = some .global
  names : ∀ name, (t.scope f.scope).find? name = Inset.findAll f.parts name
  owns : t.scopeOf? (.decl f.id) = some f.scope
  bodiless : t.scopeOf? (.body f.id) = none
  parts : ∀ p ∈ f.parts, p.Stands t ∧ p.base.innermost = f.scope

/-- The table in which the fragments are read, with the scope for them entered. -/
def opened (t : SymbolTable) (span : Span) : SymbolTable :=
  let declared := t.declare ⟨f.name, .classDecl f.sort .metatype [], t.innermost, span⟩
  (declared.openFor (.decl f.id)).enter declared.nextScope

/-- The table once the fragments have been read. -/
def closed (t : SymbolTable) : SymbolTable :=
  t.leave.modifyDecl f.id fun d => { d.mapMembers (fun _ => f.body) with span := f.span }

variable {f} {t u : SymbolTable} (span : Span) (ready : t.Ready) (start : f.start = t.extent)

include ready start

theorem ready_opened : (f.opened t span).Ready ∧ (f.opened t span).innermost = f.scope := by
  have continues := SymbolTable.Continues.declare (b := t)
    (d := ⟨f.name, .classDecl f.sort .metatype [], t.innermost, span⟩) ready rfl
  refine ⟨continues.ready.openFor ?_, ?_⟩
  · show f.start.decls < _
    rw [start, SymbolTable.size_declare]
    exact Nat.lt_succ_self _
  · show ScopeId.mk _ = ScopeId.mk _
    rw [SymbolTable.size_scopes_declare, start]
    rfl

omit ready in
theorem id_eq : f.id = t.nextDecl := congrArg DeclId.mk (congrArg Extent.decls start)

omit ready in
theorem nextScope_declare (d : Decl) : (t.declare d).nextScope = f.scope := by
  show ScopeId.mk _ = ScopeId.mk _
  rw [SymbolTable.size_scopes_declare, start]
  rfl

omit ready in
theorem opened_eq : f.opened t span =
    ((t.declare ⟨f.name, .classDecl f.sort .metatype [], t.innermost, span⟩).openFor (.decl f.id)).enter f.scope :=
  congrArg (SymbolTable.enter _) (nextScope_declare start _)

theorem scope_ne_global : f.scope ≠ .global := by
  intro same
  have positive := Nat.lt_of_le_of_lt (Nat.zero_le _) ready.innermost
  have zero : f.start.scopes = 0 := congrArg ScopeId.index same
  rw [start] at zero
  exact absurd zero (Nat.pos_iff_ne_zero.mp positive)

/-- The scope for the fragments lies at the outermost level and has no names yet. -/
theorem scope_opened (outermost : t.innermost = .global) :
    (f.opened t span).scope f.scope = .child .global := by
  have continues := SymbolTable.Continues.declare (b := t)
    (d := ⟨f.name, .classDecl f.sort .metatype [], t.innermost, span⟩) ready rfl
  rw [opened_eq span start, ← nextScope_declare start]
  refine (SymbolTable.scope_openFor _ (.decl f.id) _).trans ((if_pos rfl).trans ?_)
  rw [continues.innermost, outermost]

omit ready in
/-- The fragments take the numbers behind those of the class or extension itself. -/
theorem extent_opened : (f.opened t span).extent = (Cell.head f.start).stop := by
  rw [opened_eq span start]
  refine Extent.ext ?_ ?_ ?_
  · show (SymbolTable.declare t _).decls.size = f.start.decls + 1
    rw [SymbolTable.size_declare, start]
    rfl
  · show ((SymbolTable.declare t _).openFor (.decl f.id)).scopes.size = f.start.scopes + 1
    rw [SymbolTable.size_scopes_openFor, SymbolTable.size_scopes_declare, start]
    rfl
  · rw [start]
    rfl

/-- What has been read between the braces makes the class or extension stand. -/
theorem stands_closed (outermost : t.innermost = .global) {new : String → Option Overloads}
    (names : ∀ name, new name = Inset.findAll f.parts name)
    (inside : (f.opened t span).Continues u new)
    (parts : ∀ p ∈ f.parts, p.Stands u ∧ p.base.innermost = f.scope)
    (laid : Cell.Laid (f.opened t span).extent (f.parts.map .part) u.extent) :
    f.Stands (f.closed u) ∧ Cell.Laid t.extent f.cells (f.closed u).extent ∧
      t.Continues (f.closed u) fun name => if name = f.name then some [f.id] else none := by
  have id := id_eq start
  have own := scope_opened span ready start outermost
  have opening := opened_eq span start
  rw [extent_opened span start] at laid
  obtain ⟨d, made⟩ : ∃ d, Decl.mk f.name (.classDecl f.sort .metatype []) t.innermost span = d := ⟨_, rfl⟩
  have continues : t.Continues (t.declare d) fun name => if name = f.name then some [f.id] else none := by
    rw [id, ← made]
    exact .declare ready rfl
  have scopes : (t.declare d).nextScope = f.scope := nextScope_declare start d
  rw [made] at opening
  rw [opening] at inside own
  have owned : (t.declare d).Owned (.decl f.id) := by
    show f.id.index < _
    rw [id, SymbolTable.size_declare]
    exact Nat.lt_succ_self _
  have late : ¬t.Owned (.decl f.id) := by
    rw [id]
    exact Nat.lt_irrefl _
  have outer : t.Continues u.leave fun name => if name = f.name then some [f.id] else none :=
    continues.under late (scopes ▸ inside)
  have lt : f.id.index < u.decls.size := Nat.lt_of_lt_of_le owned inside.extent.1
  have extent : (f.closed u).extent = u.extent := SymbolTable.extent_modifyDecl u.leave _ _
  refine ⟨⟨?decl, ?declared, ?opened, scope_ne_global ready start, ?parent, fun name => ?names, ?owns, ?bodiless,
    fun p member => ?parts⟩, ⟨start.symm, ?laid⟩, outer.modifyDecl (Nat.le_of_eq (congrArg DeclId.index id.symm)) _⟩
  case decl =>
    have isDecl : u.decl f.id = d := by
      refine (inside.decl f.id owned).trans ?_
      show (t.declare d).decl f.id = d
      rw [id, SymbolTable.decl_declare_nextDecl]
    refine (SymbolTable.decl_modifyDecl_self lt _).trans ?_
    show { (u.decl f.id).mapMembers (fun _ => f.body) with span := f.span } = _
    rw [isDecl, ← made, outermost]
    rfl
  case declared => exact lt_of_lt_of_le lt (le_of_eq (congrArg Extent.decls extent.symm))
  case opened =>
    show f.scope.index < u.scopes.size
    refine Nat.lt_of_lt_of_le ?_ inside.extent.2.1
    rw [← scopes]
    show _ < ((t.declare d).openFor (.decl f.id)).scopes.size
    rw [SymbolTable.size_scopes_openFor]
    exact Nat.lt_succ_self _
  case parent => exact inside.parent.trans (congrArg Scope.parent own)
  case names =>
    refine (inside.names name).trans ?_
    rw [← names]
    refine (congrArg (fun s => SymbolTable.joined (Scope.find? s name) (new name)) own).trans ?_
    exact SymbolTable.none_joined _
  case owns =>
    refine (inside.saved (.decl f.id) owned).trans ?_
    rw [← scopes]
    exact SymbolTable.scopeOf?_assignScope_self ..
  case bodiless =>
    refine (inside.saved (.body f.id) owned).trans ?_
    refine (SymbolTable.scopeOf?_assignScope_of_ne (by simp) _ _).trans ?_
    have free : ¬t.Owned (.body f.id) := late
    exact Option.eq_none_iff_forall_ne_some.mpr fun _ known => free (ready.owned known)
  case parts =>
    obtain ⟨stands, outer⟩ := parts p member
    have before := (laid.within (.part p) (List.mem_map_of_mem member)).1.1
    refine ⟨stands.leave.modifyDecl (Nat.lt_of_lt_of_le ?_ before) _, outer⟩
    exact Nat.lt_succ_self _
  case laid =>
    rw [extent]
    exact laid

omit ready start

/-- More is read at the outermost level. -/
theorem Stands.continues {f : Frame} {t t' : SymbolTable} {new : String → Option Overloads}
    (h : f.Stands t) (goesOn : t.Continues t' new) (outermost : t.innermost = .global) : f.Stands t' := by
  have same : t'.scope f.scope = t.scope f.scope := goesOn.scope _ h.opened (outermost ▸ h.inner)
  exact
  { decl := (goesOn.decl _ h.declared).trans h.decl
    declared := Nat.lt_of_lt_of_le h.declared goesOn.extent.1
    opened := Nat.lt_of_lt_of_le h.opened goesOn.extent.2.1
    inner := h.inner
    parent := by rw [same, h.parent]
    names := fun name => by rw [same, h.names]
    owns := (goesOn.saved (.decl f.id) h.declared).trans h.owns
    bodiless := (goesOn.saved (.body f.id) h.declared).trans h.bodiless
    parts := fun p member => by
      obtain ⟨stands, outer⟩ := h.parts p member
      refine ⟨stands.continues goesOn ?_, outer⟩
      rw [outermost]
      exact Nat.lt_of_le_of_lt (Nat.zero_le _) p.outside }

theorem Stands.leave {f : Frame} {t : SymbolTable} (h : f.Stands t) : f.Stands t.leave :=
  { h with parts := fun p member => ⟨(h.parts p member).1.leave, (h.parts p member).2⟩ }

end Frame

/-! ## Units -/

/-- What a unit consists of: texts, and classes and extensions with texts between their braces. -/
inductive Item where
  | text (f : Fragment)
  | braced (sort : ClassSort) (name : String) (fs : List Fragment)

/-- Where what a unit consists of has been read. -/
inductive Site where
  | text (p : Inset)
  | braced (f : Frame)

namespace Site

def item : Site → Item
  | text p => .text p.fragment
  | braced f => .braced f.sort f.name (f.parts.map Inset.fragment)

def cells : Site → List Cell
  | text p => [.part p]
  | braced f => f.cells

def body : Site → List Stmt
  | text p => p.body
  | braced f => [.declaration f.id f.span]

/-- What a name is declared as at the outermost level. -/
def find? : Site → String → Option Overloads
  | text p, name => p.find? name
  | braced f, name => if name = f.name then some [f.id] else none

def findAll (sites : List Site) (name : String) : Option Overloads :=
  sites.foldr (fun s found => SymbolTable.joined (s.find? name) found) none

/-- A table holds what has been read at the outermost level. -/
def Stands (t : SymbolTable) : Site → Prop
  | text p => p.Stands t ∧ p.base.innermost = .global
  | braced f => f.Stands t

theorem Stands.continues {s : Site} {t t' : SymbolTable} {new : String → Option Overloads}
    (h : s.Stands t) (goesOn : t.Continues t' new) (outermost : t.innermost = .global) : s.Stands t' := by
  cases s with
  | text p =>
    refine ⟨h.1.continues goesOn ?_, h.2⟩
    rw [outermost]
    exact Nat.lt_of_le_of_lt (Nat.zero_le _) p.outside
  | braced f => exact Frame.Stands.continues h goesOn outermost

theorem Stands.leave {s : Site} {t : SymbolTable} (h : s.Stands t) : s.Stands t.leave := by
  cases s with
  | text p => exact ⟨h.1.leave, h.2⟩
  | braced f => exact Frame.Stands.leave h

end Site

/-! ## Reading fragments where they stand

A loop over statements reads fragments one behind the other, and each stands where it has been read. Those
in the braces of a class or an extension stand in its scope. Only a fragment that begins with an `else`
would be read differently behind another one.
-/

open Reader Grammar SymbolTable

variable {more : TokenKind → Bool} {item : Reader Stmt} {length : Nat}

/-! ## What comes next -/

/-- Tokens that do not begin with an `else`. -/
def NoElse (ws : List Token) : Prop := ∀ t ∈ ws.head?, t.kind ≠ .keyword .elseKw

theorem noElse_flatMap {α : Type} {as : List α} {f : α → List Token} (all : ∀ a ∈ as, NoElse (f a)) :
    NoElse (as.flatMap f) := by
  intro t first
  rw [List.head?_flatMap] at first
  obtain ⟨a, member, found⟩ := List.exists_of_findSome?_eq_some first
  exact all a member t found

/-- Neither do tokens that are the same but for their places, if the token behind them is none. -/
theorem NoElse.next {ws u behind : List Token} {stop : Token} (h : NoElse ws)
    (same : u.map Token.unplaced = ws) (noElse : (behind.head?.getD stop).kind ≠ .keyword .elseKw) :
    ((u ++ behind).head?.getD stop).kind ≠ .keyword .elseKw := by
  subst same
  cases u with
  | nil => exact noElse
  | cons t rest => exact h t.unplaced rfl

theorem current_of_upcoming {c : Cursor} {t : Token} {rest : List Token} (h : c.upcoming = t :: rest) :
    c.current = t := by
  rw [Cursor.current, h]
  rfl

theorem kind_of_upcoming {c : Cursor} {t : Token} {rest : List Token} (h : c.upcoming = t :: rest) :
    c.kind = t.kind := congrArg Token.kind (current_of_upcoming h)

/-- What is read as declarations only does not begin with an `else`, which would begin an expression. -/
theorem Fragment.noElse {f : Fragment} (declares : ∀ s ∈ f.unit.body, s.declaration?.isSome) :
    NoElse f.spelled := by
  intro token first isElse
  obtain ⟨c, c₁, t₁, -, spelled, reads, -⟩ := f.reads
  rw [← spelled] at first
  cases upcoming : c.upcoming with
  | nil => simp [upcoming] at first
  | cons t rest =>
    obtain rfl : t.unplaced = token := by simpa [upcoming] using first
    have kind : c.kind = .keyword .elseKw := (kind_of_upcoming upcoming).trans isElse
    rw [upcoming, List.length_cons] at reads
    -- The loop reads a statement first, and that is the expression that begins with the `else`.
    have reads := peel_seen reads
    rw [kind, if_pos (by decide)] at reads
    obtain ⟨s, c₂, t₂, one, behind⟩ := reads_bind.mp reads
    obtain ⟨others, c₃, t₃, -, last⟩ := reads_bind.mp behind
    obtain ⟨whole, -⟩ := reads_pure.mp last
    have one := peel_get one
    rw [upcoming, List.length_cons] at one
    have one := peel_seen one
    rw [kind] at one
    obtain ⟨e, c₄, -, ended⟩ := (still_expressionUpTo _).peel one
    obtain ⟨_, c₅, -, last⟩ := (still_expect _).peel ended
    obtain ⟨rfl, -⟩ := reads_pure.mp last
    have declared := declares (.expression e) (whole ▸ List.mem_cons_self ..)
    cases declared

/-! ## One behind the other -/

/-- A fragment is read where it stands, and stands there. -/
theorem exists_reads_inset (loops : Loops more item length) (f : Fragment) {c : Cursor} {t : SymbolTable}
    {u behind : List Token} (ready : t.Ready) (upcoming : c.upcoming = u ++ behind)
    (same : u.map Token.unplaced = f.spelled) (short : c.upcoming.length ≤ length)
    (noElse : (behind.head?.getD c.stop).kind ≠ .keyword .elseKw) :
    ∃ (p : Inset) (c₁ : Cursor) (t₁ : SymbolTable), p.fragment = f ∧ p.base = t ∧ p.Stands t₁ ∧
      t₁.extent = p.stop ∧ t.Continues t₁ p.find? ∧ c₁.upcoming = behind ∧ c₁.stop = c.stop ∧ Advances more item c t p.body c₁ t₁ := by
  obtain ⟨own, own₁, made, scanned, words, reads, table⟩ := f.reads
  obtain ⟨rank, isRead⟩ := f.isRead
  have grown := GrownFrom.start [.global] ready.innermost ready.ordered
  have ahead : (⟨t, behind, c.stop, noElse⟩ : Surroundings).Ahead own c :=
    ⟨scanned, ⟨u, upcoming, same.trans words.symm⟩, rfl⟩
  obtain ⟨body, c₁, t₁, grown₁, next, stop, -, bodies, advances⟩ :=
    exists_reads_fragment loops _ grown ahead (Nat.le_refl _) short reads
  have extent : f.table.extent = made.extent := by rw [table]; rfl
  have owned {owner : ScopeOwner} {s : ScopeId} (known : made.scopeOf? owner = some s) :
      made.Owned owner := by
    have known : f.table.scopeOf? owner = some s := by rw [table]; exact known
    have owned := (isRead.built.owned known).1
    rw [table] at owned
    cases owner <;> exact owned
  refine ⟨⟨f, t, body, ready.innermost, by rw [extent]; exact bodies⟩, c₁, t₁, rfl, rfl,
    grown₁.stands ready table, ?_, ?_, next, stop, advances⟩
  · have decls : f.table.decls.size = made.decls.size := congrArg Extent.decls extent
    have scopes : f.table.scopes.size = made.scopes.size := congrArg Extent.scopes extent
    have blocks : f.table.nextBlock = made.nextBlock := congrArg Extent.blocks extent
    have more : t₁.scopes.size + 1 = t.scopes.size + made.scopes.size := grown₁.scopes
    have positive := grown₁.global
    refine Extent.ext ?_ ?_ ?_
    · show t₁.decls.size = t.decls.size + f.table.decls.size
      rw [grown₁.size, decls]
    · show t₁.scopes.size = t.scopes.size + (f.table.scopes.size - 1)
      rw [scopes]
      omega
    · show t₁.nextBlock = t.nextBlock + f.table.nextBlock
      rw [grown₁.blocks, blocks]
  have continues := grown₁.continues ready owned
  have names (name : String) : (made.scope .global).find? name = f.find? name := by
    rw [Fragment.find?, table]
    rfl
  simp only [names] at continues
  exact continues

/-- Fragments are read one behind the other. -/
theorem exists_reads_insets (loops : Loops more item length) {behind : List Token} {stop : Token}
    (noElse : (behind.head?.getD stop).kind ≠ .keyword .elseKw) :
    ∀ (fs : List Fragment) ⦃c : Cursor⦄ ⦃t : SymbolTable⦄ ⦃u : List Token⦄, t.Ready →
      c.upcoming = u ++ behind → c.stop = stop → u.map Token.unplaced = fs.flatMap Fragment.spelled →
      c.upcoming.length ≤ length → (∀ f ∈ fs.tail, NoElse f.spelled) →
      ∃ (ps : List Inset) (c₁ : Cursor) (t₁ : SymbolTable), ps.map Inset.fragment = fs ∧
        (∀ p ∈ ps, p.Stands t₁ ∧ p.base.innermost = t.innermost) ∧
        Cell.Laid t.extent (ps.map .part) t₁.extent ∧ t.Continues t₁ (Inset.findAll ps) ∧
        c₁.upcoming = behind ∧ c₁.stop = stop ∧
        Advances more item c t (ps.flatMap Inset.body) c₁ t₁
  | [], c, t, u, ready, upcoming, atStop, same, _, _ => by
    obtain rfl := List.map_eq_nil_iff.mp same
    exact ⟨[], c, t, rfl, fun _ none => (by cases none), rfl, .refl ready, upcoming, atStop,
      fun _ _ _ run => run⟩
  | f :: fs, c, t, u, ready, upcoming, atStop, same, short, noElses => by
    obtain ⟨u₁, u₂, rfl, same₁, same₂⟩ := List.map_eq_append_iff.mp same
    rw [List.append_assoc] at upcoming
    have next : ((u₂ ++ behind).head?.getD stop).kind ≠ .keyword .elseKw :=
      (noElse_flatMap noElses).next same₂ noElse
    obtain ⟨p, c₁, t₁, rfl, rfl, stands, ends, continues, upcoming₁, stop₁, advances⟩ :=
      exists_reads_inset loops f ready upcoming same₁ short (atStop ▸ next)
    have shorter : c₁.upcoming.length ≤ c.upcoming.length := by
      rw [upcoming₁, upcoming]
      simp
    obtain ⟨ps, c₂, t₂, rfl, others, laid, continues₂, upcoming₂, stop₂, advances₂⟩ :=
      exists_reads_insets loops noElse fs continues.ready upcoming₁ (stop₁.trans atStop) same₂
        (Nat.le_trans shorter short) fun g member => noElses g (List.mem_of_mem_tail member)
    have before : t₁.innermost.index < p.start.scopes := by
      rw [continues.innermost]
      exact ready.innermost
    refine ⟨p :: ps, c₂, t₂, rfl, fun q member => ?_, ⟨rfl, ?_⟩, continues.trans continues₂, upcoming₂,
      stop₂, fun rest c₃ t₃ run => ?_⟩
    · rcases List.mem_cons.mp member with rfl | member
      · exact ⟨stands.continues continues₂ before, rfl⟩
      · exact ⟨(others q member).1, (others q member).2.trans continues.innermost⟩
    · exact Eq.subst (motive := fun lo => Cell.Laid lo _ _) ends laid
    · rw [List.flatMap_cons, List.append_assoc]
      exact advances (advances₂ run)

/-! ## In braces -/

namespace ClassSort

/-- The word that begins a class or an extension. -/
def keyword : ClassSort → Keyword
  | primary => .classKw
  | extension => .extensionKw

end ClassSort

/-- The tokens of a class or an extension with some tokens between its braces, wherever they stand. -/
def braced (sort : ClassSort) (name : String) (inner : List Token) : List Token :=
  ⟨.keyword sort.keyword, sort.keyword.spelling, .nowhere⟩ :: ⟨.identifier, name, .nowhere⟩ ::
    ⟨openCurly, Mark.openCurly.spelling, .nowhere⟩ ::
      (inner ++ [⟨closeCurly, Mark.closeCurly.spelling, .nowhere⟩])

theorem noElse_braced (sort : ClassSort) (name : String) (inner : List Token) :
    NoElse (braced sort name inner) := by
  intro t first
  obtain rfl := Option.some.inj first
  cases sort <;> decide

theorem reads_classKind {sort : ClassSort} {c : Cursor} {t : SymbolTable} (kind : c.kind = openCurly) :
    Reads (classKind sort) c t .metatype c t := by
  unfold classKind
  cases sort with
  | primary =>
    refine reads_bind.mpr ⟨false, c, t, reads_accept_of_ne ?_, reads_pure.mpr ⟨rfl, rfl, rfl⟩⟩
    rw [kind]
    decide
  | extension => exact reads_pure.mpr ⟨rfl, rfl, rfl⟩

/-- A class or an extension is read as a statement, and stands where it has been read. -/
theorem exists_reads_frame (sort : ClassSort) (name : String) (fs : List Fragment) {depth : Nat}
    {c : Cursor} {t : SymbolTable} {u behind : List Token} (ready : t.Ready) (outermost : t.innermost = .global)
    (upcoming : c.upcoming = u ++ behind)
    (same : u.map Token.unplaced = braced sort name (fs.flatMap Fragment.spelled))
    (short : c.upcoming.length ≤ depth + 1) (noElses : ∀ f ∈ fs.tail, NoElse f.spelled) :
    ∃ (f : Frame) (c₁ : Cursor) (t₁ : SymbolTable), f.sort = sort ∧ f.name = name ∧ f.start = t.extent ∧
      f.parts.map Inset.fragment = fs ∧ f.Stands t₁ ∧ Cell.Laid t.extent f.cells t₁.extent ∧
      t.Continues t₁ (fun other => if other = name then some [f.id] else none) ∧
      c₁.upcoming = behind ∧ c₁.stop = c.stop ∧
      Reads (classStatement (statementWithin depth) sort) c t (.declaration f.id f.span) c₁ t₁ := by
  obtain ⟨word, u₁, rfl, wordSame, same⟩ := List.map_eq_cons_iff.mp same
  obtain ⟨title, u₂, rfl, titleSame, same⟩ := List.map_eq_cons_iff.mp same
  obtain ⟨opening, u₃, rfl, openingSame, same⟩ := List.map_eq_cons_iff.mp same
  obtain ⟨u₄, last, rfl, between, lastSame⟩ := List.map_eq_append_iff.mp same
  obtain ⟨closing, none, rfl, closingSame, nothing⟩ := List.map_eq_cons_iff.mp lastSame
  obtain rfl := List.map_eq_nil_iff.mp nothing
  simp only [List.cons_append, List.append_assoc, List.nil_append] at upcoming
  -- The cursors behind the word, the name and the opening brace.
  have at₁ : c.next.upcoming = title :: opening :: (u₄ ++ closing :: behind) := by
    rw [c.upcoming_next, upcoming, List.tail_cons]
  have at₂ : c.next.next.upcoming = opening :: (u₄ ++ closing :: behind) := by
    rw [c.next.upcoming_next, at₁, List.tail_cons]
  have at₃ : c.next.next.next.upcoming = u₄ ++ closing :: behind := by
    rw [c.next.next.upcoming_next, at₂, List.tail_cons]
  have titled : c.next.kind = .identifier := (kind_of_upcoming at₁).trans (congrArg Token.kind titleSame)
  have text : c.next.current.text = name :=
    (congrArg Token.text (current_of_upcoming at₁)).trans (congrArg Token.text titleSame)
  have opened : c.next.next.kind = openCurly := (kind_of_upcoming at₂).trans (congrArg Token.kind openingSame)
  have closed : closing.kind = closeCurly := congrArg Token.kind closingSame
  have shorter : c.next.next.next.upcoming.length < c.upcoming.length := by
    rw [at₃, upcoming]
    simp only [List.length_cons, List.length_append]
    omega
  have next : ((closing :: behind).head?.getD c.stop).kind ≠ .keyword .elseKw := by
    show closing.kind ≠ _
    rw [closed]
    decide
  obtain ⟨into, entered⟩ :=
    Frame.ready_opened (f := ⟨sort, name, t.extent, c.current.span, []⟩) c.current.span ready rfl
  obtain ⟨ps, c₄, t₄, rfl, stand, laid, inside, at₄, stop₄, advances⟩ :=
    exists_reads_insets (loops_statementWithin depth) next fs into at₃ (by simp) between (by omega) noElses
  rw [entered] at stand
  obtain ⟨stands, laid, continues⟩ :=
    Frame.stands_closed (f := ⟨sort, name, t.extent, ⟨c.current.span.start, c₄.next.endOfLast⟩, ps⟩)
      c.current.span ready rfl outermost (fun _ => rfl) inside stand laid
  refine ⟨_, c₄.next, _, rfl, rfl, rfl, rfl, stands, laid, continues,
    by rw [c₄.upcoming_next, at₄, List.tail_cons], by rw [c₄.stop_next, stop₄], ?_⟩
  subst text
  have last : c₄.kind = closeCurly := (kind_of_upcoming at₄).trans closed
  have block : Reads (blockBody (statementWithin depth)) c.next.next
      ((Frame.mk sort c.next.current.text t.extent c.current.span []).opened t c.current.span)
      (ps.flatMap Inset.body) c₄.next t₄ := by
    refine reads_bind.mpr ⟨_, _, _, reads_expect opened, ?_⟩
    refine reads_bind.mpr ⟨ps.flatMap Inset.body, c₄, t₄, ?_,
      reads_bind.mpr ⟨_, _, _, reads_expect last, reads_pure.mpr ⟨rfl, rfl, rfl⟩⟩⟩
    refine reads_bind.mpr ⟨_, _, _, reads_pure.mpr ⟨rfl, rfl, rfl⟩, ?_⟩
    have ended (bound : Nat) (_ : c₄.upcoming.length ≤ bound) :
        Reads (manyWithin (fun kind => kind ≠ .endOfInput ∧ kind ≠ closeCurly) (statementWithin depth) bound)
          c₄ t₄ [] c₄ t₄ := by
      cases bound with
      | zero => exact reads_pure.mpr ⟨rfl, rfl, rfl⟩
      | succ bound =>
        refine reads_bind.mpr ⟨_, _, _, reads_map.mpr ⟨c₄, reads_pure.mpr ⟨rfl, rfl, rfl⟩, rfl⟩, ?_⟩
        rw [if_neg (by rw [last]; decide)]
        exact reads_pure.mpr ⟨rfl, rfl, rfl⟩
    simpa using advances ended _ (Nat.le_refl _)
  refine reads_bind.mpr ⟨_, _, _, reads_advance, reads_bind.mpr ⟨_, _, _, reads_identifierFor titled, ?_⟩⟩
  refine reads_bind.mpr ⟨_, _, _, reads_classKind opened, ?_⟩
  refine reads_bind.mpr ⟨_, _, _, reads_declare_iff.mpr ⟨rfl, rfl, rfl⟩, ?_⟩
  refine reads_bind.mpr ⟨_, _, _, reads_newScope_iff.mpr ⟨rfl, rfl, rfl⟩, ?_⟩
  refine reads_bind.mpr ⟨_, _, _, reads_under.mpr ⟨t₄, block, rfl⟩, ?_⟩
  refine reads_bind.mpr ⟨_, _, _, reads_map.mpr ⟨_, reads_pure.mpr ⟨rfl, rfl, rfl⟩, rfl⟩, ?_⟩
  exact reads_bind.mpr ⟨⟨⟩, _, _, reads_change.mpr ⟨rfl, rfl⟩, reads_pure.mpr ⟨rfl, rfl, rfl⟩⟩

/-! ## Units -/

namespace Item

/-- The tokens of what a unit consists of, wherever they stand. -/
def spelled : Item → List Token
  | text f => f.spelled
  | .braced sort name fs => Deferral.braced sort name (fs.flatMap Fragment.spelled)

/-- No fragment that comes behind another one begins with an `else`. -/
def Parted : Item → Prop
  | text f => NoElse f.spelled
  | .braced _ _ fs => ∀ f ∈ fs.tail, NoElse f.spelled

theorem Parted.noElse : ∀ {i : Item}, i.Parted → NoElse i.spelled
  | text _, h => h
  | .braced _ _ _, _ => noElse_braced _ _ _

end Item

/-- One thing that a unit consists of is read where it stands. -/
theorem exists_reads_site (i : Item) {c : Cursor} {t : SymbolTable} {u behind : List Token} (ready : t.Ready)
    (outermost : t.innermost = .global) (upcoming : c.upcoming = u ++ behind)
    (same : u.map Token.unplaced = i.spelled) (parted : i.Parted)
    (noElse : (behind.head?.getD c.stop).kind ≠ .keyword .elseKw) :
    ∃ (s : Site) (c₁ : Cursor) (t₁ : SymbolTable), s.item = i ∧ s.Stands t₁ ∧
      Cell.Laid t.extent s.cells t₁.extent ∧ t.Continues t₁ s.find? ∧ c₁.upcoming = behind ∧
      c₁.stop = c.stop ∧ Advances (· ≠ .endOfInput) statement c t s.body c₁ t₁ := by
  cases i with
  | text f =>
    obtain ⟨p, c₁, t₁, rfl, rfl, stands, ends, continues, upcoming₁, stop₁, advances⟩ :=
      exists_reads_inset (loops_statement _) f ready upcoming same (Nat.le_refl _) noElse
    exact ⟨.text p, c₁, t₁, rfl, ⟨stands, outermost⟩, ⟨rfl, ends.symm⟩, continues, upcoming₁, stop₁,
      advances⟩
  | braced sort name fs =>
    obtain ⟨word, rest, front, wordSame⟩ : ∃ word rest, u = word :: rest ∧
        word.kind = .keyword sort.keyword := by
      obtain ⟨word, rest, front, wordSame, -⟩ := List.map_eq_cons_iff.mp same
      exact ⟨word, rest, front, congrArg Token.kind wordSame⟩
    have kind : c.kind = .keyword sort.keyword :=
      (kind_of_upcoming (show c.upcoming = word :: (rest ++ behind) by rw [upcoming, front]; rfl)).trans wordSame
    have length : c.upcoming.length = (rest ++ behind).length + 1 := by
      rw [upcoming, front]
      rfl
    obtain ⟨f, c₁, t₁, rfl, rfl, start, rfl, stands, laid, continues, upcoming₁, stop₁, reads⟩ :=
      exists_reads_frame sort name fs ready outermost upcoming same (Nat.le_of_eq length) parted
    refine ⟨.braced f, c₁, t₁, rfl, stands, laid, continues, upcoming₁, stop₁, advances_of_reads ?_ ?_ ?_⟩
    · rw [kind]
      rfl
    · refine reads_bind.mpr ⟨c, c, t, reads_pure.mpr ⟨rfl, rfl, rfl⟩, ?_⟩
      rw [length]
      refine reads_bind.mpr ⟨_, _, _, reads_map.mpr ⟨c, reads_pure.mpr ⟨rfl, rfl, rfl⟩, rfl⟩, ?_⟩
      rw [kind]
      generalize f.sort = sort at reads
      cases sort <;> exact reads
    · rw [upcoming₁, length, List.length_append]
      omega

/-- What a unit consists of is read, each where it stands. -/
theorem exists_reads_sites : ∀ (items : List Item) ⦃c : Cursor⦄ ⦃t : SymbolTable⦄, t.Ready →
    t.innermost = .global → c.upcoming.map Token.unplaced = items.flatMap Item.spelled →
    c.stop.kind = .endOfInput → (∀ i ∈ items, i.Parted) →
    ∃ (sites : List Site) (c₁ : Cursor) (t₁ : SymbolTable), sites.map Site.item = items ∧
      (∀ s ∈ sites, s.Stands t₁) ∧ Cell.Laid t.extent (sites.flatMap Site.cells) t₁.extent ∧
      t.Continues t₁ (Site.findAll sites) ∧ c₁.upcoming = [] ∧ c₁.stop = c.stop ∧
      Advances (· ≠ .endOfInput) statement c t (sites.flatMap Site.body) c₁ t₁
  | [], c, t, ready, _, same, _, _ =>
    ⟨[], c, t, rfl, fun _ none => (by cases none), rfl, .refl ready, List.map_eq_nil_iff.mp same,
      rfl, .refl ..⟩
  | i :: items, c, t, ready, outermost, same, ended, parted => by
    obtain ⟨u, behind, upcoming, same₁, same₂⟩ := List.map_eq_append_iff.mp same
    obtain ⟨parted₁, parted₂⟩ := List.forall_mem_cons.mp parted
    have next : ((behind ++ []).head?.getD c.stop).kind ≠ .keyword .elseKw :=
      (noElse_flatMap fun i member => (parted₂ i member).noElse).next same₂
        (by show c.stop.kind ≠ _; rw [ended]; decide)
    obtain ⟨s, c₁, t₁, rfl, stands, laid, continues, rfl, stop₁, advances⟩ :=
      exists_reads_site i ready outermost upcoming same₁ parted₁ (by rwa [List.append_nil] at next)
    have outermost₁ : t₁.innermost = .global := continues.innermost.trans outermost
    obtain ⟨sites, c₂, t₂, rfl, others, laid₂, continues₂, upcoming₂, stop₂, advances₂⟩ :=
      exists_reads_sites items continues.ready outermost₁ same₂ (stop₁ ▸ ended) parted₂
    refine ⟨s :: sites, c₂, t₂, rfl, fun r member => ?_, laid.append laid₂, continues.trans continues₂,
      upcoming₂, stop₂.trans stop₁, advances.trans advances₂⟩
    rcases List.mem_cons.mp member with rfl | member
    · exact stands.continues continues₂ outermost₁
    · exact others r member

/-- A unit that has been read consists of what stands at some sites, one behind the other. -/
structure SourceUnit.Comprises (u : SourceUnit) (t : SymbolTable) (sites : List Site) : Prop where
  body : u.body = sites.flatMap Site.body
  stands : ∀ s ∈ sites, s.Stands t
  laid : Cell.Laid SymbolTable.empty.extent (sites.flatMap Site.cells) t.extent
  names : ∀ name, (t.scope .global).find? name = Site.findAll sites name
  constants : t.constants = []
  binding : t.binding = []

theorem SymbolTable.ready_empty : (SymbolTable.empty.enter .global).Ready where
  ordered := built_empty.ordered
  innermost := Nat.zero_lt_one
  owned known := by cases known

/-- A source is read if its tokens are those of some fragments, and of classes and extensions with such. -/
theorem SourceUnit.exists_read {source : List Char} {file : String} {tokens : List Token}
    (scanned : Token.scan source file = .ok tokens) {items : List Item}
    (same : (Token.beforeEnd tokens).map Token.unplaced = items.flatMap Item.spelled)
    (parted : ∀ i ∈ items, i.Parted) :
    ∃ (u : SourceUnit) (t : SymbolTable) (sites : List Site),
      (SourceUnit.read tokens).run.run .empty = (.ok u, t) ∧ sites.map Site.item = items ∧
        u.Comprises t sites := by
  obtain ⟨isScanned, upcoming⟩ := Cursor.isScanned_ofTokens scanned
  obtain ⟨sites, c, t, items, stands, laid, continues, ended, stop, advances⟩ :=
    exists_reads_sites items SymbolTable.ready_empty rfl (upcoming ▸ same) isScanned.ended parted
  have last (bound : Nat) (_ : c.upcoming.length ≤ bound) :
      Reads (manyWithin (· ≠ .endOfInput) statement bound) c t [] c t := by
    cases bound with
    | zero => exact reads_pure.mpr ⟨rfl, rfl, rfl⟩
    | succ bound =>
      refine reads_bind.mpr ⟨_, _, _, reads_map.mpr ⟨c, reads_pure.mpr ⟨rfl, rfl, rfl⟩, rfl⟩, ?_⟩
      have kind : c.kind = .endOfInput := by
        rw [Cursor.kind, Cursor.current, ended, stop]
        exact isScanned.ended
      rw [if_neg (by rw [kind]; decide)]
      exact reads_pure.mpr ⟨rfl, rfl, rfl⟩
  have reads := advances last _ (Nat.le_refl _)
  rw [List.append_nil] at reads
  refine ⟨⟨sites.flatMap Site.body, .global⟩, t.leave, sites, SourceUnit.runs_read.mpr ⟨c, t, ?_, rfl, rfl⟩,
    items, rfl, fun s member => ?_, laid, fun name => ?_, continues.constants, continues.binding⟩
  · exact reads_bind.mpr ⟨_, _, _, reads_pure.mpr ⟨rfl, rfl, rfl⟩, reads⟩
  · exact (stands s member).leave
  · refine (continues.names name).trans ?_
    exact SymbolTable.none_joined _

/-! ## What stands at the outermost level

The sites of a unit are fragments, and classes and extensions with fragments between their braces. Their cells
fill the numbers that the table has given.
-/

namespace Site

def text? : Site → Option Inset
  | text p => some p
  | braced _ => none

def frame? : Site → Option Frame
  | text _ => none
  | braced f => some f

/-- The fragments outside of classes and extensions. -/
def texts (sites : List Site) : List Inset := sites.filterMap text?

/-- The classes and extensions. -/
def frames (sites : List Site) : List Frame := sites.filterMap frame?

@[simp] theorem texts_nil : texts [] = [] := rfl
@[simp] theorem texts_text (p : Inset) (rest : List Site) : texts (.text p :: rest) = p :: texts rest := rfl
@[simp] theorem texts_braced (f : Frame) (rest : List Site) : texts (.braced f :: rest) = texts rest := rfl
@[simp] theorem frames_nil : frames [] = [] := rfl
@[simp] theorem frames_text (p : Inset) (rest : List Site) : frames (.text p :: rest) = frames rest := rfl
@[simp] theorem frames_braced (f : Frame) (rest : List Site) : frames (.braced f :: rest) = f :: frames rest :=
  rfl

theorem texts_append (sites sites' : List Site) : texts (sites ++ sites') = texts sites ++ texts sites' :=
  List.filterMap_append

theorem frames_append (sites sites' : List Site) : frames (sites ++ sites') = frames sites ++ frames sites' :=
  List.filterMap_append

theorem mem_texts {p : Inset} {sites : List Site} : p ∈ texts sites ↔ Site.text p ∈ sites := by
  unfold texts
  rw [List.mem_filterMap]
  constructor
  · rintro ⟨_ | _, member, same⟩
    · exact Option.some.inj same ▸ member
    · cases same
  · exact fun member => ⟨_, member, rfl⟩

theorem mem_frames {f : Frame} {sites : List Site} : f ∈ frames sites ↔ Site.braced f ∈ sites := by
  unfold frames
  rw [List.mem_filterMap]
  constructor
  · rintro ⟨_ | _, member, same⟩
    · cases same
    · exact Option.some.inj same ▸ member
  · exact fun member => ⟨_, member, rfl⟩

/-- All fragments, those between braces behind the others. -/
def parts (sites : List Site) : List Inset := texts sites ++ (frames sites).flatMap Frame.parts

/-- Cells with those of the classes and extensions behind the others. -/
def gathered (sites : List Site) : List Cell :=
  (parts sites).map Cell.part ++ (frames sites).map fun f => Cell.head f.start

theorem cells_perm : ∀ sites : List Site, (sites.flatMap cells).Perm (gathered sites)
  | [] => .nil
  | text p :: rest => by
    rw [List.flatMap_cons]
    exact (cells_perm rest).cons (.part p)
  | braced f :: rest => by
    have moved : (f.parts ++ parts rest).Perm (parts (braced f :: rest)) := by
      unfold parts
      rw [texts_braced, frames_braced, List.flatMap_cons, ← List.append_assoc, ← List.append_assoc]
      exact List.perm_append_comm.append_right _
    calc (f.cells ++ rest.flatMap cells).Perm (f.cells ++ gathered rest) := (cells_perm rest).append_left _
      _ = Cell.head f.start :: ((f.parts ++ parts rest).map Cell.part ++
            (frames rest).map fun f => Cell.head f.start) := by
          rw [Frame.cells, gathered, List.map_append, List.append_assoc]
          rfl
      List.Perm _ (Cell.head f.start :: ((parts (braced f :: rest)).map Cell.part ++
            (frames rest).map fun f => Cell.head f.start)) := ((moved.map _).append_right _).cons _
      List.Perm _ (gathered (braced f :: rest)) := List.perm_middle.symm

theorem apart_cells {sites : List Site} {lo hi : Extent} (laid : Cell.Laid lo (sites.flatMap cells) hi) :
    (gathered sites).Pairwise Cell.Apart := by
  exact (cells_perm sites).pairwise laid.apart Cell.Apart.symm

/-! ## How many declarations there are -/

end Site

namespace Cell

/-- How many declarations a cell has numbered. -/
def declared : Cell → Nat
  | part p => p.table.decls.size
  | head _ => 1

theorem Laid.decls : ∀ {cells : List Cell} {lo hi : Extent}, Laid lo cells hi →
    hi.decls = lo.decls + (cells.map declared).sum
  | [], _, _, h => congrArg Extent.decls (Eq.symm h)
  | c :: rest, lo, hi, h => by
    have width : c.stop.decls = c.start.decls + c.declared := by cases c <;> rfl
    rw [h.2.decls, width, List.map_cons, List.sum_cons, Nat.add_assoc, h.1]

end Cell

namespace Site

/-- How many declarations some fragments have. -/
def declared (ps : List Inset) : Nat := (ps.map fun p => p.table.decls.size).sum

theorem decls_eq {sites : List Site} {lo hi : Extent} (laid : Cell.Laid lo (sites.flatMap cells) hi) :
    hi.decls = lo.decls + (declared (parts sites) + (frames sites).length) := by
  rw [laid.decls, ((cells_perm sites).map _).sum_eq, gathered, List.map_append, List.sum_append, List.map_map,
    List.map_map]
  congr 2
  show ((frames sites).map fun _ => 1).sum = _
  rw [List.map_const', List.sum_const_nat, Nat.mul_one]

/-! ## What names are declared as -/

theorem findAll_cons (s : Site) (rest : List Site) (name : String) :
    findAll (s :: rest) name = SymbolTable.joined (s.find? name) (findAll rest name) := rfl

theorem findAll_of_ne {name : String} : ∀ {sites : List Site}, (∀ f ∈ frames sites, f.name ≠ name) →
    findAll sites name = Inset.findAll (texts sites) name
  | [], _ => rfl
  | text p :: rest, other => congrArg (SymbolTable.joined (p.find? name)) (show findAll rest name = _ from findAll_of_ne other)
  | braced f :: rest, other => by
    obtain ⟨ne, other⟩ := List.forall_mem_cons.mp other
    rw [findAll_cons, findAll_of_ne other, Site.find?, if_neg (Ne.symm ne), texts_braced]
    exact SymbolTable.none_joined _

/-- A name that only classes and extensions have, and all of them. -/
theorem findAll_frames {name : String} : ∀ {sites : List Site}, (∀ f ∈ frames sites, f.name = name) →
    (∀ p ∈ texts sites, p.find? name = none) →
    findAll sites name = if frames sites = [] then none else some ((frames sites).map Frame.id)
  | [], _, _ => rfl
  | text p :: rest, named, without => by
    obtain ⟨first, without⟩ := List.forall_mem_cons.mp without
    have others : findAll rest name = _ := findAll_frames named without
    rw [findAll_cons, Site.find?, first, others]
    exact SymbolTable.none_joined _
  | braced f :: rest, named, without => by
    obtain ⟨eq, named⟩ := List.forall_mem_cons.mp named
    have others : findAll rest name = _ := findAll_frames named without
    rw [findAll_cons, others, Site.find?, if_pos eq.symm, frames_braced,
      if_neg (List.cons_ne_nil _ _)]
    split
    · next none =>
      rw [none]
      exact SymbolTable.joined_none _
    · rw [SymbolTable.joined_some]
      rfl

end Site

end Deferral
