import Deferral.Proofs.Scope.FirstPass
import Deferral.Proofs.Scope.SecondPass
import Deferral.Proofs.SecondPass.Resolved

/-!
# Binding is lexical

In a source without faults every name refers to what it stands for in the scope it is written in: the
first declaration, extensions aside, of the nearest overload set of that name. This holds as long as no
two classes have the same name, whatever the order in which types, constants and initializers have been
read.
-/

namespace Deferral

open SymbolTable

variable {t : SymbolTable} {u : SourceUnit}

/-- An expression met on a walk over a unit, with the scope the walk carries: a unit stands in the
global scope, and extensions are not entered. Types are not entered either, nor are operands of `decltype` that
are kept in them: such an operand in the type of a parameter is bound before the type parameters that its
signature makes can be seen. -/
def SourceUnit.Meets (u : SourceUnit) (t : SymbolTable) (scope? : Option ScopeId) (e : Expr) : Prop :=
  (scope?, e) ∈ Stmt.locatedIn t (some .global) u.body ∨
    ∃ id, u.Reaches t id ∧ (t.decl id).isExtension = false ∧ (scope?, e) ∈ t.located id

/-! ## Every expression has a scope -/

theorem SourceUnit.IsResolved.visits (h : u.IsResolved t) {id : DeclId} (reached : u.Reaches t id) :
    ∃ V, t.Visits ∅ V id := by
  obtain ⟨V, all, visited⟩ := h.visited
  suffices id ∈ V from ⟨V, visited id this⟩
  induction reached with
  | stated member => exact all _ member
  | inside _ other member ih => exact (visited _ ih).inside other _ member

theorem SymbolTable.Neat.scopeOf? {id : DeclId} (neat : t.Neat id) (filled : ¬(t.decl id).IsBare) :
    (t.scopeOf? (.decl id)).isSome = true :=
  Option.isSome_iff_exists.mpr (neat.scope.resolve_left filled)

theorem SourceUnit.IsResolved.isSome_of_located (h : u.IsResolved t) {id : DeclId}
    (reached : u.Reaches t id) (other : (t.decl id).isExtension = false) :
    ∀ p ∈ t.located id, p.1.isSome = true := by
  obtain ⟨V, visits⟩ := h.visits reached
  obtain ⟨C, held, completed⟩ := h.completes reached
  have neat := visits.neat other
  unfold SymbolTable.located
  split
  · intro p member
    obtain ⟨e, -, rfl⟩ := List.mem_map.mp member
    rfl
  · rename_i sort c kind
    have own := neat.scopeOf? (by simp [Decl.IsBare, kind])
    have body := Decl.body_of_kind kind
    cases same : c.body with
    | absent => exact fun _ none => by cases none
    | statement s => exact Stmt.isSome_of_located own s (neat.body s (body.trans same)).2
    | expression e =>
      intro p member
      obtain rfl := List.mem_singleton.mp member
      exact Option.isSome_iff_exists.mpr ((completed id held).owns e (body.trans same))
  · rename_i sort kind' body kind
    have own := neat.scopeOf? (by simp [Decl.IsBare, kind])
    have members : t.members id = body := by simp [SymbolTable.members, Decl.members?, kind]
    exact Stmt.isSome_of_locatedIn own body (members ▸ neat.members.2)
  all_goals exact fun _ none => by cases none

/-! ## Class names -/

theorem SymbolTable.uniqueClasses_iff : t.UniqueClasses ↔
    ∀ i < t.decls.size, ∀ j < t.decls.size, (t.decl ⟨i⟩).isPrimaryClass = true →
      (t.decl ⟨j⟩).isPrimaryClass = true → (t.decl ⟨i⟩).name = (t.decl ⟨j⟩).name → i = j := by
  constructor
  · intro unique i _ j _ primary primary' named
    exact congrArg DeclId.index (unique ⟨i⟩ ⟨j⟩ primary primary' named)
  · intro unique c c' primary primary' named
    have same := unique c.index (lt_size_of_isPrimaryClass primary) c'.index
      (lt_size_of_isPrimaryClass primary') primary primary' named
    cases c
    exact congrArg DeclId.mk same

instance : Decidable t.UniqueClasses := decidable_of_iff _ uniqueClasses_iff.symm

/-! ## Units -/

/-- After the first pass nothing is read but initializers. -/
theorem SymbolTable.Unread.bound (h : t.Unread) (initializers : t.LexicalIn fun _ => True) :
    t.Bound :=
  ⟨initializers, fun id => lexicalAt_of_unread (by rw [Body.map_located]; exact h.body id),
    fun id => lexicalAt_of_unread (by rw [Stmt.map_locatedIn]; exact h.members id)⟩

theorem SourceUnit.lexical_resolve {u' : SourceUnit} {t' : SymbolTable} {rank : ScopeId → Nat}
    (read : u.IsRead rank t) (unique : t.UniqueClasses) (h : u.resolve.run t = ((u', []), t')) :
    t'.Bound ∧ t'.LexicalAt (Stmt.locatedIn t' (some .global) u'.body) := by
  obtain ⟨u₁, t₁, first, second⟩ := quiet_resolve h
  obtain ⟨initializers, unread, stated⟩ := lexicalIn_resolveSignatures read unique first
  obtain ⟨-, scope, -⟩ := passes_resolveSignatures read.built.sound first
  obtain ⟨bound, scope', lexical⟩ := reads_resolveDefinitions (unread.bound initializers)
    (lexicalAt_of_unread (by rw [Stmt.map_locatedIn]; exact stated)) second
  rw [scope', scope, read.global] at lexical
  exact ⟨bound, lexical⟩

/-- In a source without faults and with no two classes of one name, every expression stands in a scope,
and every name in it refers to the first declaration that is no extension in the overload set that the
name has there. -/
theorem lexical_of_resolveSource {source : List Char} {file : String}
    (h : resolveSource source file = .ok (t, u)) (unique : t.UniqueClasses)
    {scope? : Option ScopeId} {e : Expr} (meets : u.Meets t scope? e) :
    ∃ s, scope? = some s ∧ t.Lexical s e := by
  obtain ⟨tokens, u₀, t₀, -, read, resolved⟩ := resolveSource_eq_ok h
  obtain ⟨rank, isRead⟩ := SourceUnit.isRead_read read
  have isResolved := SourceUnit.isResolved_resolve isRead resolved
  have advances := SourceUnit.advances_resolve isRead resolved
  obtain ⟨bound, lexical⟩ := SourceUnit.lexical_resolve isRead ((uniqueClasses_congr advances).mp unique)
    resolved
  rcases meets with stated | ⟨id, reached, other, held⟩
  · have known := Stmt.isSome_of_locatedIn (t := t) rfl u.body isResolved.blocks _ stated
    obtain ⟨s, same⟩ := Option.isSome_iff_exists.mp known
    exact ⟨s, same, lexical _ stated s same⟩
  · have known := isResolved.isSome_of_located reached other _ held
    obtain ⟨s, same⟩ := Option.isSome_iff_exists.mp known
    exact ⟨s, same, bound.located id _ held s same⟩

/-- A source in which a name stands for a constant inside the class that is extended, although one of
that name has been declared around it. -/
def nearName : List Char :=
  "def n: int32 = 1; class C \x7b def n: int32 = 3; \x7d extension C \x7b def m: int32 = n; \x7d".toList

theorem lexical_of_near_name :
    ∃ t u, resolveSource nearName "near" = .ok (t, u) ∧ t.UniqueClasses ∧
      ∃ e s, u.Meets t (some s) e ∧ e.references = [(⟨2⟩, "n")] ∧ t.Lexical s e := by
  have ran : ((resolveSource nearName "near").toOption.map fun p =>
      decide (p.1.UniqueClasses ∧ ⟨1⟩ ∈ Stmt.declaresIn p.2.body ∧
        (p.1.decl ⟨1⟩).isExtension = false ∧ ⟨4⟩ ∈ (p.1.decl ⟨1⟩).declares ∧
        (p.1.decl ⟨4⟩).isExtension = false ∧
        (some ⟨2⟩, [(⟨2⟩, "n")]) ∈ (p.1.located ⟨4⟩).map fun q => (q.1, q.2.references))) =
      some true := by
    unfold nearName
    rewrite [String.toList_ofList]
    decide +kernel
  obtain ⟨⟨t, u⟩, ok, seen⟩ := map_toOption_eq_some_iff.mp ran
  obtain ⟨unique, stated, proper, inside, other, located⟩ := of_decide_eq_true seen
  obtain ⟨⟨scope?, e⟩, held, same⟩ := List.mem_map.mp located
  obtain ⟨rfl, refers⟩ := Prod.mk.inj same
  have meets : u.Meets t (some ⟨2⟩) e :=
    .inr ⟨⟨4⟩, .inside (.stated stated) proper inside, other, held⟩
  obtain ⟨s, known, lexical⟩ := lexical_of_resolveSource ok unique meets
  exact ⟨t, u, ok, unique, e, s, known ▸ meets, refers, lexical⟩

end Deferral
