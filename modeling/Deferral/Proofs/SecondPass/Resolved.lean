import Deferral.CommandLine.Basic
import Deferral.Proofs.Reading.Building
import Deferral.Proofs.SecondPass.Completing

/-!
# Resolved units

A source is resolved without faults when both passes over its unit report nothing. Then all that can
be reached from the unit has been visited and completed, so that every expression in it has been read
and is well typed.
-/

namespace Deferral

open SymbolTable

variable {t : SymbolTable} {u : SourceUnit}

/-- Declarations that can be reached from a unit, without entering extensions. -/
inductive SourceUnit.Reaches (u : SourceUnit) (t : SymbolTable) : DeclId → Prop
  | stated {id : DeclId} : id ∈ Stmt.declaresIn u.body → Reaches u t id
  | inside {h id : DeclId} : Reaches u t h → (t.decl h).isExtension = false →
      id ∈ (t.decl h).declares → Reaches u t id

/-- An expression that can be reached from a unit: one in its body, or one that a declaration holds
which can be reached. -/
def SourceUnit.Holds (u : SourceUnit) (t : SymbolTable) (e : Expr) : Prop :=
  e ∈ Stmt.expressionsIn u.body ∨
    ∃ id, u.Reaches t id ∧ (t.decl id).isExtension = false ∧ e ∈ (t.decl id).expressions

/-- What both passes over a unit leave that report nothing. -/
structure SourceUnit.IsResolved (u : SourceUnit) (t : SymbolTable) : Prop where
  sound : t.Sound
  listed : ∀ id ∈ Stmt.listedIn u.body, (t.decl id).isExtension = false
  blocks : t.HasBlocks (Stmt.blocksIn u.body)
  uses : ∀ use ∈ Stmt.usesIn u.body, use.IsDefined t none
  visited : ∃ V, (∀ id ∈ Stmt.declaresIn u.body, id ∈ V) ∧ t.Visited ∅ V
  completed : ∃ C, (∀ id ∈ Stmt.declaresIn u.body, id ∈ C) ∧ t.Completed C

/-- The first pass goes over the unit that was read, and the second over what the first leaves. -/
theorem SourceUnit.run_resolve {u₁ u₂ : SourceUnit} {t₁ t₂ : SymbolTable}
    {reported₁ reported₂ : List Diagnostic}
    (first : u.resolveSignatures.run t = ((u₁, reported₁), t₁))
    (second : u₁.resolveDefinitions.run t₁ = ((u₂, reported₂), t₂)) :
    u.resolve.run t = ((u₂, reported₁ ++ reported₂), t₂) := by
  rw [resolve, StateT.run_bind, first]
  change (u₁.resolveDefinitions.run t₁ >>= fun p => (pure ((p.1.1, reported₁ ++ p.1.2), p.2) : Id _))
    = _
  rw [second]
  rfl

/-- Both passes report nothing. -/
theorem SourceUnit.quiet_resolve {u' : SourceUnit} {t' : SymbolTable}
    (h : u.resolve.run t = ((u', []), t')) :
    ∃ u₁ t₁, u.resolveSignatures.run t = ((u₁, []), t₁) ∧
      u₁.resolveDefinitions.run t₁ = ((u', []), t') := by
  rcases first : u.resolveSignatures.run t with ⟨⟨u₁, reported₁⟩, t₁⟩
  rcases second : u₁.resolveDefinitions.run t₁ with ⟨⟨u₂, reported₂⟩, t₂⟩
  rw [run_resolve first second] at h
  obtain ⟨same, rfl⟩ := Prod.mk.inj h
  obtain ⟨rfl, quiet⟩ := Prod.mk.inj same
  obtain ⟨rfl, rfl⟩ := List.append_eq_nil_iff.mp quiet
  exact ⟨u₁, t₁, rfl, second⟩

/-- Everything in a unit that has been read is text when its definitions are to be resolved. -/
theorem SourceUnit.IsRead.sound_of_read {u₁ : SourceUnit} {t₁ : SymbolTable} {rank : ScopeId → Nat}
    (read : u.IsRead rank t) (same : Stmt.expressionsIn u₁.body = Stmt.expressionsIn u.body) :
    ∀ e ∈ Stmt.expressionsIn u₁.body, e.Sound t₁ := fun e member known => by
  have deferred := read.unread e (same ▸ member)
  rw [known] at deferred
  cases deferred

theorem SourceUnit.advances_resolve {u' : SourceUnit} {t' : SymbolTable} {rank : ScopeId → Nat}
    (read : u.IsRead rank t) (h : u.resolve.run t = ((u', []), t')) : t.Advances t' := by
  obtain ⟨u₁, t₁, first, second⟩ := quiet_resolve h
  obtain ⟨passes, -, expressions⟩ := passes_resolveSignatures read.built.sound first
  obtain ⟨passes', -, -⟩ := passes_resolveDefinitions (passes.sound read.built.sound)
    (read.sound_of_read expressions) second
  exact passes.advances.trans passes'.advances

theorem SourceUnit.isResolved_resolve {u' : SourceUnit} {t' : SymbolTable} {rank : ScopeId → Nat}
    (read : u.IsRead rank t) (h : u.resolve.run t = ((u', []), t')) : u'.IsResolved t' := by
  obtain ⟨u₁, t₁, first, second⟩ := quiet_resolve h
  obtain ⟨merged, blocks, V, all, placed, visited⟩ :=
    announces_resolveSignatures read.built.sound read.built.placed read.placed first
  obtain ⟨passes, -, expressions⟩ := passes_resolveSignatures read.built.sound first
  have sound := passes.sound read.built.sound
  have unread : ∀ e ∈ Stmt.expressionsIn u₁.body, e.Sound t₁ := read.sound_of_read expressions
  have inside : ∀ w ∈ Stmt.declaresIn u₁.body, w ∈ V := fun w member =>
    all w (Stmt.mem_declaresIn_of_merged t u.body (merged ▸ member))
  obtain ⟨alike, -, visited', uses, C, all', completed⟩ :=
    completes_resolveDefinitions sound unread placed visited inside second
  obtain ⟨passes', -, -⟩ := passes_resolveDefinitions sound unread second
  have advances := passes.advances.trans passes'.advances
  refine ⟨passes'.sound sound, fun id listed => ?_, ?_, uses,
    ⟨V, fun w member => inside w (alike.declares ▸ member), visited'⟩, C, all', completed⟩
  · rw [alike.listed, merged] at listed
    rw [advances.isExtension]
    exact (Stmt.mergedIn_eq_self _).mp (Stmt.mergedIn_merged t u.body) id listed
  · rw [alike.blocks, merged, Stmt.blocksIn_merged]
    exact advances.hasBlocks blocks

/-- A source that is resolved without faults is scanned, read and passed over twice. -/
theorem resolveSource_eq_ok {source : List Char} {file : String}
    (h : resolveSource source file = .ok (t, u)) :
    ∃ tokens u₀ t₀, Token.scan source file = .ok tokens ∧
      (SourceUnit.read tokens).run.run SymbolTable.empty = (.ok u₀, t₀) ∧
      u₀.resolve.run t₀ = ((u, []), t) := by
  unfold resolveSource at h
  obtain ⟨tokens, scanned, rest⟩ := bind_eq_ok_iff.mp h
  obtain ⟨u₀, read, last⟩ := bind_eq_ok_iff.mp rest
  refine ⟨tokens, u₀, _, mapError_eq_ok_iff.mp scanned,
    Prod.ext (mapError_eq_ok_iff.mp read) rfl, ?_⟩
  split at last
  rename_i u₁ reported t₁ resolved
  split at last
  · rename_i quiet
    obtain ⟨rfl, rfl⟩ := Prod.mk.inj (Except.ok.inj last)
    rw [List.isEmpty_iff.mp quiet] at resolved
    exact resolved
  · cases last

theorem isResolved_resolveSource {source : List Char} {file : String}
    (h : resolveSource source file = .ok (t, u)) : u.IsResolved t := by
  obtain ⟨tokens, u₀, t₀, -, read, resolved⟩ := resolveSource_eq_ok h
  obtain ⟨rank, isRead⟩ := SourceUnit.isRead_read read
  exact SourceUnit.isResolved_resolve isRead resolved

/-! ## What can be reached -/

theorem SourceUnit.IsResolved.completes (h : u.IsResolved t) {id : DeclId} (reached : u.Reaches t id) :
    ∃ C, id ∈ C ∧ t.Completed C := by
  obtain ⟨C, all, completed⟩ := h.completed
  refine ⟨C, ?_, completed⟩
  induction reached with
  | stated member => exact all _ member
  | inside _ other member ih => exact (completed _ ih).inside other _ member

/-- A use that has been checked is a use of a well typed expression. -/
theorem wellTyped_of_uses {function : Option DeclId} {uses : List Use}
    (defined : ∀ use ∈ uses, use.IsDefined t function) {e : Expr}
    (member : e ∈ uses.filterMap Use.expression?) : e.WellTyped t := by
  obtain ⟨use, member, same⟩ := List.mem_filterMap.mp member
  exact (defined use member).wellTyped same

theorem Body.expressions_eq_uses (body : Body) :
    body.expressions = body.uses.filterMap Use.expression? := by
  cases body with
  | absent => rfl
  | statement s => exact s.expressions_eq_uses
  | expression e => rfl

/-- What a completed declaration holds is well typed. -/
theorem SymbolTable.Completes.wellTyped {C : Set DeclId} {id : DeclId} (h : t.Completes C id)
    (sound : t.Sound) (other : (t.decl id).isExtension = false) :
    ∀ e ∈ (t.decl id).expressions, e.WellTyped t := by
  intro e member
  unfold Decl.expressions at member
  split at member
  · rename_i sort type init kind
    have initializer : (t.decl id).initializer? = some e := by
      simpa [Decl.initializer?, kind] using member
    have object := sound.decls id
    rw [kind] at object
    have known : init = some e := by simpa [Decl.initializer?, kind] using initializer
    exact (object.initializes e known (h.read e initializer)).well
  · rename_i sort c kind
    rw [Body.expressions_eq_uses] at member
    exact wellTyped_of_uses (Decl.body_of_kind kind ▸ h.body) member
  · rename_i sort kind' body kind
    rw [Stmt.expressionsIn_eq_uses] at member
    have members : t.members id = body := by simp [SymbolTable.members, Decl.members?, kind]
    exact wellTyped_of_uses (members ▸ h.members other) member
  all_goals cases member

theorem SourceUnit.IsResolved.wellTyped (h : u.IsResolved t) {e : Expr} (holds : u.Holds t e) :
    e.WellTyped t := by
  rcases holds with member | ⟨id, reached, other, member⟩
  · rw [Stmt.expressionsIn_eq_uses] at member
    exact wellTyped_of_uses h.uses member
  · obtain ⟨C, inside, completed⟩ := h.completes reached
    exact (completed id inside).wellTyped h.sound other e member

theorem SymbolTable.Sound.wellTyped (h : t.Sound) {id : DeclId} {e : Expr}
    (member : e ∈ (t.decl id).expressions) (read : e.excerpt? = none) : e.WellTyped t := by
  have sound := h.decls id
  unfold Decl.expressions at member
  split at member
  · rename_i kind
    rw [kind] at sound
    exact (sound.initializes e (Option.mem_toList.mp member) read).well
  · rename_i kind
    rw [kind] at sound
    exact sound.body e member read
  · rename_i kind
    rw [kind] at sound
    exact sound.2 e member read
  all_goals cases member

/-- In a source without faults, every expression that can be reached is well typed, at every node. An
extension that no class absorbs is left unread; what has been read anywhere is well typed too. -/
theorem wellTyped_of_resolveSource {source : List Char} {file : String}
    (h : resolveSource source file = .ok (t, u)) :
    (∀ e, u.Holds t e → e.WellTyped t) ∧
      ∀ id, ∀ e ∈ (t.decl id).expressions, e.excerpt? = none → e.WellTyped t := by
  have resolved := isResolved_resolveSource h
  exact ⟨fun e holds => resolved.wellTyped holds,
    fun id e member read => resolved.sound.wellTyped member read⟩

/-- A source that uses a variable before its type is deduced. -/
def earlyUse : List Char :=
  "if (a < 2.5 && !b) f(a); var a: auto = 7; def b: bool = 3; def f(x: auto) -> auto { return -x; }".toList

theorem wellTyped_of_early_use :
    ∃ t u, resolveSource earlyUse "early" = .ok (t, u) ∧ (Stmt.expressionsIn u.body).length = 2 ∧
      (∀ e, u.Holds t e → e.WellTyped t) ∧
      ∀ id, ∀ e ∈ (t.decl id).expressions, e.excerpt? = none → e.WellTyped t := by
  have ran : ((resolveSource earlyUse "early").toOption.map fun p =>
      (Stmt.expressionsIn p.2.body).length) = some 2 := by
    unfold earlyUse
    rewrite [String.toList_ofList]
    decide +kernel
  obtain ⟨⟨t, u⟩, ok, two⟩ := map_toOption_eq_some_iff.mp ran
  exact ⟨t, u, ok, two, wellTyped_of_resolveSource ok⟩

end Deferral
