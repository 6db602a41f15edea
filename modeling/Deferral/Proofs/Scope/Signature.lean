import Deferral.Proofs.Pass.Signature
import Deferral.Proofs.Scope.Binding

/-!
# Names in signatures

Resolving a signature binds the names in the types of its parameters and its result. Names of type
parameters are bound in the function's own scope afterwards, and in no other scope. Where all
parameters are settled already there are none.
-/

namespace Deferral

open Resolution SymbolTable

namespace SymbolTable

variable {P P' : ScopeId → Prop} {t t' t'' : SymbolTable} {s scope : ScopeId}

/-! ## Initializers -/

theorem LexicalIn.mono (h : t.LexicalIn P) (within : ∀ s, P s → P' s) : t.LexicalIn P' := by
  intro id e init refers
  obtain ⟨inside, lexical⟩ := h id e init refers
  exact ⟨within _ inside, lexical⟩

/-- Initializers stay lexical that stay as they are, while the tables agree on what is around. -/
theorem LexicalIn.of_agreesOn (h : t.LexicalIn P) (size : t.scopes.size ≤ t'.scopes.size)
    (agree : ∀ s, P s → ∀ a, t.Around s a → t.AgreesOn t' a) (into : ∀ s, P s → P' s)
    (initializer : ∀ id, (t'.decl id).initializer? = (t.decl id).initializer?)
    (scope : ∀ id e, (t.decl id).initializer? = some e → (t'.decl id).scope = (t.decl id).scope) :
    t'.LexicalIn P' := by
  intro id e init refers
  rw [initializer] at init
  obtain ⟨inside, lexical⟩ := h id e init refers
  rw [scope id e init]
  exact ⟨into _ inside, lexical.of_agreesOn size (agree _ inside)⟩

/-! ## Type parameters -/

theorem kind_addUnnamed {d : Decl} (kind : d.kind = .typeParameter) (id : DeclId) :
    ((t.addUnnamed d).decl id).kind = (t.decl id).kind := by
  by_cases lt : id.index < t.decls.size
  · rw [decl_addUnnamed_of_lt lt]
  · have outside : t.decls.size ≤ id.index := by omega
    rw [kind_eq_typeParameter outside]
    by_cases next : id = t.nextDecl
    · rw [next, decl_addUnnamed_nextDecl, kind]
    · have ne : id.index ≠ t.decls.size := fun same => next (congrArg DeclId.mk same)
      refine kind_eq_typeParameter ?_
      simp only [addUnnamed, Array.size_push]
      omega

/-- A type parameter is added that no name leads to. -/
theorem Names.addUnnamed {d : Decl} (kind : d.kind = .typeParameter) :
    Names P t (t.addUnnamed d) := by
  have same := kind_addUnnamed (t := t) kind
  have extensions : ∀ id, ((t.addUnnamed d).decl id).isExtension = (t.decl id).isExtension :=
    fun id => by simp only [Decl.isExtension, same]
  have constants : ∀ id, ((t.addUnnamed d).decl id).isConstant = (t.decl id).isConstant :=
    fun id => by simp only [Decl.isConstant, same]
  have initializers : ∀ id, ((t.addUnnamed d).decl id).initializer? = (t.decl id).initializer? :=
    fun id => by simp only [Decl.initializer?, same]
  have declared : ∀ id, (t.decl id).kind ≠ .typeParameter →
      ((t.addUnnamed d).decl id).scope = (t.decl id).scope :=
    fun id known => by rw [decl_addUnnamed_of_lt (lt_size_of_kind known)]
  have keeps : t.Keeps (t.addUnnamed d) :=
    ⟨fun id => by simp only [Decl.body, Decl.callable?, same],
      fun id => by simp only [SymbolTable.members, Decl.members?, same]⟩
  refine ⟨rfl, rfl, rfl, keeps, extensions, constants,
    fun id known => ⟨declared id known, by rwa [same]⟩,
    fun legible => ⟨fun s inside name e denotes constant => ?_, ?_⟩⟩
  · rw [constants] at constant
    rw [declared e (kind_of_isConstant constant)]
    exact legible.closed s inside name e
      (denotes.of_scopes rfl fun id => (extensions id).symm) constant
  · refine legible.initializers.of_agreesOn (Nat.le_refl _)
      (fun _ _ a _ => .of_scope extensions rfl) (fun _ inside => inside) initializers
      fun id e init => declared id ?_
    obtain ⟨sort, type, kind⟩ := Decl.kind_of_initializer? init
    simp [kind]

/-! ## What is bound in one scope -/

/-- Names are bound in `scope` and in no other; declarations stay where they lie and keep their
initializers. -/
structure Rebinds (scope : ScopeId) (t t' : SymbolTable) : Prop where
  size : t'.scopes.size = t.scopes.size
  parents : ∀ s, (t'.scope s).parent = (t.scope s).parent
  others : ∀ s, s ≠ scope → t'.scope s = t.scope s
  extensions : ∀ id, (t'.decl id).isExtension = (t.decl id).isExtension
  initializers : ∀ id, (t'.decl id).initializer? = (t.decl id).initializer?
  scopes : ∀ id, (t'.decl id).scope = (t.decl id).scope

namespace Rebinds

theorem refl (scope : ScopeId) (t : SymbolTable) : Rebinds scope t t :=
  ⟨rfl, fun _ => rfl, fun _ _ => rfl, fun _ => rfl, fun _ => rfl, fun _ => rfl⟩

theorem trans (h : Rebinds scope t t') (h' : Rebinds scope t' t'') : Rebinds scope t t'' where
  size := h'.size.trans h.size
  parents s := (h'.parents s).trans (h.parents s)
  others s ne := (h'.others s ne).trans (h.others s ne)
  extensions id := (h'.extensions id).trans (h.extensions id)
  initializers id := (h'.initializers id).trans (h.initializers id)
  scopes id := (h'.scopes id).trans (h.scopes id)

theorem bindName (t : SymbolTable) (scope : ScopeId) (name : String) (p : DeclId) :
    Rebinds scope t (t.bindName scope name p) where
  size := by simp [SymbolTable.bindName, modifyScope]
  parents s := by
    unfold SymbolTable.bindName
    rw [scope_modifyScope]
    split
    · rename_i same
      rw [same.1]
      rfl
    · rfl
  others s ne := scope_modifyScope_of_ne ne t _
  extensions _ := rfl
  initializers _ := rfl
  scopes _ := rfl

theorem mapCallable (t : SymbolTable) (scope : ScopeId) (id : DeclId) (f : Callable → Callable) :
    Rebinds scope t (t.modifyDecl id (·.mapCallable f)) := by
  have same {α : Type} (pick : Decl → α)
      (known : ∀ d : Decl, pick (d.mapCallable f) = pick d) (other : DeclId) :
      pick ((t.modifyDecl id (·.mapCallable f)).decl other) = pick (t.decl other) := by
    rw [decl_modifyDecl]
    split
    · rename_i eq
      rw [eq.1, known]
    · rfl
  refine ⟨rfl, fun _ => rfl, fun _ _ => rfl, same _ ?_, same _ ?_, same _ ?_⟩ <;>
    · intro d
      unfold Decl.mapCallable
      split <;> simp_all [Decl.isExtension, Decl.initializer?]

end Rebinds

/-- Nothing is initialized otherwise where bodies and members change. -/
theorem initializer?_mapCallable (t : SymbolTable) (id other : DeclId) (f : Callable → Callable) :
    ((t.modifyDecl id (·.mapCallable f)).decl other).initializer? = (t.decl other).initializer? :=
  (Rebinds.mapCallable t .global id f).initializers other

theorem initializer?_mapMembers (t : SymbolTable) (id other : DeclId)
    (f : List Stmt → List Stmt) :
    ((t.modifyDecl id (·.mapMembers f)).decl other).initializer? = (t.decl other).initializer? := by
  rw [decl_modifyDecl]
  split
  · rename_i same
    rw [same.1]
    unfold Decl.mapMembers
    split <;> simp_all [Decl.initializer?]
  · rfl

end SymbolTable

namespace Signature

variable {P : ScopeId → Prop} {t t' : SymbolTable} {scope : ScopeId} {made made' : List DeclId}
  {id : DeclId}

/-! ## Parameters -/

theorem names_parameter (legible : t.Legible P) (sees : t.Sees P t.innermost)
    {r : Except Diagnostic (List DeclId)} (h : Runs (parameter scope made id) t r t') :
    t.Names P t' := by
  unfold parameter at h
  rw [runs_bind_look] at h
  rcases runs_bind.mp h with ⟨fault, forced, rfl⟩ | ⟨_, t₁, forced, rest⟩
  · obtain ⟨_, run, -⟩ := runs_rethrow.mp forced
    exact names_forceSlotWith namesIn_ensureConstant legible sees run
  obtain ⟨_, run, -⟩ := runs_rethrow.mp forced
  have names := names_forceSlotWith namesIn_ensureConstant legible sees run
  rw [runs_bind_look] at rest
  split at rest
  · obtain ⟨rfl, -⟩ := runs_unexpectedDecl rest
    exact names
  rw [runs_bind_look] at rest
  split at rest
  · rw [runs_bind_modify, runs_bind_modify] at rest
    obtain ⟨-, rfl⟩ := runs_pure.mp rest
    exact (names.trans (.addUnnamed rfl)).trans (.withTypeIn id .declared _)
  · rw [runs_bind_modify] at rest
    obtain ⟨-, rfl⟩ := runs_pure.mp rest
    exact names.trans (.withTypeIn id .declared _)

theorem names_parametersFrom : ∀ (ps : List DeclId) {made : List DeclId} {t t' : SymbolTable}
    {r : Except Diagnostic (List DeclId)}, t.Legible P → t.Sees P t.innermost →
    Runs (parametersFrom scope made ps) t r t' → t.Names P t'
  | [], _, _, _, _, _, _, h => by
    obtain ⟨-, rfl⟩ := runs_pure.mp h
    exact .refl P _
  | id :: rest, _, _, _, _, legible, sees, h => by
    rcases runs_bind.mp h with ⟨fault, first, -⟩ | ⟨made', t₁, first, others⟩
    · exact names_parameter legible sees first
    have names := names_parameter legible sees first
    exact names.trans (names_parametersFrom rest (names.legible legible)
      (names.innermost ▸ names.sees sees) others)

/-- A settled parameter asks for no type parameter. -/
theorem made_of_settled (settled : (t.decl id).IsSettledParameter)
    (h : Runs (parameter scope made id) t (.ok made') t') : made' = made := by
  obtain ⟨type, kind, normal, typed⟩ := settled
  have held : (t.decl id).typeIn? .declared = some type := by simp [Decl.typeIn?, kind]
  unfold parameter at h
  rw [runs_bind_look] at h
  rcases runs_bind.mp h with ⟨fault, -, wrong⟩ | ⟨_, t₁, forced, rest⟩
  · cases wrong
  obtain ⟨r, run, -⟩ := runs_rethrow.mp forced
  unfold forceSlot forceSlotWith at run
  rw [runs_bind_look, held] at run
  simp only [normal.not_deferred, Bool.false_eq_true, if_false] at run
  obtain ⟨-, rfl⟩ := runs_pure.mp run
  rw [runs_bind_look] at rest
  simp only [Decl.ownType?, held] at rest
  rw [runs_bind_look] at rest
  simp only [typed, Bool.false_eq_true, if_false] at rest
  rw [runs_bind_modify] at rest
  exact Except.ok.inj (runs_pure.mp rest).1

theorem made_of_settledAll : ∀ (ps : List DeclId) {made made' : List DeclId} {t t' : SymbolTable},
    t.Sound → (∀ p ∈ ps, (t.decl p).IsSettledParameter) →
    Runs (parametersFrom scope made ps) t (.ok made') t' → made' = made
  | [], _, _, _, _, _, _, h => Except.ok.inj (runs_pure.mp h).1
  | id :: rest, _, _, _, _, sound, settled, h => by
    rcases runs_bind.mp h with ⟨fault, -, wrong⟩ | ⟨made₁, t₁, first, others⟩
    · cases wrong
    obtain ⟨type, kind, -⟩ := settled id (by simp)
    obtain ⟨promotes, -⟩ := runs_parameter sound kind first
    have same := made_of_settled (settled id (by simp)) first
    rw [made_of_settledAll rest (promotes.advances.sound sound)
      (fun p member => settled_of_evolves promotes.advances.evolves (settled p (by simp [member])))
      others, same]

/-! ## Functions -/

theorem rebinds_bindNames : ∀ (made : List DeclId) {t t' : SymbolTable}
    {r : Except Diagnostic PUnit},
    Runs (made.forM fun p => modify fun t => t.bindName scope (t.decl p).name p) t r t' →
    t.Rebinds scope t'
  | [], _, _, _, h => by
    obtain ⟨-, rfl⟩ := runs_pure.mp h
    exact .refl scope _
  | p :: rest, t, _, _, h =>
    (SymbolTable.Rebinds.bindName t scope _ p).trans (rebinds_bindNames rest (runs_bind_modify.mp h))

/-- A signature is resolved in the function's own scope. Names are bound in no other scope, and in
none if the function has its signature already. -/
theorem names_functionSignature (sound : t.Sound) {sort : CallableSort} {c : Callable}
    (kind : (t.decl id).kind = .callable sort c) (legible : t.Legible P) (sees : t.Sees P scope)
    (h : Runs (functionSignature id scope c) t (.ok ()) t') :
    ∃ t₁, t.Names P t₁ ∧ t₁.Rebinds scope t' ∧ (c.type ≠ .auto → t'.scopes = t₁.scopes) := by
  unfold functionSignature at h
  rcases runs_bind.mp h with ⟨fault, -, wrong⟩ | ⟨made, t₁, first, rest⟩
  · cases wrong
  rcases runs_bind.mp rest with ⟨fault, -, wrong⟩ | ⟨_, t₂, second, last⟩
  · cases wrong
  rw [runs_bind_modify] at last
  obtain ⟨-, rfl⟩ := runs_modify.mp last
  have rebinds : t₁.Rebinds scope (rebuildType t₂ id) :=
    (rebinds_bindNames made second).trans (.mapCallable t₂ scope id _)
  obtain ⟨t₃, run, rfl⟩ := runs_under.mp first
  rcases runs_bind.mp run with ⟨fault, -, wrong⟩ | ⟨made', t₄, parameters, run⟩
  · cases wrong
  have legible' : (t.enter scope).Legible P := legible.of_same rfl rfl
  have sees' : (t.enter scope).Sees P (t.enter scope).innermost := sees.of_same rfl rfl
  have names := names_parametersFrom c.parameters legible' sees' parameters
  rcases runs_bind.mp run with ⟨fault, -, wrong⟩ | ⟨_, t₅, result, run⟩
  · cases wrong
  have names' := names_forceSlotWith namesIn_ensureConstant (names.legible legible')
    (names.innermost ▸ names.sees sees') result
  obtain ⟨same, rfl⟩ := runs_pure.mp run
  obtain rfl := Except.ok.inj same
  refine ⟨_, (names.trans names').leave, rebinds.trans (.mapCallable _ scope id _),
    fun signed => ?_⟩
  have settled : ∀ p ∈ c.parameters, (t.decl p).IsSettledParameter := by
    have old := sound.decls id
    rw [kind] at old
    exact (old.type.resolve_left signed).parameters
  obtain rfl := made_of_settledAll c.parameters (sound.enter scope) settled parameters
  obtain ⟨-, rfl⟩ := runs_pure.mp second
  rfl

end Signature

end Deferral
