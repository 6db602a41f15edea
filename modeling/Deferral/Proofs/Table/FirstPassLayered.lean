import Deferral.Proofs.Pass.Relation
import Deferral.Proofs.Table.SameScopes

/-!
# The first pass keeps a table layered

Besides changing declarations the first pass adds type parameters, opens scopes for the bodies of
functions, and merges extensions into classes that are declared in the same layer. The table stays
layered at every step, so that it is layered however the pass ends.
-/

namespace Deferral

open Reporting SymbolTable

variable {t t' : SymbolTable} {ρ ρ' : List Diagnostic} {scope : ScopeId} {id : DeclId} {α : Type}

theorem Resolution.Moves.tends {x : Resolution α} (h : Moves LeavesScopes x) : Moves Tends x :=
  Moves.mono h fun _ _ rests layered => .of_rests layered rests

theorem Resolution.Moves.stays {x : Resolution α} (h : Moves LeavesScopes x) {r : Except Diagnostic α}
    (layered : t.Layered) (run : Runs x t r t') : t.StaysLayered t' :=
  .of_rests layered (h run)

/-- What a computation does under a scope of the table. -/
theorem Reporting.stays_under {x : Reporting α} (h : Moves Tends x) (layered : t.Layered)
    (lt : scope.index < t.scopes.size) {a : α} (run : Ends (under scope x) ρ t a ρ' t') :
    t.StaysLayered t' := by
  obtain ⟨t₁, inner, rfl⟩ := ends_under.mp run
  exact (h inner (layered.enter lt)).leave

/-- What a computation does in a fresh scope under a scope of the table. -/
theorem Reporting.stays_underFresh {x : Reporting α} (h : Moves Tends x) (layered : t.Layered)
    {a : α} (run : Ends (underFresh x) ρ t a ρ' t') : t.StaysLayered t' := by
  obtain ⟨t₁, inner, rfl⟩ := ends_underFresh.mp run
  have opened := stays_addScope layered
  have lt : t.nextScope.index < (t.addScope t.innermost).scopes.size := by
    simp [addScope, nextScope]
  exact opened.trans (h inner (opened.layered.enter lt)).leave

namespace Signature

open Resolution

/-! ## Functions -/

/-- All of some declarations lie in a scope. -/
def AllIn (t : SymbolTable) (scope : ScopeId) (ids : List DeclId) : Prop :=
  ∀ id ∈ ids, id.index < t.decls.size ∧ (t.decl id).scope = scope

theorem AllIn.of_stays {ids : List DeclId} (h : AllIn t scope ids) (stays : t.StaysLayered t') :
    AllIn t' scope ids := by
  intro id member
  obtain ⟨lt, lies⟩ := h id member
  exact ⟨Nat.lt_of_lt_of_le lt stays.decls, (stays.scope id lt).trans lies⟩

/-- The type parameter that is added lies in the scope of the function. -/
theorem AllIn.addTypeParameter {made : List DeclId} (h : AllIn t scope made) (layered : t.Layered)
    (lt : scope.index < t.scopes.size) (position : Position) (count : Nat) :
    t.StaysLayered (addTypeParameter scope position count t) ∧
      AllIn (addTypeParameter scope position count t) scope (made ++ [t.nextDecl]) := by
  have stays : t.StaysLayered (Signature.addTypeParameter scope position count t) :=
    stays_addUnnamed layered lt
  refine ⟨stays, fun id member => ?_⟩
  rcases List.mem_append.mp member with old | new
  · exact h.of_stays stays id old
  · obtain rfl := List.mem_singleton.mp new
    refine ⟨?_, ?_⟩
    · simp [Signature.addTypeParameter, addUnnamed, nextDecl]
    · unfold Signature.addTypeParameter
      rw [decl_addUnnamed_nextDecl]

theorem stays_parameter {made : List DeclId} (layered : t.Layered)
    (lt : scope.index < t.scopes.size) (allIn : AllIn t scope made)
    {r : Except Diagnostic (List DeclId)} (h : Runs (parameter scope made id) t r t') :
    t.StaysLayered t' ∧ ∀ made', r = .ok made' → AllIn t' scope made' := by
  have calm (subject : Subject) :
      Resolution.Moves LeavesScopes
        (tryCatch (forceSlot id .declared) fun d => throw (d.within subject)) :=
    (calm_forceSlot id .declared).rethrow _
  unfold parameter at h
  rw [runs_bind_look] at h
  rcases runs_bind.mp h with ⟨fault, forced, rfl⟩ | ⟨_, t₁, forced, rest⟩
  · exact ⟨(calm _).stays layered forced, fun _ same => by cases same⟩
  have stays := (calm _).stays layered forced
  rw [runs_bind_look] at rest
  split at rest
  · obtain ⟨rfl, wrong⟩ := runs_unexpectedDecl rest
    exact ⟨stays, fun made' same => absurd same (wrong made')⟩
  have allIn₁ := allIn.of_stays stays
  rw [runs_bind_look] at rest
  split at rest
  · rw [runs_bind_modify, runs_bind_modify] at rest
    obtain ⟨rfl, rfl⟩ := runs_pure.mp rest
    obtain ⟨added, allIn₂⟩ := allIn₁.addTypeParameter stays.layered
      (Nat.lt_of_lt_of_le lt stays.scopes) (t₁.decl id).span.start made.length
    have last (type : Ty) := StaysLayered.of_rests added.layered (.withTypeIn _ id .declared type)
    exact ⟨(stays.trans added).trans (last _), fun made' same =>
      Except.ok.inj same ▸ allIn₂.of_stays (last _)⟩
  · rw [runs_bind_modify] at rest
    obtain ⟨rfl, rfl⟩ := runs_pure.mp rest
    have last (type : Ty) := StaysLayered.of_rests stays.layered (.withTypeIn t₁ id .declared type)
    exact ⟨stays.trans (last _), fun made' same => Except.ok.inj same ▸ allIn₁.of_stays (last _)⟩

theorem stays_parametersFrom : ∀ (ps : List DeclId) {made : List DeclId} {t t' : SymbolTable}
    {r : Except Diagnostic (List DeclId)}, t.Layered → scope.index < t.scopes.size →
    AllIn t scope made → Runs (parametersFrom scope made ps) t r t' →
    t.StaysLayered t' ∧ ∀ made', r = .ok made' → AllIn t' scope made'
  | [], _, _, _, _, layered, _, allIn, h => by
    obtain ⟨rfl, rfl⟩ := runs_pure.mp h
    exact ⟨.refl layered, fun _ same => Except.ok.inj same ▸ allIn⟩
  | p :: rest, _, _, _, _, layered, lt, allIn, h => by
    rcases runs_bind.mp h with ⟨fault, first, rfl⟩ | ⟨made₁, t₁, first, others⟩
    · exact ⟨(stays_parameter layered lt allIn first).1, fun _ same => by cases same⟩
    obtain ⟨stays, allIn₁⟩ := stays_parameter layered lt allIn first
    obtain ⟨stays', allIn₂⟩ := stays_parametersFrom rest stays.layered
      (Nat.lt_of_lt_of_le lt stays.scopes) (allIn₁ made₁ rfl) others
    exact ⟨stays.trans stays', allIn₂⟩

theorem stays_bindNames : ∀ (made : List DeclId) {t t' : SymbolTable} {r : Except Diagnostic PUnit},
    t.Layered → AllIn t scope made →
    Runs (made.forM fun p => modify fun t => t.bindName scope (t.decl p).name p) t r t' →
    t.StaysLayered t'
  | [], _, _, _, layered, _, h => by
    obtain ⟨-, rfl⟩ := runs_pure.mp h
    exact .refl layered
  | p :: rest, t, _, _, layered, allIn, h => by
    obtain ⟨present, lies⟩ := allIn p (by simp)
    have bound := stays_bindName layered present lies (t.decl p).name
    have others : AllIn t scope rest := fun id member => allIn id (List.mem_cons_of_mem p member)
    exact bound.trans
      (stays_bindNames rest bound.layered (others.of_stays bound) (runs_bind_modify.mp h))

/-- The type parameters made for the parameters of a function lie in its scope. -/
theorem stays_signatureParts (layered : t.Layered) (lt : scope.index < t.scopes.size)
    {ps : List DeclId} {r : Except Diagnostic (List DeclId)}
    (run : Runs (Resolution.under scope do
      let made ← parametersFrom scope [] ps
      forceSlot id .result
      return made) t r t') :
    t.StaysLayered t' ∧ ∀ made, r = .ok made → AllIn t' scope made := by
  obtain ⟨t₂, inner, rfl⟩ := runs_under.mp run
  have entered : (t.enter scope).Layered := layered.enter lt
  rcases runs_bind.mp inner with ⟨fault, first, rfl⟩ | ⟨made, t₃, first, rest⟩
  · obtain ⟨stays, -⟩ :=
      stays_parametersFrom _ entered lt (fun _ none => by cases none) first
    exact ⟨stays.leave, fun _ same => by cases same⟩
  obtain ⟨stays, allIn⟩ := stays_parametersFrom _ entered lt (fun _ none => by cases none) first
  rcases runs_bind.mp rest with ⟨fault, second, rfl⟩ | ⟨_, t₄, second, last⟩
  · exact ⟨(stays.trans ((calm_forceSlot id .result).stays stays.layered second)).leave,
      fun _ same => by cases same⟩
  obtain ⟨rfl, rfl⟩ := runs_pure.mp last
  have stays₄ := (calm_forceSlot id .result).stays stays.layered second
  have allIn₄ := (allIn made rfl).of_stays stays₄
  exact ⟨(stays.trans stays₄).leave, fun _ same => by
    obtain rfl := Except.ok.inj same
    exact allIn₄⟩

theorem stays_functionSignature {c : Callable} (layered : t.Layered)
    (lt : scope.index < t.scopes.size) {r : Except Diagnostic Unit}
    (h : Runs (functionSignature id scope c) t r t') : t.StaysLayered t' := by
  unfold functionSignature at h
  rcases runs_bind.mp h with ⟨fault, first, -⟩ | ⟨made, t₁, first, rest⟩
  · exact (stays_signatureParts layered lt first).1
  obtain ⟨stays, allIn⟩ := stays_signatureParts layered lt first
  rcases runs_bind.mp rest with ⟨fault, second, -⟩ | ⟨_, t₂, second, last⟩
  · exact stays.trans (stays_bindNames made stays.layered (allIn made rfl) second)
  have stays₂ := stays.trans (stays_bindNames made stays.layered (allIn made rfl) second)
  rw [runs_bind_modify] at last
  obtain ⟨-, rfl⟩ := runs_modify.mp last
  exact stays₂.trans (.of_rests stays₂.layered
    ((LeavesScopes.mapCallable t₂ id _).trans (.mapCallable _ id _)))

theorem tends_function {walk : Stmt → Reporting Stmt} (walks : ∀ s, Moves Tends (walk s))
    (id : DeclId) : Faulting.Moves Tends (function walk id) := by
  intro ρ t r ρ' t' h layered
  rcases Faulting.ends_bind.mp h with ⟨fault, looked, rfl⟩ | ⟨scope, ρ₁, t₁, looked, rest⟩
  · obtain ⟨run, -⟩ := Faulting.ends_resolve.mp looked
    obtain ⟨rfl, -⟩ := runs_scopeOf run
    exact .refl layered
  obtain ⟨run, -⟩ := Faulting.ends_resolve.mp looked
  obtain ⟨rfl, known⟩ := runs_scopeOf run
  have lt := layered.lt_size (known scope rfl)
  rw [Faulting.ends_bind_look] at rest
  split at rest
  · obtain ⟨run, -⟩ := Faulting.ends_resolve.mp rest
    obtain ⟨rfl, -⟩ := runs_unexpectedDecl run
    exact .refl layered
  rename_i c _
  rcases Faulting.ends_bind.mp rest with ⟨fault, signed, rfl⟩ | ⟨_, ρ₂, t₂, signed, rest₂⟩
  · exact stays_functionSignature layered lt (Faulting.ends_resolve.mp signed).1
  have stays := stays_functionSignature layered lt (Faulting.ends_resolve.mp signed).1
  rw [Faulting.ends_bind_change] at rest₂
  have out : t₂.StaysLayered (withoutBody t₂ id) := .of_rests stays.layered (.mapCallable t₂ id _)
  -- The body is put back, whatever has been made of it.
  have finish {body : Body} {ρ₃ : List Diagnostic} {t₃ : SymbolTable} (stays₃ : t₂.StaysLayered t₃)
      (last : Faulting.Ends (Faulting.change (withBody · id body)) ρ₃ t₃ r ρ' t') : t₁.StaysLayered t' := by
    obtain ⟨-, -, rfl⟩ := Faulting.ends_change.mp last
    exact (stays.trans stays₃).trans (.of_rests stays₃.layered (.mapCallable t₃ id _))
  split at rest₂
  · have walked {r : Except Diagnostic Body} {s : Stmt} {ρ₃ : List Diagnostic} {t₃ : SymbolTable}
        (run : Faulting.Ends (Body.statement <$> (Reporting.under scope (underFresh (walk s)) :)) ρ₂
          (withoutBody t₂ id) r ρ₃ t₃) : t₂.StaysLayered t₃ := by
      obtain ⟨_, lifted, -⟩ := Faulting.ends_map.mp run
      obtain ⟨_, walk, -⟩ := Faulting.ends_lift.mp lifted
      obtain ⟨t₄, inner, rfl⟩ := ends_under.mp walk
      have lt₂ := Nat.lt_of_lt_of_le (Nat.lt_of_lt_of_le lt stays.scopes) out.scopes
      exact out.trans (stays_underFresh (walks _) (out.layered.enter lt₂) inner).leave
    rcases Faulting.ends_bind.mp rest₂ with ⟨fault, third, -⟩ | ⟨body, ρ₃, t₃, third, last⟩
    · exact stays.trans (walked third)
    · exact finish (walked third) last
  · rcases Faulting.ends_bind.mp rest₂ with ⟨fault, third, -⟩ | ⟨body, ρ₃, t₃, third, last⟩
    · cases (Faulting.ends_pure.mp third).1
    · obtain ⟨-, -, rfl⟩ := Faulting.ends_pure.mp third
      exact finish out last

/-! ## Classes -/

/-- A class takes in extensions that are declared in its own layer. -/
theorem layers_absorbAll {L : Layering} {cls : DeclId} {outer : ScopeId} :
    ∀ (ids : List DeclId) {t t' : SymbolTable} {r : Except Diagnostic Unit}, t.Layers L →
    (t.decl cls).isExtension = false → t.scopeOf? (.decl cls) = some outer →
    (∀ e ∈ ids, L.depth (t.decl e).scope = L.depth (t.decl cls).scope) →
    Runs (absorbAll cls outer ids) t r t' → t.StaysLayered t'
  | [], _, _, _, layers, _, _, _, h => by
    obtain ⟨-, rfl⟩ := runs_pure.mp h
    exact .refl ⟨L, layers⟩
  | e :: rest, t, _, _, layers, proper, owns, level, h => by
    have others : ∀ e' ∈ rest, L.depth (t.decl e').scope = L.depth (t.decl cls).scope :=
      fun e' member => level e' (List.mem_cons_of_mem e member)
    unfold absorbAll at h
    rw [runs_bind_look] at h
    split at h
    · rename_i extension
      rcases runs_bind.mp h with ⟨fault, looked, -⟩ | ⟨inner, t₁, looked, h₁⟩
      · obtain ⟨rfl, -⟩ := runs_scopeOf looked
        exact .refl ⟨L, layers⟩
      obtain ⟨rfl, known⟩ := runs_scopeOf looked
      have absorbed := layers.absorb proper extension (level e (by simp)) (known inner rfl) owns
      -- The declarations are those from before, and lie where they lay.
      have same := Layers.rests_absorb t₁ cls e inner outer
      refine (stays_absorb ⟨L, absorbed⟩).trans (layers_absorbAll rest absorbed
        ((same.isExtension cls).trans proper) ?_ (fun e' member => ?_) (runs_bind_modify.mp h₁))
      · exact (congrArg (List.lookup _) same.saved).trans owns
      · rw [same.scope, same.scope]
        exact others e' member
    · exact layers_absorbAll rest layers proper owns others h

/-- What is bound to the name of a class where the class is declared lies in the layer of the
class. -/
theorem stays_absorbExtensions {cls : DeclId} (layered : t.Layered)
    (proper : (t.decl cls).isExtension = false) {r : Except Diagnostic Unit}
    (h : Runs (absorbExtensions (t.decl cls).scope cls) t r t') : t.StaysLayered t' := by
  obtain ⟨L, layers⟩ := layered
  unfold absorbExtensions at h
  rw [runs_bind_look] at h
  rcases runs_bind.mp h with ⟨fault, looked, -⟩ | ⟨outer, t₁, looked, rest⟩
  · obtain ⟨rfl, -⟩ := runs_scopeOf looked
    exact .refl ⟨L, layers⟩
  obtain ⟨rfl, known⟩ := runs_scopeOf looked
  refine layers_absorbAll _ layers proper (known outer rfl) (fun e member => ?_) rest
  cases found : (t₁.scope (t₁.decl cls).scope).find? (t₁.decl cls).name with
  | none =>
    rw [found] at member
    cases member
  | some set =>
    rw [found] at member
    exact (layers.bound (s := (t₁.decl cls).scope) (Names.binds_of_find? found member)).2

/-- A class works with the members of its extensions, and gives up their names afterwards. -/
theorem stays_withExtensions {cls : DeclId} {action : Reporting α} (layered : t.Layered)
    (proper : (t.decl cls).isExtension = false)
    (acts : ∀ {ρ ρ' : List Diagnostic} {t₁ t₂ : SymbolTable} {a : α}, t.StaysLayered t₁ →
      Ends action ρ t₁ a ρ' t₂ → t₁.StaysLayered t₂) {r : Except Diagnostic α}
    (h : Faulting.Ends (Faulting.withExtensions (t.decl cls).scope cls action) ρ t r ρ' t') :
    t.StaysLayered t' := by
  unfold Faulting.withExtensions at h
  rw [Faulting.ends_bind_look, Faulting.ends_bind_look] at h
  split at h
  · obtain ⟨t₂, run, rfl⟩ := Faulting.ends_ending.mp h
    suffices worked : t.StaysLayered t₂ from worked.trans (stays_keepOnly worked.layered _ _ _)
    rcases Faulting.ends_bind.mp run with ⟨fault, absorbs, -⟩ | ⟨_, ρ₁, t₁, absorbs, rest⟩
    · exact stays_absorbExtensions layered proper (Faulting.ends_resolve.mp absorbs).1
    · have stays := stays_absorbExtensions layered proper (Faulting.ends_resolve.mp absorbs).1
      obtain ⟨a, acted, -⟩ := Faulting.ends_lift.mp rest
      exact stays.trans (acts stays acted)
  · obtain ⟨a, acted, -⟩ := Faulting.ends_lift.mp h
    exact acts (.refl layered) acted

theorem stays_members {walk : List Stmt → Reporting (List Stmt)}
    (walks : ∀ body, Moves Tends (walk body)) (layered : t.Layered)
    (lt : scope.index < t.scopes.size) {u : Unit} (h : Ends (members walk id scope) ρ t u ρ' t') :
    t.StaysLayered t' := by
  unfold members at h
  rw [ends_bind_look, ends_bind_change] at h
  obtain ⟨body, ρ₁, t₁, walked, last⟩ := ends_bind.mp h
  obtain ⟨-, rfl⟩ := ends_change.mp last
  have out := StaysLayered.of_rests layered (LeavesScopes.mapMembers t id fun _ => [])
  have stays := stays_under (walks _) out.layered (Nat.lt_of_lt_of_le lt out.scopes) walked
  exact (out.trans stays).trans (.of_rests stays.layered (.mapMembers t₁ id _))

theorem stays_classMembers {walk : List Stmt → Reporting (List Stmt)}
    (walks : ∀ body, Moves Tends (walk body)) (layered : t.Layered)
    (proper : (t.decl id).isExtension = false) {r : Except Diagnostic Unit}
    (h : Faulting.Ends (classMembers walk id) ρ t r ρ' t') : t.StaysLayered t' := by
  have calm := calm_under (R := LeavesScopes) (calm_forceSlot id .kind) (t.decl id).scope
  unfold classMembers at h
  rw [Faulting.ends_bind_look] at h
  rcases Faulting.ends_bind.mp h with ⟨fault, forced, -⟩ | ⟨_, ρ₁, t₁, forced, rest⟩
  · exact calm.stays layered (Faulting.ends_resolve.mp forced).1
  have rests := calm (Faulting.ends_resolve.mp forced).1
  have stays := StaysLayered.of_rests layered rests
  rcases Faulting.ends_bind.mp rest with ⟨fault, looked, -⟩ | ⟨scope, ρ₂, t₂, looked, last⟩
  · obtain ⟨rfl, -⟩ := runs_scopeOf (Faulting.ends_resolve.mp looked).1
    exact stays
  obtain ⟨rfl, known⟩ := runs_scopeOf (Faulting.ends_resolve.mp looked).1
  have lt := stays.layered.lt_size (known scope rfl)
  rw [← rests.scope id] at last
  exact stays.trans (stays_withExtensions stays.layered ((rests.isExtension id).trans proper)
    (fun since run => stays_members walks since.layered (Nat.lt_of_lt_of_le lt since.scopes) run)
    last)

/-! ## Statements -/

variable {declare : DeclId → Reporting Unit}

mutual

theorem tends_statement (declares : ∀ id, Moves Tends (declare id)) :
    ∀ s : Stmt, Moves Tends (statement declare s)
  | .block id body span => by
    intro ρ t s ρ' t' h layered
    obtain ⟨outcome, ρ₁, t₁, looked, rest⟩ := ends_bind.mp h
    obtain ⟨rfl, known⟩ := runs_scopeOf (ends_attempt.mp looked).1
    cases outcome with
    | error d => exact (moves_report d).bind (fun _ => moves_pure (R := Tends) _) rest layered
    | ok scope =>
      obtain ⟨walked, ρ₂, t₂, under, last⟩ := ends_bind.mp rest
      obtain ⟨-, -, rfl⟩ := ends_pure.mp last
      refine stays_under ?_ layered (layered.lt_size (known scope rfl)) under
      exact (tends_statements declares body).bind fun _ => moves_look _
  | .declaration id span => (declares id).bind fun _ => moves_pure _
  | .conditional condition onTrue onFalse span =>
    (tends_statement declares onTrue).bind fun _ =>
      (tends_alternative declares onFalse).bind fun _ => moves_pure _
  | .whileLoop condition body span => (tends_statement declares body).bind fun _ => moves_pure _
  | .returning _ _ | .yielding _ _ | .breaking _ | .continuing _ | .expression _ => moves_pure _

theorem tends_statements (declares : ∀ id, Moves Tends (declare id)) :
    ∀ body : List Stmt, Moves Tends (statements declare body)
  | [] => moves_pure _
  | s :: rest =>
    (tends_statement declares s).bind fun _ =>
      (tends_statements declares rest).bind fun _ => moves_pure _

theorem tends_alternative (declares : ∀ id, Moves Tends (declare id)) :
    ∀ onFalse : Option Stmt, Moves Tends (alternative declare onFalse)
  | none => moves_pure _
  | some s => (tends_statement declares s).map _

end

theorem tends_sequence (declares : ∀ id, Moves Tends (declare id)) (body : List Stmt) :
    Moves Tends (sequence declare body) :=
  (tends_statements declares body).bind fun _ => moves_look _

/-! ## Declarations -/

theorem calm_object {R : SymbolTable → SymbolTable → Prop} [Settling R] (id : DeclId) :
    Resolution.Moves R (object id) :=
  moves_bind_look fun scope => calm_under (calm_forceSlot id .declared) scope

theorem tends_declaration (declares : ∀ id, Moves Tends (declare id)) (id : DeclId) :
    Faulting.Moves Tends (declaration declare id) := by
  intro ρ t r ρ' t' h
  replace h := Faulting.ends_bind_look.mp h
  split at h
  · exact Faulting.moves_resolve (calm_object id).tends h
  · exact Faulting.moves_resolve (calm_object id).tends h
  · exact tends_function (tends_statement declares) id h
  · rename_i kind
    exact fun layered => stays_classMembers (tends_sequence declares) layered
      (by simp [Decl.isExtension, kind]) h
  · exact Faulting.moves_pure (R := Tends) _ h
  · exact Faulting.moves_resolve (Resolution.moves_unexpectedDecl _) h
  · exact Faulting.moves_resolve (Resolution.moves_unexpectedDecl _) h

theorem tends_declareWithin (level : Nat) (id : DeclId) : Moves Tends (declareWithin level id) := by
  induction level generalizing id with
  | zero => exact moves_pure _
  | succ level ih =>
    exact (Faulting.moves_fault? (tends_declaration ih id)).bind fun fault? =>
      Reporting.moves_bind_look fun subject => moves_reportWithin subject fault?

theorem tends_declare (id : DeclId) : Moves Tends (Signature.declare id) :=
  Reporting.moves_bind_look fun _ => tends_declareWithin _ id

end Signature

/-- The first pass over a unit keeps the table layered, whatever it reports. -/
theorem SourceUnit.stays_resolveSignatures {u u' : SourceUnit} {reported : List Diagnostic}
    (layered : t.Layered) (lt : u.scope.index < t.scopes.size)
    (h : u.resolveSignatures.run t = ((u', reported), t')) :
    t.StaysLayered t' ∧ u'.scope = u.scope := by
  unfold resolveSignatures at h
  rw [run_collect] at h
  obtain ⟨body, ρ₁, t₁, walk, last⟩ := ends_bind.mp h
  obtain ⟨rfl, rfl, rfl⟩ := ends_pure.mp last
  exact ⟨stays_under (Signature.tends_sequence Signature.tends_declare u.body) layered lt walk, rfl⟩

end Deferral
