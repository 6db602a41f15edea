import Deferral.Proofs.FirstPass.Declaration
import Deferral.Proofs.Integrity.Tidy
import Deferral.Proofs.Table.FirstPassLayered

/-!
# The first pass keeps a table tidy

The type parameters of a function get their names where the function has its scope, once all of them have
been made. A class takes in its extensions before its members are passed over, and gives up their names
afterwards; what is inside it lies deeper, so that the class is not passed over again meanwhile.
-/

namespace Deferral

open Reporting SymbolTable

/-- Declarations that are there and lie deeper than the classes of `begun`. -/
def SymbolTable.Below (t : SymbolTable) (rank : ScopeId → Nat) (begun : Set DeclId) (ids : List DeclId) :
    Prop :=
  ∀ id ∈ ids, id.index < t.decls.size ∧ ∀ c ∈ begun, rank (t.decl c).scope < rank (t.decl id).scope

/-- A pass keeps tables tidy, if the classes it passes over lie deeper than those that have begun to take in
extensions. -/
def Tidying : PassRelation := fun ids ρ t ρ' t' => Passes ρ t ρ' t' ∧
  ∀ rank begun, (∃ took, t.Tidy rank took begun) → t.Below rank begun ids →
    ∃ took, t'.Tidy rank took begun

variable {rank : ScopeId → Nat} {took : DeclId → DeclId → Prop} {begun : Set DeclId} {t t' : SymbolTable}
  {ρ ρ' : List Diagnostic} {scope : ScopeId} {id : DeclId} {made : List DeclId}

theorem SymbolTable.Below.of_advances {ids : List DeclId} (h : t.Below rank begun ids)
    (advances : t.Advances t') (begun_lt : ∀ c ∈ begun, c.index < t.decls.size) :
    t'.Below rank begun ids := fun id member => by
  obtain ⟨lt, deeper⟩ := h id member
  refine ⟨Nat.lt_of_lt_of_le lt advances.evolves.size, fun c inside => ?_⟩
  rw [advances.scope (begun_lt c inside), advances.scope lt]
  exact deeper c inside

theorem tidying_walks : Tidying.Walks where
  passes h := h.1
  refl _ := ⟨.refl _ _, fun _ _ tidy _ => tidy⟩
  openScope sound _ := ⟨.of_advances (Idles.advances (.openScope (sound.enter _))) _,
    fun _ _ ⟨took, tidy⟩ _ => ⟨took, tidy.addScope _⟩⟩
  trans h h' := ⟨h.1.trans h'.1, fun rank begun ⟨took, tidy⟩ below =>
    h'.2 rank begun (h.2 rank begun ⟨took, tidy⟩ fun id member => below id (List.mem_append_left _ member))
      (SymbolTable.Below.of_advances (fun id member => below id (List.mem_append_right _ member))
        h.1.advances tidy.begun_lt)⟩
  report d within h := ⟨h.1.report d, fun rank begun tidy below =>
    h.2 rank begun tidy fun id member => below id (within.subset member)⟩
  leave h := ⟨h.1.leave, fun rank begun ⟨took, tidy⟩ below => by
    obtain ⟨took', tidy'⟩ := h.2 rank begun ⟨took, tidy.enter _⟩ below
    exact ⟨took', tidy'.leave⟩⟩

/-! ## Signatures -/

/-- Type parameters that have been made for a function, to which no name leads yet. -/
structure SymbolTable.Making (rank : ScopeId → Nat) (took : DeclId → DeclId → Prop) (begun : Set DeclId)
    (f : DeclId) (scope : ScopeId) (made : List DeclId) (t : SymbolTable) : Prop where
  tidy : t.Tidy rank took begun
  owns : t.scopeOf? (.decl f) = some scope
  nodup : made.Nodup
  lt : ∀ p ∈ made, p.index < t.decls.size
  parameter : ∀ p ∈ made, (t.decl p).subject = .typeParameter
  lies : ∀ p ∈ made, (t.decl p).scope = scope
  unbound : ∀ p ∈ made, ∀ s name, ¬ t.Binds s name p

namespace SymbolTable.Making

variable {f : DeclId}

theorem of_contents (h : t.Making rank took begun f scope made) (leaves : t.LeavesContents t') :
    t'.Making rank took begun f scope made where
  tidy := h.tidy.of_contents leaves
  owns := (congrArg (List.lookup _) leaves.saved).trans h.owns
  nodup := h.nodup
  lt p member := leaves.size ▸ h.lt p member
  parameter p member := (leaves.subject p).trans (h.parameter p member)
  lies p member := (leaves.scope p).trans (h.lies p member)
  unbound p member s name b := h.unbound p member s name (by
    unfold Binds at b ⊢
    rwa [scope_congr leaves.scopes] at b)

theorem enter (h : t.Making rank took begun f scope made) (s : ScopeId) :
    (t.enter s).Making rank took begun f scope made :=
  { h with tidy := h.tidy.enter s }

theorem leave (h : t.Making rank took begun f scope made) : t.leave.Making rank took begun f scope made :=
  { h with tidy := h.tidy.leave }

/-- One more type parameter is made. -/
theorem addTypeParameter (h : t.Making rank took begun f scope made) (position : Position) (count : Nat) :
    (Signature.addTypeParameter scope position count t).Making rank took begun f scope
      (made ++ [t.nextDecl]) := by
  have old {p : DeclId} (member : p ∈ made) :
      (Signature.addTypeParameter scope position count t).decl p = t.decl p :=
    decl_addUnnamed_of_lt (h.lt p member) _
  have size : (Signature.addTypeParameter scope position count t).decls.size = t.decls.size + 1 := by
    simp [Signature.addTypeParameter, addUnnamed]
  have all {P : DeclId → Prop} (before : ∀ p ∈ made, P p) (new : P t.nextDecl) :
      ∀ p ∈ made ++ [t.nextDecl], P p :=
    List.forall_mem_append.mpr ⟨before, List.forall_mem_singleton.mpr new⟩
  have new : (Signature.addTypeParameter scope position count t).decl t.nextDecl = _ :=
    decl_addUnnamed_nextDecl t _
  exact
    { tidy := h.tidy.addTypeParameter rfl (h.tidy.saved h.owns)
      owns := h.owns
      nodup := List.nodup_append.mpr ⟨h.nodup, List.nodup_singleton _, fun p member q single same => by
        obtain rfl := List.mem_singleton.mp single
        have lt := h.lt p member
        rw [same] at lt
        exact Nat.lt_irrefl _ lt⟩
      lt := all (fun p member => size ▸ Nat.lt_succ_of_lt (h.lt p member)) (size ▸ Nat.lt_succ_self _)
      parameter := all (fun p member => by rw [old member]; exact h.parameter p member)
        (by rw [new]; rfl)
      lies := all (fun p member => by rw [old member]; exact h.lies p member) (by rw [new])
      unbound := all h.unbound fun s name b =>
        Nat.lt_irrefl _ (h.tidy.leads (show t.Binds s name t.nextDecl from b)).lt }

end SymbolTable.Making

namespace Signature

open Resolution

theorem making_parameter {f : DeclId} (making : t.Making rank took begun f scope made)
    {r : Except Diagnostic (List DeclId)} (h : Runs (parameter scope made id) t r t') :
    t'.Tidy rank took begun ∧ ∀ made', r = .ok made' → t'.Making rank took begun f scope made' := by
  have calm (subject : Subject) : Resolution.Moves LeavesContents
      (tryCatch (forceSlot id .declared) fun d => throw (d.within subject)) :=
    (calm_forceSlot id .declared).rethrow _
  unfold parameter at h
  rw [runs_bind_look] at h
  rcases runs_bind.mp h with ⟨fault, forced, rfl⟩ | ⟨_, t₁, forced, rest⟩
  · exact ⟨making.tidy.of_contents (calm _ forced), nofun⟩
  have making₁ := making.of_contents (calm _ forced)
  have retyped {t : SymbolTable} {made : List DeclId} (h : t.Making rank took begun f scope made)
      (type : Ty) := h.of_contents (Settling.withTypeIn (R := LeavesContents) t id .declared type)
  rw [runs_bind_look] at rest
  split at rest
  · obtain ⟨rfl, wrong⟩ := runs_unexpectedDecl rest
    exact ⟨making₁.tidy, fun made' same => absurd same (wrong made')⟩
  rw [runs_bind_look] at rest
  split at rest
  · rw [runs_bind_modify, runs_bind_modify] at rest
    obtain ⟨rfl, rfl⟩ := runs_pure.mp rest
    have making₂ := retyped (making₁.addTypeParameter (t₁.decl id).span.start made.length)
    exact ⟨(making₂ _).tidy, fun made' same => Except.ok.inj same ▸ making₂ _⟩
  · rw [runs_bind_modify] at rest
    obtain ⟨rfl, rfl⟩ := runs_pure.mp rest
    exact ⟨(retyped making₁ _).tidy, fun made' same => Except.ok.inj same ▸ retyped making₁ _⟩

theorem making_parametersFrom {f : DeclId} : ∀ (ps : List DeclId) {made : List DeclId} {t t' : SymbolTable}
    {r : Except Diagnostic (List DeclId)}, t.Making rank took begun f scope made →
    Runs (parametersFrom scope made ps) t r t' →
    t'.Tidy rank took begun ∧ ∀ made', r = .ok made' → t'.Making rank took begun f scope made'
  | [], _, _, _, _, making, h => by
    obtain ⟨rfl, rfl⟩ := runs_pure.mp h
    exact ⟨making.tidy, fun _ same => Except.ok.inj same ▸ making⟩
  | p :: rest, _, _, _, _, making, h => by
    rcases runs_bind.mp h with ⟨fault, first, rfl⟩ | ⟨made₁, t₁, first, others⟩
    · exact ⟨(making_parameter making first).1, nofun⟩
    · exact making_parametersFrom rest ((making_parameter making first).2 made₁ rfl) others

/-- The names of type parameters come to be bound, one after the other. -/
theorem tidy_bindNames {f : DeclId} : ∀ (made : List DeclId) {t t' : SymbolTable}
    {r : Except Diagnostic PUnit}, t.Making rank took begun f scope made →
    Runs (made.forM fun p => modify fun t => t.bindName scope (t.decl p).name p) t r t' →
    t'.Tidy rank took begun ∧ t'.decls = t.decls ∧ t'.saved = t.saved ∧
      (∀ s name d, t.Binds s name d → t'.Binds s name d) ∧
      ∀ p ∈ made, t'.Binds scope (t.decl p).name p
  | [], _, _, _, making, h => by
    obtain ⟨-, rfl⟩ := runs_pure.mp h
    exact ⟨making.tidy, rfl, rfl, fun _ _ _ b => b, List.forall_mem_nil _⟩
  | p :: rest, t, _, _, making, h => by
    have member : p ∈ p :: rest := List.mem_cons_self ..
    have lies := making.lies p member
    have inRange := making.tidy.saved making.owns
    have binds {s name d} : (t.bindName scope (t.decl p).name p).Binds s name d ↔
        t.Binds s name d ∨ s = scope ∧ name = (t.decl p).name ∧ d = p := binds_bindName inRange
    obtain ⟨other, nodup⟩ := List.nodup_cons.mp making.nodup
    have making₁ : (t.bindName scope (t.decl p).name p).Making rank took begun f scope rest :=
      { tidy := making.tidy.bindName (making.lt p member) (making.parameter p member) lies
          (making.unbound p member _ _)
        owns := making.owns
        nodup
        lt := fun q inside => making.lt q (List.mem_cons_of_mem p inside)
        parameter := fun q inside => making.parameter q (List.mem_cons_of_mem p inside)
        lies := fun q inside => making.lies q (List.mem_cons_of_mem p inside)
        unbound := fun q inside s name b => by
          rcases binds.mp b with b | ⟨-, -, rfl⟩
          · exact making.unbound q (List.mem_cons_of_mem p inside) s name b
          · exact other inside }
    obtain ⟨tidy, decls, saved, keeps, bound⟩ := tidy_bindNames rest making₁ (runs_bind_modify.mp h)
    exact ⟨tidy, decls, saved, fun s name d b => keeps s name d (binds.mpr (.inl b)),
      List.forall_mem_cons.mpr ⟨keeps _ _ _ (binds.mpr (.inr ⟨rfl, rfl, rfl⟩)), bound⟩⟩

theorem tidy_functionSignature {c : Callable} (tidy : t.Tidy rank took begun)
    (owns : t.scopeOf? (.decl id) = some scope) {r : Except Diagnostic Unit}
    (h : Runs (functionSignature id scope c) t r t') : t'.Tidy rank took begun := by
  have none : t.Making rank took begun id scope [] :=
    ⟨tidy, owns, List.nodup_nil, List.forall_mem_nil _, List.forall_mem_nil _, List.forall_mem_nil _,
      List.forall_mem_nil _⟩
  -- Parameters and result are resolved in the scope of the function.
  have resolved {r : Except Diagnostic (List DeclId)} {t₁ : SymbolTable}
      (run : Runs (Resolution.under scope do
        let made ← parametersFrom scope [] c.parameters
        forceSlot id .result
        return made) t r t₁) :
      t₁.Tidy rank took begun ∧ ∀ made, r = .ok made → t₁.Making rank took begun id scope made := by
    obtain ⟨t₂, inner, rfl⟩ := runs_under.mp run
    rcases runs_bind.mp inner with ⟨fault, first, rfl⟩ | ⟨made, t₃, first, rest⟩
    · exact ⟨(making_parametersFrom _ (none.enter scope) first).1.leave, nofun⟩
    have making := (making_parametersFrom _ (none.enter scope) first).2 made rfl
    rcases runs_bind.mp rest with ⟨fault, second, rfl⟩ | ⟨_, t₄, second, last⟩
    · exact ⟨(making.of_contents (calm_forceSlot id .result second)).tidy.leave, nofun⟩
    obtain ⟨rfl, rfl⟩ := runs_pure.mp last
    have making₄ := (making.of_contents (calm_forceSlot id .result second)).leave
    exact ⟨making₄.tidy, fun _ same => Except.ok.inj same ▸ making₄⟩
  unfold functionSignature at h
  rcases runs_bind.mp h with ⟨fault, first, -⟩ | ⟨made, t₁, first, rest⟩
  · exact (resolved first).1
  have making := (resolved first).2 made rfl
  rcases runs_bind.mp rest with ⟨fault, second, -⟩ | ⟨_, t₂, second, last⟩
  · exact (tidy_bindNames made making second).1
  obtain ⟨tidy₂, decls, saved, -, bound⟩ := tidy_bindNames made making second
  rw [runs_bind_modify] at last
  obtain ⟨-, rfl⟩ := runs_modify.mp last
  have rebuilt : t₂.LeavesContents (rebuildType t₂ id) :=
    .modifyDecl t₂ id (Reworking.mapCallable t₂ id (fun _ => rfl) fun _ => rfl) fun d =>
      d.declares_mapCallable fun _ => rfl
  have same (p : DeclId) : t₂.decl p = t₁.decl p := by rw [decl, decls]; rfl
  refine (tidy₂.of_contents rebuilt).record (s := scope)
    ((congrArg (List.lookup _) saved).trans making.owns) fun p member => ?_
  rw [rebuilt.subject, rebuilt.name, same]
  exact ⟨making.parameter p member, bound p member⟩

end Signature

end Deferral
