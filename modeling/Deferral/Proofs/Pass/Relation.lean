import Deferral.Proofs.Execution.Reporting
import Deferral.Proofs.Pass.Signature

/-!
# Relations between the ends of a pass

A pass edits the table and reports only more. What is to be shown of a pass is stated as a relation
between its beginning and its end, and shown for statements once: it holds of a pass over statements
when it holds of the pass over the declarations in them.
-/

namespace Deferral

open Reporting SymbolTable

/-! ## Passes -/

/-- What a pass does to the diagnostics and to the table. -/
structure Passes (ρ : List Diagnostic) (t : SymbolTable) (ρ' : List Diagnostic) (t' : SymbolTable) :
    Prop where
  advances : t.Advances t'
  grows : ρ <+: ρ'

/-- A pass that reports is not quiet. -/
theorem reported_ne {ρ ρ' : List Diagnostic} (grows : ρ <+: ρ') (d : Diagnostic) :
    ρ' ++ [d] ≠ ρ := by
  intro same
  have le := grows.length_le
  rw [← same, List.length_append] at le
  simp only [List.length_cons] at le
  omega

namespace Passes

variable {ρ ρ' ρ'' : List Diagnostic} {t t' t'' : SymbolTable}

theorem refl (ρ : List Diagnostic) (t : SymbolTable) : Passes ρ t ρ t :=
  ⟨.refl t, List.prefix_refl ρ⟩

theorem trans (h : Passes ρ t ρ' t') (h' : Passes ρ' t' ρ'' t'') : Passes ρ t ρ'' t'' :=
  ⟨h.advances.trans h'.advances, h.grows.trans h'.grows⟩

theorem of_advances (h : t.Advances t') (ρ : List Diagnostic) : Passes ρ t ρ t' :=
  ⟨h, List.prefix_refl ρ⟩

theorem sound (h : Passes ρ t ρ' t') (sound : t.Sound) : t'.Sound := h.advances.sound sound

theorem leave {scope : ScopeId} (h : Passes ρ (t.enter scope) ρ' t') : Passes ρ t ρ' t'.leave :=
  ⟨h.advances.leave, h.grows⟩

theorem report (h : Passes ρ t ρ' t') (d : Diagnostic) : Passes ρ t (ρ' ++ [d]) t' :=
  ⟨h.advances, h.grows.trans (List.prefix_append ..)⟩

/-- Nothing is reported at first if nothing has been reported in the end. -/
theorem quiet (h : Passes ρ t ρ' t') (h' : Passes ρ' t' ρ'' t'') (quiet : ρ'' = ρ) :
    ρ' = ρ ∧ ρ'' = ρ' := by
  have same : ρ' = ρ :=
    (List.IsPrefix.eq_of_length_le h.grows (quiet ▸ h'.grows).length_le).symm
  exact ⟨same, quiet.trans same.symm⟩

end Passes

/-- What relates the beginning of a pass over the declarations `ids` to its end. -/
abbrev PassRelation :=
  (ids : List DeclId) → List Diagnostic → SymbolTable → List Diagnostic → SymbolTable → Prop

/-- A relation that a pass over statements has when the pass over their declarations has it. -/
structure PassRelation.Lifts (R : PassRelation) : Prop where
  passes {ids : List DeclId} {ρ ρ' : List Diagnostic} {t t' : SymbolTable} :
    R ids ρ t ρ' t' → Passes ρ t ρ' t'
  idle {t t' : SymbolTable} (ρ : List Diagnostic) : t.Sound → t.Idles t' → R [] ρ t ρ t'
  trans {ids ids' : List DeclId} {ρ ρ' ρ'' : List Diagnostic} {t t' t'' : SymbolTable} :
    R ids ρ t ρ' t' → R ids' ρ' t' ρ'' t'' → R (ids ++ ids') ρ t ρ'' t''
  report {ids ids' : List DeclId} {ρ ρ' : List Diagnostic} {t t' : SymbolTable} (d : Diagnostic) :
    R ids ρ t ρ' t' → R ids' ρ t (ρ' ++ [d]) t'
  leave {ids : List DeclId} {ρ ρ' : List Diagnostic} {t t' : SymbolTable} {scope : ScopeId} :
    R ids ρ (t.enter scope) ρ' t' → R ids ρ t ρ' t'.leave

/-- A relation that the first pass over statements has when the pass over their declarations has it:
between these it only reports, and enters scopes and fresh ones in those that are saved. -/
structure PassRelation.Walks (R : PassRelation) : Prop where
  passes {ids : List DeclId} {ρ ρ' : List Diagnostic} {t t' : SymbolTable} :
    R ids ρ t ρ' t' → Passes ρ t ρ' t'
  refl {ρ : List Diagnostic} {t : SymbolTable} : t.Sound → R [] ρ t ρ t
  openScope {ρ : List Diagnostic} {t : SymbolTable} {owner : ScopeOwner} {scope : ScopeId} :
    t.Sound → t.scopeOf? owner = some scope →
    R [] ρ (t.enter scope) ρ ((t.enter scope).addScope scope)
  trans {ids ids' : List DeclId} {ρ ρ' ρ'' : List Diagnostic} {t t' t'' : SymbolTable} :
    R ids ρ t ρ' t' → R ids' ρ' t' ρ'' t'' → R (ids ++ ids') ρ t ρ'' t''
  report {ids ids' : List DeclId} {ρ ρ' : List Diagnostic} {t t' : SymbolTable} (d : Diagnostic) :
    ids.Sublist ids' → R ids ρ t ρ' t' → R ids' ρ t (ρ' ++ [d]) t'
  leave {ids : List DeclId} {ρ ρ' : List Diagnostic} {t t' : SymbolTable} {scope : ScopeId} :
    R ids ρ (t.enter scope) ρ' t' → R ids ρ t ρ' t'.leave

namespace PassRelation

variable {R : PassRelation} {ids : List DeclId} {ρ ρ' : List Diagnostic} {t t' : SymbolTable}

theorem Walks.sound (walks : R.Walks) (h : R ids ρ t ρ' t') (sound : t.Sound) : t'.Sound :=
  (walks.passes h).sound sound

theorem Lifts.refl (lifts : R.Lifts) (sound : t.Sound) : R [] ρ t ρ t :=
  lifts.idle ρ sound (.refl t)

theorem Lifts.sound (lifts : R.Lifts) (h : R ids ρ t ρ' t') (sound : t.Sound) : t'.Sound :=
  (lifts.passes h).sound sound

theorem Lifts.walks (lifts : R.Lifts) : R.Walks where
  passes := lifts.passes
  refl := lifts.refl
  openScope sound _ := lifts.idle _ (sound.enter _) (.openScope (sound.enter _))
  trans := lifts.trans
  report d _ h := lifts.report d h
  leave := lifts.leave

end PassRelation

/-- Every pass over one of the declarations `ids` has the relation. -/
def PassRelation.Holds (R : PassRelation) (pass : DeclId → Reporting Unit) (ids : List DeclId) :
    Prop :=
  ∀ id ∈ ids, ∀ {ρ ρ' : List Diagnostic} {t t' : SymbolTable} {u : Unit}, t.Sound →
    Ends (pass id) ρ t u ρ' t' → R [id] ρ t ρ' t'

theorem PassRelation.Holds.mono {R : PassRelation} {pass : DeclId → Reporting Unit}
    {ids ids' : List DeclId} (h : R.Holds pass ids') (within : ∀ id ∈ ids, id ∈ ids') :
    R.Holds pass ids :=
  fun id member => h id (within id member)

/-- A pass that may end in a fault has the relation, for all of the declarations `ids` if it ends in
none. -/
def PassRelation.Partly (R : PassRelation) (ids : List DeclId) (ρ : List Diagnostic)
    (t : SymbolTable) (fault? : Option Diagnostic) (ρ' : List Diagnostic) (t' : SymbolTable) :
    Prop :=
  ∃ ids', R ids' ρ t ρ' t' ∧ (fault? = none → ids' = ids)

theorem Resolution.runs_scopeOf {owner : ScopeOwner} {t t' : SymbolTable}
    {r : Except Diagnostic ScopeId} (h : Runs (scopeOf owner) t r t') :
    t' = t ∧ ∀ scope, r = .ok scope → t.scopeOf? owner = some scope := by
  unfold scopeOf at h
  rw [runs_bind_look] at h
  split at h
  · rename_i scope known
    obtain ⟨rfl, rfl⟩ := runs_pure.mp h
    exact ⟨rfl, fun _ same => Except.ok.inj same ▸ known⟩
  · obtain ⟨rfl, rfl⟩ := runs_fail.mp h
    exact ⟨rfl, fun _ same => (by cases same)⟩

end Deferral
