import Mathlib.Data.List.Forall2
import Deferral.Proofs.Execution.Reporting
import Deferral.Proofs.Renaming.Table

/-!
# Computations on renamed tables

A computation follows another one along a renaming when it does on the renamed table what the other one
does on the table: to every run of the one there is a run of the other one that ends in the renamed
outcome, reports the renamed diagnostics and leaves the renamed table.
-/

namespace Deferral

variable {σ : Renaming} {α α' β β' : Type} {A : α → α' → Prop} {B : β → β' → Prop}

namespace Resolution

/-- Whatever `x` does on the table `t`, `x'` does on the table `t'`. -/
def FollowsAt (σ : Renaming) (A : α → α' → Prop) (x : Resolution α) (t : SymbolTable)
    (x' : Resolution α') (t' : SymbolTable) : Prop :=
  ∀ ⦃r u⦄, Runs x t r u → ∃ r' u', Runs x' t' r' u' ∧ σ.Follows A r r' ∧ u.Renamed σ u'

/-- Whatever `x` does on a table, `x'` does on the renamed one. -/
def Follows (σ : Renaming) (A : α → α' → Prop) (x : Resolution α) (x' : Resolution α') : Prop :=
  ∀ ⦃t t'⦄, t.Renamed σ t' → FollowsAt σ A x t x' t'

variable {x : Resolution α} {x' : Resolution α'} {t t' : SymbolTable}

theorem follows_pure {a : α} {a' : α'} (related : A a a') : Follows σ A (pure a) (pure a') := by
  intro t t' same r u run
  obtain ⟨rfl, rfl⟩ := runs_pure.mp run
  exact ⟨_, _, rfl, .ok related, same⟩

theorem follows_throw {d d' : Diagnostic} (fault : d.Renamed σ d') :
    Follows σ A (throw d) (throw d') := by
  intro t t' same r u run
  obtain ⟨rfl, rfl⟩ := runs_throw.mp run
  exact ⟨_, _, rfl, .error fault, same⟩

theorem follows_fail {c c' : Cause} (h : c.Renamed σ c') (position : Position) :
    Follows σ A (fail c position) (fail c' position) :=
  follows_throw (.of_cause h position)

theorem follows_ofExcept {o : Except Diagnostic α} {o' : Except Diagnostic α'}
    (h : σ.Follows A o o') : Follows σ A (ofExcept o) (ofExcept o') := by
  cases h with
  | ok related => exact follows_pure related
  | error fault => exact follows_throw fault

/-- What comes next may rely on what has been run before it. -/
theorem FollowsAt.bind (h : FollowsAt σ A x t x' t') {f : α → Resolution β}
    {f' : α' → Resolution β'} (rest : ∀ a a' u u', Runs x t (.ok a) u → A a a' → u.Renamed σ u' →
      FollowsAt σ B (f a) u (f' a') u') :
    FollowsAt σ B (x >>= f) t (x' >>= f') t' := by
  intro r u run
  rcases runs_bind.mp run with ⟨d, first, rfl⟩ | ⟨a, t₁, first, next⟩
  · obtain ⟨_, u', first', fault, same⟩ := h first
    cases fault with
    | error fault => exact ⟨_, u', runs_bind.mpr (.inl ⟨_, first', rfl⟩), .error fault, same⟩
  · obtain ⟨_, t₁', first', outcome, same⟩ := h first
    cases outcome with
    | ok related =>
      obtain ⟨r', u', next', outcome, same'⟩ := rest _ _ _ _ first related same next
      exact ⟨r', u', runs_bind.mpr (.inr ⟨_, _, first', next'⟩), outcome, same'⟩

theorem Follows.bind (h : Follows σ A x x') {f : α → Resolution β} {f' : α' → Resolution β'}
    (rest : ∀ a a', A a a' → Follows σ B (f a) (f' a')) :
    Follows σ B (x >>= f) (x' >>= f') :=
  fun _ _ same => (h same).bind fun a a' _ _ _ related same' => rest a a' related same'

theorem Follows.map (h : Follows σ A x x') {f : α → β} {f' : α' → β'}
    (rest : ∀ a a', A a a' → B (f a) (f' a')) : Follows σ B (f <$> x) (f' <$> x') := by
  intro t t' same r u run
  obtain ⟨r₁, first, rfl⟩ := runs_map.mp run
  obtain ⟨r₁', u', first', outcome, same'⟩ := h same first
  exact ⟨_, u', runs_map.mpr ⟨_, first', rfl⟩, outcome.map rest, same'⟩

/-- Asked for the same, related tables give related answers. -/
theorem follows_look {pick : SymbolTable → α} {pick' : SymbolTable → α'}
    (related : ∀ t t', t.Renamed σ t' → A (pick t) (pick' t')) :
    Follows σ A (look pick) (look pick') := by
  intro t t' same r u run
  obtain ⟨rfl, rfl⟩ := runs_look.mp run
  exact ⟨_, _, rfl, .ok (related _ _ same), same⟩

theorem follows_get : Follows σ (SymbolTable.Renamed σ) get get := by
  intro t t' same r u run
  obtain ⟨rfl, rfl⟩ := runs_get.mp run
  exact ⟨_, _, rfl, .ok same, same⟩

theorem follows_set {s s' : SymbolTable} (same : s.Renamed σ s') :
    Follows σ (fun _ _ => True) (set s : Resolution PUnit) (set s') := by
  intro t t' r u _ run
  obtain ⟨rfl, rfl⟩ := runs_set.mp run
  exact ⟨_, _, rfl, .ok trivial, same⟩

theorem follows_modify {f f' : SymbolTable → SymbolTable}
    (step : ∀ t t', t.Renamed σ t' → (f t).Renamed σ (f' t')) :
    Follows σ (fun _ _ => True) (modify f : Resolution PUnit) (modify f') := by
  intro t t' same r u run
  obtain ⟨rfl, rfl⟩ := runs_modify.mp run
  exact ⟨_, _, rfl, .ok trivial, step _ _ same⟩

/-- Faults may be reported as other ones, both in the same way. -/
theorem Follows.rethrow (h : Follows σ A x x') {change change' : Diagnostic → Diagnostic}
    (step : ∀ d d', d.Renamed σ d' → (change d).Renamed σ (change' d')) :
    Follows σ A (tryCatch x fun d => throw (change d)) (tryCatch x' fun d => throw (change' d)) := by
  intro t t' same r u run
  obtain ⟨r₁, first, rfl⟩ := runs_rethrow.mp run
  obtain ⟨r₁', u', first', outcome, same'⟩ := h same first
  exact ⟨_, u', runs_rethrow.mpr ⟨_, first', rfl⟩, outcome.mapError step, same'⟩

theorem Follows.under (h : Follows σ A x x') (scope : ScopeId) :
    Follows σ A (under scope x) (under scope x') := by
  intro t t' same r u run
  obtain ⟨t₁, inner, rfl⟩ := runs_under.mp run
  obtain ⟨r', u', inner', outcome, same'⟩ := h (same.enter scope) inner
  exact ⟨r', _, runs_under.mpr ⟨u', inner', rfl⟩, outcome, same'.leave⟩

theorem Follows.ending (h : Follows σ A x x') {after after' : SymbolTable → SymbolTable}
    (step : ∀ t t', t.Renamed σ t' → (after t).Renamed σ (after' t')) :
    Follows σ A (ending x after) (ending x' after') := by
  intro t t' same r u run
  obtain ⟨t₁, inner, rfl⟩ := runs_ending.mp run
  obtain ⟨r', u', inner', outcome, same'⟩ := h same inner
  exact ⟨r', _, runs_ending.mpr ⟨u', inner', rfl⟩, outcome, step _ _ same'⟩

theorem follows_scopeOf (owner : ScopeOwner) : Follows σ Eq (scopeOf owner) (scopeOf owner) := by
  refine (follows_look (A := Eq) fun t t' same => (same.scopeOf? owner).symm).bind ?_
  rintro scope? _ rfl
  cases scope? with
  | some scope => exact follows_pure rfl
  | none => exact follows_fail (.internal (.noSavedScope _)) _

theorem follows_unexpectedDecl {d d' : Decl} (h : d.Renamed σ d') :
    Follows σ A (unexpectedDecl d) (unexpectedDecl d') := by
  unfold unexpectedDecl
  rw [h.subject, h.span]
  exact follows_fail (.internal (.unexpected _ h.name)) _

end Resolution

namespace Reporting

/-- The diagnostics reported are the renamed ones. -/
abbrev Reports (σ : Renaming) : List Diagnostic → List Diagnostic → Prop :=
  List.Forall₂ (Diagnostic.Renamed σ)

/-- Whatever `x` does on the table `t` and reports, `x'` does and reports on the table `t'`. -/
def FollowsAt (σ : Renaming) (A : α → α' → Prop) (x : Reporting α) (t : SymbolTable)
    (x' : Reporting α') (t' : SymbolTable) : Prop :=
  ∀ ⦃ρ ρ' a ρ₁ u⦄, Reports σ ρ ρ' → Ends x ρ t a ρ₁ u →
    ∃ a' ρ₁' u', Ends x' ρ' t' a' ρ₁' u' ∧ A a a' ∧ Reports σ ρ₁ ρ₁' ∧ u.Renamed σ u'

/-- Whatever `x` does on a table and reports, `x'` does and reports on the renamed one. -/
def Follows (σ : Renaming) (A : α → α' → Prop) (x : Reporting α) (x' : Reporting α') : Prop :=
  ∀ ⦃t t'⦄, t.Renamed σ t' → FollowsAt σ A x t x' t'

variable {x : Reporting α} {x' : Reporting α'}

theorem follows_pure {a : α} {a' : α'} (related : A a a') : Follows σ A (pure a) (pure a') := by
  intro t t' same ρ ρ' b ρ₁ u reports run
  obtain ⟨rfl, rfl, rfl⟩ := ends_pure.mp run
  exact ⟨_, _, _, rfl, related, reports, same⟩

theorem Follows.bind (h : Follows σ A x x') {f : α → Reporting β} {f' : α' → Reporting β'}
    (rest : ∀ a a', A a a' → Follows σ B (f a) (f' a')) :
    Follows σ B (x >>= f) (x' >>= f') := by
  intro t t' same ρ ρ' b ρ₁ u reports run
  obtain ⟨a, ρ₂, t₂, first, next⟩ := ends_bind.mp run
  obtain ⟨a', ρ₂', t₂', first', related, reports', same'⟩ := h same reports first
  obtain ⟨b', ρ₁', u', next', related', reports'', same''⟩ :=
    rest a a' related same' reports' next
  exact ⟨b', ρ₁', u', ends_bind.mpr ⟨_, _, _, first', next'⟩, related', reports'', same''⟩

theorem Follows.map (h : Follows σ A x x') {f : α → β} {f' : α' → β'}
    (rest : ∀ a a', A a a' → B (f a) (f' a')) : Follows σ B (f <$> x) (f' <$> x') := by
  intro t t' same ρ ρ' b ρ₁ u reports run
  obtain ⟨a, first, rfl⟩ := ends_map.mp run
  obtain ⟨a', ρ₁', u', first', related, reports', same'⟩ := h same reports first
  exact ⟨_, ρ₁', u', ends_map.mpr ⟨a', first', rfl⟩, rest _ _ related, reports', same'⟩

theorem follows_look {pick : SymbolTable → α} {pick' : SymbolTable → α'}
    (related : ∀ t t', t.Renamed σ t' → A (pick t) (pick' t')) :
    Follows σ A (look pick) (look pick') := by
  intro t t' same ρ ρ' a ρ₁ u reports run
  obtain ⟨rfl, rfl, rfl⟩ := ends_look.mp run
  exact ⟨_, _, _, rfl, related _ _ same, reports, same⟩

theorem follows_change {f f' : SymbolTable → SymbolTable}
    (step : ∀ t t', t.Renamed σ t' → (f t).Renamed σ (f' t')) :
    Follows σ (fun _ _ => True) (change f) (change f') := by
  intro t t' same ρ ρ' a ρ₁ u reports run
  obtain ⟨rfl, rfl⟩ := ends_change.mp run
  exact ⟨(), _, _, rfl, trivial, reports, step _ _ same⟩

theorem follows_report {d d' : Diagnostic} (fault : d.Renamed σ d') :
    Follows σ (fun _ _ => True) (report d) (report d') := by
  intro t t' same ρ ρ' a ρ₁ u reports run
  obtain ⟨rfl, rfl⟩ := ends_report.mp run
  exact ⟨(), _, _, rfl, trivial, List.rel_append reports (.cons fault .nil), same⟩

theorem follows_reportWithin (subject : Subject) {fault? fault?' : Option Diagnostic}
    (h : Option.Rel (Diagnostic.Renamed σ) fault? fault?') :
    Follows σ (fun _ _ => True) (reportWithin subject fault?) (reportWithin subject fault?') := by
  cases h with
  | none => exact follows_pure trivial
  | some fault => exact follows_report (fault.within subject)

theorem follows_attempt {x : Resolution α} {x' : Resolution α'} (h : Resolution.Follows σ A x x') :
    Follows σ (σ.Follows A) (attempt x) (attempt x') := by
  intro t t' same ρ ρ' r ρ₁ u reports run
  obtain ⟨inner, rfl⟩ := ends_attempt.mp run
  obtain ⟨r', u', inner', outcome, same'⟩ := h same inner
  exact ⟨r', ρ', u', ends_attempt.mpr ⟨inner', rfl⟩, outcome, reports, same'⟩

theorem Follows.under (h : Follows σ A x x') (scope : ScopeId) :
    Follows σ A (under scope x) (under scope x') := by
  intro t t' same ρ ρ' a ρ₁ u reports run
  obtain ⟨t₁, inner, rfl⟩ := ends_under.mp run
  obtain ⟨a', ρ₁', u', inner', related, reports', same'⟩ := h (same.enter scope) reports inner
  exact ⟨a', ρ₁', _, ends_under.mpr ⟨u', inner', rfl⟩, related, reports', same'.leave⟩

theorem Follows.underFresh (h : Follows σ A x x') :
    Follows σ A (underFresh x) (underFresh x') := by
  refine (follows_look (A := Eq) fun t t' same => same.nextScope.symm).bind ?_
  rintro scope _ rfl
  refine (follows_change fun t t' same => ?_).bind fun _ _ _ => h.under scope
  rw [same.innermost]
  exact same.addScope _

/-- The value of a pass, what it reports and the table it leaves, and the renamed ones. -/
structure Collects (σ : Renaming) (A : α → α' → Prop) (end_ : (α × List Diagnostic) × SymbolTable)
    (end_' : (α' × List Diagnostic) × SymbolTable) : Prop where
  value : A end_.1.1 end_'.1.1
  reports : Reports σ end_.1.2 end_'.1.2
  table : end_.2.Renamed σ end_'.2

theorem collects_of_follows (h : Follows σ A x x') {t t' : SymbolTable} (same : t.Renamed σ t') :
    Collects σ A ((collect x).run t) ((collect x').run t') := by
  obtain ⟨a', ρ', u', run', related, reports, same'⟩ := h same .nil (run_collect.mp rfl)
  rw [run_collect.mpr run']
  exact ⟨related, reports, same'⟩

end Reporting

namespace Faulting

/-- Whatever `x` does on a table and reports, `x'` does and reports on the renamed one, and ends in
the renamed outcome. -/
def Follows (σ : Renaming) (A : α → α' → Prop) (x : Faulting α) (x' : Faulting α') : Prop :=
  Reporting.Follows σ (σ.Follows A) x.run x'.run

/-- Whatever `x` does on the table `t` and reports, `x'` does and reports on the table `t'`. -/
def FollowsAt (σ : Renaming) (A : α → α' → Prop) (x : Faulting α) (t : SymbolTable)
    (x' : Faulting α') (t' : SymbolTable) : Prop :=
  Reporting.FollowsAt σ (σ.Follows A) x.run t x'.run t'

variable {x : Faulting α} {x' : Faulting α'}

theorem follows_pure {a : α} {a' : α'} (related : A a a') : Follows σ A (pure a) (pure a') :=
  Reporting.follows_pure (.ok related)

theorem follows_throw {d d' : Diagnostic} (fault : d.Renamed σ d') :
    Follows σ A (throw d) (throw d') :=
  Reporting.follows_pure (.error fault)

theorem Follows.bind (h : Follows σ A x x') {f : α → Faulting β} {f' : α' → Faulting β'}
    (rest : ∀ a a', A a a' → Follows σ B (f a) (f' a')) :
    Follows σ B (x >>= f) (x' >>= f') := by
  change Reporting.Follows σ _ (x.run >>= ExceptT.bindCont f) (x'.run >>= ExceptT.bindCont f')
  refine Reporting.Follows.bind h fun r r' outcome => ?_
  cases outcome with
  | ok related => exact rest _ _ related
  | error fault => exact Reporting.follows_pure (.error fault)

theorem Follows.map (h : Follows σ A x x') {f : α → β} {f' : α' → β'}
    (rest : ∀ a a', A a a' → B (f a) (f' a')) : Follows σ B (f <$> x) (f' <$> x') := by
  rw [← bind_pure_comp, ← bind_pure_comp]
  exact h.bind fun a a' related => follows_pure (rest a a' related)

theorem follows_look {pick : SymbolTable → α} {pick' : SymbolTable → α'}
    (related : ∀ t t', t.Renamed σ t' → A (pick t) (pick' t')) :
    Follows σ A (look pick) (look pick') :=
  (Reporting.follows_look related).map fun _ _ related => .ok related

theorem follows_change {f f' : SymbolTable → SymbolTable}
    (step : ∀ t t', t.Renamed σ t' → (f t).Renamed σ (f' t')) :
    Follows σ (fun _ _ => True) (change f) (change f') :=
  (Reporting.follows_change step).map fun _ _ _ => .ok trivial

theorem follows_resolve {x : Resolution α} {x' : Resolution α'} (h : Resolution.Follows σ A x x') :
    Follows σ A (resolve x) (resolve x') :=
  Reporting.follows_attempt h

variable {t t' : SymbolTable}

theorem followsAt_bind_look {pick : SymbolTable → α} {pick' : SymbolTable → α'}
    {f : α → Faulting β} {f' : α' → Faulting β'}
    (h : FollowsAt σ B (f (pick t)) t (f' (pick' t')) t') :
    FollowsAt σ B (look pick >>= f) t (look pick' >>= f') t' := by
  intro ρ ρ' r ρ₁ u reports run
  obtain ⟨r', ρ₁', u', run', related⟩ := h reports (ends_bind_look.mp run)
  exact ⟨r', ρ₁', u', ends_bind_look.mpr run', related⟩

/-- What comes next may rely on what has been resolved before it. -/
theorem followsAt_bind_resolve {x : Resolution α} {x' : Resolution α'}
    (h : Resolution.FollowsAt σ A x t x' t') {f : α → Faulting β} {f' : α' → Faulting β'}
    (rest : ∀ a a' u u', Resolution.Runs x t (.ok a) u → A a a' → u.Renamed σ u' →
      FollowsAt σ B (f a) u (f' a') u') :
    FollowsAt σ B (resolve x >>= f) t (resolve x' >>= f') t' := by
  intro ρ ρ' r ρ₁ u reports run
  rcases ends_bind.mp run with ⟨d, first, rfl⟩ | ⟨a, ρ₂, t₁, first, next⟩
  · obtain ⟨inner, rfl⟩ := ends_resolve.mp first
    obtain ⟨_, u', inner', fault, same⟩ := h inner
    cases fault with
    | error fault =>
      exact ⟨_, ρ', u', ends_bind.mpr (.inl ⟨_, ends_resolve.mpr ⟨inner', rfl⟩, rfl⟩),
        .error fault, reports, same⟩
  · obtain ⟨inner, rfl⟩ := ends_resolve.mp first
    obtain ⟨_, t₁', inner', outcome, same⟩ := h inner
    cases outcome with
    | ok related =>
      obtain ⟨r', ρ₁', u', next', outcome, reports', same'⟩ :=
        rest _ _ _ _ inner related same reports next
      exact ⟨r', ρ₁', u',
        ends_bind.mpr (.inr ⟨_, ρ', t₁', ends_resolve.mpr ⟨inner', rfl⟩, next'⟩), outcome,
        reports', same'⟩

/-- A pass that only reports ends in no fault. -/
theorem follows_lift {x : Reporting α} {x' : Reporting α'} (h : Reporting.Follows σ A x x') :
    Follows σ A (monadLift x) (monadLift x') :=
  h.map fun _ _ related => .ok related

theorem FollowsAt.ending (h : FollowsAt σ A x t x' t')
    {after after' : SymbolTable → SymbolTable}
    (step : ∀ t t', t.Renamed σ t' → (after t).Renamed σ (after' t')) :
    FollowsAt σ A (ending x after) t (ending x' after') t' := by
  intro ρ ρ' r ρ₁ u reports run
  obtain ⟨t₁, inner, rfl⟩ := ends_ending.mp run
  obtain ⟨r', ρ₁', u', inner', outcome, reports', same⟩ := h reports inner
  exact ⟨r', ρ₁', _, ends_ending.mpr ⟨u', inner', rfl⟩, outcome, reports', step _ _ same⟩

/-- Both computations end in a fault, or neither does. -/
theorem Follows.fault? {x x' : Faulting Unit} {A : Unit → Unit → Prop} (h : Follows σ A x x') :
    Reporting.Follows σ (Option.Rel (Diagnostic.Renamed σ)) x.fault? x'.fault? := by
  refine Reporting.Follows.bind h fun r r' outcome => ?_
  cases outcome with
  | ok _ => exact Reporting.follows_pure .none
  | error fault => exact Reporting.follows_pure (.some fault)

end Faulting

end Deferral
