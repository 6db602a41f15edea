import Deferral.Resolution.Basic

/-!
# Runs

A computation run on a table ends in an outcome and leaves a table behind. A run of several steps
ends at the first fault, or is made of a run of each step.
-/

namespace Deferral

namespace Resolution

variable {α β : Type} {t t' : SymbolTable}

/-- A computation that starts on the table `t` ends in the outcome `r` and leaves `t'`. -/
def Runs (action : Resolution α) (t : SymbolTable) (r : Except Diagnostic α) (t' : SymbolTable) :
    Prop :=
  action.run.run t = (r, t')

theorem Runs.of_run (action : Resolution α) (t : SymbolTable) :
    Runs action t (action.run.run t).1 (action.run.run t).2 := rfl

theorem Runs.unique {action : Resolution α} {r r' : Except Diagnostic α} {t'' : SymbolTable}
    (h : Runs action t r t') (h' : Runs action t r' t'') : r = r' ∧ t' = t'' :=
  Prod.mk.inj (h.symm.trans h')

theorem runs_pure {a : α} {r : Except Diagnostic α} :
    Runs (pure a) t r t' ↔ r = .ok a ∧ t' = t := by
  constructor
  · intro h
    obtain ⟨rfl, rfl⟩ := Prod.mk.inj h
    exact ⟨rfl, rfl⟩
  · rintro ⟨rfl, rfl⟩
    rfl

theorem runs_throw {d : Diagnostic} {r : Except Diagnostic α} :
    Runs (throw d) t r t' ↔ r = .error d ∧ t' = t := by
  constructor
  · intro h
    obtain ⟨rfl, rfl⟩ := Prod.mk.inj h
    exact ⟨rfl, rfl⟩
  · rintro ⟨rfl, rfl⟩
    rfl

theorem runs_bind {x : Resolution α} {f : α → Resolution β} {r : Except Diagnostic β} :
    Runs (x >>= f) t r t' ↔
      (∃ d, Runs x t (.error d) t' ∧ r = .error d) ∨
        ∃ a t₁, Runs x t (.ok a) t₁ ∧ Runs (f a) t₁ r t' := by
  have step : (x >>= f).run.run t = match x.run.run t with
      | (.ok a, t₁) => (f a).run.run t₁
      | (.error d, t₁) => (.error d, t₁) := by
    change StateT.run (x.run >>= ExceptT.bindCont f) t = _
    simp only [StateT.run_bind]
    obtain ⟨outcome, t₁⟩ : Except Diagnostic α × SymbolTable := x.run.run t
    cases outcome <;> rfl
  unfold Runs
  rw [step]
  obtain ⟨outcome, t₁⟩ : Except Diagnostic α × SymbolTable := x.run.run t
  cases outcome with
  | error d =>
    constructor
    · intro h
      obtain ⟨rfl, rfl⟩ := Prod.mk.inj h
      exact .inl ⟨d, rfl, rfl⟩
    · rintro (⟨d, first, rfl⟩ | ⟨a, t₂, first, -⟩)
      · obtain ⟨fault, rfl⟩ := Prod.mk.inj first
        obtain rfl := Except.error.inj fault
        rfl
      · cases first
  | ok a =>
    constructor
    · intro h
      exact .inr ⟨a, t₁, rfl, h⟩
    · rintro (⟨d, first, -⟩ | ⟨a, t₂, first, rest⟩)
      · cases first
      · obtain ⟨ok, rfl⟩ := Prod.mk.inj first
        obtain rfl := Except.ok.inj ok
        exact rest

theorem runs_map {x : Resolution α} {f : α → β} {r : Except Diagnostic β} :
    Runs (f <$> x) t r t' ↔ ∃ r₁, Runs x t r₁ t' ∧ r = r₁.map f := by
  have step : (f <$> x).run.run t = ((x.run.run t).1.map f, (x.run.run t).2) := by
    rw [ExceptT.run_map]
    rfl
  unfold Runs
  rw [step]
  obtain ⟨outcome, t₁⟩ : Except Diagnostic α × SymbolTable := x.run.run t
  constructor
  · intro h
    obtain ⟨rfl, rfl⟩ := Prod.mk.inj h
    exact ⟨outcome, rfl, rfl⟩
  · rintro ⟨r₁, first, rfl⟩
    obtain ⟨rfl, rfl⟩ := Prod.mk.inj first
    rfl

theorem runs_get {r : Except Diagnostic SymbolTable} :
    Runs get t r t' ↔ r = .ok t ∧ t' = t := runs_pure

theorem runs_look {pick : SymbolTable → α} {r : Except Diagnostic α} :
    Runs (look pick) t r t' ↔ r = .ok (pick t) ∧ t' = t := runs_pure

theorem runs_set {s : SymbolTable} {r : Except Diagnostic PUnit} :
    Runs (set s) t r t' ↔ r = .ok ⟨⟩ ∧ t' = s := by
  constructor
  · intro h
    obtain ⟨rfl, rfl⟩ := Prod.mk.inj h
    exact ⟨rfl, rfl⟩
  · rintro ⟨rfl, rfl⟩
    rfl

theorem runs_modify {f : SymbolTable → SymbolTable} {r : Except Diagnostic PUnit} :
    Runs (modify f) t r t' ↔ r = .ok ⟨⟩ ∧ t' = f t := by
  constructor
  · intro h
    obtain ⟨rfl, rfl⟩ := Prod.mk.inj h
    exact ⟨rfl, rfl⟩
  · rintro ⟨rfl, rfl⟩
    rfl

theorem runs_fail {cause : Cause} {position : Position} {r : Except Diagnostic α} :
    Runs (fail cause position) t r t' ↔ r = .error { cause, position } ∧ t' = t := runs_throw

theorem runs_bind_look {pick : SymbolTable → α} {f : α → Resolution β} {r : Except Diagnostic β} :
    Runs (look pick >>= f) t r t' ↔ Runs (f (pick t)) t r t' := Iff.rfl

theorem runs_bind_get {f : SymbolTable → Resolution β} {r : Except Diagnostic β} :
    Runs (get >>= f) t r t' ↔ Runs (f t) t r t' := Iff.rfl

theorem runs_bind_set {s : SymbolTable} {f : PUnit → Resolution β} {r : Except Diagnostic β} :
    Runs (set s >>= f) t r t' ↔ Runs (f ⟨⟩) s r t' := Iff.rfl

theorem runs_bind_modify {change : SymbolTable → SymbolTable} {f : PUnit → Resolution β}
    {r : Except Diagnostic β} :
    Runs (modify change >>= f) t r t' ↔ Runs (f ⟨⟩) (change t) r t' := Iff.rfl

theorem runs_ofExcept {x : Except Diagnostic α} {r : Except Diagnostic α} :
    Runs (ofExcept x) t r t' ↔ r = x ∧ t' = t := by
  cases x with
  | ok a => exact runs_pure
  | error d => exact runs_throw

theorem runs_unexpectedDecl {d : Decl} {r : Except Diagnostic α} (h : Runs (unexpectedDecl d) t r t') :
    t' = t ∧ ∀ a, r ≠ .ok a := by
  obtain ⟨rfl, rfl⟩ := runs_fail.mp h
  exact ⟨rfl, fun _ same => by cases same⟩

/-- Reporting a fault as another one changes no table. -/
theorem runs_rethrow {x : Resolution α} {change : Diagnostic → Diagnostic}
    {r : Except Diagnostic α} :
    Runs (tryCatch x fun d => throw (change d)) t r t' ↔
      ∃ r₁, Runs x t r₁ t' ∧ r = r₁.mapError change := by
  have step : (tryCatch x fun d => throw (change d)).run.run t =
      ((x.run.run t).1.mapError change, (x.run.run t).2) := by
    change StateT.run (ExceptT.run (ExceptT.tryCatch x fun d => throw (change d))) t = _
    unfold ExceptT.tryCatch
    change StateT.run (bind (ExceptT.run x) _) t = _
    rw [StateT.run_bind]
    obtain ⟨outcome, t₁⟩ : Except Diagnostic α × SymbolTable := x.run.run t
    cases outcome <;> rfl
  unfold Runs
  rw [step]
  obtain ⟨outcome, t₁⟩ : Except Diagnostic α × SymbolTable := x.run.run t
  constructor
  · intro h
    obtain ⟨rfl, rfl⟩ := Prod.mk.inj h
    exact ⟨outcome, rfl, rfl⟩
  · rintro ⟨r₁, first, rfl⟩
    obtain ⟨rfl, rfl⟩ := Prod.mk.inj first
    rfl

theorem runs_under {scope : ScopeId} {x : Resolution α} {r : Except Diagnostic α} :
    Runs (under scope x) t r t' ↔ ∃ t₁, Runs x (t.enter scope) r t₁ ∧ t' = t₁.leave := by
  constructor
  · intro h
    obtain ⟨rfl, rfl⟩ := Prod.mk.inj h
    exact ⟨_, rfl, rfl⟩
  · rintro ⟨t₁, first, rfl⟩
    obtain ⟨rfl, rfl⟩ := Prod.mk.inj first
    rfl

theorem runs_ending {x : Resolution α} {after : SymbolTable → SymbolTable}
    {r : Except Diagnostic α} :
    Runs (ending x after) t r t' ↔ ∃ t₁, Runs x t r t₁ ∧ t' = after t₁ := by
  constructor
  · intro h
    obtain ⟨rfl, rfl⟩ := Prod.mk.inj h
    exact ⟨_, rfl, rfl⟩
  · rintro ⟨t₁, first, rfl⟩
    obtain ⟨rfl, rfl⟩ := Prod.mk.inj first
    rfl

end Resolution

end Deferral
