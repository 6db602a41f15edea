import Mathlib.Data.List.Forall2
import Deferral.Proofs.Execution.Outcome
import Deferral.Proofs.Execution.Reporting

/-!
# Parallel outcomes

Two outcomes are parallel when both are values that correspond, or both are faults that say the same about
the same subject, wherever they are reported. Faults of the table mention its numbers, so that they say
the same only in that both are such faults.
-/

namespace Deferral

/-- Two causes say the same, up to the numbers in faults of the table. -/
inductive Cause.Alike : Cause → Cause → Prop
  | refl (cause : Cause) : Alike cause cause
  | internal (fault fault' : InternalFault) : Alike (.internal fault) (.internal fault')

namespace Cause.Alike

variable {c c' c'' : Cause}

theorem symm (h : c.Alike c') : c'.Alike c := by
  cases h with
  | refl => exact .refl _
  | internal f f' => exact .internal f' f

theorem trans (h : c.Alike c') (h' : c'.Alike c'') : c.Alike c'' := by
  cases h with
  | refl => exact h'
  | internal f f' =>
    cases h' with
    | refl => exact .internal f f'
    | internal _ f'' => exact .internal f f''

theorem isGrammatical (h : c.Alike c') : c'.isGrammatical = c.isGrammatical := by
  cases h <;> rfl

/-- Causes in the grammar mention no number. -/
theorem eq_of_isGrammatical (h : c.Alike c') (grammatical : c.isGrammatical = true) : c' = c := by
  cases h with
  | refl => rfl
  | internal f f' => cases grammatical

theorem eq_of_not_isInternal (h : c.Alike c') (plain : c.isInternal = false) : c' = c := by
  cases h with
  | refl => rfl
  | internal f f' => cases plain

end Cause.Alike

/-- Two diagnostics say the same about the same subject, wherever they are reported. -/
structure Diagnostic.Alike (d d' : Diagnostic) : Prop where
  cause : d.cause.Alike d'.cause
  subject : d'.subject = d.subject

namespace Diagnostic.Alike

variable {d d' d'' : Diagnostic}

theorem refl (d : Diagnostic) : d.Alike d := ⟨.refl _, rfl⟩

theorem symm (h : d.Alike d') : d'.Alike d := ⟨h.cause.symm, h.subject.symm⟩

theorem trans (h : d.Alike d') (h' : d'.Alike d'') : d.Alike d'' :=
  ⟨h.cause.trans h'.cause, h'.subject.trans h.subject⟩

/-- The same fault at two places. -/
theorem of_cause (cause : Cause) (position position' : Position) :
    Alike { cause, position } { cause, position := position' } := ⟨.refl _, rfl⟩

theorem within (h : d.Alike d') (subject : Subject) : (d.within subject).Alike (d'.within subject) := by
  unfold Diagnostic.within
  rw [h.subject]
  split
  · exact ⟨h.cause, rfl⟩
  · exact h

end Diagnostic.Alike

variable {α α' α'' β β' : Type} {A : α → α' → Prop} {B : β → β' → Prop}

/-- Both outcomes are values that correspond, or both are faults that say the same. -/
inductive Parallel (A : α → α' → Prop) : Except Diagnostic α → Except Diagnostic α' → Prop
  | ok {a : α} {a' : α'} : A a a' → Parallel A (.ok a) (.ok a')
  | error {d d' : Diagnostic} : d.Alike d' → Parallel A (.error d) (.error d')

namespace Parallel

variable {x : Except Diagnostic α} {x' : Except Diagnostic α'}

theorem mono (h : Parallel A x x') {A' : α → α' → Prop} (step : ∀ a a', A a a' → A' a a') :
    Parallel A' x x' := by
  cases h with
  | ok related => exact .ok (step _ _ related)
  | error fault => exact .error fault

theorem symm (h : Parallel A x x') : Parallel (fun a' a => A a a') x' x := by
  cases h with
  | ok related => exact .ok related
  | error fault => exact .error fault.symm

theorem trans {A' : α' → α'' → Prop} {x'' : Except Diagnostic α''} (h : Parallel A x x')
    (h' : Parallel A' x' x'') : Parallel (fun a a'' => ∃ a', A a a' ∧ A' a' a'') x x'' := by
  cases h with
  | ok related =>
    cases h' with
    | ok related' => exact .ok ⟨_, related, related'⟩
  | error fault =>
    cases h' with
    | error fault' => exact .error (fault.trans fault')

theorem bind (h : Parallel A x x') {f : α → Except Diagnostic β} {f' : α' → Except Diagnostic β'}
    (rest : ∀ a a', A a a' → Parallel B (f a) (f' a')) : Parallel B (x >>= f) (x' >>= f') := by
  cases h with
  | ok related => exact rest _ _ related
  | error fault => exact .error fault

theorem map (h : Parallel A x x') {f : α → β} {f' : α' → β'}
    (rest : ∀ a a', A a a' → B (f a) (f' a')) : Parallel B (x.map f) (x'.map f') := by
  cases h with
  | ok related => exact .ok (rest _ _ related)
  | error fault => exact .error fault

theorem mapError (h : Parallel A x x') {f f' : Diagnostic → Diagnostic}
    (rest : ∀ d d', d.Alike d' → (f d).Alike (f' d')) :
    Parallel A (x.mapError f) (x'.mapError f') := by
  cases h with
  | ok related => exact .ok related
  | error fault => exact .error (rest _ _ fault)

/-- The same fault at two places. -/
theorem fault (cause : Cause) (position position' : Position) :
    Parallel A (.error { cause, position }) (.error { cause, position := position' }) :=
  .error (.of_cause cause position position')

/-- What can be said of two outcomes can be said of what `g` and `g'` make of their values, and the other
way round. -/
theorem of_map {γ : Type} {g : α → γ} {g' : α' → γ} {y : Except Diagnostic γ}
    (h : Parallel (fun a c => c = g a) x y) (h' : Parallel (fun a c => c = g' a) x' y) :
    Parallel (fun a a' => g a = g' a') x x' :=
  (h.trans h'.symm).mono fun _ _ ⟨_, same, same'⟩ => same.symm.trans same'

end Parallel

/-! ## Computations in parallel

Two computations on two tables that correspond run in parallel when to every run of the one there is a run
of the other one that ends in a parallel outcome, reports what says the same, and leaves tables that
correspond again. What it is for tables to correspond is left open.
-/

variable {S S' : SymbolTable → SymbolTable → Prop} {α α' β β' : Type} {A : α → α' → Prop}
  {B : β → β' → Prop} {t t' : SymbolTable}

namespace Resolution

/-- Whatever `x` does on the table `t`, `x'` does on the table `t'`; afterwards `S` holds. -/
def TracksAt (S : SymbolTable → SymbolTable → Prop) (A : α → α' → Prop) (x : Resolution α)
    (t : SymbolTable) (x' : Resolution α') (t' : SymbolTable) : Prop :=
  ∀ ⦃r u⦄, Runs x t r u → ∃ r' u', Runs x' t' r' u' ∧ Parallel A r r' ∧ S u u'

/-- Whatever `x` does on a table, `x'` does on every table that corresponds to it. -/
def Tracks (S : SymbolTable → SymbolTable → Prop) (A : α → α' → Prop) (x : Resolution α)
    (x' : Resolution α') : Prop :=
  ∀ ⦃t t'⦄, S t t' → TracksAt S A x t x' t'

variable {x : Resolution α} {x' : Resolution α'}

theorem tracksAt_pure {a : α} {a' : α'} (related : A a a') (after : S t t') :
    TracksAt S A (pure a) t (pure a') t' := by
  intro r u run
  obtain ⟨rfl, rfl⟩ := runs_pure.mp run
  exact ⟨_, _, rfl, .ok related, after⟩

theorem tracks_pure {a : α} {a' : α'} (related : A a a') : Tracks S A (pure a) (pure a') :=
  fun _ _ same => tracksAt_pure related same

theorem tracks_throw {d d' : Diagnostic} (fault : d.Alike d') : Tracks S A (throw d) (throw d') := by
  intro t t' same r u run
  obtain ⟨rfl, rfl⟩ := runs_throw.mp run
  exact ⟨_, _, rfl, .error fault, same⟩

/-- The same fault at two places. -/
theorem tracks_fail (cause : Cause) (position position' : Position) :
    Tracks S A (fail cause position) (fail cause position') :=
  tracks_throw (.of_cause cause position position')

theorem tracks_internal (fault fault' : InternalFault) (position position' : Position) :
    Tracks S A (fail (.internal fault) position) (fail (.internal fault') position') :=
  tracks_throw ⟨.internal fault fault', rfl⟩

theorem tracks_ofExcept {o : Except Diagnostic α} {o' : Except Diagnostic α'} (h : Parallel A o o') :
    Tracks S A (ofExcept o) (ofExcept o') := by
  cases h with
  | ok related => exact tracks_pure related
  | error fault => exact tracks_throw fault

/-- What comes next may rely on what has been run before it. -/
theorem TracksAt.bind (h : TracksAt S A x t x' t') {f : α → Resolution β} {f' : α' → Resolution β'}
    (rest : ∀ a a' u u', Runs x t (.ok a) u → Runs x' t' (.ok a') u' → A a a' → S u u' →
      TracksAt S B (f a) u (f' a') u') :
    TracksAt S B (x >>= f) t (x' >>= f') t' := by
  intro r u run
  rcases runs_bind.mp run with ⟨d, first, rfl⟩ | ⟨a, t₁, first, next⟩
  · obtain ⟨_, u', first', fault, same⟩ := h first
    cases fault with
    | error fault => exact ⟨_, u', runs_bind.mpr (.inl ⟨_, first', rfl⟩), .error fault, same⟩
  · obtain ⟨_, t₁', first', outcome, same⟩ := h first
    cases outcome with
    | ok related =>
      obtain ⟨r', u', next', outcome, same'⟩ := rest _ _ _ _ first first' related same next
      exact ⟨r', u', runs_bind.mpr (.inr ⟨_, _, first', next'⟩), outcome, same'⟩

theorem Tracks.bind (h : Tracks S A x x') {f : α → Resolution β} {f' : α' → Resolution β'}
    (rest : ∀ a a', A a a' → Tracks S B (f a) (f' a')) : Tracks S B (x >>= f) (x' >>= f') :=
  fun _ _ same => (h same).bind fun a a' _ _ _ _ related same' => rest a a' related same'

theorem TracksAt.map (h : TracksAt S A x t x' t') {f : α → β} {f' : α' → β'}
    (rest : ∀ a a', A a a' → B (f a) (f' a')) : TracksAt S B (f <$> x) t (f' <$> x') t' := by
  intro r u run
  obtain ⟨r₁, first, rfl⟩ := runs_map.mp run
  obtain ⟨r₁', u', first', outcome, same'⟩ := h first
  exact ⟨_, u', runs_map.mpr ⟨_, first', rfl⟩, outcome.map rest, same'⟩

theorem Tracks.map (h : Tracks S A x x') {f : α → β} {f' : α' → β'}
    (rest : ∀ a a', A a a' → B (f a) (f' a')) : Tracks S B (f <$> x) (f' <$> x') :=
  fun _ _ same => (h same).map rest

/-- Both tables are asked, and what comes next is told what they are. -/
theorem tracksAt_bind_look {pick : SymbolTable → α} {pick' : SymbolTable → α'} {f : α → Resolution β}
    {f' : α' → Resolution β'} (h : TracksAt S B (f (pick t)) t (f' (pick' t')) t') :
    TracksAt S B (look pick >>= f) t (look pick' >>= f') t' := by
  intro r u run
  obtain ⟨r', u', run', after⟩ := h (runs_bind_look.mp run)
  exact ⟨r', u', runs_bind_look.mpr run', after⟩

theorem tracksAt_bind_get {f : SymbolTable → Resolution α} {f' : SymbolTable → Resolution α'}
    (h : TracksAt S A (f t) t (f' t') t') : TracksAt S A (get >>= f) t (get >>= f') t' := by
  intro r u run
  obtain ⟨r', u', run', after⟩ := h (runs_bind_get.mp run)
  exact ⟨r', u', runs_bind_get.mpr run', after⟩

theorem tracks_modify {f f' : SymbolTable → SymbolTable} (step : ∀ t t', S t t' → S (f t) (f' t')) :
    Tracks S (fun _ _ => True) (modify f : Resolution PUnit) (modify f') := by
  intro t t' same r u run
  obtain ⟨rfl, rfl⟩ := runs_modify.mp run
  exact ⟨_, _, rfl, .ok trivial, step _ _ same⟩

/-- Faults may be reported as other ones, both in the same way. -/
theorem Tracks.rethrow (h : Tracks S A x x') {change change' : Diagnostic → Diagnostic}
    (step : ∀ d d', d.Alike d' → (change d).Alike (change' d')) :
    Tracks S A (tryCatch x fun d => throw (change d)) (tryCatch x' fun d => throw (change' d)) := by
  intro t t' same r u run
  obtain ⟨r₁, first, rfl⟩ := runs_rethrow.mp run
  obtain ⟨r₁', u', first', outcome, same'⟩ := h same first
  exact ⟨_, u', runs_rethrow.mpr ⟨_, first', rfl⟩, outcome.mapError step, same'⟩

/-- Scopes are entered before, and left however the computations end. -/
theorem TracksAt.under {scope scope' : ScopeId}
    (h : TracksAt S A x (t.enter scope) x' (t'.enter scope'))
    (leave : ∀ u u', S u u' → S u.leave u'.leave) :
    TracksAt S A (under scope x) t (under scope' x') t' := by
  intro r u run
  obtain ⟨t₁, inner, rfl⟩ := runs_under.mp run
  obtain ⟨r', u', inner', outcome, same⟩ := h inner
  exact ⟨r', _, runs_under.mpr ⟨u', inner', rfl⟩, outcome, leave _ _ same⟩

end Resolution

namespace Reporting

/-- What is reported says the same. -/
abbrev SameReports : List Diagnostic → List Diagnostic → Prop := List.Forall₂ Diagnostic.Alike

/-- Where no fault of the table is reported, the same is reported, wherever that may be. -/
theorem map_eq_of_sameReports {ρ ρ' : List Diagnostic} (same : SameReports ρ ρ')
    (sane : ∀ d ∈ ρ, d.cause.isInternal = false) :
    ρ'.map (fun d => (d.cause, d.subject)) = ρ.map fun d => (d.cause, d.subject) := by
  induction same with
  | nil => rfl
  | @cons d d' ρ ρ' alike _ ih =>
    obtain ⟨plain, others⟩ := List.forall_mem_cons.mp sane
    rw [List.map_cons, List.map_cons, alike.cause.eq_of_not_isInternal plain, alike.subject, ih others]

/-- Whatever `x` does on the table `t` and reports, `x'` does and reports on the table `t'`; afterwards
`S` holds. -/
def TracksAt (S : SymbolTable → SymbolTable → Prop) (A : α → α' → Prop) (x : Reporting α)
    (t : SymbolTable) (x' : Reporting α') (t' : SymbolTable) : Prop :=
  ∀ ⦃ρ ρ' a ρ₁ u⦄, SameReports ρ ρ' → Ends x ρ t a ρ₁ u →
    ∃ a' ρ₁' u', Ends x' ρ' t' a' ρ₁' u' ∧ A a a' ∧ SameReports ρ₁ ρ₁' ∧ S u u'

/-- Whatever `x` does on a table and reports, `x'` does and reports on every table that corresponds to
it. -/
def Tracks (S : SymbolTable → SymbolTable → Prop) (A : α → α' → Prop) (x : Reporting α)
    (x' : Reporting α') : Prop :=
  ∀ ⦃t t'⦄, S t t' → TracksAt S A x t x' t'

variable {x : Reporting α} {x' : Reporting α'}

theorem tracksAt_pure {a : α} {a' : α'} (related : A a a') (after : S t t') :
    TracksAt S A (pure a) t (pure a') t' := by
  intro ρ ρ' b ρ₁ u reports run
  obtain ⟨rfl, rfl, rfl⟩ := ends_pure.mp run
  exact ⟨_, _, _, rfl, related, reports, after⟩

theorem tracks_pure {a : α} {a' : α'} (related : A a a') : Tracks S A (pure a) (pure a') :=
  fun _ _ same => tracksAt_pure related same

theorem TracksAt.mono (h : TracksAt S A x t x' t') {A' : α → α' → Prop}
    (value : ∀ a a', A a a' → A' a a') (table : ∀ u u', S u u' → S' u u') :
    TracksAt S' A' x t x' t' := by
  intro ρ ρ' a ρ₁ u reports run
  obtain ⟨a', ρ₁', u', run', related, reports', same⟩ := h reports run
  exact ⟨a', ρ₁', u', run', value _ _ related, reports', table _ _ same⟩

theorem TracksAt.bind (h : TracksAt S A x t x' t') {f : α → Reporting β} {f' : α' → Reporting β'}
    (rest : ∀ a a' u u', A a a' → S u u' → TracksAt S' B (f a) u (f' a') u') :
    TracksAt S' B (x >>= f) t (x' >>= f') t' := by
  intro ρ ρ' b ρ₁ u reports run
  obtain ⟨a, ρ₂, t₂, first, next⟩ := ends_bind.mp run
  obtain ⟨a', ρ₂', t₂', first', related, reports', same'⟩ := h reports first
  obtain ⟨b', ρ₁', u', next', related', reports'', same''⟩ :=
    rest a a' _ _ related same' reports' next
  exact ⟨b', ρ₁', u', ends_bind.mpr ⟨_, _, _, first', next'⟩, related', reports'', same''⟩

theorem Tracks.bind (h : Tracks S A x x') {f : α → Reporting β} {f' : α' → Reporting β'}
    (rest : ∀ a a', A a a' → Tracks S B (f a) (f' a')) : Tracks S B (x >>= f) (x' >>= f') :=
  fun _ _ same => (h same).bind fun a a' _ _ related same' => rest a a' related same'

theorem Tracks.map (h : Tracks S A x x') {f : α → β} {f' : α' → β'}
    (rest : ∀ a a', A a a' → B (f a) (f' a')) : Tracks S B (f <$> x) (f' <$> x') := by
  intro t t' same ρ ρ' b ρ₁ u reports run
  obtain ⟨a, first, rfl⟩ := ends_map.mp run
  obtain ⟨a', ρ₁', u', first', related, reports', same'⟩ := h same reports first
  exact ⟨_, ρ₁', u', ends_map.mpr ⟨a', first', rfl⟩, rest _ _ related, reports', same'⟩

theorem tracks_look {pick : SymbolTable → α} {pick' : SymbolTable → α'}
    (related : ∀ t t', S t t' → A (pick t) (pick' t')) : Tracks S A (look pick) (look pick') := by
  intro t t' same ρ ρ' a ρ₁ u reports run
  obtain ⟨rfl, rfl, rfl⟩ := ends_look.mp run
  exact ⟨_, _, _, rfl, related _ _ same, reports, same⟩

theorem tracksAt_bind_look {pick : SymbolTable → α} {pick' : SymbolTable → α'} {f : α → Reporting β}
    {f' : α' → Reporting β'} (h : TracksAt S B (f (pick t)) t (f' (pick' t')) t') :
    TracksAt S B (look pick >>= f) t (look pick' >>= f') t' := by
  intro ρ ρ' a ρ₁ u reports run
  obtain ⟨a', ρ₁', u', run', after⟩ := h reports (ends_bind_look.mp run)
  exact ⟨a', ρ₁', u', ends_bind_look.mpr run', after⟩

theorem tracksAt_change {f f' : SymbolTable → SymbolTable} (after : S (f t) (f' t')) :
    TracksAt S (fun _ _ => True) (change f) t (change f') t' := by
  intro ρ ρ' a ρ₁ u reports run
  obtain ⟨rfl, rfl⟩ := ends_change.mp run
  exact ⟨(), _, _, rfl, trivial, reports, after⟩

theorem tracksAt_bind_change {g g' : SymbolTable → SymbolTable} {f : Unit → Reporting β}
    {f' : Unit → Reporting β'} (h : TracksAt S B (f ()) (g t) (f' ()) (g' t')) :
    TracksAt S B (change g >>= f) t (change g' >>= f') t' := by
  intro ρ ρ' a ρ₁ u reports run
  obtain ⟨a', ρ₁', u', run', after⟩ := h reports (ends_bind_change.mp run)
  exact ⟨a', ρ₁', u', ends_bind_change.mpr run', after⟩

theorem tracks_report {d d' : Diagnostic} (fault : d.Alike d') :
    Tracks S (fun _ _ => True) (report d) (report d') := by
  intro t t' same ρ ρ' a ρ₁ u reports run
  obtain ⟨rfl, rfl⟩ := ends_report.mp run
  exact ⟨(), _, _, rfl, trivial, List.rel_append reports (.cons fault .nil), same⟩

theorem tracks_reportWithin (subject : Subject) {fault? fault?' : Option Diagnostic}
    (h : Option.Rel Diagnostic.Alike fault? fault?') :
    Tracks S (fun _ _ => True) (reportWithin subject fault?) (reportWithin subject fault?') := by
  cases h with
  | none => exact tracks_pure trivial
  | some fault => exact tracks_report (fault.within subject)

theorem tracksAt_attempt {x : Resolution α} {x' : Resolution α'} (h : Resolution.TracksAt S A x t x' t') :
    TracksAt S (Parallel A) (attempt x) t (attempt x') t' := by
  intro ρ ρ' r ρ₁ u reports run
  obtain ⟨inner, rfl⟩ := ends_attempt.mp run
  obtain ⟨r', u', inner', outcome, same'⟩ := h inner
  exact ⟨r', ρ', u', ends_attempt.mpr ⟨inner', rfl⟩, outcome, reports, same'⟩

theorem TracksAt.under {scope scope' : ScopeId}
    (h : TracksAt S A x (t.enter scope) x' (t'.enter scope'))
    (leave : ∀ u u', S u u' → S' u.leave u'.leave) :
    TracksAt S' A (under scope x) t (under scope' x') t' := by
  intro ρ ρ' a ρ₁ u reports run
  obtain ⟨t₁, inner, rfl⟩ := ends_under.mp run
  obtain ⟨a', ρ₁', u', inner', related, reports', same'⟩ := h reports inner
  exact ⟨a', ρ₁', _, ends_under.mpr ⟨u', inner', rfl⟩, related, reports', leave _ _ same'⟩

theorem TracksAt.underFresh
    (h : TracksAt S A x ((t.addScope t.innermost).enter t.nextScope) x'
      ((t'.addScope t'.innermost).enter t'.nextScope))
    (leave : ∀ u u', S u u' → S' u.leave u'.leave) :
    TracksAt S' A (underFresh x) t (underFresh x') t' := by
  intro ρ ρ' a ρ₁ u reports run
  obtain ⟨t₁, inner, rfl⟩ := ends_underFresh.mp run
  obtain ⟨a', ρ₁', u', inner', related, reports', same'⟩ := h reports inner
  exact ⟨a', ρ₁', _, ends_underFresh.mpr ⟨u', inner', rfl⟩, related, reports', leave _ _ same'⟩

end Reporting

namespace Faulting

/-- Whatever `x` does on the table `t` and reports, `x'` does and reports on the table `t'`, and ends in a
parallel outcome; afterwards `S` holds. -/
def TracksAt (S : SymbolTable → SymbolTable → Prop) (A : α → α' → Prop) (x : Faulting α)
    (t : SymbolTable) (x' : Faulting α') (t' : SymbolTable) : Prop :=
  Reporting.TracksAt S (Parallel A) x.run t x'.run t'

/-- Whatever `x` does on a table and reports, `x'` does and reports on every table that corresponds to it,
and ends in a parallel outcome. -/
def Tracks (S : SymbolTable → SymbolTable → Prop) (A : α → α' → Prop) (x : Faulting α)
    (x' : Faulting α') : Prop :=
  ∀ ⦃t t'⦄, S t t' → TracksAt S A x t x' t'

variable {x : Faulting α} {x' : Faulting α'}

theorem tracks_pure {a : α} {a' : α'} (related : A a a') : Tracks S A (pure a) (pure a') :=
  Reporting.tracks_pure (.ok related)

theorem tracks_throw {d d' : Diagnostic} (fault : d.Alike d') : Tracks S A (throw d) (throw d') :=
  Reporting.tracks_pure (.error fault)

theorem tracksAt_resolve {x : Resolution α} {x' : Resolution α'} (h : Resolution.TracksAt S A x t x' t') :
    TracksAt S A (resolve x) t (resolve x') t' :=
  Reporting.tracksAt_attempt h

/-- What comes after resolving may rely on what has been resolved. -/
theorem tracksAt_bind_resolve {x : Resolution α} {x' : Resolution α'}
    (h : Resolution.TracksAt S A x t x' t') {f : α → Faulting β} {f' : α' → Faulting β'}
    (rest : ∀ a a' u u', Resolution.Runs x t (.ok a) u → Resolution.Runs x' t' (.ok a') u' → A a a' →
      S u u' → TracksAt S B (f a) u (f' a') u') :
    TracksAt S B (resolve x >>= f) t (resolve x' >>= f') t' := by
  intro ρ ρ' r ρ₁ u reports run
  rcases ends_bind.mp run with ⟨d, first, rfl⟩ | ⟨a, ρ₂, t₂, first, next⟩
  · obtain ⟨inner, rfl⟩ := ends_resolve.mp first
    obtain ⟨_, u', inner', fault, same⟩ := h inner
    cases fault with
    | error fault =>
      exact ⟨_, ρ', u', ends_bind.mpr (.inl ⟨_, ends_resolve.mpr ⟨inner', rfl⟩, rfl⟩), .error fault, reports,
        same⟩
  · obtain ⟨inner, rfl⟩ := ends_resolve.mp first
    obtain ⟨_, u', inner', outcome, same⟩ := h inner
    cases outcome with
    | ok related =>
      obtain ⟨r', ρ₁', u₁', next', after⟩ := rest _ _ _ _ inner inner' related same reports next
      exact ⟨r', ρ₁', u₁', ends_bind.mpr (.inr ⟨_, _, _, ends_resolve.mpr ⟨inner', rfl⟩, next'⟩), after⟩

theorem tracksAt_bind_look {pick : SymbolTable → α} {pick' : SymbolTable → α'} {f : α → Faulting β}
    {f' : α' → Faulting β'} (h : TracksAt S B (f (pick t)) t (f' (pick' t')) t') :
    TracksAt S B (look pick >>= f) t (look pick' >>= f') t' := by
  intro ρ ρ' r ρ₁ u reports run
  obtain ⟨r', ρ₁', u', run', related⟩ := h reports (ends_bind_look.mp run)
  exact ⟨r', ρ₁', u', ends_bind_look.mpr run', related⟩

/-- Changing both tables ends in no fault. -/
theorem tracksAt_bind_change {g g' : SymbolTable → SymbolTable} {f : Unit → Faulting β}
    {f' : Unit → Faulting β'} (h : TracksAt S B (f ()) (g t) (f' ()) (g' t')) :
    TracksAt S B (change g >>= f) t (change g' >>= f') t' := by
  intro ρ ρ' r ρ₁ u reports run
  obtain ⟨r', ρ₁', u', run', related⟩ := h reports (ends_bind_change.mp run)
  exact ⟨r', ρ₁', u', ends_bind_change.mpr run', related⟩

theorem tracksAt_change {f f' : SymbolTable → SymbolTable} (after : S (f t) (f' t')) :
    TracksAt S (fun _ _ => True) (change f) t (change f') t' := by
  intro ρ ρ' r ρ₁ u reports run
  obtain ⟨rfl, rfl, rfl⟩ := ends_change.mp run
  exact ⟨_, ρ', _, ends_change.mpr ⟨rfl, rfl, rfl⟩, .ok trivial, reports, after⟩

/-- A pass that only reports ends in no fault. -/
theorem tracksAt_lift {x : Reporting α} {x' : Reporting α'} (h : Reporting.TracksAt S A x t x' t') :
    TracksAt S A (monadLift x) t (monadLift x') t' := by
  intro ρ ρ' r ρ₁ u reports run
  obtain ⟨a, inner, rfl⟩ := ends_lift.mp run
  obtain ⟨a', ρ₁', u', inner', related, reports', same⟩ := h reports inner
  exact ⟨_, ρ₁', u', ends_lift.mpr ⟨a', inner', rfl⟩, .ok related, reports', same⟩

/-- What a pass only reports may leave tables that correspond in another way. -/
theorem tracksAt_bind_lift {x : Reporting α} {x' : Reporting α'} (h : Reporting.TracksAt S A x t x' t')
    {f : α → Faulting β} {f' : α' → Faulting β'}
    (rest : ∀ a a' u u', A a a' → S u u' → TracksAt S' B (f a) u (f' a') u') :
    TracksAt S' B ((monadLift x : Faulting α) >>= f) t ((monadLift x' : Faulting α') >>= f') t' := by
  intro ρ ρ' r ρ₁ u reports run
  rcases ends_bind.mp run with ⟨d, first, -⟩ | ⟨a, ρ₂, t₂, first, next⟩
  · obtain ⟨a, -, no⟩ := ends_lift.mp first
    cases no
  · obtain ⟨_, inner, same⟩ := ends_lift.mp first
    obtain rfl := Except.ok.inj same
    obtain ⟨a', ρ₂', t₂', inner', related, reports', same⟩ := h reports inner
    obtain ⟨r', ρ₁', u', next', after⟩ := rest _ _ _ _ related same reports' next
    exact ⟨r', ρ₁', u', ends_bind.mpr (.inr ⟨a', ρ₂', t₂', ends_lift.mpr ⟨a', inner', rfl⟩, next'⟩),
      after⟩

theorem TracksAt.ending (h : TracksAt S A x t x' t') {after after' : SymbolTable → SymbolTable}
    (step : ∀ u u', S u u' → S' (after u) (after' u')) :
    TracksAt S' A (ending x after) t (ending x' after') t' := by
  intro ρ ρ' r ρ₁ u reports run
  obtain ⟨t₁, inner, rfl⟩ := ends_ending.mp run
  obtain ⟨r', ρ₁', u', inner', outcome, reports', same⟩ := h reports inner
  exact ⟨r', ρ₁', _, ends_ending.mpr ⟨u', inner', rfl⟩, outcome, reports', step _ _ same⟩

/-- Both computations end in a fault, or neither does. -/
theorem TracksAt.fault? {x x' : Faulting Unit} {A : Unit → Unit → Prop} (h : TracksAt S A x t x' t') :
    Reporting.TracksAt S (Option.Rel Diagnostic.Alike) x.fault? t x'.fault? t' := by
  refine Reporting.TracksAt.bind h fun r r' u u' outcome same => ?_
  cases outcome with
  | ok _ => exact Reporting.tracksAt_pure .none same
  | error fault => exact Reporting.tracksAt_pure (.some fault) same

end Faulting

end Deferral
