import Deferral.Proofs.Execution.Resolving
import Deferral.Unit.Reporting

/-!
# Runs of passes

A pass always ends: with its value, with more diagnostics reported than before, and with another
table. Where it may end in a fault, its value is an outcome.
-/

namespace Deferral

variable {α β : Type} {t t' : SymbolTable} {ρ ρ' : List Diagnostic}

namespace Reporting

/-- A computation that starts with the diagnostics `ρ` and the table `t` ends with the value `a`,
the diagnostics `ρ'` and the table `t'`. -/
def Ends (action : Reporting α) (ρ : List Diagnostic) (t : SymbolTable) (a : α)
    (ρ' : List Diagnostic) (t' : SymbolTable) : Prop :=
  (action.run ρ).run t = ((a, ρ'), t')

theorem ends_pure {a b : α} : Ends (pure a) ρ t b ρ' t' ↔ b = a ∧ ρ' = ρ ∧ t' = t := by
  constructor
  · intro h
    obtain ⟨same, rfl⟩ := Prod.mk.inj h
    obtain ⟨rfl, rfl⟩ := Prod.mk.inj same
    exact ⟨rfl, rfl, rfl⟩
  · rintro ⟨rfl, rfl, rfl⟩
    rfl

theorem ends_bind {x : Reporting α} {f : α → Reporting β} {b : β} :
    Ends (x >>= f) ρ t b ρ' t' ↔
      ∃ a ρ₁ t₁, Ends x ρ t a ρ₁ t₁ ∧ Ends (f a) ρ₁ t₁ b ρ' t' := by
  constructor
  · intro h
    exact ⟨_, _, _, rfl, h⟩
  · rintro ⟨a, ρ₁, t₁, first, rest⟩
    change ((f ((x.run ρ).run t).1.1).run ((x.run ρ).run t).1.2).run ((x.run ρ).run t).2 = _
    rw [show (x.run ρ).run t = ((a, ρ₁), t₁) from first]
    exact rest

theorem ends_map {x : Reporting α} {f : α → β} {b : β} :
    Ends (f <$> x) ρ t b ρ' t' ↔ ∃ a, Ends x ρ t a ρ' t' ∧ b = f a := by
  constructor
  · intro h
    obtain ⟨same, rfl⟩ := Prod.mk.inj h
    obtain ⟨rfl, rfl⟩ := Prod.mk.inj same
    exact ⟨_, rfl, rfl⟩
  · rintro ⟨a, first, rfl⟩
    change ((f ((x.run ρ).run t).1.1, ((x.run ρ).run t).1.2), ((x.run ρ).run t).2) = _
    rw [show (x.run ρ).run t = ((a, ρ'), t') from first]

theorem ends_look {pick : SymbolTable → α} {a : α} :
    Ends (look pick) ρ t a ρ' t' ↔ a = pick t ∧ ρ' = ρ ∧ t' = t := ends_pure

theorem ends_change {f : SymbolTable → SymbolTable} {u : Unit} :
    Ends (change f) ρ t u ρ' t' ↔ ρ' = ρ ∧ t' = f t := by
  constructor
  · intro h
    obtain ⟨same, rfl⟩ := Prod.mk.inj h
    obtain ⟨-, rfl⟩ := Prod.mk.inj same
    exact ⟨rfl, rfl⟩
  · rintro ⟨rfl, rfl⟩
    rfl

theorem ends_bind_look {pick : SymbolTable → α} {f : α → Reporting β} {b : β} :
    Ends (look pick >>= f) ρ t b ρ' t' ↔ Ends (f (pick t)) ρ t b ρ' t' := Iff.rfl

theorem ends_bind_change {g : SymbolTable → SymbolTable} {f : Unit → Reporting β} {b : β} :
    Ends (change g >>= f) ρ t b ρ' t' ↔ Ends (f ()) ρ (g t) b ρ' t' := Iff.rfl

theorem run_collect {x : Reporting α} {a : α} :
    (collect x).run t = ((a, ρ'), t') ↔ Ends x [] t a ρ' t' := Iff.rfl

theorem ends_attempt {x : Resolution α} {r : Except Diagnostic α} :
    Ends (attempt x) ρ t r ρ' t' ↔ Resolution.Runs x t r t' ∧ ρ' = ρ := by
  constructor
  · intro h
    obtain ⟨same, rfl⟩ := Prod.mk.inj h
    obtain ⟨rfl, rfl⟩ := Prod.mk.inj same
    exact ⟨rfl, rfl⟩
  · rintro ⟨run, rfl⟩
    obtain ⟨rfl, rfl⟩ := Prod.mk.inj run
    rfl

theorem ends_report {d : Diagnostic} {u : Unit} :
    Ends (report d) ρ t u ρ' t' ↔ ρ' = ρ ++ [d] ∧ t' = t := by
  constructor
  · intro h
    obtain ⟨same, rfl⟩ := Prod.mk.inj h
    obtain ⟨-, rfl⟩ := Prod.mk.inj same
    exact ⟨rfl, rfl⟩
  · rintro ⟨rfl, rfl⟩
    rfl

theorem ends_reportWithin {subject : Subject} {fault? : Option Diagnostic} {u : Unit} :
    Ends (reportWithin subject fault?) ρ t u ρ' t' ↔
      ρ' = ρ ++ (fault?.map (·.within subject)).toList ∧ t' = t := by
  cases fault? with
  | none =>
    simp only [Option.map_none, Option.toList_none, List.append_nil]
    exact ends_pure.trans (by simp)
  | some d => exact ends_report

theorem ends_under {scope : ScopeId} {x : Reporting α} {a : α} :
    Ends (under scope x) ρ t a ρ' t' ↔ ∃ t₁, Ends x ρ (t.enter scope) a ρ' t₁ ∧ t' = t₁.leave := by
  constructor
  · intro h
    obtain ⟨same, rfl⟩ := Prod.mk.inj h
    exact ⟨_, Prod.ext same rfl, rfl⟩
  · rintro ⟨t₁, first, rfl⟩
    unfold Ends at first ⊢
    rw [run_under, first]

theorem ends_underFresh {x : Reporting α} {a : α} :
    Ends (underFresh x) ρ t a ρ' t' ↔
      ∃ t₁, Ends x ρ ((t.addScope t.innermost).enter t.nextScope) a ρ' t₁ ∧ t' = t₁.leave :=
  ends_under

end Reporting

namespace Faulting

open Reporting

/-- A computation that may end in a fault ends in the outcome `r`. -/
abbrev Ends (action : Faulting α) (ρ : List Diagnostic) (t : SymbolTable) (r : Except Diagnostic α)
    (ρ' : List Diagnostic) (t' : SymbolTable) : Prop :=
  Reporting.Ends action.run ρ t r ρ' t'

theorem ends_pure {a : α} {r : Except Diagnostic α} :
    Ends (pure a) ρ t r ρ' t' ↔ r = .ok a ∧ ρ' = ρ ∧ t' = t := Reporting.ends_pure

theorem ends_throw {d : Diagnostic} {r : Except Diagnostic α} :
    Ends (throw d) ρ t r ρ' t' ↔ r = .error d ∧ ρ' = ρ ∧ t' = t := Reporting.ends_pure

theorem ends_bind {x : Faulting α} {f : α → Faulting β} {r : Except Diagnostic β} :
    Ends (x >>= f) ρ t r ρ' t' ↔
      (∃ d, Ends x ρ t (.error d) ρ' t' ∧ r = .error d) ∨
        ∃ a ρ₁ t₁, Ends x ρ t (.ok a) ρ₁ t₁ ∧ Ends (f a) ρ₁ t₁ r ρ' t' := by
  change Reporting.Ends (x.run >>= ExceptT.bindCont f) ρ t r ρ' t' ↔ _
  rw [Reporting.ends_bind]
  constructor
  · rintro ⟨outcome, ρ₁, t₁, first, rest⟩
    cases outcome with
    | error d =>
      obtain ⟨rfl, rfl, rfl⟩ := Reporting.ends_pure.mp rest
      exact .inl ⟨d, first, rfl⟩
    | ok a => exact .inr ⟨a, ρ₁, t₁, first, rest⟩
  · rintro (⟨d, first, rfl⟩ | ⟨a, ρ₁, t₁, first, rest⟩)
    · exact ⟨.error d, ρ', t', first, Reporting.ends_pure.mpr ⟨rfl, rfl, rfl⟩⟩
    · exact ⟨.ok a, ρ₁, t₁, first, rest⟩

theorem ends_map {x : Faulting α} {f : α → β} {r : Except Diagnostic β} :
    Ends (f <$> x) ρ t r ρ' t' ↔ ∃ r₁, Ends x ρ t r₁ ρ' t' ∧ r = r₁.map f := by
  unfold Ends
  rw [ExceptT.run_map, Reporting.ends_map]

theorem ends_bind_look {pick : SymbolTable → α} {f : α → Faulting β} {r : Except Diagnostic β} :
    Ends (look pick >>= f) ρ t r ρ' t' ↔ Ends (f (pick t)) ρ t r ρ' t' := Iff.rfl

theorem ends_change {f : SymbolTable → SymbolTable} {r : Except Diagnostic Unit} :
    Ends (change f) ρ t r ρ' t' ↔ r = .ok () ∧ ρ' = ρ ∧ t' = f t := by
  constructor
  · intro h
    obtain ⟨same, rfl⟩ := Prod.mk.inj h
    obtain ⟨rfl, rfl⟩ := Prod.mk.inj same
    exact ⟨rfl, rfl, rfl⟩
  · rintro ⟨rfl, rfl, rfl⟩
    rfl

theorem ends_bind_change {g : SymbolTable → SymbolTable} {f : Unit → Faulting β}
    {r : Except Diagnostic β} :
    Ends (change g >>= f) ρ t r ρ' t' ↔ Ends (f ()) ρ (g t) r ρ' t' := Iff.rfl

theorem ends_resolve {x : Resolution α} {r : Except Diagnostic α} :
    Ends (resolve x) ρ t r ρ' t' ↔ Resolution.Runs x t r t' ∧ ρ' = ρ := ends_attempt

/-- A pass that only reports ends in no fault. -/
theorem ends_lift {x : Reporting α} {r : Except Diagnostic α} :
    Ends (monadLift x) ρ t r ρ' t' ↔ ∃ a, Reporting.Ends x ρ t a ρ' t' ∧ r = .ok a := by
  constructor
  · intro h
    obtain ⟨same, rfl⟩ := Prod.mk.inj h
    obtain ⟨rfl, rfl⟩ := Prod.mk.inj same
    exact ⟨_, rfl, rfl⟩
  · rintro ⟨a, first, rfl⟩
    change ((Except.ok ((x.run ρ).run t).1.1, ((x.run ρ).run t).1.2), ((x.run ρ).run t).2) = _
    rw [show (x.run ρ).run t = ((a, ρ'), t') from first]

theorem ends_ending {x : Faulting α} {after : SymbolTable → SymbolTable}
    {r : Except Diagnostic α} :
    Ends (ending x after) ρ t r ρ' t' ↔ ∃ t₁, Ends x ρ t r ρ' t₁ ∧ t' = after t₁ := by
  constructor
  · intro h
    obtain ⟨same, rfl⟩ := Prod.mk.inj h
    exact ⟨_, Prod.ext same rfl, rfl⟩
  · rintro ⟨t₁, first, rfl⟩
    refine Reporting.ends_bind.mpr ⟨r, ρ', t₁, first, ?_⟩
    exact Reporting.ends_bind_change.mpr (Reporting.ends_pure.mpr ⟨rfl, rfl, rfl⟩)

theorem ends_fault? {x : Faulting Unit} {fault? : Option Diagnostic} :
    Reporting.Ends x.fault? ρ t fault? ρ' t' ↔
      (fault? = none ∧ Ends x ρ t (.ok ()) ρ' t') ∨
        ∃ d, fault? = some d ∧ Ends x ρ t (.error d) ρ' t' := by
  change Reporting.Ends (x.run >>= _) ρ t fault? ρ' t' ↔ _
  rw [Reporting.ends_bind]
  constructor
  · rintro ⟨outcome, ρ₁, t₁, first, rest⟩
    cases outcome with
    | ok u =>
      obtain ⟨rfl, rfl, rfl⟩ := Reporting.ends_pure.mp rest
      exact .inl ⟨rfl, first⟩
    | error d =>
      obtain ⟨rfl, rfl, rfl⟩ := Reporting.ends_pure.mp rest
      exact .inr ⟨d, rfl, first⟩
  · rintro (⟨rfl, first⟩ | ⟨d, rfl, first⟩)
    · exact ⟨.ok (), ρ', t', first, Reporting.ends_pure.mpr ⟨rfl, rfl, rfl⟩⟩
    · exact ⟨.error d, ρ', t', first, Reporting.ends_pure.mpr ⟨rfl, rfl, rfl⟩⟩

end Faulting

end Deferral
