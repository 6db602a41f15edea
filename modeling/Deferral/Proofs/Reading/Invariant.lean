import Deferral.Proofs.Reading.Layered
import Deferral.Proofs.Safety.Resolving

/-!
# Readers that maintain an invariant

Several things are maintained while a unit is read, however reading ends: the table stays sound, furnished and
tidy, and no declaration is held twice. What has to be shown of each of them is what comes of it when a name is
declared, a scope is opened or a declaration is filled in. How readers are put together is the same for all, and
so is what a reader yields that changes no table.
-/

namespace Deferral

open SymbolTable

/-- What is maintained while a unit is read: of which states, each a table and whatever goes with it, it holds,
and where they may lead. -/
structure Invariant (σ : Type) where
  table : σ → SymbolTable
  Holds : σ → Prop
  Leads : σ → σ → Prop
  refl : ∀ {s}, Holds s → Leads s s
  holds : ∀ {s s'}, Leads s s' → Holds s'
  trans : ∀ {s s' s''}, Holds s → Leads s s' → Leads s' s'' → Leads s s''

variable {σ α β : Type} {I : Invariant σ} {s u : σ} {P : α → Prop} {P' : β → Prop} {Q : α → σ → Prop}
  {Q' : β → σ → Prop}

namespace Reader

/-! ## Readers that change tables -/

/-- Wherever a reader starts and however it ends, the invariant holds of what comes of a state of which it holds;
what the reader yields is of a kind, and no fault is internal. -/
def Maintains (I : Invariant σ) (x : Reader α) (s : σ) (Q : α → σ → Prop) : Prop :=
  ∀ ⦃c r t'⦄, I.Holds s → Resolution.Runs (x.run c) (I.table s) r t' →
    ∃ s', I.table s' = t' ∧ I.Leads s s' ∧ Sane (fun out => Q out.1 s') r

theorem maintains_pure {a : α} (h : Q a s) : Maintains I (pure a) s Q := by
  intro c r t' holds run
  obtain ⟨rfl, rfl⟩ := Resolution.runs_pure.mp run
  exact ⟨s, rfl, I.refl holds, h⟩

theorem maintains_throw {d : Diagnostic} (sane : d.cause.isInternal = false) :
    Maintains I (throw d : Reader α) s Q := by
  intro c r t' holds run
  obtain ⟨rfl, rfl⟩ := Resolution.runs_throw.mp run
  exact ⟨s, rfl, I.refl holds, sane⟩

theorem Maintains.bind {x : Reader α} {f : α → Reader β} (h : Maintains I x s Q)
    (h' : ∀ a s', I.Leads s s' → Q a s' → Maintains I (f a) s' Q') : Maintains I (x >>= f) s Q' := by
  intro c r t' holds run
  rw [StateT.run_bind] at run
  rcases Resolution.runs_bind.mp run with ⟨d, first, rfl⟩ | ⟨⟨a, c₁⟩, t₁, first, rest⟩
  · exact h holds first
  · obtain ⟨s₁, rfl, leads₁, kind⟩ := h holds first
    obtain ⟨s₂, same, leads₂, kind'⟩ := h' a s₁ leads₁ kind (I.holds leads₁) rest
    exact ⟨s₂, same, I.trans holds leads₁ leads₂, kind'⟩

/-- The invariant may be taken to hold at the start. -/
theorem Maintains.of_holds {x : Reader α} (h : I.Holds s → Maintains I x s Q) : Maintains I x s Q :=
  fun _ _ _ holds => h holds holds

theorem Maintains.mono {Q₁ : α → σ → Prop} {x : Reader α} (h : Maintains I x s Q)
    (wider : ∀ a s', I.Leads s s' → Q a s' → Q₁ a s') : Maintains I x s Q₁ := by
  intro c r t' holds run
  obtain ⟨s', same, leads, kind⟩ := h holds run
  exact ⟨s', same, leads, kind.mono fun out => wider out.1 s' leads⟩

theorem Maintains.map {x : Reader α} (h : Maintains I x s Q) {f : α → β}
    (h' : ∀ a s', I.Leads s s' → Q a s' → Q' (f a) s') : Maintains I (f <$> x) s Q' := by
  rw [← bind_pure_comp]
  exact h.bind fun a s' leads holds => maintains_pure (h' a s' leads holds)

theorem Still.maintains {x : Reader α} (h : Still x P) : Maintains I x s fun a s' => s' = s ∧ P a := by
  intro c r t' holds run
  obtain ⟨rfl, kind⟩ := h run
  exact ⟨s, rfl, I.refl holds, kind.mono fun _ => .intro rfl⟩

/-- What is read next starts from the same state. -/
theorem Still.before {x : Reader α} {f : α → Reader β} (h : Still x P)
    (h' : ∀ a, P a → Maintains I (f a) s Q') : Maintains I (x >>= f) s Q' :=
  h.maintains.bind fun a _ _ same => same.1 ▸ h' a same.2

theorem maintains_bind_change {g : SymbolTable → SymbolTable} {f : Unit → Reader β}
    (same : I.table u = g (I.table s)) (leads : I.Holds s → I.Leads s u)
    (h : I.Leads s u → Maintains I (f ()) u Q') : Maintains I (change g >>= f) s Q' := by
  intro c r t' holds run
  have first := leads holds
  have behind : Resolution.Runs ((f ()).run c) (I.table u) r t' := by
    rw [same]
    exact run
  obtain ⟨s₂, same', rest, kind⟩ := h first (I.holds first) behind
  exact ⟨s₂, same', I.trans holds first rest, kind⟩

theorem maintains_declare {name : String} {kind : Declared} {span : Span} {Q : DeclId → σ → Prop}
    (same : I.table u = (I.table s).declare { name, kind, scope := (I.table s).innermost, span })
    (leads : I.Holds s → I.Leads s u) (h : Q (I.table s).nextDecl u) :
    Maintains I (declare name kind span) s Q := by
  intro c r t' holds run
  obtain ⟨rfl, rfl⟩ := runs_declare run
  exact ⟨u, same, leads holds, h⟩

theorem maintains_newScope {owner : ScopeOwner} {Q : ScopeId → σ → Prop}
    (same : I.table u = (I.table s).openFor owner) (leads : I.Holds s → I.Leads s u)
    (h : Q (I.table s).nextScope u) : Maintains I (newScope owner) s Q := by
  intro c r t' holds run
  obtain ⟨rfl, rfl⟩ := runs_newScope run
  exact ⟨u, same, leads holds, h⟩

theorem maintains_takeBlock {Q : Nat → σ → Prop} (same : I.table u = (I.table s).takeBlock)
    (leads : I.Holds s → I.Leads s u) (h : Q (I.table s).nextBlock u) : Maintains I takeBlock s Q := by
  intro c r t' holds run
  obtain ⟨rfl, rfl⟩ : r = .ok ((I.table s).nextBlock, c) ∧ t' = (I.table s).takeBlock :=
    ⟨(Prod.mk.inj run).1.symm, (Prod.mk.inj run).2.symm⟩
  exact ⟨u, same, leads holds, h⟩

/-- A scope is entered and left again. -/
theorem maintains_under {scope : ScopeId} {x : Reader α} {i : σ} {Q₁ : α → σ → Prop}
    (h : Maintains I x i Q₁) (same : I.table i = (I.table s).enter scope)
    (enters : I.Holds s → I.Holds i)
    (leaves : ∀ s', I.Holds s → I.Leads i s' → ∃ s'', I.table s'' = (I.table s').leave ∧ I.Leads s s'' ∧
      ∀ a, Q₁ a s' → Q a s'') : Maintains I (under scope x) s Q := by
  intro c r t' holds run
  obtain ⟨t₁, first, rfl⟩ := Resolution.runs_under.mp run
  obtain ⟨s₁, rfl, leads, kind⟩ := h (enters holds) (same ▸ first)
  obtain ⟨s₂, same', leads', kept⟩ := leaves s₁ holds leads
  exact ⟨s₂, same', leads', kind.mono fun out => kept out.1⟩

/-- Items are read one after the other. What holds of those that have been read is what is shown of each. -/
theorem maintains_manyWithin {item : Reader α} {Q : List α → σ → Prop}
    (items : ∀ as s, Q as s → Maintains I item s fun a s' => Q (as ++ [a]) s') (more : TokenKind → Bool) :
    ∀ (bound : Nat) (as : List α) (s : σ), Q as s →
      Maintains I (manyWithin more item bound) s fun others s' => Q (as ++ others) s' := by
  intro bound
  induction bound with
  | zero => exact fun as s start => maintains_pure (by rwa [List.append_nil])
  | succ bound ih =>
    intro as s start
    refine still_kind.before fun k _ => ?_
    split
    · refine (items as s start).bind fun first s₁ _ one => (ih _ s₁ one).bind fun rest s₂ _ all => ?_
      exact maintains_pure (by rwa [List.append_cons])
    · exact maintains_pure (by rwa [List.append_nil])

theorem maintains_many {item : Reader α} {Q : List α → σ → Prop}
    (items : ∀ as s, Q as s → Maintains I item s fun a s' => Q (as ++ [a]) s') (more : TokenKind → Bool)
    (start : Q [] s) : Maintains I (many more item) s Q :=
  still_get.before fun _ _ => maintains_manyWithin items more _ [] s start

end Reader

/-! ## Units -/

/-- A unit is read in the global scope. -/
theorem SourceUnit.maintains_read {tokens : List Token} {i : σ} {Q : List Stmt → σ → Prop}
    (holds : I.Holds i) (h : Reader.Maintains I (Reader.many (· ≠ .endOfInput) Grammar.statement) i Q)
    {t t' : SymbolTable} (same : I.table i = t.enter .global) {r : Except Diagnostic SourceUnit}
    (run : Resolution.Runs (SourceUnit.read tokens) t r t') :
    ∃ s', (I.table s').leave = t' ∧ I.Leads i s' ∧ Sane (fun u => Q u.body s') r := by
  obtain ⟨t₁, first, rfl⟩ := Resolution.runs_under.mp run
  rcases Resolution.runs_bind.mp first with ⟨d, reads, rfl⟩ | ⟨⟨body, c⟩, t₂, reads, last⟩
  · obtain ⟨s', rfl, leads, kind⟩ := h holds (same ▸ reads)
    exact ⟨s', rfl, leads, kind⟩
  · obtain ⟨s', rfl, leads, kind⟩ := h holds (same ▸ reads)
    obtain ⟨rfl, rfl⟩ := Resolution.runs_pure.mp last
    exact ⟨s', rfl, leads, kind⟩

end Deferral
