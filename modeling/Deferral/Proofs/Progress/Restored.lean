import Deferral.Proofs.Progress.Restoring
import Deferral.Proofs.Scope.Global
import Deferral.Proofs.SecondPass.Declaration

/-!
# Nothing stays in progress

In whatever order sources are read and passes are run over what has been read, the table stays sound.
Whatever is done next, to a source, to an excerpt, to a constant or to a unit, leaves the scopes active
that were active and the constants marked that were marked, however it ends.
-/

namespace Deferral

open Resolution SymbolTable

variable {t t' : SymbolTable} {us : List SourceUnit}

theorem SymbolTable.sound_empty : SymbolTable.empty.Sound where
  decls id := by
    have absent : (SymbolTable.empty.decl id).kind = .typeParameter :=
      kind_eq_typeParameter (Nat.zero_le id.index)
    rw [absent]
    trivial
  constants := trivial

/-- What has not been read is sound on any table. -/
theorem AllUnread.sound {es : List Expr} (unread : AllUnread es) : ∀ e ∈ es, e.Sound t :=
  fun e member known => by
    have deferred := unread e member
    rw [known] at deferred
    cases deferred

/-- Every step leaves the table sound, and all units. -/
theorem Reached.sound (h : Reached t us) :
    t.Sound ∧ ∀ u ∈ us, ∀ e ∈ Stmt.expressionsIn u.body, e.Sound t := by
  induction h with
  | empty => exact ⟨sound_empty, nofun⟩
  | read _ run ih =>
    obtain ⟨appends, unread⟩ := SourceUnit.appends_read ih.1 run
    exact ⟨appends.sound, List.forall_mem_cons.mpr ⟨(unread _ rfl).sound, fun u member e inside =>
      (appends.evolves ih.1).exprSound (ih.2 u member e inside)⟩⟩
  | failed _ run ih =>
    obtain ⟨appends, -⟩ := SourceUnit.appends_read ih.1 run
    exact ⟨appends.sound, fun u member e inside =>
      (appends.evolves ih.1).exprSound (ih.2 u member e inside)⟩
  | @signatures _ t' us u _ _ _ member run ih =>
    obtain ⟨passes, -, same⟩ := SourceUnit.passes_resolveSignatures ih.1 run
    have kept : ∀ u ∈ us, ∀ e ∈ Stmt.expressionsIn u.body, e.Sound t' := fun u member e inside =>
      passes.advances.evolves.exprSound (ih.2 u member e inside)
    exact ⟨passes.sound ih.1,
      List.forall_mem_cons.mpr ⟨fun e inside => kept u member e (same ▸ inside), kept⟩⟩
  | @definitions _ _ _ u _ _ _ member run ih =>
    obtain ⟨passes, -, worked⟩ := SourceUnit.passes_resolveDefinitions ih.1 (ih.2 u member) run
    exact ⟨passes.sound ih.1, List.forall_mem_cons.mpr ⟨worked, fun u member e inside =>
      passes.advances.evolves.exprSound (ih.2 u member e inside)⟩⟩

/-- The same scopes are active, in their order, and the same constants are being computed. -/
def SymbolTable.SameInProgress (t t' : SymbolTable) : Prop :=
  t'.active = t.active ∧ t'.binding = t.binding

theorem SymbolTable.Restores.sameInProgress (h : t.Restores t') : t.SameInProgress t' :=
  ⟨h.active, h.binding⟩

theorem SymbolTable.Advances.sameInProgress (h : t.Advances t') : t.SameInProgress t' :=
  ⟨h.active, h.binding⟩

/-- However a computation ends that starts on `t`, it leaves nothing in progress that was not. -/
def Resolution.Settled {α : Type} (x : Resolution α) (t : SymbolTable) : Prop :=
  ∀ r t', Runs x t r t' → t.SameInProgress t'

theorem Resolution.Moves.settled {α : Type} {x : Resolution α} (h : Moves Restores x)
    (t : SymbolTable) : x.Settled t :=
  fun _ _ run => (h run).sameInProgress

/-- Reading a source, reading a type or an expression, evaluating an expression, computing a constant
and either pass over a unit leave the active scopes and the constants being computed as they were. A
constant that could not be computed has no value and keeps its initializer. -/
theorem nothing_left_in_progress_of_reached (h : Reached t us) :
    (∀ tokens, (SourceUnit.read tokens).Settled t) ∧
    (∀ tokens, (typeOf tokens).Settled t) ∧ (∀ type, (forceType type).Settled t) ∧
    (∀ e, (Resolution.forceExpression e).Settled t) ∧ (∀ e, (evaluate e).Settled t) ∧
    (∀ id, (ensureConstant id).Settled t ∧ ∀ d t', Runs (ensureConstant id) t (.error d) t' →
      t'.constant? id = none ∧ (t'.decl id).initializer? = (t.decl id).initializer?) ∧
    ∀ u ∈ us, t.SameInProgress (u.resolveSignatures.run t).2 ∧
      t.SameInProgress (u.resolveDefinitions.run t).2 ∧ t.SameInProgress (u.resolve.run t).2 := by
  obtain ⟨sound, units⟩ := h.sound
  refine ⟨fun tokens r t' run => ?_, fun tokens => ?_, fun type => ?_, fun e => ?_, fun e => ?_,
    fun id => ⟨(moves_ensureConstant id).settled t, fun d t' run => ?_⟩, fun u member => ?_⟩
  · obtain ⟨appends, -⟩ := SourceUnit.appends_read sound run
    exact ⟨appends.active, appends.binding⟩
  · exact (TypePhrase.moves_typeOf moves_ensureConstant tokens).settled t
  · exact (moves_forceTypeWith moves_ensureConstant type).settled t
  · exact (moves_forceExpression e).settled t
  · exact (e.moves_evaluateWith moves_ensureConstant).settled t
  · exact (restores_ensureConstant run).failed d rfl
  obtain ⟨⟨⟨u₁, first⟩, t₁⟩, run₁⟩ : ∃ out, u.resolveSignatures.run t = out := ⟨_, rfl⟩
  obtain ⟨⟨⟨u₂, second⟩, t₂⟩, run₂⟩ : ∃ out, u₁.resolveDefinitions.run t₁ = out := ⟨_, rfl⟩
  obtain ⟨passes₁, -, same⟩ := SourceUnit.passes_resolveSignatures sound run₁
  obtain ⟨passes, -⟩ := SourceUnit.passes_resolveDefinitions sound (units u member) rfl
  have units₁ : ∀ e ∈ Stmt.expressionsIn u₁.body, e.Sound t₁ := fun e inside =>
    passes₁.advances.evolves.exprSound (units u member e (same ▸ inside))
  obtain ⟨passes₂, -⟩ := SourceUnit.passes_resolveDefinitions (passes₁.sound sound) units₁ run₂
  refine ⟨?_, passes.advances.sameInProgress, ?_⟩
  · rw [run₁]
    exact passes₁.advances.sameInProgress
  · rw [SourceUnit.run_resolve run₁ run₂]
    exact (passes₁.advances.trans passes₂.advances).sameInProgress

/-- Two constants that need each other. -/
def entwined : List Token :=
  (Token.scan "def a: int32 = b + 1; def b: int32 = a;".toList "entwined").toOption.getD []

/-- Both passes report the constants, and computing the first of them by itself fails as well. -/
theorem nothing_left_in_progress_of_entwined : ∃ t us u, Reached t us ∧ u ∈ us ∧
    (u.resolve.run t).1.2.length = 2 ∧ t.SameInProgress (u.resolve.run t).2 ∧
    ∃ d t', Runs (ensureConstant ⟨0⟩) t (.error d) t' ∧ t.SameInProgress t' ∧
      t'.constant? ⟨0⟩ = none ∧ (t'.decl ⟨0⟩).initializer? = (t.decl ⟨0⟩).initializer? := by
  have ran : SourceUnit.seen? entwined .empty (fun u t =>
      ((u.resolve.run t).1.2.length, ((ensureConstant ⟨0⟩).run.run t).1.toBool)) = some (2, false) := by
    unfold entwined
    rewrite [String.toList_ofList]
    decide +kernel
  obtain ⟨u, t, read, seen⟩ := SourceUnit.exists_of_seen? ran
  obtain ⟨reported, refused⟩ := Prod.mk.inj seen
  have reached := Reached.empty.read read
  obtain ⟨-, -, -, -, -, constants, units⟩ := nothing_left_in_progress_of_reached reached
  obtain ⟨settled, failed⟩ := constants ⟨0⟩
  obtain ⟨-, -, kept⟩ := units u (List.mem_cons_self ..)
  obtain ⟨⟨r, t'⟩, run⟩ : ∃ out, (ensureConstant ⟨0⟩).run.run t = out := ⟨_, rfl⟩
  rw [run] at refused
  cases r with
  | ok _ => cases refused
  | error d =>
    exact ⟨t, _, u, reached, List.mem_cons_self .., reported, kept, d, t', run, settled _ _ run,
      failed d t' run⟩

end Deferral
