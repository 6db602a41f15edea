import Deferral.Proofs.Reading.Appending
import Deferral.Proofs.Table.SameScopes

/-!
# What is in progress is restored

However a computation ends, the scopes that were active when it began are active again, and the
constants that were being computed still are, as they were, and no others.
-/

namespace Deferral

open Resolution SymbolTable

/-- Nothing has been declared, the same scopes are active and the same constants are being computed. Of
these no initializer has changed and none has got its value. -/
structure SymbolTable.Restores (t t' : SymbolTable) : Prop where
  size : t'.decls.size = t.decls.size
  active : t'.active = t.active
  binding : t'.binding = t.binding
  initializers : ∀ c ∈ t.binding, (t'.decl c).initializer? = (t.decl c).initializer?
  values : ∀ c ∈ t.binding, t'.constant? c = t.constant? c

namespace SymbolTable.Restores

variable {t t' t'' : SymbolTable}

theorem refl (t : SymbolTable) : t.Restores t :=
  ⟨rfl, rfl, rfl, fun _ _ => rfl, fun _ _ => rfl⟩

theorem trans (h : t.Restores t') (h' : t'.Restores t'') : t.Restores t'' where
  size := h'.size.trans h.size
  active := h'.active.trans h.active
  binding := h'.binding.trans h.binding
  initializers c member := (h'.initializers c (h.binding ▸ member)).trans (h.initializers c member)
  values c member := (h'.values c (h.binding ▸ member)).trans (h.values c member)

theorem leave {scope : ScopeId} (h : (t.enter scope).Restores t') : t.Restores t'.leave :=
  ⟨h.size, congrArg List.tail h.active, h.binding, h.initializers, h.values⟩

theorem withTypeIn (t : SymbolTable) (id : DeclId) (slot : TypeSlot) (type : Ty) :
    t.Restores (t.modifyDecl id (·.withTypeIn slot type)) := by
  refine ⟨size_modifyDecl .., rfl, rfl, fun c _ => ?_, fun _ _ => rfl⟩
  rw [decl_modifyDecl]
  split
  · rename_i same
    rw [same.1, Decl.initializer?_withTypeIn]
  · rfl

/-- A constant has been computed, with whatever result for itself. -/
theorem of_entered {id : DeclId} {t₁ t₂ : SymbolTable} (free : id ∉ t.binding)
    (restores : ({ t with binding := id :: t.binding } : SymbolTable).Restores t₁)
    (only : FinishedOnly id t₁ t₂) : t.Restores (t₂.finishBinding id) where
  size := only.size.trans restores.size
  active := only.active.trans restores.active
  binding := binding_finishBinding (only.binding.trans restores.binding) free
  initializers c member := by
    have ne : c ≠ id := fun same => free (same ▸ member)
    exact (congrArg Decl.initializer? (only.decls c ne)).trans
      (restores.initializers c (List.mem_cons_of_mem _ member))
  values c member := by
    have ne : c ≠ id := fun same => free (same ▸ member)
    exact (only.constants c ne).trans (restores.values c (List.mem_cons_of_mem _ member))

end SymbolTable.Restores

instance : Std.Refl Restores := ⟨.refl⟩

instance : IsTrans SymbolTable Restores := ⟨fun _ _ _ => .trans⟩

theorem Decl.ownType?_withInitializer (d : Decl) (e : Expr) :
    (d.withInitializer e).ownType? = d.ownType? := by
  unfold withInitializer
  split <;> simp_all [ownType?, typeIn?]

/-- Giving an object its initializer changes nothing else. -/
theorem SymbolTable.FinishedOnly.withInitializer (t : SymbolTable) (id : DeclId) (e : Expr) :
    FinishedOnly id t (t.modifyDecl id (·.withInitializer e)) where
  scopes := rfl
  saved := rfl
  active := rfl
  binding := rfl
  nextBlock := rfl
  size := by simp
  decls other ne := decl_modifyDecl_of_ne ne t _
  constants _ _ := rfl
  types other := by
    rw [decl_modifyDecl]
    split
    · rename_i same
      rw [same.1]
      exact Decl.ownType?_withInitializer _ e
    · rfl

theorem SymbolTable.FinishedOnly.setConstant (t : SymbolTable) (id : DeclId) (value : Constant) :
    FinishedOnly id t (t.setConstant id value) :=
  ⟨rfl, rfl, rfl, rfl, rfl, rfl, fun _ _ => rfl,
    fun _ ne => constant?_setConstant_of_ne ne t value, fun _ => rfl⟩

theorem SymbolTable.FinishedOnly.trans {id : DeclId} {t t' t'' : SymbolTable}
    (h : FinishedOnly id t t') (h' : FinishedOnly id t' t'') : FinishedOnly id t t'' where
  scopes := h'.scopes.trans h.scopes
  saved := h'.saved.trans h.saved
  active := h'.active.trans h.active
  binding := h'.binding.trans h.binding
  nextBlock := h'.nextBlock.trans h.nextBlock
  size := h'.size.trans h.size
  decls other ne := (h'.decls other ne).trans (h.decls other ne)
  constants other ne := (h'.constants other ne).trans (h.constants other ne)
  types other := (h'.types other).trans (h.types other)

namespace Resolution

variable {bind : DeclId → Resolution Unit} {α : Type} {t t' : SymbolTable}

/-! ## Computations that restore -/

theorem restores_under {x : Resolution α} (h : Moves Restores x) (scope : ScopeId) :
    Moves Restores (under scope x) := by
  intro t r t' run
  obtain ⟨t₁, inner, rfl⟩ := runs_under.mp run
  exact (h inner).leave

theorem restores_forceSlotWith (binds : ∀ id, Moves Restores (bind id)) (id : DeclId)
    (slot : TypeSlot) : Moves Restores (forceSlotWith bind id slot) := by
  refine moves_bind_look fun held => ?_
  split
  · exact moves_fail _ _
  · split
    · exact (moves_forceTypeWith binds _).bind fun type =>
        moves_modify fun t => .withTypeIn t id slot type
    · exact moves_pure _

theorem restores_settleType (id : DeclId) (declared : Ty) (init : Expr) :
    Moves Restores (settleType id declared init) := by
  unfold settleType
  split
  · exact (moves_modify fun t => .withTypeIn t id .declared _).bind fun _ => moves_pure _
  · exact moves_ofExcept _

theorem restores_forceObjectWith (binds : ∀ id, Moves Restores (bind id)) (id : DeclId)
    (scope : ScopeId) (init : Expr) : Moves Restores (forceObjectWith bind id scope init) :=
  restores_under ((restores_forceSlotWith binds id .declared).bind fun _ =>
    moves_forceExpression init) scope

/-- Everything is restored until an object gets its initializer in the end, which it does only where
nothing is at fault. -/
theorem runs_settleObjectWith_restores (binds : ∀ id, Moves Restores (bind id)) {id : DeclId}
    {r : Except Diagnostic Unit} (h : Runs (settleObjectWith bind id) t r t') :
    t.Restores t' ∨ r = .ok () ∧ ∃ t₁, t.Restores t₁ ∧ FinishedOnly id t₁ t' := by
  unfold settleObjectWith at h
  rw [runs_bind_look] at h
  split at h
  · obtain ⟨-, rfl⟩ := runs_pure.mp h
    exact .inl (.refl t')
  rcases runs_bind.mp h with ⟨d, forced, -⟩ | ⟨init, t₁, forced, rest⟩
  · exact .inl (restores_forceObjectWith binds id _ _ forced)
  have restores₁ := restores_forceObjectWith binds id _ _ forced
  rw [runs_bind_look] at rest
  split at rest
  · exact .inl (restores₁.trans (moves_bind_look (fun d => moves_unexpectedDecl d) rest))
  rcases runs_bind.mp rest with ⟨d, settled, -⟩ | ⟨init, t₂, settled, rest⟩
  · exact .inl (restores₁.trans (restores_settleType id _ _ settled))
  have restores₂ := restores₁.trans (restores_settleType id _ _ settled)
  split at rest
  · rcases runs_bind.mp rest with ⟨d, evaluated, -⟩ | ⟨value, t₃, evaluated, rest⟩
    · exact .inl (restores₂.trans (init.moves_evaluateWith binds evaluated))
    have restores₃ := restores₂.trans (init.moves_evaluateWith binds evaluated)
    rw [runs_bind_modify] at rest
    obtain ⟨rfl, rfl⟩ := runs_modify.mp rest
    have finished := (FinishedOnly.setConstant t₃ id value).trans (.withInitializer _ id init)
    exact .inr ⟨rfl, t₃, restores₃, finished⟩
  · obtain ⟨rfl, rfl⟩ := runs_modify.mp rest
    exact .inr ⟨rfl, t₂, restores₂, .withInitializer _ id init⟩

/-- What a run has done that makes sure that a constant has its value: everything is restored, and
where it fails the constant has none and keeps its initializer. -/
structure RestoresBound (id : DeclId) (t : SymbolTable) (r : Except Diagnostic Unit) (t' : SymbolTable) :
    Prop where
  restores : t.Restores t'
  failed : ∀ d, r = .error d →
    t'.constant? id = none ∧ (t'.decl id).initializer? = (t.decl id).initializer?

theorem restores_ensureConstantWithin (level : Nat) (id : DeclId) {t t' : SymbolTable}
    {r : Except Diagnostic Unit} (h : Runs (ensureConstantWithin level id) t r t') :
    RestoresBound id t r t' := by
  induction level using Nat.strong_induction_on generalizing id t t' r with
  | _ level ih =>
  cases runs_ensureConstantWithin h with
  | known _ ok same =>
    subst ok same
    exact ⟨.refl _, fun _ failed => by cases failed⟩
  | refused unknown _ _ same =>
    subst same
    exact ⟨.refl _, fun _ _ => ⟨unknown, rfl⟩⟩
  | @entered inner t₁ unknown free nests run same =>
    subst nests same
    have binds : ∀ id, Moves Restores (ensureConstantWithin inner id) := fun id _ _ _ run =>
      (ih inner (Nat.lt_succ_self _) id run).restores
    rcases runs_settleObjectWith_restores binds run with restores | ⟨rfl, t₂, restores, only⟩
    · refine ⟨.of_entered free restores (.refl id t₁), fun _ _ => ?_⟩
      exact ⟨(restores.values id (List.mem_cons_self ..)).trans unknown,
        restores.initializers id (List.mem_cons_self ..)⟩
    · exact ⟨.of_entered free restores only, fun _ failed => by cases failed⟩

theorem restores_ensureConstant {id : DeclId} {r : Except Diagnostic Unit}
    (h : Runs (ensureConstant id) t r t') : RestoresBound id t r t' := by
  unfold ensureConstant at h
  rw [runs_bind_look] at h
  exact restores_ensureConstantWithin _ id h

theorem moves_ensureConstant (id : DeclId) : Moves Restores (ensureConstant id) :=
  fun _ _ _ h => (restores_ensureConstant h).restores

end Resolution

end Deferral
