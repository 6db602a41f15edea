import Deferral.Proofs.Safety.FirstPass

/-!
# Definitions in furnished tables

The second pass over what a furnished table holds reports no internal fault, and leaves the table
furnished. What is returned is converted to the result of a function, so statements are passed over
inside what is one.
-/

namespace Deferral

open SymbolTable

variable {α β : Type} {t t' : SymbolTable}

theorem SymbolTable.Retains.isCallable (h : t.Retains t') {id : DeclId}
    (callable : (t.decl id).IsCallable) : (t'.decl id).IsCallable := by
  unfold Decl.IsCallable at callable ⊢
  rwa [h.subject_eq fun absent => by simp [absent] at callable]

namespace Definition

open Signature (SafeOnStated)

/-- What has been worked on is of a kind, and the fault that ended the work is not internal. -/
def Worked.IsSane (P : α → Prop) (worked : Worked α) : Prop :=
  P worked.1 ∧ ∀ d, worked.2 = some d → d.cause.isInternal = false

theorem Worked.isSane_done {P : α → Prop} {a : α} (h : P a) : Worked.IsSane P (a, none) :=
  ⟨h, fun _ failed => by cases failed⟩

theorem Worked.isSane_failed {P : α → Prop} {a : α} {d : Diagnostic} (h : P a)
    (sane : d.cause.isInternal = false) : Worked.IsSane P (a, some d) :=
  ⟨h, fun _ same => Option.some.inj same ▸ sane⟩

theorem safe_settle {finish : Expr → Resolution Expr}
    (finishes : ∀ e t', t.Retains t' → Resolution.Safe (finish e) t' fun _ _ => True) (e : Expr) :
    Reporting.Safe (settle finish e) t fun worked _ => worked.IsSane fun _ => True := by
  refine (Reporting.safe_attempt (Resolution.safe_forceExpression e t)).bind
    fun outcome t₁ upholds sane => ?_
  cases outcome with
  | error d => exact Reporting.safe_pure (Worked.isSane_failed trivial sane)
  | ok resolved =>
    refine (Reporting.safe_attempt (finishes resolved t₁ upholds.retains)).bind
      fun outcome t₂ _ sane => ?_
    cases outcome with
    | error d => exact Reporting.safe_pure (Worked.isSane_failed trivial sane)
    | ok finished => exact Reporting.safe_pure (Worked.isSane_done trivial)

/-! ## Results -/

section Results

variable {id : DeclId}

theorem safe_resultOf (callable : (t.decl id).IsCallable) :
    Resolution.Safe (resultOf id) t fun _ t' => (t'.decl id).IsCallable := by
  refine Resolution.safe_bind_look ?_
  obtain ⟨sort, c, kind⟩ := Decl.kind_of_isCallable callable
  rw [Decl.callable?, kind]
  exact Resolution.safe_pure callable

theorem safe_deduceResult (callable : (t.decl id).IsCallable) (deduced : Ty) :
    Resolution.Safe (deduceResult id deduced) t fun _ _ => True := by
  refine (safe_resultOf callable).bind fun result t₁ _ _ => ?_
  split
  · exact Resolution.Safe.bind (Q := fun _ _ => True)
      (Resolution.safe_modify (fun furnished => .mapCallable furnished id (fun _ => rfl) fun _ => rfl)
        trivial)
      fun _ _ _ _ => Resolution.safe_modify
        (fun furnished => .mapCallable furnished id (fun _ => rfl) fun _ => rfl) trivial
  · exact Resolution.safe_pure trivial

theorem safe_asResult (callable : (t.decl id).IsCallable) (e : Expr) :
    Resolution.Safe (asResult id e) t fun _ _ => True := by
  refine (safe_resultOf callable).bind fun result t₁ _ callable => ?_
  split
  · exact (safe_deduceResult callable _).bind fun _ _ _ _ => Resolution.safe_pure trivial
  · exact Resolution.safe_ofExcept ((e.meant_definingInitializer result).sane.mono fun _ _ => trivial)

theorem safe_withoutResult (callable : (t.decl id).IsCallable) (position : Position) :
    Resolution.Safe (withoutResult id position) t fun _ _ => True := by
  refine (safe_resultOf callable).bind fun result t₁ _ callable => ?_
  split
  · exact safe_deduceResult callable _
  · exact safe_deduceResult callable _
  · exact Resolution.safe_pure trivial
  · split
    · exact Resolution.safe_pure trivial
    · exact Resolution.safe_fail rfl

theorem safe_yielded (callable : (t.decl id).IsCallable) (e : Expr) :
    Resolution.Safe (yielded id e) t fun _ _ => True :=
  (safe_resultOf callable).bind fun result _ _ _ =>
    Resolution.safe_ofExcept ((e.asValue.meant_initializer result).sane.mono fun _ _ => trivial)

end Results

/-! ## Statements -/

/-- What stands inside a function stands inside one that there is. -/
def Within (t : SymbolTable) (function : Option DeclId) : Prop :=
  ∀ id, function = some id → (t.decl id).IsCallable

theorem within_none (t : SymbolTable) : Within t none := fun _ absent => by cases absent

theorem Within.retained {function : Option DeclId} (h : Within t function) (retains : t.Retains t') :
    Within t' function := fun id same => retains.isCallable (h id same)

theorem safe_inside {function : Option DeclId} {finish : DeclId → Expr → Resolution Expr}
    (finishes : ∀ id t e, (SymbolTable.decl t id).IsCallable →
      Resolution.Safe (finish id e) t fun _ _ => True)
    (within : Within t function) (e : Expr) :
    Reporting.Safe (settle (inside function finish) e) t fun worked _ =>
      worked.IsSane fun _ => True := by
  refine safe_settle (fun e t' retains => ?_) e
  cases function with
  | none => exact Resolution.safe_pure trivial
  | some id => exact finishes id t' e (within.retained retains id rfl)

theorem safe_condition (e : Expr) :
    Reporting.Safe (settle (Resolution.ofExcept ·.asCondition) e) t fun worked _ =>
      worked.IsSane fun _ => True :=
  safe_settle (fun e _ _ => Resolution.safe_ofExcept (e.meant_asCondition.sane.mono fun _ _ => trivial)) e

variable {define : DeclId → Reporting Unit} {function : Option DeclId}

mutual

/-- What a statement becomes takes no more for granted than what is there. -/
theorem safe_statement (defines : SafeOnStated define) :
    ∀ (s : Stmt) {t : SymbolTable}, Within t function → t.Knows s.blocks s.declares →
      Reporting.Safe (statement define function s) t fun worked t' =>
        worked.IsSane fun s' => t'.Knows s'.blocks s'.declares
  | .block id body span, t, within, known => by
    obtain ⟨saved, blocks⟩ := List.forall_mem_cons.mp known.blocks
    refine (Reporting.safe_attempt (Resolution.safe_scopeOf saved)).bind
      fun outcome t₁ upholds sane => ?_
    cases outcome with
    | error d =>
      exact Reporting.safe_pure (Worked.isSane_failed (upholds.retains.knows known) sane)
    | ok scope =>
      have inside : t.Knows (Stmt.blocksIn body) (Stmt.declaresIn body) := ⟨blocks, known.stated⟩
      have inside := (upholds.retains.knows inside).enter scope
      have within : Within (t₁.enter scope) function := within.retained (upholds.retains.enter scope)
      refine (Reporting.safe_under (safe_statements defines body within inside)
        fun _ _ known => known.leave).bind fun body' t₂ upholds' inner =>
          Reporting.safe_pure (Worked.isSane_done ⟨?_, inner.stated⟩)
      have saved₂ := (upholds.trans upholds').retains.saves _ saved
      exact List.forall_mem_cons.mpr ⟨saved₂, inner.blocks⟩
  | .returning (some e) span, t, within, _ =>
    (safe_inside (fun _ _ e callable => safe_asResult callable e) within e).bind
      fun worked t₁ _ sane => Reporting.safe_pure ⟨knows_nil t₁, sane.2⟩
  | .returning none span, t, within, known => by
    cases function with
    | none => exact Reporting.safe_pure (Worked.isSane_done known)
    | some id =>
      exact (Faulting.safe_fault? (Faulting.safe_resolve
        (safe_withoutResult (within id rfl) span.start))).bind fun fault? t₁ _ sane =>
          Reporting.safe_pure ⟨knows_nil t₁, sane⟩
  | .yielding e span, t, within, _ =>
    (safe_inside (fun _ _ e callable => safe_yielded callable e) within e).bind
      fun worked t₁ _ sane => Reporting.safe_pure ⟨knows_nil t₁, sane.2⟩
  | .conditional e onTrue onFalse span, t, within, known => by
    refine (safe_condition e).bind fun worked t₁ upholds sane => ?_
    have known₁ := upholds.retains.knows known
    obtain ⟨e', _ | d⟩ := worked
    · obtain ⟨knownTrue, knownFalse⟩ := knows_append.mp known₁
      have within₁ := within.retained upholds.retains
      refine (safe_statement defines onTrue within₁ knownTrue).bind
        fun worked t₂ upholds' sane => ?_
      have knownFalse₂ := upholds'.retains.knows knownFalse
      obtain ⟨onTrue', _ | d⟩ := worked
      · refine (safe_alternative defines onFalse (within₁.retained upholds'.retains)
          knownFalse₂).bind fun worked t₃ upholds'' sane' => Reporting.safe_pure ⟨?_, sane'.2⟩
        exact knows_append.mpr ⟨upholds''.retains.knows sane.1, sane'.1⟩
      · exact Reporting.safe_pure ⟨knows_append.mpr ⟨sane.1, knownFalse₂⟩, sane.2⟩
    · exact Reporting.safe_pure ⟨known₁, sane.2⟩
  | .whileLoop e body span, t, within, known => by
    refine (safe_condition e).bind fun worked t₁ upholds sane => ?_
    have known₁ := upholds.retains.knows known
    obtain ⟨e', _ | d⟩ := worked
    · exact (safe_statement defines body (within.retained upholds.retains) known₁).bind
        fun worked t₂ _ sane => Reporting.safe_pure sane
    · exact Reporting.safe_pure ⟨known₁, sane.2⟩
  | .breaking _, t, _, _ | .continuing _, t, _, _ =>
    Reporting.safe_pure (Worked.isSane_done (knows_nil t))
  | .declaration id span, t, _, known => by
    have stated := known.stated id (List.mem_singleton_self id)
    exact (defines id t stated).bind fun _ t₁ upholds _ =>
      Reporting.safe_pure (Worked.isSane_done (upholds.retains.knows known))
  | .expression e, t, _, _ =>
    (safe_settle (fun _ _ _ => Resolution.safe_pure trivial) e).bind
      fun worked t₁ _ sane => Reporting.safe_pure ⟨knows_nil t₁, sane.2⟩

theorem safe_statements (defines : SafeOnStated define) :
    ∀ (body : List Stmt) {t : SymbolTable}, Within t function →
      t.Knows (Stmt.blocksIn body) (Stmt.declaresIn body) →
      Reporting.Safe (statements define function body) t fun body' t' =>
        t'.Knows (Stmt.blocksIn body') (Stmt.declaresIn body')
  | [], _, _, known => Reporting.safe_pure known
  | s :: rest, t, within, known => by
    obtain ⟨first, others⟩ := knows_append.mp known
    refine (safe_statement defines s within first).bind fun worked t₁ upholds sane => ?_
    have reported : Reporting.Safe (reportStatement worked) t₁ fun s' t' => t'.Knows s'.blocks s'.declares :=
      (Reporting.safe_reportWithin sane.2).bind fun _ t₂ upholds _ =>
        Reporting.safe_pure (upholds.retains.knows sane.1)
    refine reported.bind fun s' t₂ upholds' first => ?_
    have retains := upholds.retains.trans upholds'.retains
    exact (safe_statements defines rest (within.retained retains) (retains.knows others)).bind
      fun rest' t₃ upholds'' others =>
        Reporting.safe_pure (knows_append.mpr ⟨upholds''.retains.knows first, others⟩)

theorem safe_alternative (defines : SafeOnStated define) :
    ∀ (onFalse : Option Stmt) {t : SymbolTable}, Within t function →
      t.Knows (Stmt.blocksBehindElse onFalse) (Stmt.declaresBehindElse onFalse) →
      Reporting.Safe (alternative define function onFalse) t fun worked t' =>
        worked.IsSane fun onFalse' =>
          t'.Knows (Stmt.blocksBehindElse onFalse') (Stmt.declaresBehindElse onFalse')
  | none, _, _, known => Reporting.safe_pure (Worked.isSane_done known)
  | some s, _, within, known =>
    (safe_statement defines s within known).bind fun _ _ _ sane => Reporting.safe_pure sane

end

/-! ## Declarations -/

theorem safe_object {id : DeclId} (held : (t.decl id).ownType?.isSome = true) :
    Resolution.Safe (object id) t fun _ _ => True := by
  refine Resolution.safe_bind_look ?_
  split
  · rename_i none
    rw [none] at held
    cases held
  · split
    · exact Resolution.safe_pure trivial
    · split
      · exact Resolution.safe_ensureConstant id t
      · exact Resolution.safe_settleObjectWith Resolution.safe_ensureConstant id t

theorem safe_body (defines : SafeOnStated define) {id : DeclId} (callable : (t.decl id).IsCallable)
    {b : Body} (furnished : b.Furnished t id) :
    Reporting.Safe (body (statement define (some id)) id b) t fun worked t' =>
      worked.IsSane fun b' => b'.Furnished t' id := by
  cases b with
  | absent => exact Reporting.safe_pure (Worked.isSane_done trivial)
  | statement s =>
    have within : Within t (some id) := fun _ same => Option.some.inj same ▸ callable
    exact (safe_statement defines s within furnished).bind fun _ _ _ sane => Reporting.safe_pure sane
  | expression e =>
    refine (Reporting.safe_attempt (Resolution.safe_scopeOf furnished)).bind
      fun outcome t₁ upholds sane => ?_
    cases outcome with
    | error d =>
      exact Reporting.safe_pure (Worked.isSane_failed (upholds.retains.saves _ furnished) sane)
    | ok scope =>
      have settled : Reporting.Safe (settle (asResult id) e) (t₁.enter scope) fun worked _ =>
          worked.IsSane fun _ => True :=
        safe_settle (fun e t₂ retains => safe_asResult (((upholds.retains.enter scope).trans
          retains).isCallable callable) e) e
      exact (Reporting.safe_under settled fun _ _ h => h).bind fun worked t₂ upholds' sane =>
        Reporting.safe_pure ⟨(upholds.trans upholds').retains.saves _ furnished, sane.2⟩

theorem safe_function (defines : SafeOnStated define) {id : DeclId}
    (callable : (t.decl id).IsCallable) :
    Faulting.Safe (Definition.function (statement define (some id)) id) t fun _ _ => True := by
  refine Faulting.Safe.of_furnished fun furnished => ?_
  obtain ⟨sort, c, kind⟩ := Decl.kind_of_isCallable callable
  have old := furnished id
  rw [kind] at old
  obtain ⟨saved, -, body⟩ := old
  refine Faulting.safe_bind_look ?_
  rw [Decl.callable?, kind]
  dsimp only
  split
  · exact Faulting.safe_pure trivial
  refine (Faulting.safe_resolve (Resolution.safe_scopeOf saved)).bind fun scope t₁ _ same => ?_
  obtain ⟨rfl, -⟩ := same
  refine Faulting.safe_bind_change (fun furnished => .withoutBody furnished id) fun emptied => ?_
  have retains := emptied.retains.enter scope
  have walk := Reporting.safe_under (safe_body defines (retains.isCallable callable)
    (retains.bodyFurnished body)) fun _ t' sane => ⟨(Retains.refl t').leave.bodyFurnished sane.1, sane.2⟩
  refine (Faulting.safe_lift walk).bind fun worked t₂ _ sane => ?_
  obtain ⟨worked, fault?⟩ := worked
  refine Faulting.safe_bind_change (fun furnished => .withBody furnished sane.1) fun _ => ?_
  cases fault? with
  | none => exact Faulting.safe_pure trivial
  | some d => exact Faulting.safe_throw (sane.2 d rfl)

theorem safe_classMembers (defines : SafeOnStated define) {id : DeclId}
    (isClass : (t.decl id).IsClass) :
    Faulting.Safe (classMembers (statements define none) id) t fun _ _ => True := by
  refine Faulting.Safe.of_furnished fun furnished => ?_
  refine (Faulting.safe_resolve (Resolution.safe_scopeOf (furnished.saves_of_isClass isClass))).bind
    fun scope t₁ _ same => ?_
  obtain ⟨rfl, -⟩ := same
  refine Faulting.safe_bind_look ?_
  refine Faulting.safe_bind_change (fun furnished => .mapMembers furnished (knows_nil t₁))
    fun emptied => ?_
  have known := (emptied.retains.knows (furnished.members id)).enter scope
  refine (Faulting.safe_lift (Reporting.safe_under (safe_statements defines _ (within_none _) known)
    fun _ _ known => known.leave)).bind fun body t₂ _ known => ?_
  exact Faulting.safe_change (fun furnished => .mapMembers furnished known) trivial

/-- A declaration that a statement may name is passed over. -/
theorem safe_declaration (defines : SafeOnStated define) {id : DeclId}
    (stated : (t.decl id).IsStated) : Faulting.Safe (declaration define id) t fun _ _ => True := by
  refine Faulting.safe_bind_look ?_
  split
  · rename_i kind
    exact Faulting.safe_resolve (safe_object (by simp [Decl.ownType?, Decl.typeIn?, kind]))
  · rename_i sort c kind
    exact safe_function defines (by cases sort <;> simp [Decl.IsCallable, Decl.subject, kind])
  · rename_i kind
    exact safe_classMembers defines (by simp [Decl.IsClass, Decl.subject, kind])
  · exact Faulting.safe_pure trivial
  · exact Faulting.safe_pure trivial
  · rename_i kind
    exact absurd (by simp [Decl.subject, kind]) stated.1
  · rename_i kind
    exact absurd (by simp [Decl.subject, kind]) stated.2

theorem safe_defineWithin (level : Nat) : SafeOnStated (defineWithin level) := by
  induction level with
  | zero => exact fun _ _ _ => Reporting.safe_pure trivial
  | succ level ih =>
    intro id t stated
    exact (Faulting.safe_fault? (safe_declaration ih stated)).bind fun fault? t₁ _ sane =>
      Reporting.safe_bind_look (Reporting.safe_reportWithin sane)

theorem safe_define : SafeOnStated Definition.define :=
  fun id t stated => Reporting.safe_bind_look (safe_defineWithin _ id t stated)

end Definition

/-- The second pass over a unit reports no internal fault. -/
theorem SourceUnit.safe_resolveDefinitions {u u' : SourceUnit} {reported : List Diagnostic}
    (furnished : t.Furnished) (known : t.Knows (Stmt.blocksIn u.body) (Stmt.declaresIn u.body))
    (run : u.resolveDefinitions.run t = ((u', reported), t')) :
    t.Upholds t' ∧ t'.Knows (Stmt.blocksIn u'.body) (Stmt.declaresIn u'.body) ∧
      ∀ d ∈ reported, d.cause.isInternal = false := by
  have walk := Reporting.safe_under (Definition.safe_statements Definition.safe_define u.body
    (Definition.within_none _) (known.enter u.scope)) fun _ _ known => known.leave
  obtain ⟨body, _, _, walked, rest⟩ := Reporting.ends_bind.mp (Reporting.run_collect.mp run)
  obtain ⟨rfl, rfl, rfl⟩ := Reporting.ends_pure.mp rest
  obtain ⟨upholds, known', sane⟩ := walk furnished walked
  exact ⟨upholds, known', fun d member => (sane d member).resolve_left (List.not_mem_nil)⟩

end Deferral
