import Deferral.Proofs.Pass.Merged
import Deferral.Proofs.Safety.Resolving
import Deferral.Unit.Definition

/-!
# Passes over furnished tables

Neither pass over what a furnished table holds reports an internal fault, and both leave the table
furnished. What is taken out of a declaration while it is walked is put back furnished.
-/

namespace Deferral

open SymbolTable

variable {α β : Type} {t t' : SymbolTable} {Q : α → SymbolTable → Prop} {Q' : β → SymbolTable → Prop}
  {ρ ρ' : List Diagnostic}

namespace Reporting

/-- On a furnished table a computation ends in a furnished one with a value of a kind, and reports no
internal fault. -/
def Safe (x : Reporting α) (t : SymbolTable) (Q : α → SymbolTable → Prop) : Prop :=
  t.Furnished → ∀ ⦃ρ a ρ' t'⦄, Ends x ρ t a ρ' t' →
    t.Upholds t' ∧ Q a t' ∧ ∀ d ∈ ρ', d ∈ ρ ∨ d.cause.isInternal = false

theorem safe_pure {a : α} (h : Q a t) : Safe (pure a) t Q := by
  intro furnished ρ b ρ' t' run
  obtain ⟨rfl, rfl, rfl⟩ := ends_pure.mp run
  exact ⟨.refl furnished, h, fun _ => .inl⟩

theorem Safe.bind {x : Reporting α} {f : α → Reporting β} (h : Safe x t Q)
    (h' : ∀ a t', t.Upholds t' → Q a t' → Safe (f a) t' Q') : Safe (x >>= f) t Q' := by
  intro furnished ρ b ρ' t' run
  obtain ⟨a, ρ₁, t₁, first, rest⟩ := ends_bind.mp run
  obtain ⟨upholds, holds, sane⟩ := h furnished first
  obtain ⟨upholds', holds', sane'⟩ := h' a t₁ upholds holds upholds.furnished rest
  refine ⟨upholds.trans upholds', holds', fun d member => ?_⟩
  rcases sane' d member with member | sane'
  · exact sane d member
  · exact .inr sane'

theorem Safe.map {x : Reporting α} (h : Safe x t Q) {f : α → β}
    (h' : ∀ a t', t.Upholds t' → Q a t' → Q' (f a) t') : Safe (f <$> x) t Q' := by
  intro furnished ρ b ρ' t' run
  obtain ⟨a, first, rfl⟩ := ends_map.mp run
  obtain ⟨upholds, holds, sane⟩ := h furnished first
  exact ⟨upholds, h' a t' upholds holds, sane⟩

theorem safe_look {pick : SymbolTable → α} (h : Q (pick t) t) : Safe (look pick) t Q := safe_pure h

theorem safe_bind_look {pick : SymbolTable → α} {f : α → Reporting β} (h : Safe (f (pick t)) t Q') :
    Safe (look pick >>= f) t Q' :=
  fun furnished _ _ _ _ run => h furnished (ends_bind_look.mp run)

theorem safe_change {f : SymbolTable → SymbolTable} {Q : Unit → SymbolTable → Prop}
    (upholds : t.Furnished → t.Upholds (f t)) (h : Q () (f t)) : Safe (change f) t Q := by
  intro furnished ρ u ρ' t' run
  obtain ⟨rfl, rfl⟩ := ends_change.mp run
  exact ⟨upholds furnished, h, fun _ => .inl⟩

theorem safe_bind_change {g : SymbolTable → SymbolTable} {f : Unit → Reporting β}
    (upholds : t.Furnished → t.Upholds (g t)) (h : t.Upholds (g t) → Safe (f ()) (g t) Q') :
    Safe (change g >>= f) t Q' := by
  intro furnished ρ b ρ' t' run
  have changed := upholds furnished
  obtain ⟨upholds', rest⟩ := h changed changed.furnished (ends_bind_change.mp run)
  exact ⟨changed.trans upholds', rest⟩

/-- What a furnished table has may be used. -/
theorem Safe.of_furnished {x : Reporting α} (h : t.Furnished → Safe x t Q) : Safe x t Q :=
  fun furnished => h furnished furnished

theorem safe_attempt {x : Resolution α} (h : Resolution.Safe x t Q) :
    Safe (attempt x) t fun r t' => Sane (Q · t') r := by
  intro furnished ρ r ρ' t' run
  obtain ⟨inner, rfl⟩ := ends_attempt.mp run
  obtain ⟨upholds, sane⟩ := h furnished inner
  exact ⟨upholds, sane, fun _ => .inl⟩

/-- A fault that is not internal may be reported. -/
theorem safe_reportWithin {subject : Subject} {fault? : Option Diagnostic}
    (sane : ∀ d, fault? = some d → d.cause.isInternal = false) :
    Safe (reportWithin subject fault?) t fun _ _ => True := by
  intro furnished ρ u ρ' t' run
  obtain ⟨rfl, rfl⟩ := ends_reportWithin.mp run
  refine ⟨.refl furnished, trivial, fun d member => ?_⟩
  rcases List.mem_append.mp member with old | new
  · exact .inl old
  · obtain ⟨d', some, rfl⟩ := Option.map_eq_some_iff.mp (Option.mem_toList.mp new)
    refine .inr ?_
    have cause : (d'.within subject).cause = d'.cause := by
      unfold Diagnostic.within
      split <;> rfl
    rw [cause]
    exact sane d' some

theorem safe_report {d : Diagnostic} (sane : d.cause.isInternal = false) :
    Safe (report d) t fun _ _ => True := by
  intro furnished ρ u ρ' t' run
  obtain ⟨rfl, rfl⟩ := ends_report.mp run
  refine ⟨.refl furnished, trivial, fun d' member => ?_⟩
  rcases List.mem_append.mp member with old | new
  · exact .inl old
  · exact .inr (List.mem_singleton.mp new ▸ sane)

/-- A scope is entered and left again. -/
theorem safe_under {scope : ScopeId} {x : Reporting α} (h : Safe x (t.enter scope) Q)
    (leaves : ∀ a t', Q a t' → Q a t'.leave) : Safe (under scope x) t Q := by
  intro furnished ρ a ρ' t' run
  obtain ⟨t₁, first, rfl⟩ := ends_under.mp run
  have entered : t.Upholds (t.enter scope) := .of_same furnished rfl rfl rfl
  obtain ⟨upholds, holds, sane⟩ := h entered.furnished first
  have left : t₁.Upholds t₁.leave := .of_same upholds.furnished rfl rfl rfl
  exact ⟨(entered.trans upholds).trans left, leaves a t₁ holds, sane⟩

theorem safe_underFresh {x : Reporting α}
    (h : ∀ scope t', t.Upholds t' → Safe x (t'.enter scope) Q)
    (leaves : ∀ a t', Q a t' → Q a t'.leave) : Safe (underFresh x) t Q := by
  intro furnished ρ a ρ' t' run
  obtain ⟨t₁, first, rfl⟩ := ends_underFresh.mp run
  have opened : t.Upholds (t.addScope t.innermost) := .of_same furnished rfl rfl rfl
  obtain ⟨upholds, rest⟩ := safe_under (h t.nextScope _ opened) leaves opened.furnished
    (ends_under.mpr ⟨t₁, first, rfl⟩)
  exact ⟨opened.trans upholds, rest⟩

end Reporting

namespace Faulting

/-- On a furnished table a computation ends in a furnished one with a value of a kind or a fault, and
no fault is internal, reported or not. -/
def Safe (x : Faulting α) (t : SymbolTable) (Q : α → SymbolTable → Prop) : Prop :=
  Reporting.Safe x.run t fun r t' => Sane (Q · t') r

theorem safe_pure {a : α} (h : Q a t) : Safe (pure a) t Q := Reporting.safe_pure h

theorem safe_throw {d : Diagnostic} (sane : d.cause.isInternal = false) :
    Safe (throw d : Faulting α) t Q := Reporting.safe_pure sane

theorem Safe.bind {x : Faulting α} {f : α → Faulting β} (h : Safe x t Q)
    (h' : ∀ a t', t.Upholds t' → Q a t' → Safe (f a) t' Q') : Safe (x >>= f) t Q' := by
  intro furnished ρ r ρ' t' run
  rcases ends_bind.mp run with ⟨d, first, rfl⟩ | ⟨a, ρ₁, t₁, first, rest⟩
  · exact h furnished first
  · obtain ⟨upholds, holds, reported⟩ := h furnished first
    obtain ⟨upholds', sane, reported'⟩ := h' a t₁ upholds holds upholds.furnished rest
    refine ⟨upholds.trans upholds', sane, fun d member => ?_⟩
    rcases reported' d member with member | sane'
    · exact reported d member
    · exact .inr sane'

theorem safe_bind_look {pick : SymbolTable → α} {f : α → Faulting β} (h : Safe (f (pick t)) t Q') :
    Safe (look pick >>= f) t Q' :=
  fun furnished _ _ _ _ run => h furnished (ends_bind_look.mp run)

theorem safe_bind_change {g : SymbolTable → SymbolTable} {f : Unit → Faulting β}
    (upholds : t.Furnished → t.Upholds (g t)) (h : t.Upholds (g t) → Safe (f ()) (g t) Q') :
    Safe (change g >>= f) t Q' := by
  intro furnished ρ r ρ' t' run
  have changed := upholds furnished
  obtain ⟨upholds', rest⟩ := h changed changed.furnished (ends_bind_change.mp run)
  exact ⟨changed.trans upholds', rest⟩

/-- What a furnished table has may be used. -/
theorem Safe.of_furnished {x : Faulting α} (h : t.Furnished → Safe x t Q) : Safe x t Q :=
  fun furnished => h furnished furnished

theorem safe_change {f : SymbolTable → SymbolTable} {Q : Unit → SymbolTable → Prop}
    (upholds : t.Furnished → t.Upholds (f t)) (h : Q () (f t)) : Safe (change f) t Q := by
  intro furnished ρ r ρ' t' run
  obtain ⟨rfl, rfl, rfl⟩ := ends_change.mp run
  exact ⟨upholds furnished, h, fun _ => .inl⟩

theorem safe_resolve {x : Resolution α} (h : Resolution.Safe x t Q) : Safe (resolve x) t Q :=
  Reporting.safe_attempt h

theorem safe_lift {x : Reporting α} (h : Reporting.Safe x t Q) : Safe (monadLift x) t Q := by
  intro furnished ρ r ρ' t' run
  obtain ⟨a, first, rfl⟩ := ends_lift.mp run
  exact h furnished first

theorem Safe.map {x : Faulting α} (h : Safe x t Q) {f : α → β}
    (h' : ∀ a t', t.Upholds t' → Q a t' → Q' (f a) t') : Safe (f <$> x) t Q' := by
  intro furnished ρ r ρ' t' run
  obtain ⟨r₁, first, rfl⟩ := ends_map.mp run
  obtain ⟨upholds, sane, reported⟩ := h furnished first
  refine ⟨upholds, ?_, reported⟩
  cases r₁ with
  | error d => exact sane
  | ok a => exact h' a t' upholds sane

theorem safe_ending {x : Faulting α} {after : SymbolTable → SymbolTable} (h : Safe x t Q)
    (upholds : ∀ t' : SymbolTable, t'.Furnished → t'.Upholds (after t')) :
    Safe (ending x after) t fun _ _ => True := by
  intro furnished ρ r ρ' t' run
  obtain ⟨t₁, first, rfl⟩ := ends_ending.mp run
  obtain ⟨upholds', sane, reported⟩ := h furnished first
  exact ⟨upholds'.trans (upholds t₁ upholds'.furnished), sane.mono fun _ _ => trivial, reported⟩

theorem safe_fault? {x : Faulting Unit} {Q : Unit → SymbolTable → Prop} (h : Safe x t Q) :
    Reporting.Safe x.fault? t fun fault? _ => ∀ d, fault? = some d → d.cause.isInternal = false := by
  intro furnished ρ fault? ρ' t' run
  rcases ends_fault?.mp run with ⟨rfl, inner⟩ | ⟨d, rfl, inner⟩
  · obtain ⟨upholds, -, reported⟩ := h furnished inner
    exact ⟨upholds, fun _ failed => (by cases failed), reported⟩
  · obtain ⟨upholds, sane, reported⟩ := h furnished inner
    exact ⟨upholds, fun _ same => Option.some.inj same ▸ sane, reported⟩

end Faulting

/-! ## The first pass -/

/-- Whether a declaration is a function or a coroutine. -/
def Decl.IsCallable (d : Decl) : Prop := d.subject = .function ∨ d.subject = .coroutine

/-- Whether a declaration is a class or an extension. -/
def Decl.IsClass (d : Decl) : Prop := d.subject = .classDecl ∨ d.subject = .extension

theorem Decl.kind_of_isCallable {d : Decl} (h : d.IsCallable) : ∃ sort c, d.kind = .callable sort c := by
  obtain ⟨_, ⟨_ | _, _, _⟩ | _ | _ | ⟨_ | _, c⟩ | ⟨_ | _, _, _⟩ | _, _, _⟩ := d <;>
    first
      | exact ⟨_, c, rfl⟩
      | (rcases h with h | h <;> cases h)

theorem Decl.kind_of_isClass {d : Decl} (h : d.IsClass) :
    ∃ sort kind body, d.kind = .classDecl sort kind body := by
  obtain ⟨_, ⟨_ | _, _, _⟩ | _ | _ | ⟨_ | _, c⟩ | ⟨_ | _, _, _⟩ | _, _, _⟩ := d <;>
    first
      | exact ⟨_, _, _, rfl⟩
      | (rcases h with h | h <;> cases h)

theorem Decl.isClass_of_isExtension {d : Decl} (h : d.isExtension = true) : d.IsClass := by
  unfold Decl.isExtension at h
  split at h
  · rename_i kind
    exact .inr (by simp [Decl.subject, kind])
  · cases h

theorem SymbolTable.Furnished.saves_of_isClass (furnished : t.Furnished) {id : DeclId}
    (isClass : (t.decl id).IsClass) : t.Saves (.decl id) := by
  obtain ⟨sort, type, body, kind⟩ := Decl.kind_of_isClass isClass
  have old := furnished id
  rw [kind] at old
  exact old.1

namespace Signature

open Resolution

/-- The type of a parameter is resolved, and put into place. -/
theorem safe_parameter {scope : ScopeId} {made : List DeclId} {id : DeclId}
    (parameter' : (t.decl id).subject = .parameter) :
    Resolution.Safe (parameter scope made id) t fun _ _ => True := by
  have held : ((t.decl id).typeIn? .declared).isSome = true := by
    rw [Decl.isSome_typeIn?, parameter']
    rfl
  refine safe_bind_look ?_
  refine ((safe_forceSlotWith safe_ensureConstant held).rethrow fun d sane => ?_).bind
    fun _ t₁ upholds _ => safe_bind_look ?_
  · unfold Diagnostic.within
    split <;> exact sane
  have held₁ : ((t₁.decl id).typeIn? .declared).isSome = true := upholds.retains.isSome_typeIn? held
  split
  · rename_i none
    rw [Decl.ownType?] at none
    rw [none] at held₁
    cases held₁
  rename_i type _
  refine safe_bind_look ?_
  have last (t₂ : SymbolTable) (replacement : Ty) (all : List DeclId) : Resolution.Safe (do
      modify (·.modifyDecl id (·.withTypeIn .declared (replaceAuto replacement type)))
      return all) t₂ fun _ _ => True :=
    Resolution.Safe.bind (Q := fun _ _ => True)
      (safe_modify (fun furnished => .withTypeIn furnished id .declared _) trivial)
      fun _ _ _ _ => Resolution.safe_pure trivial
  dsimp only
  split
  · exact Resolution.Safe.bind (Q := fun _ _ => True)
      (safe_modify (fun furnished => .addUnnamed furnished trivial) trivial) fun _ t₂ _ _ =>
        last t₂ _ _
  · exact last t₁ _ _

theorem safe_parametersFrom (scope : ScopeId) : ∀ (ids : List DeclId) (made : List DeclId)
    {t : SymbolTable}, (∀ p ∈ ids, (t.decl p).subject = .parameter) →
    Resolution.Safe (parametersFrom scope made ids) t fun _ _ => True
  | [], _, _, _ => Resolution.safe_pure trivial
  | id :: rest, made, t, all => by
    obtain ⟨first, others⟩ := List.forall_mem_cons.mp all
    refine (safe_parameter first).bind fun made t₁ upholds _ => safe_parametersFrom scope rest made
      fun p member => ?_
    have parameter := others p member
    rw [upholds.retains.subject_eq (by rw [parameter]; decide), parameter]

theorem safe_bindAll (scope : ScopeId) : ∀ (made : List DeclId) (t : SymbolTable),
    Resolution.Safe (made.forM fun p => modify fun t => t.bindName scope (t.decl p).name p) t
      fun _ _ => True
  | [], _ => Resolution.safe_pure trivial
  | _ :: rest, _ =>
    Resolution.Safe.bind (Q := fun _ _ => True)
      (safe_modify (fun furnished => .of_same furnished rfl rfl rfl) trivial)
      fun _ t₁ _ _ => safe_bindAll scope rest t₁

theorem safe_functionSignature {id : DeclId} {scope : ScopeId} {c : Callable}
    (callable : (t.decl id).IsCallable) (parameters : ∀ p ∈ c.parameters, (t.decl p).subject = .parameter) :
    Resolution.Safe (functionSignature id scope c) t fun _ _ => True := by
  have held : (((t.enter scope).decl id).typeIn? .result).isSome = true := by
    rw [Decl.isSome_typeIn?]
    rcases callable with same | same <;> rw [show ((t.enter scope).decl id).subject = _ from same] <;> rfl
  refine Resolution.Safe.bind (Q := fun _ _ => True) (Resolution.safe_under ?_ fun _ _ _ => trivial)
    fun made t₁ _ _ => (safe_bindAll scope made t₁).bind fun _ t₂ _ _ => ?_
  · exact (safe_parametersFrom scope c.parameters [] (t := t.enter scope) parameters).bind
      fun made t₁ upholds _ =>
        (safe_forceSlotWith safe_ensureConstant (upholds.retains.isSome_typeIn? held)).bind
          fun _ _ _ _ => Resolution.safe_pure trivial
  · exact Resolution.Safe.bind (Q := fun _ _ => True)
      (safe_modify (fun furnished => .mapCallable furnished id (fun _ => rfl) fun _ => rfl) trivial)
      fun _ _ _ _ =>
        safe_modify (fun furnished => .mapCallable furnished id (fun _ => rfl) fun _ => rfl) trivial

/-! ## Statements -/

/-- A pass over a declaration is safe wherever a statement may name the declaration. -/
abbrev SafeOnStated (pass : DeclId → Reporting Unit) : Prop :=
  ∀ id (t : SymbolTable), (t.decl id).IsStated → Reporting.Safe (pass id) t fun _ _ => True

theorem knows_withoutExtensions {body : List Stmt}
    (known : t.Knows (Stmt.blocksIn body) (Stmt.declaresIn body)) (t' : SymbolTable) :
    t.Knows (Stmt.blocksIn (withoutExtensions t' body)) (Stmt.declaresIn (withoutExtensions t' body)) := by
  induction body with
  | nil => exact known
  | cons s rest ih =>
    obtain ⟨first, others⟩ := knows_append.mp known
    rw [withoutExtensions_cons]
    split
    · exact ih others
    · exact knows_append.mpr ⟨first, ih others⟩

variable {declare : DeclId → Reporting Unit}

mutual

/-- What a statement becomes takes no more for granted than what is there. -/
theorem safe_statement (declares : SafeOnStated declare) :
    ∀ (s : Stmt) {t : SymbolTable}, t.Knows s.blocks s.declares →
      Reporting.Safe (statement declare s) t fun s' t' => t'.Knows s'.blocks s'.declares
  | .block id body span, t, known => by
    obtain ⟨saved, blocks⟩ := List.forall_mem_cons.mp known.blocks
    refine (Reporting.safe_attempt (safe_scopeOf saved)).bind fun outcome t₁ upholds sane => ?_
    cases outcome with
    | error d =>
      exact (Reporting.safe_report sane).bind fun _ t₂ upholds' _ =>
        Reporting.safe_pure ((upholds.trans upholds').retains.knows known)
    | ok scope =>
      have inside : t.Knows (Stmt.blocksIn body) (Stmt.declaresIn body) := ⟨blocks, known.stated⟩
      have inside := (upholds.retains.knows inside).enter scope
      have walk : Reporting.Safe (do
          let walked ← statements declare body
          Reporting.look (withoutExtensions · walked)) (t₁.enter scope)
          fun body' t' => t'.Knows (Stmt.blocksIn body') (Stmt.declaresIn body') :=
        (safe_statements declares body inside).bind fun walked t₂ _ known =>
          Reporting.safe_look (knows_withoutExtensions known t₂)
      refine (Reporting.safe_under walk fun _ _ known => known.leave).bind
        fun walked t₂ upholds' inner => Reporting.safe_pure ⟨?_, inner.stated⟩
      have saved₂ := (upholds.trans upholds').retains.saves _ saved
      exact List.forall_mem_cons.mpr ⟨saved₂, inner.blocks⟩
  | .declaration id span, t, known => by
    have stated := known.stated id (List.mem_singleton_self id)
    exact (declares id t stated).bind fun _ t₁ upholds _ =>
      Reporting.safe_pure (upholds.retains.knows known)
  | .conditional condition onTrue onFalse span, t, known => by
    obtain ⟨knownTrue, knownFalse⟩ := knows_append.mp known
    exact (safe_statement declares onTrue knownTrue).bind fun onTrue' t₁ upholds knownTrue =>
      (safe_alternative declares onFalse (upholds.retains.knows knownFalse)).bind
        fun onFalse' t₂ upholds' knownFalse =>
          Reporting.safe_pure (knows_append.mpr ⟨upholds'.retains.knows knownTrue, knownFalse⟩)
  | .whileLoop condition body span, t, known =>
    (safe_statement declares body known).bind fun _ _ _ known => Reporting.safe_pure known
  | .returning _ _, _, _ | .yielding _ _, _, _ | .breaking _, _, _ | .continuing _, _, _
  | .expression _, _, _ => Reporting.safe_pure (knows_nil _)

theorem safe_statements (declares : SafeOnStated declare) :
    ∀ (body : List Stmt) {t : SymbolTable}, t.Knows (Stmt.blocksIn body) (Stmt.declaresIn body) →
      Reporting.Safe (statements declare body) t fun body' t' =>
        t'.Knows (Stmt.blocksIn body') (Stmt.declaresIn body')
  | [], _, known => Reporting.safe_pure known
  | s :: rest, t, known => by
    obtain ⟨first, others⟩ := knows_append.mp known
    exact (safe_statement declares s first).bind fun s' t₁ upholds first =>
      (safe_statements declares rest (upholds.retains.knows others)).bind
        fun rest' t₂ upholds' others =>
          Reporting.safe_pure (knows_append.mpr ⟨upholds'.retains.knows first, others⟩)

theorem safe_alternative (declares : SafeOnStated declare) :
    ∀ (onFalse : Option Stmt) {t : SymbolTable},
      t.Knows (Stmt.blocksBehindElse onFalse) (Stmt.declaresBehindElse onFalse) →
      Reporting.Safe (alternative declare onFalse) t fun onFalse' t' =>
        t'.Knows (Stmt.blocksBehindElse onFalse') (Stmt.declaresBehindElse onFalse')
  | none, _, known => Reporting.safe_pure known
  | some s, _, known => (safe_statement declares s known).map fun _ _ _ known => known

end

theorem safe_sequence (declares : SafeOnStated declare) {body : List Stmt}
    (known : t.Knows (Stmt.blocksIn body) (Stmt.declaresIn body)) :
    Reporting.Safe (sequence declare body) t fun body' t' =>
      t'.Knows (Stmt.blocksIn body') (Stmt.declaresIn body') :=
  (safe_statements declares body known).bind fun _ t' _ known =>
    Reporting.safe_look (knows_withoutExtensions known t')

/-! ## Declarations -/

theorem safe_function (declares : SafeOnStated declare) {id : DeclId}
    (callable : (t.decl id).IsCallable) :
    Faulting.Safe (function (statement declare) id) t fun _ _ => True := by
  refine Faulting.Safe.of_furnished fun furnished => ?_
  obtain ⟨sort, c, kind⟩ := Decl.kind_of_isCallable callable
  have old := furnished id
  rw [kind] at old
  obtain ⟨saved, parameters, body⟩ := old
  refine (Faulting.safe_resolve (safe_scopeOf saved)).bind fun scope t₁ _ same => ?_
  obtain ⟨rfl, -⟩ := same
  refine Faulting.safe_bind_look ?_
  rw [Decl.callable?, kind]
  refine (Faulting.safe_resolve (safe_functionSignature callable parameters)).bind
    fun _ t₂ signed _ => Faulting.safe_bind_change (fun furnished => .withoutBody furnished id)
      fun emptied => ?_
  have body := (signed.trans emptied).retains.bodyFurnished body
  have put (body : Body) (t₃ : SymbolTable) (furnished : body.Furnished t₃ id) :
      Faulting.Safe (Faulting.change (withBody · id body)) t₃ fun _ _ => True :=
    Faulting.safe_change (fun others => .withBody others furnished) trivial
  split
  · rename_i s same
    rw [same] at body
    have walk : Reporting.Safe (Reporting.under scope (Reporting.underFresh (statement declare s)))
        (withoutBody t₂ id) fun s' t' => t'.Knows s'.blocks s'.declares := by
      refine Reporting.safe_under (Reporting.safe_underFresh (fun inner t₃ upholds => ?_)
        fun _ _ known => known.leave) fun _ _ known => known.leave
      have known := upholds.retains.knows (Knows.enter body scope)
      exact safe_statement declares s (known.enter inner)
    have made : Faulting.Safe (Body.statement <$> (monadLift
        (Reporting.under scope (Reporting.underFresh (statement declare s))) : Faulting Stmt))
        (withoutBody t₂ id) fun body t' => body.Furnished t' id :=
      (Faulting.safe_lift walk).map fun _ _ _ known => known
    exact made.bind fun body t₃ _ furnished => put body t₃ furnished
  · exact put c.body _ body

theorem safe_members (declares : SafeOnStated declare) (id : DeclId) (scope : ScopeId) :
    Reporting.Safe (members (sequence declare) id scope) t fun _ _ => True := by
  refine Reporting.Safe.of_furnished fun furnished => Reporting.safe_bind_look ?_
  refine Reporting.safe_bind_change (fun furnished => .mapMembers furnished (knows_nil t))
    fun emptied => ?_
  have known := (emptied.retains.knows (furnished.members id)).enter scope
  refine (Reporting.safe_under (safe_sequence declares known) fun _ _ known => known.leave).bind
    fun body t₁ _ known => ?_
  exact Reporting.safe_change (fun furnished => .mapMembers furnished known) trivial

end Signature

/-! ## Extensions -/

/-- A class gets what is in an extension, and nothing of it is lost. -/
theorem SymbolTable.Upholds.absorb (furnished : t.Furnished) (cls extension : DeclId)
    (inner outer : ScopeId) : t.Upholds (t.absorb cls extension inner outer) := by
  have moved : t.Upholds ((t.modifyScope outer (·.extendAll (t.scope inner).names)).reparent inner
      outer) := .of_same furnished rfl rfl rfl
  have emptied : t.Upholds (((t.modifyScope outer (·.extendAll (t.scope inner).names)).reparent inner
      outer).modifyDecl extension (·.mapMembers fun _ => [])) :=
    moved.trans (.mapMembers moved.furnished (knows_nil _))
  refine emptied.trans (.mapMembers emptied.furnished ?_)
  rw [Stmt.blocksIn_append, Stmt.declaresIn_append]
  exact knows_append.mpr ⟨emptied.furnished.members cls, emptied.retains.knows (furnished.members extension)⟩

theorem SymbolTable.Upholds.keepOnly (furnished : t.Furnished) (scope : ScopeId) (name : String)
    (keep : Decl → Bool) : t.Upholds (t.keepOnly scope name keep) := by
  unfold SymbolTable.keepOnly
  split
  · exact .refl furnished
  · exact .of_same furnished rfl rfl rfl

namespace Resolution

theorem safe_absorbAll (cls : DeclId) (outer : ScopeId) : ∀ ids : List DeclId,
    AlwaysSafe (absorbAll cls outer ids)
  | [], _ => safe_pure trivial
  | id :: rest, t => by
    refine safe_bind_look ?_
    split
    · rename_i extension
      refine Safe.of_furnished fun furnished => ?_
      have saved := furnished.saves_of_isClass (Decl.isClass_of_isExtension extension)
      refine (safe_scopeOf saved).bind fun inner t₁ _ _ => ?_
      exact Safe.bind (Q := fun _ _ => True)
        (safe_modify (fun furnished => .absorb furnished cls id inner outer) trivial)
        fun _ t₂ _ _ => safe_absorbAll cls outer rest t₂
    · exact safe_absorbAll cls outer rest t

theorem safe_absorbExtensions (enclosing : ScopeId) {cls : DeclId} (saved : t.Saves (.decl cls)) :
    Safe (absorbExtensions enclosing cls) t fun _ _ => True :=
  safe_bind_look ((safe_scopeOf saved).bind fun outer t₁ _ _ => safe_absorbAll cls outer _ t₁)

end Resolution

/-- A class whose extensions are absorbed meanwhile. -/
theorem Faulting.safe_withExtensions {action : Reporting α} (enclosing : ScopeId) {cls : DeclId}
    (saved : t.Saves (.decl cls)) (h : ∀ t', Reporting.Safe action t' fun _ _ => True) :
    Faulting.Safe (withExtensions enclosing cls action) t fun _ _ => True := by
  refine safe_bind_look (safe_bind_look ?_)
  split
  · exact safe_ending ((safe_resolve (Resolution.safe_absorbExtensions enclosing saved)).bind
      fun _ t₁ _ _ => safe_lift (h t₁)) fun t' furnished => .keepOnly furnished _ _ _
  · exact safe_lift (h t)

namespace Signature

variable {declare : DeclId → Reporting Unit}

theorem safe_classMembers (declares : SafeOnStated declare) {id : DeclId}
    (isClass : (t.decl id).IsClass) :
    Faulting.Safe (classMembers (sequence declare) id) t fun _ _ => True := by
  refine Faulting.Safe.of_furnished fun furnished => ?_
  have saved := furnished.saves_of_isClass isClass
  refine Faulting.safe_bind_look ?_
  have held : (((t.enter (t.decl id).scope).decl id).typeIn? .kind).isSome = true := by
    obtain ⟨sort, type, body, kind⟩ := Decl.kind_of_isClass isClass
    change ((t.decl id).typeIn? .kind).isSome = true
    simp [Decl.typeIn?, kind]
  refine (Faulting.safe_resolve (Resolution.safe_under
    (Resolution.safe_forceSlotWith Resolution.safe_ensureConstant held) fun _ _ h => h)).bind
    fun _ t₁ upholds _ => ?_
  have saved := upholds.retains.saves _ saved
  refine (Faulting.safe_resolve (Resolution.safe_scopeOf saved)).bind fun scope t₂ _ same => ?_
  obtain ⟨rfl, -⟩ := same
  exact Faulting.safe_withExtensions _ saved fun t' => safe_members declares id scope

theorem safe_object {id : DeclId} (held : ((t.decl id).typeIn? .declared).isSome = true) :
    Resolution.Safe (object id) t fun _ _ => True := by
  refine Resolution.safe_bind_look (Resolution.safe_under ?_ fun _ _ h => h)
  exact Resolution.safe_forceSlotWith Resolution.safe_ensureConstant held

/-- A declaration that a statement may name is passed over. -/
theorem safe_declaration (declares : SafeOnStated declare) {id : DeclId}
    (stated : (t.decl id).IsStated) : Faulting.Safe (declaration declare id) t fun _ _ => True := by
  refine Faulting.safe_bind_look ?_
  split
  · rename_i kind
    exact Faulting.safe_resolve (safe_object (by simp [Decl.typeIn?, kind]))
  · rename_i kind
    exact Faulting.safe_resolve (safe_object (by simp [Decl.typeIn?, kind]))
  · rename_i sort c kind
    exact safe_function declares (by cases sort <;> simp [Decl.IsCallable, Decl.subject, kind])
  · rename_i kind
    exact safe_classMembers declares (by simp [Decl.IsClass, Decl.subject, kind])
  · exact Faulting.safe_pure trivial
  · rename_i kind
    exact absurd (by simp [Decl.subject, kind]) stated.1
  · rename_i kind
    exact absurd (by simp [Decl.subject, kind]) stated.2

theorem safe_declareWithin (level : Nat) : SafeOnStated (declareWithin level) := by
  induction level with
  | zero => exact fun _ _ _ => Reporting.safe_pure trivial
  | succ level ih =>
    intro id t stated
    exact (Faulting.safe_fault? (safe_declaration ih stated)).bind fun fault? t₁ _ sane =>
      Reporting.safe_bind_look (Reporting.safe_reportWithin sane)

theorem safe_declare : SafeOnStated Signature.declare :=
  fun id t stated => Reporting.safe_bind_look (safe_declareWithin _ id t stated)

end Signature

/-- The first pass over a unit reports no internal fault. -/
theorem SourceUnit.safe_resolveSignatures {u u' : SourceUnit} {reported : List Diagnostic}
    (furnished : t.Furnished) (known : t.Knows (Stmt.blocksIn u.body) (Stmt.declaresIn u.body))
    (run : u.resolveSignatures.run t = ((u', reported), t')) :
    t.Upholds t' ∧ t'.Knows (Stmt.blocksIn u'.body) (Stmt.declaresIn u'.body) ∧
      ∀ d ∈ reported, d.cause.isInternal = false := by
  have walk := Reporting.safe_under (Signature.safe_sequence Signature.safe_declare
    (known.enter u.scope)) fun _ _ known => known.leave
  obtain ⟨body, _, _, walked, rest⟩ := Reporting.ends_bind.mp (Reporting.run_collect.mp run)
  obtain ⟨rfl, rfl, rfl⟩ := Reporting.ends_pure.mp rest
  obtain ⟨upholds, known', sane⟩ := walk furnished walked
  exact ⟨upholds, known', fun d member => (sane d member).resolve_left (List.not_mem_nil)⟩

end Deferral
