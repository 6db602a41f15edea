import Deferral.Proofs.FirstPass.Run
import Deferral.Proofs.Pass.Use

/-!
# Runs of the second pass

An expression is read and then checked for what it is used for; the result type of a function may be
deduced on the way. A statement keeps its declarations and blocks, and where nothing is reported all
uses in it have been checked.
-/

namespace Deferral

open Reporting SymbolTable

/-! ## Checks that change nothing the second time -/

namespace Expr

theorem asValue_eq_self {e : Expr} (value : e.type.IsValue) : e.asValue = e := by
  obtain ⟨node, type, span⟩ := e
  have bare := value.reference
  have unqualified := value.qualified
  cases type with
  | reference _ => cases bare
  | qualified _ _ => cases unqualified
  | _ => rfl

theorem convertTo_eq_self {e : Expr} {target : Ty} (value : e.type.isReference = false)
    (same : e.type.equivalent target = true) : e.convertTo target = .ok e := by
  have first : e.categoryConverted target = e := by
    obtain ⟨node, type, span⟩ := e
    unfold categoryConverted
    split
    · rfl
    · cases type with
      | reference _ => cases value
      | _ => rfl
  simp [convertTo, first, same]

/-- A condition that has been read is read as it is. -/
theorem asCondition_asCondition {table : SymbolTable} {e e' : Expr} (well : e.WellTyped table)
    (read : e.asCondition = .ok e') : e'.asCondition = .ok e' := by
  unfold asCondition at read
  dsimp only at read
  split at read
  · rename_i dependent
    obtain rfl := Except.ok.inj read
    have same := asValue_eq_self well.isValue_asValue
    simp only [asCondition, same, dependent, if_true]
  · have bool := Ty.eq_bool_of_equivalent (equivalent_of_convertTo read)
    have value : e'.type.IsValue := by rw [bool]; exact ⟨rfl, rfl⟩
    have known : e'.type.isDependent = false := by rw [bool]; rfl
    have same := equivalent_of_convertTo read
    simp only [asCondition, asValue_eq_self value, known]
    exact convertTo_eq_self value.reference same

end Expr

namespace Definition

variable {t t' : SymbolTable} {ρ ρ' : List Diagnostic} {id : DeclId}

/-! ## Results of functions -/

theorem ownType?_mapCallable (d : Decl) (f : Callable → Callable) :
    (d.mapCallable f).ownType? = d.ownType? := by
  unfold Decl.mapCallable
  split <;> simp_all [Decl.ownType?, Decl.typeIn?]

theorem signatureType_mapCallable (t : SymbolTable) (id : DeclId) (f : Callable → Callable)
    (c : Callable) :
    Signature.signatureType (t.modifyDecl id (·.mapCallable f)) c = Signature.signatureType t c := by
  unfold Signature.signatureType
  congr 1
  refine List.map_congr_left fun p _ => ?_
  rw [decl_modifyDecl]
  split
  · rename_i same
    rw [same.1, ownType?_mapCallable]
  · rfl

theorem modifyDecl_modifyDecl (t : SymbolTable) (id : DeclId) (f g : Decl → Decl) :
    (t.modifyDecl id f).modifyDecl id g = t.modifyDecl id fun d => g (f d) := by
  simp only [modifyDecl]
  congr 1
  apply Array.ext
  · simp
  · intro i _ _
    simp only [Array.getElem_modify]
    split <;> rfl

theorem mapCallable_mapCallable (d : Decl) (f g : Callable → Callable) :
    (d.mapCallable f).mapCallable g = d.mapCallable fun c => g (f c) := by
  cases kind : d.kind <;> simp [Decl.mapCallable, kind]

/-- A result type that replaces a placeholder gives the function its type anew. -/
theorem rebuildType_eq (t : SymbolTable) (id : DeclId) (result : Ty) :
    Signature.rebuildType (t.modifyDecl id (·.mapCallable fun c => { c with result })) id =
      t.modifyDecl id (·.mapCallable fun c =>
        { c with result, type := Signature.signatureType t { c with result } }) := by
  unfold Signature.rebuildType
  simp only [modifyDecl_modifyDecl, mapCallable_mapCallable, signatureType_mapCallable]

theorem runs_resultOf {sort : CallableSort} {c : Callable}
    (kind : (t.decl id).kind = .callable sort c) {r : Except Diagnostic Ty}
    (h : Resolution.Runs (resultOf id) t r t') : r = .ok c.result ∧ t' = t := by
  unfold resultOf at h
  rw [Resolution.runs_bind_look] at h
  simp only [Decl.callable?, kind] at h
  exact Resolution.runs_pure.mp h

/-- A function has the result type `result` after a step that may have deduced it. -/
structure Deduced (id : DeclId) (sort : CallableSort) (result : Ty) (t t' : SymbolTable) : Prop where
  idles : t.Idles t'
  kind : ∃ c, (t'.decl id).kind = .callable sort c ∧ c.result = result

theorem runs_deduceResult (sound : t.Sound) {sort : CallableSort} {c : Callable}
    (kind : (t.decl id).kind = .callable sort c) (typed : c.type ≠ .auto) {type : Ty}
    (normal : type.Normal) {r : Except Diagnostic Unit}
    (h : Resolution.Runs (deduceResult id type) t r t') :
    r = .ok () ∧
      Deduced id sort (if c.result.isPlaceholder = true then type else c.result) t t' := by
  unfold deduceResult at h
  rcases Resolution.runs_bind.mp h with ⟨d, looked, rfl⟩ | ⟨result, t₁, looked, rest⟩
  · obtain ⟨wrong, -⟩ := runs_resultOf kind looked
    cases wrong
  obtain ⟨same, rfl⟩ := runs_resultOf kind looked
  obtain rfl := Except.ok.inj same
  split at rest
  · rename_i placeholder
    rw [Resolution.runs_bind_modify, Resolution.runs_modify, rebuildType_eq] at rest
    obtain ⟨rfl, rfl⟩ := rest
    have edit := Edit.deduceResult kind (sound.signed kind typed) placeholder normal
    refine ⟨rfl, ⟨.of_modifyDecl sound edit, .mapCallable t₁ id fun _ => rfl, .of_scopes rfl⟩, ?_⟩
    rw [decl_modifyDecl_self (lt_size_of_kind (by simp [kind])), Decl.kind_mapCallable kind,
      if_pos placeholder]
    exact ⟨_, rfl, rfl⟩
  · rename_i known
    obtain ⟨rfl, rfl⟩ := Resolution.runs_pure.mp rest
    exact ⟨rfl, .refl _, c, kind, (if_neg known).symm⟩

/-! ## Expressions -/

/-- What is done to expressions that have been read: an expression that comes out well satisfies
`P`. -/
def Finishing (finish : Expr → Resolution Expr) (P : SymbolTable → Expr → Prop)
    (t : SymbolTable) : Prop :=
  ∀ {e : Expr} {r : Except Diagnostic Expr} {t' : SymbolTable}, e.WellTyped t →
    Resolution.Runs (finish e) t r t' →
    t.Idles t' ∧ ∀ e', r = .ok e' → e'.WellTyped t' ∧ P t' e'

theorem finishing_asCondition (t : SymbolTable) :
    Finishing (Resolution.ofExcept ·.asCondition) (fun _ e => e.asCondition = .ok e) t := by
  intro e r t' well h
  obtain ⟨rfl, rfl⟩ := Resolution.runs_ofExcept.mp h
  exact ⟨.refl _, fun e' read => ⟨(well.asCondition read).1, Expr.asCondition_asCondition well read⟩⟩

theorem finishing_pure (t : SymbolTable) : Finishing pure (fun _ _ => True) t := by
  intro e r t' well h
  obtain ⟨rfl, rfl⟩ := Resolution.runs_pure.mp h
  exact ⟨.refl _, fun e' same => ⟨Except.ok.inj same ▸ well, trivial⟩⟩

/-- A returned expression has the result type of its function, which may be deduced from it. -/
theorem finishing_asResult (sound : t.Sound) (inside : t.Inside (some id)) :
    Finishing (asResult id) (fun t' e => t'.Returned id e) t := by
  intro e r t' well h
  obtain ⟨sort, c, kind, typed⟩ := inside id rfl
  unfold asResult at h
  rcases Resolution.runs_bind.mp h with ⟨d, looked, rfl⟩ | ⟨result, t₁, looked, rest⟩
  · obtain ⟨wrong, -⟩ := runs_resultOf kind looked
    cases wrong
  obtain ⟨same, rfl⟩ := runs_resultOf kind looked
  obtain rfl := Except.ok.inj same
  split at rest
  · rename_i e₁ deduced
    obtain ⟨placeholder, taken⟩ := Resolution.deduce?_cases deduced
    have well₁ : e₁.WellTyped t₁ := by
      rcases taken with rfl | rfl
      · exact well.asValue
      · exact well
    rcases Resolution.runs_bind.mp rest with ⟨d, deduced, rfl⟩ | ⟨_, t₂, deduced, last⟩
    · obtain ⟨wrong, -⟩ := runs_deduceResult sound kind typed well₁.normal_type deduced
      cases wrong
    obtain ⟨-, idles, c₂, kind₂, result⟩ := runs_deduceResult sound kind typed well₁.normal_type deduced
    obtain ⟨rfl, rfl⟩ := Resolution.runs_pure.mp last
    refine ⟨idles, fun e' same => ?_⟩
    obtain rfl := Except.ok.inj same
    refine ⟨idles.advances.evolves.wellTyped well₁, sort, c₂, kind₂, ?_⟩
    rw [result, if_pos placeholder]
    cases dependent : e₁.type.isDependent with
    | true => exact .inl rfl
    | false => exact .inr ⟨Ty.not_isPlaceholder dependent, Ty.fits_self well₁.normal_type⟩
  · rename_i noDeduction
    obtain ⟨rfl, rfl⟩ := Resolution.runs_ofExcept.mp rest
    have signed := sound.signed kind typed
    refine ⟨.refl _, fun e' initialized => ?_⟩
    obtain ⟨well', fits⟩ := well.definingInitializer signed.result initialized
    exact ⟨well', sort, c, kind, .inr ⟨Resolution.deduce?_eq_none noDeduction, fits⟩⟩

theorem finishing_yielded (sound : t.Sound) (inside : t.Inside (some id)) :
    Finishing (yielded id) (fun _ _ => True) t := by
  intro e r t' well h
  obtain ⟨sort, c, kind, typed⟩ := inside id rfl
  unfold yielded at h
  rcases Resolution.runs_bind.mp h with ⟨d, looked, rfl⟩ | ⟨result, t₁, looked, rest⟩
  · obtain ⟨wrong, -⟩ := runs_resultOf kind looked
    cases wrong
  obtain ⟨same, rfl⟩ := runs_resultOf kind looked
  obtain rfl := Except.ok.inj same
  obtain ⟨rfl, rfl⟩ := Resolution.runs_ofExcept.mp rest
  exact ⟨.refl _, fun e' initialized =>
    ⟨(well.asValue.initializer (sound.signed kind typed).result initialized).1, trivial⟩⟩

/-- What is done inside a function; outside of any, expressions are only read. -/
theorem finishing_inside {function : Option DeclId} {finish : DeclId → Expr → Resolution Expr}
    {P : DeclId → SymbolTable → Expr → Prop} (inside : t.Inside function)
    (finishing : ∀ id, t.Inside (some id) → Finishing (finish id) (P id) t) :
    Finishing (Definition.inside function finish)
      (fun t' e => ∀ id, function = some id → P id t' e) t := by
  cases function with
  | none =>
    intro e r t' well h
    obtain ⟨idles, well'⟩ := finishing_pure t well h
    exact ⟨idles, fun e' ok => ⟨(well' e' ok).1, fun id same => (by cases same)⟩⟩
  | some id =>
    intro e r t' well h
    obtain ⟨idles, well'⟩ := finishing id inside well h
    exact ⟨idles, fun e' ok => ⟨(well' e' ok).1, fun _ same => Option.some.inj same ▸ (well' e' ok).2⟩⟩

/-- A return without a value makes the result type `void`, if that is deduced. -/
theorem runs_withoutResult (sound : t.Sound) (inside : t.Inside (some id)) {position : Position}
    {r : Except Diagnostic Unit} (h : Resolution.Runs (withoutResult id position) t r t') :
    t.Idles t' ∧ (r = .ok () → t'.ReturnsNothing id) := by
  obtain ⟨sort, c, kind, typed⟩ := inside id rfl
  have deduces (placeholder : c.result.isPlaceholder = true) {r : Except Diagnostic Unit}
      {t' : SymbolTable} (h : Resolution.Runs (deduceResult id .void) t r t') :
      t.Idles t' ∧ (r = .ok () → t'.ReturnsNothing id) := by
    obtain ⟨-, idles, c', kind', result⟩ := runs_deduceResult sound kind typed (show Ty.void.Normal from trivial) h
    rw [if_pos placeholder] at result
    exact ⟨idles, fun _ => ⟨sort, c', kind', by rw [result]; rfl, .inl result⟩⟩
  unfold withoutResult at h
  rcases Resolution.runs_bind.mp h with ⟨d, looked, rfl⟩ | ⟨result, t₁, looked, rest⟩
  · obtain ⟨wrong, -⟩ := runs_resultOf kind looked
    cases wrong
  obtain ⟨same, rfl⟩ := runs_resultOf kind looked
  have same : result = c.result := Except.ok.inj same
  split at rest
  · exact deduces (by rw [← same]; rfl) rest
  · exact deduces (by rw [← same]; rfl) rest
  · obtain ⟨rfl, rfl⟩ := Resolution.runs_pure.mp rest
    exact ⟨.refl _, fun _ => ⟨sort, c, kind, by rw [← same]; rfl, .inl same.symm⟩⟩
  · rename_i notAuto notDecltypeAuto _
    split at rest
    · rename_i dependent
      obtain ⟨rfl, rfl⟩ := Resolution.runs_pure.mp rest
      refine ⟨.refl _, fun _ => ⟨sort, c, kind, ?_, .inr (same ▸ dependent)⟩⟩
      rw [← same]
      cases result <;> first
        | rfl
        | exact absurd rfl notAuto
        | exact absurd rfl notDecltypeAuto
    · obtain ⟨rfl, rfl⟩ := Resolution.runs_fail.mp rest
      exact ⟨.refl _, fun same => by cases same⟩

/-- What becomes of an expression that is read and finished. -/
structure Settled (P : SymbolTable → Expr → Prop) (ρ : List Diagnostic) (t : SymbolTable)
    (worked : Worked Expr) (ρ' : List Diagnostic) (t' : SymbolTable) : Prop where
  reported : ρ' = ρ
  idles : t.Idles t'
  sound : worked.1.Sound t'
  well : worked.2 = none → worked.1.WellTyped t' ∧ P t' worked.1

theorem ends_settle {finish : Expr → Resolution Expr} {P : SymbolTable → Expr → Prop}
    (sound : t.Sound) (finishing : Finishing finish P t) {e : Expr} (exprSound : e.Sound t)
    {worked : Worked Expr} (h : Ends (settle finish e) ρ t worked ρ' t') :
    Settled P ρ t worked ρ' t' := by
  obtain ⟨outcome, ρ₁, t₁, forced, rest⟩ := ends_bind.mp h
  obtain ⟨run, rfl⟩ := ends_attempt.mp forced
  obtain ⟨read, rfl⟩ := Resolution.runs_forceExpression.mp run
  cases outcome with
  | error d =>
    obtain ⟨rfl, rfl, rfl⟩ := ends_pure.mp rest
    exact ⟨rfl, .refl _, exprSound, fun none => by cases none⟩
  | ok resolved =>
    have well := wellTyped_of_forceExpression sound.normalUses exprSound read.symm
    obtain ⟨outcome, ρ₂, t₂, finished, last⟩ := ends_bind.mp rest
    obtain ⟨run, rfl⟩ := ends_attempt.mp finished
    obtain ⟨idles, good⟩ := finishing well run
    cases outcome with
    | error d =>
      obtain ⟨rfl, rfl, rfl⟩ := ends_pure.mp last
      exact ⟨rfl, idles, fun _ => idles.advances.evolves.wellTyped well, fun none => by cases none⟩
    | ok e' =>
      obtain ⟨rfl, rfl, rfl⟩ := ends_pure.mp last
      obtain ⟨well', good'⟩ := good e' rfl
      exact ⟨rfl, idles, fun _ => well', fun _ => ⟨well', good'⟩⟩

/-! ## Statements -/

/-- What the second pass makes of a statement in the body of `function`. -/
structure Reworked (function : Option DeclId) (s : Stmt) (ρ : List Diagnostic) (s' : Stmt)
    (fault? : Option Diagnostic) (ρ' : List Diagnostic) (t' : SymbolTable) : Prop where
  alike : s.Alike s'
  sound : ∀ e ∈ s'.expressions, e.Sound t'
  quiet : fault? = none → ρ' = ρ → ∀ use ∈ s'.uses, use.IsDefined t' function

/-- What the second pass makes of the statements of a sequence. -/
structure ReworkedIn (function : Option DeclId) (body : List Stmt) (ρ : List Diagnostic)
    (body' : List Stmt) (ρ' : List Diagnostic) (t' : SymbolTable) : Prop where
  alike : Stmt.AlikeIn body body'
  sound : ∀ e ∈ Stmt.expressionsIn body', e.Sound t'
  quiet : ρ' = ρ → ∀ use ∈ Stmt.usesIn body', use.IsDefined t' function

/-- What the second pass makes of what stands behind an `else`. -/
structure ReworkedBehindElse (function : Option DeclId) (onFalse : Option Stmt)
    (ρ : List Diagnostic) (onFalse' : Option Stmt) (fault? : Option Diagnostic)
    (ρ' : List Diagnostic) (t' : SymbolTable) : Prop where
  alike : Stmt.AlikeBehindElse onFalse onFalse'
  sound : ∀ e ∈ Stmt.expressionsBehindElse onFalse', e.Sound t'
  quiet : fault? = none → ρ' = ρ →
    ∀ use ∈ Stmt.usesBehindElse onFalse', use.IsDefined t' function

variable {define : DeclId → Reporting Unit} {R : PassRelation}

/-- A statement that holds one expression and nothing else. -/
theorem Settled.reworked {P : SymbolTable → Expr → Prop} {function : Option DeclId} {s : Stmt}
    {worked : Worked Expr} (lifts : R.Lifts) (sound : t.Sound)
    (h : Settled P ρ t worked ρ' t') {s' : Stmt} {use : Use} (declares : s.declares = [])
    (alike : s.Alike s') (expressions : s'.expressions = [worked.1]) (uses : s'.uses = [use])
    (defined : worked.1.WellTyped t' → P t' worked.1 → use.IsDefined t' function) :
    R.Partly s.declares ρ t worked.2 ρ' t' ∧ Reworked function s ρ s' worked.2 ρ' t' := by
  obtain ⟨rfl, idles, exprSound, well⟩ := h
  refine ⟨⟨[], lifts.idle ρ' sound idles, fun _ => declares.symm⟩, alike, fun e member => ?_,
    fun none _ u member => ?_⟩
  · obtain rfl := List.mem_singleton.mp (expressions ▸ member)
    exact exprSound
  · obtain rfl := List.mem_singleton.mp (uses ▸ member)
    exact defined (well none).1 (well none).2

/-- Every run of the second pass over a statement is one in the sense of `R`, and reworks it. -/
def Reworks (R : PassRelation) (define : DeclId → Reporting Unit) (function : Option DeclId) (s : Stmt) : Prop :=
  ∀ {ρ ρ' : List Diagnostic} {t t' : SymbolTable} {worked : Worked Stmt},
    R.Holds define s.declares → t.Sound → t.Inside function → (∀ e ∈ s.expressions, e.Sound t) →
    Ends (statement define function s) ρ t worked ρ' t' →
    R.Partly s.declares ρ t worked.2 ρ' t' ∧ Reworked function s ρ worked.1 worked.2 ρ' t'

/-- Every run of the second pass over a sequence of statements is one in the sense of `R`, and reworks them. -/
def ReworksIn (R : PassRelation) (define : DeclId → Reporting Unit) (function : Option DeclId)
    (body : List Stmt) : Prop :=
  ∀ {ρ ρ' : List Diagnostic} {t t' : SymbolTable} {body' : List Stmt},
    R.Holds define (Stmt.declaresIn body) → t.Sound → t.Inside function →
    (∀ e ∈ Stmt.expressionsIn body, e.Sound t) → Ends (statements define function body) ρ t body' ρ' t' →
    R (Stmt.declaresIn body) ρ t ρ' t' ∧ ReworkedIn function body ρ body' ρ' t'

/-- Every run of the second pass over what stands behind an `else` is one in the sense of `R`, and reworks it. -/
def ReworksBehindElse (R : PassRelation) (define : DeclId → Reporting Unit) (function : Option DeclId)
    (onFalse : Option Stmt) : Prop :=
  ∀ {ρ ρ' : List Diagnostic} {t t' : SymbolTable} {worked : Worked (Option Stmt)},
    R.Holds define (Stmt.declaresBehindElse onFalse) → t.Sound → t.Inside function →
    (∀ e ∈ Stmt.expressionsBehindElse onFalse, e.Sound t) →
    Ends (alternative define function onFalse) ρ t worked ρ' t' →
    R.Partly (Stmt.declaresBehindElse onFalse) ρ t worked.2 ρ' t' ∧
      ReworkedBehindElse function onFalse ρ worked.1 worked.2 ρ' t'

variable {function : Option DeclId}

/-! ### Simple statements -/

theorem reworks_returning (lifts : R.Lifts) (e : Expr) (span : Span) :
    Reworks R define function (.returning (some e) span) := by
  intro ρ ρ' t t' worked holds sound inside exprs h
  obtain ⟨worked, _, _, settled, last⟩ := ends_bind.mp h
  obtain ⟨rfl, rfl, rfl⟩ := ends_pure.mp last
  have settled := ends_settle sound
    (finishing_inside inside fun id => finishing_asResult sound) (exprs e (by simp [Stmt.expressions]))
    settled
  exact settled.reworked lifts sound rfl ⟨rfl, rfl, rfl, rfl⟩ rfl rfl fun well returned =>
    ⟨well, returned⟩

theorem reworks_returningNothing (lifts : R.Lifts) (span : Span) :
    Reworks R define function (.returning none span) := by
  intro ρ ρ' t t' worked holds sound inside exprs h
  cases function with
  | none =>
    obtain ⟨rfl, rfl, rfl⟩ := ends_pure.mp h
    refine ⟨⟨[], lifts.refl sound, fun _ => rfl⟩, .refl _, exprs, fun _ _ use member => ?_⟩
    obtain rfl := List.mem_singleton.mp member
    exact fun id same => by cases same
  | some id =>
    obtain ⟨fault?, _, _, resolved, last⟩ := ends_bind.mp h
    obtain ⟨rfl, rfl, rfl⟩ := ends_pure.mp last
    rcases Faulting.ends_fault?.mp resolved with ⟨rfl, run⟩ | ⟨d, rfl, run⟩
    · obtain ⟨run₁, rfl⟩ := Faulting.ends_resolve.mp run
      obtain ⟨idles, nothing⟩ := runs_withoutResult sound inside run₁
      refine ⟨⟨[], lifts.idle _ sound idles, fun _ => rfl⟩, .refl _,
        fun e none => (by cases none), fun _ _ use member => ?_⟩
      obtain rfl := List.mem_singleton.mp member
      exact fun _ same => Option.some.inj same ▸ nothing rfl
    · obtain ⟨run₁, rfl⟩ := Faulting.ends_resolve.mp run
      obtain ⟨idles, -⟩ := runs_withoutResult sound inside run₁
      exact ⟨⟨[], lifts.idle _ sound idles, fun none => by cases none⟩, .refl _,
        fun e none => (by cases none), fun none => by cases none⟩

theorem reworks_yielding (lifts : R.Lifts) (e : Expr) (span : Span) :
    Reworks R define function (.yielding e span) := by
  intro ρ ρ' t t' worked holds sound inside exprs h
  obtain ⟨worked, _, _, settled, last⟩ := ends_bind.mp h
  obtain ⟨rfl, rfl, rfl⟩ := ends_pure.mp last
  have settled := ends_settle sound
    (finishing_inside inside fun id => finishing_yielded sound) (exprs e (by simp [Stmt.expressions]))
    settled
  exact settled.reworked lifts sound rfl ⟨rfl, rfl, rfl, rfl⟩ rfl rfl fun well _ => well

theorem reworks_expression (lifts : R.Lifts) (e : Expr) : Reworks R define function (.expression e) := by
  intro ρ ρ' t t' worked holds sound inside exprs h
  obtain ⟨worked, _, _, settled, last⟩ := ends_bind.mp h
  obtain ⟨rfl, rfl, rfl⟩ := ends_pure.mp last
  have settled := ends_settle sound (finishing_pure _) (exprs e (by simp [Stmt.expressions])) settled
  exact settled.reworked lifts sound rfl ⟨rfl, rfl, rfl, rfl⟩ rfl rfl fun well _ => well

theorem reworks_declaration (id : DeclId) (span : Span) :
    Reworks R define function (.declaration id span) := by
  intro ρ ρ' t t' worked holds sound inside exprs h
  obtain ⟨_, _, _, defined, last⟩ := ends_bind.mp h
  obtain ⟨rfl, rfl, rfl⟩ := ends_pure.mp last
  exact ⟨⟨[id], holds id (by simp [Stmt.declares]) sound defined, fun _ => rfl⟩, .refl _,
    fun _ none => (by cases none), fun _ _ _ none => (by cases none)⟩

/-- A statement that the second pass leaves as it is. -/
theorem reworks_of_pure (lifts : R.Lifts) {s : Stmt} (same : statement define function s = pure (s, none))
    (declares : s.declares = []) (uses : s.uses = []) : Reworks R define function s := by
  intro ρ ρ' t t' worked holds sound inside exprs h
  obtain ⟨rfl, rfl, rfl⟩ := ends_pure.mp (same ▸ h)
  refine ⟨⟨[], lifts.refl sound, fun _ => declares.symm⟩, .refl _, exprs, fun _ _ use member => ?_⟩
  rw [uses] at member
  cases member

/-! ### Statements that hold others -/

/-- A block is entered, its statements are reworked, and it is left. -/
theorem reworks_block (lifts : R.Lifts) {id : Nat} {body : List Stmt} {span : Span}
    (inner : ReworksIn R define function body) : Reworks R define function (.block id body span) := by
  intro ρ ρ' t t' worked holds sound inside exprs h
  obtain ⟨outcome, ρ₁, t₁, looked, rest⟩ := ends_bind.mp h
  obtain ⟨run, rfl⟩ := ends_attempt.mp looked
  obtain ⟨rfl, known⟩ := Resolution.runs_scopeOf run
  cases outcome with
  | error d =>
    obtain ⟨rfl, rfl, rfl⟩ := ends_pure.mp rest
    exact ⟨⟨[], lifts.refl sound, fun none => by cases none⟩, .refl _, exprs,
      fun none => by cases none⟩
  | ok scope =>
    obtain ⟨body', ρ₂, t₂, under, last⟩ := ends_bind.mp rest
    obtain ⟨rfl, rfl, rfl⟩ := ends_pure.mp last
    obtain ⟨t₃, walk, rfl⟩ := ends_under.mp under
    have entered : t₁.Evolves (t₁.enter scope) := .of_same rfl rfl
    have left : t₃.Evolves t₃.leave := .of_same rfl rfl
    obtain ⟨relation, alike, sound', quiet⟩ := inner holds
      (sound.enter scope) (inside.of_evolves entered)
      (fun e member => entered.exprSound (exprs e member)) walk
    have inside' := (inside.of_evolves entered).of_evolves (lifts.passes relation).advances.evolves
    refine ⟨⟨_, lifts.leave relation, fun _ => rfl⟩, ⟨rfl, alike.declares, ?_, alike.listed⟩,
      fun e member => left.exprSound (sound' e member), fun _ none use member =>
      (quiet none use member).of_evolves inside' left⟩
    simp only [Stmt.blocks, alike.blocks]

/-- What comes of a condition. -/
abbrev Conditioned (ρ : List Diagnostic) (t : SymbolTable) (worked : Worked Expr) (ρ' : List Diagnostic)
    (t' : SymbolTable) : Prop := Settled (fun _ e => e.asCondition = .ok e) ρ t worked ρ' t'

/-- A condition that cannot be read is where work on its statement ends. -/
theorem Settled.stopped {s s' : Stmt} {e e' : Expr} {others : List Expr} {d : Diagnostic} (lifts : R.Lifts)
    (sound : t.Sound) (h : Conditioned ρ t (e', some d) ρ' t') (alike : s.Alike s')
    (before : s.expressions = e :: others) (behind : s'.expressions = e' :: others)
    (exprs : ∀ e ∈ s.expressions, e.Sound t) :
    R.Partly s.declares ρ t (some d) ρ' t' ∧ Reworked function s ρ s' (some d) ρ' t' := by
  obtain ⟨rfl, idles, sound', -⟩ := h
  refine ⟨⟨[], lifts.idle ρ' sound idles, fun none => by cases none⟩, alike, fun e member => ?_,
    fun none => by cases none⟩
  rcases List.mem_cons.mp (behind ▸ member) with rfl | member
  · exact sound'
  · exact idles.advances.evolves.exprSound (exprs e (before ▸ List.mem_cons_of_mem _ member))

/-- A loop whose condition has been read is reworked as its body is. -/
theorem Reworked.whileLoop {e e' : Expr} {body body' : Stmt} {span : Span} {fault? : Option Diagnostic}
    {t₁ : SymbolTable} (condition : Conditioned ρ t (e', none) ρ t₁) (evolves : t₁.Evolves t')
    (inner : Reworked function body ρ body' fault? ρ' t') :
    Reworked function (.whileLoop e body span) ρ (.whileLoop e' body' span) fault? ρ' t' := by
  obtain ⟨-, -, sound, well⟩ := condition
  obtain ⟨alike, sound', quiet⟩ := inner
  refine ⟨⟨rfl, alike.declares, alike.blocks, alike.listed⟩, fun e member => ?_,
    fun none silent use member => ?_⟩
  · rcases List.mem_cons.mp member with rfl | member
    · exact evolves.exprSound sound
    · exact sound' e member
  · rcases List.mem_cons.mp member with rfl | member
    · exact ⟨evolves.wellTyped (well rfl).1, (well rfl).2⟩
    · exact quiet none silent use member

theorem reworks_whileLoop (lifts : R.Lifts) {e : Expr} {body : Stmt} {span : Span}
    (inner : Reworks R define function body) : Reworks R define function (.whileLoop e body span) := by
  intro ρ ρ' t t' worked holds sound inside exprs h
  obtain ⟨⟨e', fault?⟩, ρ₁, t₁, settled, rest⟩ := ends_bind.mp h
  have condition := ends_settle sound (finishing_asCondition _) (exprs e (by simp [Stmt.expressions])) settled
  cases fault? with
  | some d =>
    obtain ⟨rfl, rfl, rfl⟩ := ends_pure.mp rest
    exact condition.stopped lifts sound ⟨rfl, rfl, rfl, rfl⟩ rfl rfl exprs
  | none =>
    obtain rfl : ρ₁ = ρ := condition.reported
    have first := lifts.idle ρ₁ sound condition.idles
    have evolves := condition.idles.advances.evolves
    obtain ⟨⟨body', fault?⟩, ρ₂, t₂, walk, last⟩ := ends_bind.mp rest
    obtain ⟨rfl, rfl, rfl⟩ := ends_pure.mp last
    obtain ⟨⟨ids, relation, full⟩, reworked⟩ := inner holds (lifts.sound first sound)
      (inside.of_evolves evolves)
      (fun e member => evolves.exprSound (exprs e (List.mem_cons_of_mem _ member))) walk
    exact ⟨⟨_, lifts.trans first relation, full⟩,
      .whileLoop condition (lifts.passes relation).advances.evolves reworked⟩

/-- A conditional whose condition has been read is reworked as its branches are. The second one is left as
it is where the first one fails. -/
theorem Reworked.conditional {e e' : Expr} {onTrue onTrue' : Stmt} {onFalse onFalse' : Option Stmt}
    {span : Span} {first? fault? : Option Diagnostic} {ρ₂ : List Diagnostic} {t₁ t₂ : SymbolTable}
    (condition : Conditioned ρ t (e', none) ρ t₁) (evolves₁ : t₁.Evolves t₂) (evolves₂ : t₂.Evolves t')
    (inside : t₂.Inside function) (yes : Reworked function onTrue ρ onTrue' first? ρ₂ t₂)
    (no : ReworkedBehindElse function onFalse ρ₂ onFalse' fault? ρ' t')
    (ordered : fault? = none → first? = none) (silent : ρ' = ρ → ρ₂ = ρ ∧ ρ' = ρ₂) :
    Reworked function (.conditional e onTrue onFalse span) ρ (.conditional e' onTrue' onFalse' span) fault? ρ'
      t' := by
  obtain ⟨-, -, sound₁, well⟩ := condition
  obtain ⟨alike, sound₂, quiet⟩ := yes
  obtain ⟨alike', sound₃, quiet'⟩ := no
  refine ⟨⟨rfl, ?_, ?_, ?_⟩, fun e member => ?_, fun none same use member => ?_⟩
  · simp only [Stmt.declares, alike.declares, alike'.declares]
  · simp only [Stmt.blocks, alike.blocks, alike'.blocks]
  · simp only [Stmt.listed, alike.listed, alike'.listed]
  · simp only [Stmt.expressions, List.mem_cons, List.mem_append] at member
    rcases member with rfl | member | member
    · exact (evolves₁.trans evolves₂).exprSound sound₁
    · exact evolves₂.exprSound (sound₂ e member)
    · exact sound₃ e member
  · simp only [Stmt.uses, List.mem_cons, List.mem_append] at member
    rcases member with rfl | member | member
    · exact ⟨(evolves₁.trans evolves₂).wellTyped (well rfl).1, (well rfl).2⟩
    · exact (quiet (ordered none) (silent same).1 use member).of_evolves inside evolves₂
    · exact quiet' none (silent same).2 use member

theorem reworks_conditional (lifts : R.Lifts) {e : Expr} {onTrue : Stmt} {onFalse : Option Stmt} {span : Span}
    (yes : Reworks R define function onTrue) (no : ReworksBehindElse R define function onFalse) :
    Reworks R define function (.conditional e onTrue onFalse span) := by
  intro ρ ρ' t t' worked holds sound inside exprs h
  obtain ⟨⟨e', fault?⟩, ρ₁, t₁, settled, rest⟩ := ends_bind.mp h
  have condition := ends_settle sound (finishing_asCondition _) (exprs e (by simp [Stmt.expressions])) settled
  cases fault? with
  | some d =>
    obtain ⟨rfl, rfl, rfl⟩ := ends_pure.mp rest
    exact condition.stopped lifts sound ⟨rfl, rfl, rfl, rfl⟩ rfl rfl exprs
  | none =>
    obtain rfl : ρ₁ = ρ := condition.reported
    have first := lifts.idle ρ₁ sound condition.idles
    have evolves := condition.idles.advances.evolves
    have exprs₁ : ∀ e ∈ onTrue.expressions ++ Stmt.expressionsBehindElse onFalse, e.Sound t₁ :=
      fun e member => evolves.exprSound (exprs e (List.mem_cons_of_mem _ member))
    obtain ⟨⟨onTrue', fault?⟩, ρ₂, t₂, walk, rest⟩ := ends_bind.mp rest
    obtain ⟨⟨ids, relation, full⟩, reworked⟩ := yes
      (holds.mono fun _ m => by simp [Stmt.declares, m]) (lifts.sound first sound)
      (inside.of_evolves evolves) (fun e member => exprs₁ e (List.mem_append_left _ member)) walk
    have evolves₁ := (lifts.passes relation).advances.evolves
    have inside₂ := (inside.of_evolves evolves).of_evolves evolves₁
    have onFalseSound : ∀ e ∈ Stmt.expressionsBehindElse onFalse, e.Sound t₂ := fun e member =>
      evolves₁.exprSound (exprs₁ e (List.mem_append_right _ member))
    cases fault? with
    | some d =>
      obtain ⟨rfl, rfl, rfl⟩ := ends_pure.mp rest
      exact ⟨⟨_, lifts.trans first relation, fun none => by cases none⟩,
        .conditional condition evolves₁ (.refl _) inside₂ reworked
          ⟨.refl _, onFalseSound, fun none => by cases none⟩ (fun none => by cases none)
          fun same => ⟨same, rfl⟩⟩
    | none =>
      obtain ⟨⟨onFalse', fault?⟩, ρ₃, t₃, walk', last⟩ := ends_bind.mp rest
      obtain ⟨rfl, rfl, rfl⟩ := ends_pure.mp last
      obtain ⟨⟨ids', relation', full'⟩, reworked'⟩ := no
        (holds.mono fun _ m => by simp [Stmt.declares, m])
        (lifts.sound relation (lifts.sound first sound)) inside₂ onFalseSound walk'
      refine ⟨⟨_, lifts.trans (lifts.trans first relation) relation', fun none => ?_⟩,
        .conditional condition evolves₁ (lifts.passes relation').advances.evolves inside₂ reworked reworked'
          (fun _ => rfl) ((lifts.passes relation).quiet (lifts.passes relation'))⟩
      rw [full rfl, full' none]
      rfl

/-! ### Sequences -/

theorem reworksIn_nil (lifts : R.Lifts) : ReworksIn R define function [] := by
  intro ρ ρ' t t' body' holds sound inside exprs h
  obtain ⟨rfl, rfl, rfl⟩ := ends_pure.mp h
  exact ⟨lifts.refl sound, .refl _, fun _ none => (by cases none), fun _ _ none => (by cases none)⟩

/-- The fault of a statement is reported before the statements behind it are worked on. -/
theorem reworksIn_cons (lifts : R.Lifts) {s : Stmt} {body : List Stmt} (first : Reworks R define function s)
    (others : ReworksIn R define function body) : ReworksIn R define function (s :: body) := by
  intro ρ ρ' t t' all holds sound inside exprs h
  obtain ⟨⟨s', fault?⟩, ρ₁, t₁, walk, rest⟩ := ends_bind.mp h
  obtain ⟨⟨ids, relation, full⟩, alike, sound₁, quiet⟩ := first
    (holds.mono fun _ m => by simp [Stmt.declaresIn, m]) sound inside
    (fun e member => exprs e (List.mem_append_left _ member)) walk
  have evolves := (lifts.passes relation).advances.evolves
  obtain ⟨s'', ρ₂, t₂, report, behind⟩ := ends_bind.mp rest
  obtain ⟨_, _, _, reported, last⟩ := ends_bind.mp report
  obtain ⟨rfl, rfl⟩ := ends_reportWithin.mp reported
  obtain ⟨rfl, rfl, rfl⟩ := ends_pure.mp last
  obtain ⟨body', ρ₃, t₃, walk', last'⟩ := ends_bind.mp behind
  obtain ⟨rfl, rfl, rfl⟩ := ends_pure.mp last'
  obtain ⟨relation', alike', sound₃, quiet'⟩ := others
    (holds.mono fun _ m => by simp [Stmt.declaresIn, m]) (lifts.sound relation sound)
    (inside.of_evolves evolves)
    (fun e member => evolves.exprSound (exprs e (List.mem_append_right _ member))) walk'
  have evolves' := (lifts.passes relation').advances.evolves
  refine ⟨?_, .cons alike alike', fun e member => ?_, fun silent use member => ?_⟩
  · cases fault? with
    | none =>
      obtain rfl := full rfl
      simp only [Option.map_none, Option.toList_none, List.append_nil] at relation'
      exact lifts.trans relation relation'
    | some d =>
      have reported : R s.declares _ _ _ _ := lifts.report (d.within .statement) relation
      exact lifts.trans reported relation'
  · rcases List.mem_append.mp member with member | member
    · exact evolves'.exprSound (sound₁ e member)
    · exact sound₃ e member
  · have grows := (lifts.passes relation).grows
    cases fault? with
    | some d =>
      have shorter := grows.length_le
      have longer := (lifts.passes relation').grows.length_le
      rw [silent] at longer
      simp at longer
      omega
    | none =>
      simp only [Option.map_none, Option.toList_none, List.append_nil] at relation' quiet'
      obtain ⟨silent₁, silent₂⟩ := (lifts.passes relation).quiet (lifts.passes relation') silent
      rcases List.mem_append.mp member with member | member
      · exact (quiet rfl silent₁ use member).of_evolves (inside.of_evolves evolves) evolves'
      · exact quiet' silent₂ use member

theorem reworksBehindElse_none (lifts : R.Lifts) : ReworksBehindElse R define function none := by
  intro ρ ρ' t t' worked holds sound inside exprs h
  obtain ⟨rfl, rfl, rfl⟩ := ends_pure.mp h
  exact ⟨⟨[], lifts.refl sound, fun _ => rfl⟩, .refl _, fun _ none => (by cases none),
    fun _ _ _ none => (by cases none)⟩

theorem reworksBehindElse_some {s : Stmt} (h : Reworks R define function s) :
    ReworksBehindElse R define function (some s) := by
  intro ρ ρ' t t' worked holds sound inside exprs run
  obtain ⟨worked, _, _, walk, last⟩ := ends_bind.mp run
  obtain ⟨rfl, rfl, rfl⟩ := ends_pure.mp last
  obtain ⟨relation, alike, sound', quiet⟩ := h holds sound inside exprs walk
  exact ⟨relation, ⟨alike.declares, alike.blocks, alike.listed⟩, sound', quiet⟩

mutual

theorem ends_statement (lifts : R.Lifts) : ∀ s : Stmt, Reworks R define function s
  | .block _ body _ => reworks_block lifts (ends_statements lifts body)
  | .returning (some e) span => reworks_returning lifts e span
  | .returning none span => reworks_returningNothing lifts span
  | .yielding e span => reworks_yielding lifts e span
  | .conditional _ onTrue onFalse _ =>
    reworks_conditional lifts (ends_statement lifts onTrue) (ends_alternative lifts onFalse)
  | .whileLoop _ body _ => reworks_whileLoop lifts (ends_statement lifts body)
  | .breaking _ | .continuing _ => reworks_of_pure lifts rfl rfl rfl
  | .declaration id span => reworks_declaration id span
  | .expression e => reworks_expression lifts e

theorem ends_statements (lifts : R.Lifts) : ∀ body : List Stmt, ReworksIn R define function body
  | [] => reworksIn_nil lifts
  | s :: body => reworksIn_cons lifts (ends_statement lifts s) (ends_statements lifts body)

theorem ends_alternative (lifts : R.Lifts) :
    ∀ onFalse : Option Stmt, ReworksBehindElse R define function onFalse
  | none => reworksBehindElse_none lifts
  | some s => reworksBehindElse_some (ends_statement lifts s)

end

end Definition

end Deferral
