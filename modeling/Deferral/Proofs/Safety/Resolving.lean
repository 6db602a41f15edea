import Deferral.Proofs.Constant.Defining
import Deferral.Proofs.Execution.Reporting
import Deferral.Proofs.Phrase.Failing
import Deferral.Proofs.Safety.Furnished

/-!
# Computations on furnished tables

However a computation on a furnished table ends, the table is furnished again and no fault is an
internal one: evaluating, resolving types and defining objects ask of the table only what it has.
-/

namespace Deferral

open SymbolTable

theorem Cause.isInternal_of_isOfMeaning {cause : Cause} (h : cause.isOfMeaning = true) :
    cause.isInternal = false := by
  cases cause <;> first | rfl | cases h

theorem Meant.sane {α : Type} {P : α → Prop} {x : Except Diagnostic α} (h : Meant P x) : Sane P x := by
  cases x with
  | error d => exact Cause.isInternal_of_isOfMeaning h
  | ok a => exact h

variable {α β : Type} {t t' : SymbolTable} {Q : α → SymbolTable → Prop} {Q' : β → SymbolTable → Prop}

namespace Resolution

/-- On a furnished table a computation ends in a furnished one, with a value of a kind or a fault that
is not internal. -/
def Safe (x : Resolution α) (t : SymbolTable) (Q : α → SymbolTable → Prop) : Prop :=
  t.Furnished → ∀ ⦃r t'⦄, Runs x t r t' → t.Upholds t' ∧ Sane (Q · t') r

/-- A computation is safe on every table, whatever it yields. -/
abbrev AlwaysSafe (x : Resolution α) : Prop := ∀ t, Safe x t fun _ _ => True

theorem Safe.mono {Q₁ : α → SymbolTable → Prop} {x : Resolution α} (h : Safe x t Q)
    (wider : ∀ a t', t.Upholds t' → Q a t' → Q₁ a t') : Safe x t Q₁ := by
  intro furnished r t' run
  obtain ⟨upholds, sane⟩ := h furnished run
  exact ⟨upholds, sane.mono fun a => wider a t' upholds⟩

/-- What a furnished table has may be used. -/
theorem Safe.of_furnished {x : Resolution α} (h : t.Furnished → Safe x t Q) : Safe x t Q :=
  fun furnished => h furnished furnished

theorem safe_pure {a : α} (h : Q a t) : Safe (pure a) t Q := by
  intro furnished r t' run
  obtain ⟨rfl, rfl⟩ := runs_pure.mp run
  exact ⟨.refl furnished, h⟩

theorem safe_throw {d : Diagnostic} (sane : d.cause.isInternal = false) :
    Safe (throw d : Resolution α) t Q := by
  intro furnished r t' run
  obtain ⟨rfl, rfl⟩ := runs_throw.mp run
  exact ⟨.refl furnished, sane⟩

theorem safe_fail {cause : Cause} {position : Position} (sane : cause.isInternal = false) :
    Safe (fail cause position : Resolution α) t Q := safe_throw sane

theorem safe_ofExcept {x : Except Diagnostic α} (h : Sane (Q · t) x) : Safe (ofExcept x) t Q := by
  intro furnished r t' run
  obtain ⟨rfl, rfl⟩ := runs_ofExcept.mp run
  exact ⟨.refl furnished, h⟩

theorem Safe.bind {x : Resolution α} {f : α → Resolution β} (h : Safe x t Q)
    (h' : ∀ a t', t.Upholds t' → Q a t' → Safe (f a) t' Q') : Safe (x >>= f) t Q' := by
  intro furnished r t' run
  rcases runs_bind.mp run with ⟨d, first, rfl⟩ | ⟨a, t₁, first, rest⟩
  · obtain ⟨upholds, sane⟩ := h furnished first
    exact ⟨upholds, sane⟩
  · obtain ⟨upholds, holds⟩ := h furnished first
    obtain ⟨upholds', sane⟩ := h' a t₁ upholds holds upholds.furnished rest
    exact ⟨upholds.trans upholds', sane⟩

theorem Safe.map {x : Resolution α} (h : Safe x t Q) {f : α → β}
    (h' : ∀ a t', t.Upholds t' → Q a t' → Q' (f a) t') : Safe (f <$> x) t Q' := by
  intro furnished r t' run
  obtain ⟨r₁, first, rfl⟩ := runs_map.mp run
  obtain ⟨upholds, sane⟩ := h furnished first
  cases r₁ with
  | error d => exact ⟨upholds, sane⟩
  | ok a => exact ⟨upholds, h' a t' upholds sane⟩

theorem safe_bind_look {pick : SymbolTable → α} {f : α → Resolution β} (h : Safe (f (pick t)) t Q') :
    Safe (look pick >>= f) t Q' :=
  fun furnished _ _ run => h furnished (runs_bind_look.mp run)

theorem safe_bind_get {f : SymbolTable → Resolution β} (h : Safe (f t) t Q') :
    Safe (get >>= f) t Q' :=
  fun furnished _ _ run => h furnished (runs_bind_get.mp run)

theorem safe_modify {f : SymbolTable → SymbolTable} {Q : PUnit → SymbolTable → Prop}
    (upholds : t.Furnished → t.Upholds (f t)) (h : Q ⟨⟩ (f t)) :
    Safe (modify f : Resolution PUnit) t Q := by
  intro furnished r t' run
  obtain ⟨rfl, rfl⟩ := runs_modify.mp run
  exact ⟨upholds furnished, h⟩

/-- A fault is reported as another one. -/
theorem Safe.rethrow {x : Resolution α} (h : Safe x t Q) {change : Diagnostic → Diagnostic}
    (sane : ∀ d, d.cause.isInternal = false → (change d).cause.isInternal = false) :
    Safe (tryCatch x fun d => throw (change d)) t Q := by
  intro furnished r t' run
  obtain ⟨r₁, first, rfl⟩ := runs_rethrow.mp run
  obtain ⟨upholds, holds⟩ := h furnished first
  cases r₁ with
  | error d => exact ⟨upholds, sane d holds⟩
  | ok a => exact ⟨upholds, holds⟩

/-- A scope is entered and left again. -/
theorem safe_under {scope : ScopeId} {x : Resolution α} (h : Safe x (t.enter scope) Q)
    (leaves : ∀ a t', Q a t' → Q a t'.leave) : Safe (under scope x) t Q := by
  intro furnished r t' run
  obtain ⟨t₁, first, rfl⟩ := runs_under.mp run
  have entered : t.Upholds (t.enter scope) := .of_same furnished rfl rfl rfl
  obtain ⟨upholds, sane⟩ := h entered.furnished first
  have left : t₁.Upholds t₁.leave := .of_same upholds.furnished rfl rfl rfl
  exact ⟨(entered.trans upholds).trans left, sane.mono fun a => leaves a t₁⟩

/-- A scope that has been saved is found. -/
theorem safe_scopeOf {owner : ScopeOwner} (saved : t.Saves owner) :
    Safe (scopeOf owner) t fun scope t' => t' = t ∧ t.scopeOf? owner = some scope := by
  refine safe_bind_look ?_
  split
  · rename_i scope known
    exact safe_pure ⟨rfl, known⟩
  · rename_i none
    rw [Saves, none] at saved
    cases saved

end Resolution

/-! ## Evaluation -/

namespace Expr

open Resolution

variable {bind : DeclId → Resolution Unit}

theorem safe_computed (span : Span) (x : Except EvaluationFault Constant) :
    AlwaysSafe (computed span x) := by
  intro t
  cases x with
  | ok c => exact safe_pure trivial
  | error fault => exact safe_fail rfl

theorem safe_truth (span : Span) (c : Constant) : AlwaysSafe (truth span c) := by
  intro t
  cases c with
  | boolean b => exact safe_pure trivial
  | _ => exact safe_fail rfl

theorem safe_evaluateName (binds : ∀ id, AlwaysSafe (bind id)) (decl : DeclId) (name : String)
    (span : Span) : AlwaysSafe (evaluateName bind decl name span) := by
  intro t
  refine safe_bind_look ?_
  split
  · refine (binds decl t).bind fun _ t' _ _ => safe_bind_look ?_
    split
    · exact safe_pure trivial
    · exact safe_fail rfl
  · refine safe_bind_look ?_
    split
    · exact safe_pure trivial
    · exact safe_fail rfl

/-- An expression that has been read is evaluated without meeting an excerpt. -/
theorem safe_evaluateWith (binds : ∀ id, AlwaysSafe (bind id)) :
    ∀ e : Expr, e.IsRead → AlwaysSafe (e.evaluateWith bind)
  | ⟨.deferred _, _, _⟩, read, _ => by cases read
  | ⟨.call _ _, _, _⟩, _, _ | ⟨.assign _ _, _, _⟩, _, _ => safe_fail rfl
  | ⟨.boolean _, _, _⟩, _, _ | ⟨.integer _, _, _⟩, _, _ | ⟨.float _, _, _⟩, _, _ => safe_pure trivial
  | ⟨.name decl name, _, span⟩, _, t => safe_evaluateName binds decl name span t
  | ⟨.unary _ e, _, span⟩, read, t | ⟨.converted _ e, _, span⟩, read, t =>
    (safe_evaluateWith binds e read t).bind fun _ t' _ _ => safe_computed span _ t'
  | ⟨.binary (.arithmetic _) left right, _, span⟩, read, t
  | ⟨.binary (.comparison _) left right, _, span⟩, read, t =>
    have ⟨readLeft, readRight⟩ := Bool.and_eq_true_iff.mp read
    (safe_evaluateWith binds left readLeft t).bind fun _ t₁ _ _ =>
      (safe_evaluateWith binds right readRight t₁).bind fun _ t₂ _ _ => safe_computed span _ t₂
  | ⟨.binary (.connective op) left right, _, _⟩, read, t => by
    obtain ⟨readLeft, readRight⟩ := Bool.and_eq_true_iff.mp read
    refine (safe_evaluateWith binds left readLeft t).bind fun c t₁ _ _ =>
      (safe_truth left.span c t₁).bind fun l t₂ _ _ => ?_
    split
    · exact safe_pure trivial
    · exact (safe_evaluateWith binds right readRight t₂).bind fun c t₃ _ _ =>
        (safe_truth right.span c t₃).bind fun _ _ _ _ => safe_pure trivial

end Expr

/-! ## Expressions and types -/

theorem Cause.isInternal_of_isGrammatical {cause : Cause} (h : cause.isGrammatical = true) :
    cause.isInternal = false := by
  cases cause <;> first | rfl | cases h

/-- Reporting a fault of an excerpt makes none internal. -/
theorem Excerpt.isInternal_faulted (f : Excerpt) (what : String) {d : Diagnostic}
    (sane : d.cause.isInternal = false) : (f.faulted what d).cause.isInternal = false := by
  unfold Excerpt.faulted
  split
  · rfl
  · exact sane

theorem Phrase.sane_typed (table : SymbolTable) (p : Phrase) : Sane Expr.IsRead (p.typed table) :=
  (p.meant_typed table).sane.mono fun _ typed => Phrase.isRead_of_outline? typed

namespace SymbolTable

theorem sane_expressionOf (table : SymbolTable) (tokens : List Token) :
    Sane Expr.IsRead (table.expressionOf tokens) := by
  unfold expressionOf
  split
  · exact Phrase.sane_typed table _
  · rename_i broken breaks
    have parts := (Phrase.meant_typedAll table broken.parts).sane
    cases typed : Phrase.typedAll table broken.parts with
    | error d =>
      rw [typed] at parts
      exact parts
    | ok es => exact Cause.isInternal_of_isGrammatical (Phrase.grammatical_ofTokens tokens _ breaks)

/-- Forcing an expression reads it in full, unless something in it had been read in part. -/
theorem sane_forceExpression (table : SymbolTable) (e : Expr) :
    Sane (fun e' => e.IsWhole → e'.IsRead) (table.forceExpression e) := by
  unfold forceExpression
  split
  · rename_i none
    rintro (some | read)
    · rw [none] at some
      cases some
    · exact read
  · rename_i f _
    have sane := table.sane_expressionOf f.tokens
    cases read : table.expressionOf f.tokens with
    | error d =>
      rw [read] at sane
      exact f.isInternal_faulted _ sane
    | ok e' =>
      rw [read] at sane
      exact fun _ => sane

theorem sane_overloads (table : SymbolTable) (t : Token) : Sane (fun _ => True) (table.overloads t) := by
  unfold overloads
  split
  · trivial
  · rfl

theorem sane_namedType (table : SymbolTable) (t : Token) : Sane (fun _ => True) (table.namedType t) := by
  unfold namedType
  split
  · trivial
  · have found := table.sane_overloads t
    cases overloads : table.overloads t with
    | error d =>
      rw [overloads] at found
      exact found
    | ok set =>
      cases named : table.typeOf? t.text set with
      | some type => simp [Sane, bind, Except.bind, named, pure, Except.pure]
      | none => simp [Sane, bind, Except.bind, named, Cause.isInternal]

end SymbolTable

namespace TypePhrase

open Resolution

variable {bind : DeclId → Resolution Unit}

theorem safe_typedIn (e : Phrase) (t : SymbolTable) : Safe (typedIn e) t fun e _ => e.IsRead :=
  safe_bind_get (safe_ofExcept (e.sane_typed t))

theorem safe_arrayOf (element : Ty) (extent : Constant) (position : Position) :
    AlwaysSafe (arrayOf element extent position) := by
  intro t
  unfold arrayOf
  split
  · exact safe_pure trivial
  · exact safe_fail rfl

theorem safe_resolved (binds : ∀ id, AlwaysSafe (bind id)) :
    ∀ phrase : TypePhrase, AlwaysSafe (phrase.resolved bind)
  | .name token, t => safe_bind_get (safe_ofExcept (t.sane_namedType token))
  | .auto, _ | .decltypeAuto, _ => safe_pure trivial
  | .decltype e, t => (safe_typedIn e t).map fun _ _ _ _ => trivial
  | .qualified inner _, t | .pointer inner, t | .reference inner, t | .sequence inner, t =>
    (safe_resolved binds inner t).map fun _ _ _ _ => trivial
  | .array element extent, t =>
    (safe_resolved binds element t).bind fun type t₁ _ _ =>
      (safe_typedIn extent t₁).bind fun e t₂ _ read =>
        (e.safe_evaluateWith binds read t₂).bind fun value t₃ _ _ => safe_arrayOf type value _ t₃

theorem safe_check (binds : ∀ id, AlwaysSafe (bind id)) (part : TypePart) :
    AlwaysSafe (check bind part) := by
  intro t
  cases part with
  | type phrase => exact (safe_resolved binds phrase t).map fun _ _ _ _ => trivial
  | expression e => exact (safe_typedIn e t).map fun _ _ _ _ => trivial

theorem safe_checks (binds : ∀ id, AlwaysSafe (bind id)) :
    ∀ parts : List TypePart, AlwaysSafe (parts.forM (check bind))
  | [], _ => safe_pure trivial
  | part :: rest, t => (safe_check binds part t).bind fun _ t₁ _ _ => safe_checks binds rest t₁

theorem safe_typeOf (binds : ∀ id, AlwaysSafe (bind id)) (tokens : List Token) :
    AlwaysSafe (typeOf bind tokens) := by
  intro t
  unfold typeOf
  split
  · exact safe_resolved binds _ t
  · rename_i broken breaks
    exact (safe_checks binds _ t).bind fun _ _ _ _ =>
      safe_throw (Cause.isInternal_of_isGrammatical (grammatical_ofTokens tokens _ breaks))

end TypePhrase

/-! ## Objects -/

/-- The slot that a declaration has for a type. -/
def Subject.slot? : Subject → Option TypeSlot
  | .varDecl | .constDecl | .parameter | .superDecl => some .declared
  | .function | .coroutine => some .result
  | .classDecl | .extension => some .kind
  | .unit | .typeParameter | .type | .expression | .statement => none

theorem Decl.isSome_typeIn? (d : Decl) (slot : TypeSlot) :
    (d.typeIn? slot).isSome = (d.subject.slot? == some slot) := by
  obtain ⟨_, ⟨_ | _, _, _⟩ | _ | _ | ⟨_ | _, _⟩ | ⟨_ | _, _, _⟩ | _, _, _⟩ := d <;> cases slot <;> rfl

theorem SymbolTable.Retains.isSome_typeIn? (h : t.Retains t') {id : DeclId} {slot : TypeSlot}
    (held : ((t.decl id).typeIn? slot).isSome = true) :
    ((t'.decl id).typeIn? slot).isSome = true := by
  rw [Decl.isSome_typeIn?] at held ⊢
  rwa [h.subject_eq fun absent => by rw [absent] at held; cases held]

namespace Resolution

variable {bind : DeclId → Resolution Unit}

theorem safe_forceExpression (e : Expr) (t : SymbolTable) :
    Safe (forceExpression e) t fun e' _ => e.IsWhole → e'.IsRead :=
  safe_bind_get (safe_ofExcept (t.sane_forceExpression e))

theorem safe_forceTypeWith (binds : ∀ id, AlwaysSafe (bind id)) (type : Ty) :
    AlwaysSafe (forceTypeWith bind type) := by
  intro t
  unfold forceTypeWith
  split
  · exact (TypePhrase.safe_typeOf binds _ t).rethrow fun _ sane => Excerpt.isInternal_faulted _ _ sane
  · exact safe_pure trivial

/-- The type in a slot is resolved, if there is such a slot. -/
theorem safe_forceSlotWith (binds : ∀ id, AlwaysSafe (bind id)) {id : DeclId} {slot : TypeSlot}
    (held : ((t.decl id).typeIn? slot).isSome = true) :
    Safe (forceSlotWith bind id slot) t fun _ _ => True := by
  refine safe_bind_look ?_
  split
  · rename_i none
    rw [none] at held
    cases held
  · split
    · exact (safe_forceTypeWith binds _ t).bind fun type t₁ _ _ =>
        safe_modify (fun furnished => .withTypeIn furnished id slot type) trivial
    · exact safe_pure trivial

theorem isRead_of_wraps {e e' : Expr} (h : e.Wraps e') (read : e.IsRead) : e'.IsRead := by
  unfold Expr.IsRead at read ⊢
  rwa [Expr.outline_of_wraps h]

theorem isRead_of_deduce? {placeholder : Ty} {e e' : Expr} (h : deduce? placeholder e = some e')
    (read : e.IsRead) : e'.IsRead := by
  unfold deduce? at h
  split at h
  · obtain rfl := Option.some.inj h
    exact isRead_of_wraps e.wraps_asValue read
  · obtain rfl := Option.some.inj h
    exact read
  · cases h

theorem safe_settleType {id : DeclId} {declared : Ty} {init : Expr} (read : init.IsRead) :
    Safe (settleType id declared init) t fun e _ => e.IsRead := by
  unfold settleType
  split
  · rename_i e deduced
    have read' := isRead_of_deduce? deduced read
    exact Safe.bind (Q := fun _ _ => True)
      (safe_modify (fun furnished => .withTypeIn furnished id .declared _) trivial)
      fun _ _ _ _ => safe_pure read'
  · exact safe_ofExcept ((init.meant_definingInitializer declared).sane.mono fun _ wraps =>
      isRead_of_wraps wraps read)

theorem safe_forceObjectWith (binds : ∀ id, AlwaysSafe (bind id)) {id : DeclId} {scope : ScopeId}
    {init : Expr} (held : (t.decl id).ownType?.isSome = true) (whole : init.IsWhole) :
    Safe (forceObjectWith bind id scope init) t fun e _ => e.IsRead := by
  have entered : (((t.enter scope).decl id).typeIn? .declared).isSome = true := held
  exact safe_under ((safe_forceSlotWith binds entered).bind fun _ t₁ _ _ =>
    (safe_forceExpression init t₁).mono fun _ _ _ read => read whole) fun _ _ read => read

/-- An object is defined, whatever it is. -/
theorem safe_settleObjectWith (binds : ∀ id, AlwaysSafe (bind id)) (id : DeclId) :
    AlwaysSafe (settleObjectWith bind id) := by
  intro t furnished
  refine safe_bind_look ?_ furnished
  split
  · exact safe_pure trivial
  rename_i init initializer
  obtain ⟨sort, type, kind⟩ := Decl.kind_of_initializer? initializer
  have whole : init.IsWhole := by
    have old := furnished id
    rw [kind] at old
    exact old init rfl
  have held : (t.decl id).ownType?.isSome = true := by simp [Decl.ownType?, Decl.typeIn?, kind]
  refine (safe_forceObjectWith binds held whole).bind fun init t₁ upholds read => safe_bind_look ?_
  have held' : (t₁.decl id).ownType?.isSome = true := upholds.retains.isSome_typeIn? held
  split
  · rename_i none
    rw [none] at held'
    cases held'
  refine (safe_settleType read).bind fun init t₂ _ read => ?_
  have last (t₃ : SymbolTable) : Safe (modify (·.modifyDecl id (·.withInitializer init))) t₃
      fun _ _ => True :=
    safe_modify (fun furnished => .withInitializer furnished id read) trivial
  split
  · refine (init.safe_evaluateWith binds read t₂).bind fun value t₃ _ _ => ?_
    exact Safe.bind (Q := fun _ _ => True)
      (safe_modify (fun furnished => .of_same furnished rfl rfl rfl) trivial) fun _ t₄ _ _ => last t₄
  · exact last t₂

/-- A constant is entered and left again, and the same constants are being computed as before. -/
theorem safe_enterConstant {settle : DeclId → Resolution Unit} (settles : ∀ id, AlwaysSafe (settle id))
    (id : DeclId) : AlwaysSafe (enterConstant settle id) := by
  intro t furnished r t' run
  rcases runs_enterConstant.mp run with ⟨-, refused⟩ | ⟨free, t₁, inner, rfl⟩
  · obtain ⟨rfl, rfl⟩ := runs_selfDependent.mp refused
    exact ⟨.refl furnished, rfl⟩
  · have started : ({ t with binding := id :: t.binding } : SymbolTable).Furnished :=
      furnished.of_same rfl rfl
    obtain ⟨⟨retains, furnished', entered⟩, sane⟩ := settles id _ started inner
    have binding : (t₁.finishBinding id).binding = t.binding := binding_finishBinding entered free
    have before : t.Retains { t with binding := id :: t.binding } := .of_same rfl rfl
    have after : t₁.Retains (t₁.finishBinding id) := .of_same rfl rfl
    exact ⟨⟨(before.trans retains).trans after, furnished'.of_same rfl rfl, binding⟩, sane⟩

theorem safe_ensureConstantWithin (level : Nat) (id : DeclId) :
    AlwaysSafe (ensureConstantWithin level id) := by
  induction level generalizing id with
  | zero =>
    intro t
    refine safe_bind_look ?_
    split
    · exact safe_pure trivial
    · exact safe_bind_look (safe_fail rfl)
  | succ level ih =>
    intro t
    refine safe_bind_look ?_
    split
    · exact safe_pure trivial
    · exact safe_enterConstant (safe_settleObjectWith ih) id t

theorem safe_ensureConstant (id : DeclId) : AlwaysSafe (ensureConstant id) :=
  fun t => safe_bind_look (safe_ensureConstantWithin _ id t)

end Resolution

end Deferral
