import Deferral.Proofs.Layout.Table

/-!
# Where faults are found

Resolving what lies in a stretch of the source keeps a table laid out, and where it fails the fault lies
in the stretch too. A constant that is needed elsewhere may be at fault itself: constants lie apart.
-/

namespace Deferral

open SymbolTable

variable {α β : Type} {t t' : SymbolTable} {Q : α → SymbolTable → Prop} {Q' : β → SymbolTable → Prop}
  {L : Layout} {E E' : Diagnostic → Prop} {lo hi lo' hi' : Nat}

namespace Resolution

/-- A computation keeps a table laid out, and its outcome is of a kind, or else its fault is. -/
def Lays (L : Layout) (E : Diagnostic → Prop) (x : Resolution α) (t : SymbolTable)
    (Q : α → SymbolTable → Prop) : Prop :=
  t.LaidOut L → ∀ ⦃r t'⦄, Runs x t r t' → t.StaysLaid L t' ∧ Comes E (Q · t') r

theorem Lays.mono {Q₁ : α → SymbolTable → Prop} {x : Resolution α} (h : Lays L E x t Q)
    (faults : ∀ d, E d → E' d) (wider : ∀ a t', t.StaysLaid L t' → Q a t' → Q₁ a t') :
    Lays L E' x t Q₁ := by
  intro laid r t' run
  obtain ⟨stays, comes⟩ := h laid run
  exact ⟨stays, comes.mono faults fun a => wider a t' stays⟩

/-- What is known of a table that is laid out may be used. -/
theorem Lays.of_laid {x : Resolution α} (h : t.LaidOut L → Lays L E x t Q) : Lays L E x t Q :=
  fun laid => h laid laid

theorem lays_pure {a : α} (h : Q a t) : Lays L E (pure a) t Q := by
  intro laid r t' run
  obtain ⟨rfl, rfl⟩ := runs_pure.mp run
  exact ⟨.refl laid, h⟩

theorem lays_throw {d : Diagnostic} (h : E d) : Lays L E (throw d : Resolution α) t Q := by
  intro laid r t' run
  obtain ⟨rfl, rfl⟩ := runs_throw.mp run
  exact ⟨.refl laid, h⟩

theorem lays_ofExcept {x : Except Diagnostic α} (h : Comes E (Q · t) x) :
    Lays L E (ofExcept x) t Q := by
  intro laid r t' run
  obtain ⟨rfl, rfl⟩ := runs_ofExcept.mp run
  exact ⟨.refl laid, h⟩

/-- A broken assumption has no place, and lies nowhere in particular. -/
theorem lays_internal {fault : InternalFault} {position : Position} :
    Lays L (L.Admits lo hi) (fail (.internal fault) position : Resolution α) t Q :=
  lays_throw (.internal rfl)

theorem lays_unexpectedDecl (d : Decl) :
    Lays L (L.Admits lo hi) (unexpectedDecl d : Resolution α) t Q := lays_internal

theorem Lays.bind {x : Resolution α} {f : α → Resolution β} (h : Lays L E x t Q)
    (h' : ∀ a t', t.StaysLaid L t' → Q a t' → Lays L E (f a) t' Q') : Lays L E (x >>= f) t Q' := by
  intro laid r t' run
  rcases runs_bind.mp run with ⟨d, first, rfl⟩ | ⟨a, t₁, first, rest⟩
  · obtain ⟨stays, comes⟩ := h laid first
    exact ⟨stays, comes⟩
  · obtain ⟨stays, holds⟩ := h laid first
    obtain ⟨stays', comes⟩ := h' a t₁ stays holds stays.laid rest
    exact ⟨stays.trans stays', comes⟩

theorem Lays.map {x : Resolution α} (h : Lays L E x t Q) {f : α → β}
    (h' : ∀ a t', t.StaysLaid L t' → Q a t' → Q' (f a) t') : Lays L E (f <$> x) t Q' := by
  intro laid r t' run
  obtain ⟨r₁, first, rfl⟩ := runs_map.mp run
  obtain ⟨stays, comes⟩ := h laid first
  cases r₁ with
  | error d => exact ⟨stays, comes⟩
  | ok a => exact ⟨stays, h' a t' stays comes⟩

theorem lays_bind_look {pick : SymbolTable → α} {f : α → Resolution β} (h : Lays L E (f (pick t)) t Q') :
    Lays L E (look pick >>= f) t Q' :=
  fun laid _ _ run => h laid (runs_bind_look.mp run)

theorem lays_bind_get {f : SymbolTable → Resolution β} (h : Lays L E (f t) t Q') :
    Lays L E (get >>= f) t Q' :=
  fun laid _ _ run => h laid (runs_bind_get.mp run)

theorem lays_modify {f : SymbolTable → SymbolTable} {Q : PUnit → SymbolTable → Prop}
    (stays : t.LaidOut L → t.StaysLaid L (f t)) (h : t.LaidOut L → t.StaysLaid L (f t) → Q ⟨⟩ (f t)) :
    Lays L E (modify f : Resolution PUnit) t Q := by
  intro laid r t' run
  obtain ⟨rfl, rfl⟩ := runs_modify.mp run
  exact ⟨stays laid, h laid (stays laid)⟩

/-- The table changes, and the computation goes on. -/
theorem lays_bind_modify {f : SymbolTable → SymbolTable} {g : PUnit → Resolution β}
    (stays : t.LaidOut L → t.StaysLaid L (f t))
    (h : t.StaysLaid L (f t) → Lays L E (g ⟨⟩) (f t) Q') :
    Lays L E (modify f >>= g) t Q' := by
  intro laid r t' run
  have changed := stays laid
  obtain ⟨stays', comes⟩ := h changed changed.laid (runs_bind_modify.mp run)
  exact ⟨changed.trans stays', comes⟩

/-- A fault is reported as another one. -/
theorem Lays.rethrow {x : Resolution α} (h : Lays L E x t Q) {change : Diagnostic → Diagnostic}
    (faults : ∀ d, E d → E' (change d)) : Lays L E' (tryCatch x fun d => throw (change d)) t Q := by
  intro laid r t' run
  obtain ⟨r₁, first, rfl⟩ := runs_rethrow.mp run
  obtain ⟨stays, comes⟩ := h laid first
  cases r₁ with
  | error d => exact ⟨stays, faults d comes⟩
  | ok a => exact ⟨stays, comes⟩

/-- A scope is entered and left again. -/
theorem lays_under {scope : ScopeId} {x : Resolution α} (h : Lays L E x (t.enter scope) Q)
    (leaves : ∀ a t', Q a t' → Q a t'.leave) : Lays L E (under scope x) t Q := by
  intro laid r t' run
  obtain ⟨t₁, first, rfl⟩ := runs_under.mp run
  have entered := StaysLaid.enter laid scope
  obtain ⟨stays, comes⟩ := h entered.laid first
  exact ⟨(entered.trans stays).trans (.leave stays.laid),
    comes.mono (fun _ => id) fun a => leaves a t₁⟩

theorem lays_scopeOf (owner : ScopeOwner) :
    Lays L (L.Admits lo hi) (scopeOf owner) t fun _ t' => t' = t := by
  refine lays_bind_look ?_
  split
  · exact lays_pure rfl
  · exact lays_internal

end Resolution

/-! ## Evaluation -/

/-- Giving a constant its value keeps a table laid out, and where that fails the fault lies apart. -/
def BindsApart (L : Layout) (bind : DeclId → Resolution Unit) : Prop :=
  ∀ id t, (t.decl id).subject = .constDecl → ∀ lo hi, Resolution.Lays L (L.Admits lo hi) (bind id) t
    fun _ _ => True

theorem Decl.subject_of_isConstant {d : Decl} (h : d.isConstant = true) : d.subject = .constDecl := by
  unfold Decl.isConstant at h
  split at h
  · rename_i kind
    simp [Decl.subject, kind]
  · cases h

namespace Expr

open Resolution

variable {bind : DeclId → Resolution Unit} {S : DeclId → Prop} {span : Span}

theorem lays_notEvaluable {fault : EvaluationFault} (start : L.Within lo hi span.start) :
    Lays L (L.Admits lo hi) (notEvaluable fault span : Resolution α) t Q :=
  lays_throw (.plain ⟨rfl, start⟩)

theorem lays_computed (start : L.Within lo hi span.start) (x : Except EvaluationFault Constant)
    (t : SymbolTable) : Lays L (L.Admits lo hi) (computed span x) t fun _ _ => True := by
  cases x with
  | ok c => exact lays_pure trivial
  | error fault => exact lays_notEvaluable start

theorem lays_truth (start : L.Within lo hi span.start) (c : Constant) (t : SymbolTable) :
    Lays L (L.Admits lo hi) (truth span c) t fun _ _ => True := by
  cases c with
  | boolean b => exact lays_pure trivial
  | _ => exact lays_notEvaluable start

theorem lays_evaluateName (binds : BindsApart L bind) (decl : DeclId) (name : String)
    (start : L.Within lo hi span.start) (t : SymbolTable) :
    Lays L (L.Admits lo hi) (evaluateName bind decl name span) t fun _ _ => True := by
  refine lays_bind_look ?_
  split
  · rename_i constant
    refine (binds decl t (Decl.subject_of_isConstant constant) lo hi).bind fun _ t' _ _ =>
      lays_bind_look ?_
    split
    · exact lays_pure trivial
    · exact lays_notEvaluable start
  · refine lays_bind_look ?_
    split
    · exact lays_pure trivial
    · exact lays_notEvaluable start

/-- Where an expression cannot be evaluated, the fault lies in it or apart. -/
theorem lays_evaluateWith (binds : BindsApart L bind) :
    ∀ {e : Expr} (t : SymbolTable), e.IsMade S (L.Within lo hi) →
      Lays L (L.Admits lo hi) (e.evaluateWith bind) t fun _ _ => True
  | ⟨.deferred _, _, _⟩, _, made => made.1.elim
  | ⟨.call _ _, _, _⟩, _, made | ⟨.assign _ _, _, _⟩, _, made => lays_notEvaluable made.2.2
  | ⟨.boolean _, _, _⟩, _, _ | ⟨.integer _, _, _⟩, _, _ | ⟨.float _, _, _⟩, _, _ => lays_pure trivial
  | ⟨.name decl name, _, _⟩, t, made => lays_evaluateName binds decl name made.2.2 t
  | ⟨.unary _ e, _, _⟩, t, made | ⟨.converted _ e, _, _⟩, t, made =>
    (lays_evaluateWith binds (e := e) t made.1).bind fun _ t' _ _ => lays_computed made.2.2 _ t'
  | ⟨.binary (.arithmetic _) _ _, _, _⟩, t, made | ⟨.binary (.comparison _) _ _, _, _⟩, t, made =>
    (lays_evaluateWith binds t made.1.1).bind fun _ t₁ _ _ =>
      (lays_evaluateWith binds t₁ made.1.2).bind fun _ t₂ _ _ => lays_computed made.2.2 _ t₂
  | ⟨.binary (.connective _) left right, _, _⟩, t, made => by
    refine (lays_evaluateWith binds t made.1.1).bind fun c t₁ _ _ =>
      (lays_truth (Expr.IsMade.start made.1.1) c t₁).bind fun l t₂ _ _ => ?_
    split
    · exact lays_pure trivial
    · exact (lays_evaluateWith binds t₂ made.1.2).bind fun c t₃ _ _ =>
        (lays_truth (Expr.IsMade.start made.1.2) c t₃).bind fun _ _ _ _ => lays_pure trivial

end Expr

/-! ## Types -/

/-- A fault in what is made of an excerpt: one of the grammar, or one that lies in a stretch. -/
def Layout.Breaks (L : Layout) (lo hi : Nat) (d : Diagnostic) : Prop :=
  d.cause.isGrammatical = true ∨ L.Admits lo hi d

theorem Layout.breaks_of_isReadIn {d : Diagnostic} (h : d.IsReadIn (L.Within lo hi)) : L.Breaks lo hi d :=
  h.imp_right .plain

/-- A fault of the grammar is reported where the excerpt starts, any other one where it is. -/
theorem Excerpt.LiesIn.admits_faulted {f : Excerpt} (h : f.LiesIn L lo hi) (what : String)
    {d : Diagnostic} (breaks : L.Breaks lo hi d) : L.Admits lo hi (f.faulted what d) := by
  unfold Excerpt.faulted
  split
  · exact .excerpt f ⟨_, _, rfl⟩ h.captured rfl h.start
  · rename_i meant
    exact breaks.resolve_left meant

namespace TypePhrase

open Resolution

variable {bind : DeclId → Resolution Unit}

theorem lays_typedIn {e : Phrase} (start : e.StartsIn (L.Within lo hi)) (t : SymbolTable) :
    Lays L (L.Breaks lo hi) (typedIn e) t fun e t' =>
      e.IsMade (L.known t'.decls.size) (L.Within lo hi) :=
  .of_laid fun laid => lays_bind_get (lays_ofExcept ((Phrase.comes_typed laid.offers start).mono
    (fun _ => Layout.breaks_of_isReadIn) fun _ => id))

theorem isMade_ofDecltype {S : DeclId → Prop} {A : Position → Prop} {e : Expr} (made : e.IsMade S A) :
    (ofDecltype e).IsMade S := by
  unfold ofDecltype
  split
  · exact Expr.IsMade.mono (fun _ => id) (fun _ _ => trivial) made
  · exact made.type

theorem lays_arrayOf {element : Ty} {extent : Constant} {position : Position}
    (made : element.IsMade (L.known t.decls.size)) (start : L.Within lo hi position) :
    Lays L (L.Breaks lo hi) (arrayOf element extent position) t fun type t' =>
      type.IsMade (L.known t'.decls.size) := by
  unfold arrayOf
  split
  · exact lays_pure made
  · exact lays_throw (.inr (.plain ⟨rfl, start⟩))

/-- Types are made of what is known. -/
theorem lays_resolved (binds : BindsApart L bind) :
    ∀ (phrase : TypePhrase) (t : SymbolTable), phrase.StartsIn (L.Within lo hi) →
      Lays L (L.Breaks lo hi) (phrase.resolved bind) t fun type t' => type.IsMade (L.known t'.decls.size)
  | .name _, _, start =>
    .of_laid fun laid => lays_bind_get (lays_ofExcept ((comes_namedType laid.offers start).mono
      (fun _ plain => .inr (.plain plain)) fun _ => id))
  | .auto, _, _ | .decltypeAuto, _, _ => lays_pure trivial
  | .decltype e, t, start => (lays_typedIn (e := e) start t).map fun _ _ _ made => isMade_ofDecltype made
  | .qualified inner q, t, start =>
    (lays_resolved binds inner t start).map fun _ _ _ made => made.addQualifiers q
  | .pointer inner, t, start | .sequence inner, t, start =>
    (lays_resolved binds inner t start).map fun _ _ _ made => made
  | .reference inner, t, start =>
    (lays_resolved binds inner t start).map fun _ _ _ made => made.toReference
  | .array element _, t, start =>
    (lays_resolved binds element t start.1).bind fun _ t₁ _ element =>
      (lays_typedIn start.2 t₁).bind fun _ t₂ stays made =>
        ((Expr.lays_evaluateWith binds t₂ made).mono (fun _ => .inr) fun _ _ _ h => h).bind
          fun _ _ stays' _ => lays_arrayOf
            (element.mono fun _ => L.known_mono (Nat.le_trans stays.size stays'.size)) made.start

theorem lays_check (binds : BindsApart L bind) {part : TypePart} (start : part.StartsIn (L.Within lo hi))
    (t : SymbolTable) : Lays L (L.Breaks lo hi) (check bind part) t fun _ _ => True := by
  cases part with
  | type phrase => exact (lays_resolved binds phrase t start).map fun _ _ _ _ => trivial
  | expression e => exact (lays_typedIn start t).map fun _ _ _ _ => trivial

theorem lays_checks (binds : BindsApart L bind) : ∀ {parts : List TypePart} (t : SymbolTable),
    (∀ part ∈ parts, part.StartsIn (L.Within lo hi)) →
      Lays L (L.Breaks lo hi) (parts.forM (check bind)) t fun _ _ => True
  | [], _, _ => lays_pure trivial
  | _ :: _, t, all => by
    obtain ⟨first, others⟩ := List.forall_mem_cons.mp all
    exact (lays_check binds first t).bind fun _ t₁ _ _ => lays_checks binds t₁ others

theorem lays_typeOf (binds : BindsApart L bind) {tokens : List Token}
    (all : ∀ t ∈ tokens, L.Within lo hi t.span.start) (t : SymbolTable) :
    Lays L (L.Breaks lo hi) (typeOf bind tokens) t fun type t' => type.IsMade (L.known t'.decls.size) := by
  have parses := parses_ofTokens all
  unfold typeOf
  split
  · rename_i phrase read
    rw [read] at parses
    exact lays_resolved binds phrase t parses
  · rename_i broken breaks
    rw [breaks] at parses
    exact (lays_checks binds t parses).bind fun _ _ _ _ =>
      lays_throw (.inl (grammatical_ofTokens tokens _ breaks))

end TypePhrase

/-! ## Objects -/

namespace Resolution

variable {bind : DeclId → Resolution Unit} {id : DeclId}

theorem lays_forceExpression {e : Expr} (lies : e.LiesIn L t.decls.size lo hi) :
    Lays L (L.Admits lo hi) (forceExpression e) t fun e' t' =>
      e'.IsMade (L.known t'.decls.size) (L.Within lo hi) := by
  refine .of_laid fun laid => lays_bind_get (lays_ofExcept ?_)
  unfold Expr.LiesIn at lies
  unfold SymbolTable.forceExpression
  split at lies
  · rename_i f excerpt
    rw [excerpt]
    have comes := comes_expressionOf laid.offers lies.1.tokens
    dsimp only
    generalize t.expressionOf f.tokens = outcome at comes
    cases outcome with
    | error d => exact lies.1.admits_faulted _ (Layout.breaks_of_isReadIn comes)
    | ok e => exact comes
  · rename_i none
    rw [none]
    exact lies

theorem lays_forceTypeWith (binds : BindsApart L bind) {type : Ty} (lies : type.LiesIn L t.decls.size lo hi) :
    Lays L (L.Admits lo hi) (forceTypeWith bind type) t fun type t' =>
      type.IsMade (L.known t'.decls.size) := by
  unfold forceTypeWith
  split
  · rename_i f
    have lies : f.LiesIn L lo hi := lies
    exact (TypePhrase.lays_typeOf binds lies.tokens t).rethrow fun _ => lies.admits_faulted _
  · rename_i read
    exact lays_pure (lies.isMade (by cases type <;> first | rfl | exact absurd rfl (read _)))

/-- The type in a slot is read where its declaration lies. -/
theorem lays_forceSlotWith (binds : BindsApart L bind) (id : DeclId) (slot : TypeSlot) (t : SymbolTable) :
    Lays L (L.Admits (L.low id) (L.high id)) (forceSlotWith bind id slot) t fun _ t' =>
      (t'.decl id).HasRead slot := by
  refine .of_laid fun laid => lays_bind_look ?_
  split
  · exact lays_internal
  rename_i type held
  split
  · refine (lays_forceTypeWith binds (laid.typeIn held)).bind fun type t₁ stays made =>
      lays_modify (fun laid => .withTypeIn laid id slot made) fun _ _ => ?_
    have there : ((t₁.decl id).typeIn? slot).isSome = true := by rw [stays.slots, held]; rfl
    rw [decl_modifyDecl_self (lt_size_of_isSome_typeIn? there)]
    exact Decl.hasRead_withTypeIn there made.not_deferred
  · rename_i read
    exact lays_pure ⟨type, held, Bool.eq_false_iff.mpr read⟩

theorem isMade_of_deduce? {S : DeclId → Prop} {A : Position → Prop} {placeholder : Ty} {e e' : Expr}
    (h : deduce? placeholder e = some e') (made : e.IsMade S A) : e'.IsMade S A := by
  unfold deduce? at h
  split at h
  · exact Option.some.inj h ▸ made.asValue
  · exact Option.some.inj h ▸ made
  · cases h

theorem lays_settleType {declared : Ty} {init : Expr} (known : declared.IsMade (L.known t.decls.size))
    (made : init.IsMade (L.known t.decls.size) (L.Within lo hi)) :
    Lays L (L.Admits lo hi) (settleType id declared init) t fun e t' =>
      e.IsMade (L.known t'.decls.size) (L.Within lo hi) := by
  unfold settleType
  split
  · rename_i e deduced
    have made := isMade_of_deduce? deduced made
    exact lays_bind_modify (fun laid => .withTypeIn laid id .declared made.type)
      fun stays => lays_pure (made.mono (fun _ => L.known_mono stays.size) fun _ h => h)
  · exact lays_ofExcept ((Expr.comes_definingInitializer made known).mono (fun _ => .plain) fun _ h => h)

theorem lays_forceObjectWith (binds : BindsApart L bind) {scope : ScopeId} {init : Expr}
    (lies : init.LiesIn L t.decls.size (L.low id) (L.high id)) :
    Lays L (L.Admits (L.low id) (L.high id)) (forceObjectWith bind id scope init) t fun e t' =>
      e.IsMade (L.known t'.decls.size) (L.Within (L.low id) (L.high id)) ∧
        (t'.decl id).HasRead .declared := by
  refine lays_under ((lays_forceSlotWith binds id .declared _).bind fun _ t₁ stays read => ?_)
    fun _ _ h => h
  exact (lays_forceExpression (lies.mono stays.size (fun _ h => h))).mono (fun _ h => h)
    fun _ _ stays made => ⟨made, stays.reads _ _ read⟩

/-- An object is defined where it lies. -/
theorem lays_settleObjectWith (binds : BindsApart L bind) (id : DeclId) (t : SymbolTable) :
    Lays L (L.Admits (L.low id) (L.high id)) (settleObjectWith bind id) t fun _ _ => True := by
  refine .of_laid fun laid => lays_bind_look ?_
  split
  · exact lays_pure trivial
  rename_i init held
  refine (lays_forceObjectWith binds (laid.initializer held)).bind fun init t₁ _ ⟨made, read⟩ =>
    .of_laid fun laid => lays_bind_look ?_
  split
  · exact lays_bind_look (lays_unexpectedDecl _)
  rename_i declared held
  refine (lays_settleType (laid.isMade_of_hasRead read held) made).bind fun init t₂ _ made => ?_
  have last {t₃ : SymbolTable} (stays : t₂.StaysLaid L t₃) :
      Lays L (L.Admits (L.low id) (L.high id)) (modify (·.modifyDecl id (·.withInitializer init))) t₃
        fun _ _ => True :=
    lays_modify (fun laid => .withInitializer laid
      (made.mono (fun _ => L.known_mono stays.size) fun _ h => h)) fun _ _ => trivial
  split
  · refine (Expr.lays_evaluateWith binds t₂ made).bind fun value t₃ stays _ => ?_
    exact lays_bind_modify (fun laid => .of_same laid rfl rfl) fun stays' => last (stays.trans stays')
  · exact .of_laid fun laid => last (.refl laid)

/-- A constant that depends on itself is at fault, and lies apart. -/
theorem lays_selfDependent (constant : (t.decl id).subject = .constDecl) (lo hi : Nat) :
    Lays L (L.Admits lo hi) (selfDependent id) t fun _ _ => True := by
  refine .of_laid fun laid => lays_bind_look (lays_throw (.plain ⟨rfl, ?_⟩))
  obtain ⟨apart, start⟩ := (laid.decls id).constant constant
  exact apart.inside lo hi _ start

theorem lays_enterConstant {settle : DeclId → Resolution Unit} (constant : (t.decl id).subject = .constDecl)
    (settles : ∀ t, Lays L (L.Admits (L.low id) (L.high id)) (settle id) t fun _ _ => True) (lo hi : Nat) :
    Lays L (L.Admits lo hi) (enterConstant settle id) t fun _ _ => True := by
  intro laid r t' run
  have apart := ((laid.decls id).constant constant).1
  rcases runs_enterConstant.mp run with ⟨-, refused⟩ | ⟨-, t₁, inner, rfl⟩
  · exact lays_selfDependent constant lo hi laid refused
  · have started : t.StaysLaid L { t with binding := id :: t.binding } := .of_same laid rfl rfl
    obtain ⟨stays, comes⟩ := settles _ started.laid inner
    exact ⟨(started.trans stays).trans (.of_same stays.laid rfl rfl),
      comes.mono (fun _ admits => admits.mono (apart.inside lo hi)) fun _ h => h⟩

theorem bindsApart_ensureConstantWithin (level : Nat) : BindsApart L (ensureConstantWithin level) := by
  induction level with
  | zero =>
    intro id t constant lo hi
    refine lays_bind_look ?_
    split
    · exact lays_pure trivial
    · exact lays_selfDependent constant lo hi
  | succ level ih =>
    intro id t constant lo hi
    refine lays_bind_look ?_
    split
    · exact lays_pure trivial
    · exact lays_enterConstant constant (lays_settleObjectWith ih id) lo hi

theorem bindsApart_ensureConstant : BindsApart L ensureConstant :=
  fun id t constant lo hi => lays_bind_look (bindsApart_ensureConstantWithin _ id t constant lo hi)

end Resolution

end Deferral
