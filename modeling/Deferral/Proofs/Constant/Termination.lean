import Deferral.Proofs.Safety.NoInternalFault
import Deferral.Proofs.Scope.Binding

/-!
# Computing constants comes to an end

A constant is computed where its value is needed, also while another one is, and the types and the
initializers on the way are read there and then. A constant that is being computed is not entered
again, so that constants nest no deeper than there are constants: what would be done any deeper makes
no difference.
-/

namespace Deferral

open Resolution SymbolTable

variable {α β : Type} {ids b : List DeclId} {t t' : SymbolTable}

theorem Decl.isConstant_withInitializer (d : Decl) (e : Expr) :
    (d.withInitializer e).isConstant = d.isConstant := by
  unfold Decl.withInitializer
  split
  · rename_i sort _ _ kind
    cases sort <;> simp [isConstant, kind]
  · rfl

namespace Resolution

/-! ## Constants inside constants -/

/-- Gives a constant its value if it has none. At most `level` constants are entered one inside the
other; for all that is needed to define the last of them, and for what lies inside that, stands
`bottom`. -/
def bindNested (bottom : DeclId → Resolution Unit) : (level : Nat) → DeclId → Resolution Unit
  | 0, id => do
    if (← look (·.constant? id)).isSome then return
    enterConstant bottom id
  | level + 1, id => do
    if (← look (·.constant? id)).isSome then return
    enterConstant (settleObjectWith (bindNested bottom level)) id

/-- What is done with a way to give constants their values enters no more than `level` constants one
inside the other, and in the end the same constants are being computed as before. A call that is refused because
the constant is being computed already enters nothing, and does not count. -/
def NestsWithin (level : Nat) (action : (DeclId → Resolution Unit) → Resolution α) (t : SymbolTable) :
    Prop :=
  ((action ensureConstant).run.run t).2.binding = t.binding ∧
    ∀ bottom, (action (bindNested bottom level)).run.run t = (action ensureConstant).run.run t

end Resolution

/-- The constants of a table are `ids`, and those in `b` are being computed. -/
structure Tallies (ids b : List DeclId) (t : SymbolTable) : Prop where
  constants : ∀ id, (t.decl id).isConstant = true ↔ id ∈ ids
  binding : t.binding = b
  enough : ids.length ≤ t.decls.size

namespace Tallies

theorem of_same (h : Tallies ids b t) (decls : t'.decls = t.decls) (binding : t'.binding = t.binding) :
    Tallies ids b t' :=
  ⟨fun id => by rw [decl, decls]; exact h.constants id, binding.trans h.binding, decls ▸ h.enough⟩

/-- A declaration changes that is a constant afterwards if it was one before. -/
theorem modifyDecl (h : Tallies ids b t) (id : DeclId) {f : Decl → Decl}
    (same : ∀ d, (f d).isConstant = d.isConstant) : Tallies ids b (t.modifyDecl id f) := by
  refine ⟨fun other => ?_, h.binding, by simpa using h.enough⟩
  rw [decl_modifyDecl]
  split
  · rename_i here
    rw [same, ← here.1]
    exact h.constants other
  · exact h.constants other

end Tallies

namespace Resolution

/-- From tables with some constants being computed, two computations come to the same, with the same
constants being computed. -/
def Agrees (ids b : List DeclId) (x y : Resolution α) : Prop :=
  ∀ ⦃t⦄, Tallies ids b t → ∀ ⦃r t'⦄, Runs x t r t' → Runs y t r t' ∧ Tallies ids b t'

namespace Agrees

theorem symm {x y : Resolution α} (h : Agrees ids b x y) : Agrees ids b y x := by
  intro t tallies r t' run
  obtain ⟨other, after⟩ := h tallies (.of_run x t)
  obtain ⟨rfl, rfl⟩ := run.unique other
  exact ⟨.of_run x t, after⟩

theorem trans {x y z : Resolution α} (h : Agrees ids b x y) (h' : Agrees ids b y z) : Agrees ids b x z :=
  fun _ tallies _ _ run => h' tallies (h tallies run).1

/-- What changes no tally agrees with itself. -/
theorem refl {x : Resolution α} (h : ∀ ⦃t r t'⦄, Tallies ids b t → Runs x t r t' → Tallies ids b t') :
    Agrees ids b x x := fun _ tallies _ _ run => ⟨run, h tallies run⟩

theorem pure (a : α) : Agrees ids b (pure a) (pure a) := .refl fun _ _ _ tallies run => by
  obtain ⟨-, rfl⟩ := runs_pure.mp run
  exact tallies

theorem throw (d : Diagnostic) : Agrees ids b (throw d : Resolution α) (throw d) :=
  .refl fun _ _ _ tallies run => by
    obtain ⟨-, rfl⟩ := runs_throw.mp run
    exact tallies

theorem fail (cause : Cause) (position : Position) :
    Agrees ids b (fail cause position : Resolution α) (fail cause position) := .throw _

theorem ofExcept (x : Except Diagnostic α) : Agrees ids b (ofExcept x) (ofExcept x) :=
  .refl fun _ _ _ tallies run => by
    obtain ⟨-, rfl⟩ := runs_ofExcept.mp run
    exact tallies

theorem modify {f : SymbolTable → SymbolTable} (h : ∀ t, Tallies ids b t → Tallies ids b (f t)) :
    Agrees ids b (modify f : Resolution PUnit) (modify f) := .refl fun _ _ _ tallies run => by
  obtain ⟨-, rfl⟩ := runs_modify.mp run
  exact h _ tallies

theorem bind {x y : Resolution α} {f g : α → Resolution β} (h : Agrees ids b x y)
    (h' : ∀ a, Agrees ids b (f a) (g a)) : Agrees ids b (x >>= f) (y >>= g) := by
  intro t tallies r t' run
  rcases runs_bind.mp run with ⟨d, first, rfl⟩ | ⟨a, t₁, first, rest⟩
  · obtain ⟨first', after⟩ := h tallies first
    exact ⟨runs_bind.mpr (.inl ⟨d, first', rfl⟩), after⟩
  · obtain ⟨first', tallies₁⟩ := h tallies first
    obtain ⟨rest', after⟩ := h' a tallies₁ rest
    exact ⟨runs_bind.mpr (.inr ⟨a, t₁, first', rest'⟩), after⟩

theorem map {x y : Resolution α} (h : Agrees ids b x y) (f : α → β) :
    Agrees ids b (f <$> x) (f <$> y) := by
  intro t tallies r t' run
  obtain ⟨r₁, first, rfl⟩ := runs_map.mp run
  obtain ⟨first', after⟩ := h tallies first
  exact ⟨runs_map.mpr ⟨r₁, first', rfl⟩, after⟩

/-- The table is asked first, and what it is asked may depend on its constants. -/
theorem bind_look {pick : SymbolTable → α} {f g : α → Resolution β}
    (h : ∀ t, Tallies ids b t → Agrees ids b (f (pick t)) (g (pick t))) :
    Agrees ids b (look pick >>= f) (look pick >>= g) := by
  intro t tallies r t' run
  obtain ⟨run', after⟩ := h t tallies tallies (runs_bind_look.mp run)
  exact ⟨runs_bind_look.mpr run', after⟩

theorem bind_get {f g : SymbolTable → Resolution β}
    (h : ∀ t, Tallies ids b t → Agrees ids b (f t) (g t)) : Agrees ids b (get >>= f) (get >>= g) := by
  intro t tallies r t' run
  obtain ⟨run', after⟩ := h t tallies tallies (runs_bind_get.mp run)
  exact ⟨runs_bind_get.mpr run', after⟩

theorem rethrow {x y : Resolution α} (h : Agrees ids b x y) (change : Diagnostic → Diagnostic) :
    Agrees ids b (tryCatch x fun d => MonadExcept.throw (change d))
      (tryCatch y fun d => MonadExcept.throw (change d)) := by
  intro t tallies r t' run
  obtain ⟨r₁, first, rfl⟩ := runs_rethrow.mp run
  obtain ⟨first', after⟩ := h tallies first
  exact ⟨runs_rethrow.mpr ⟨r₁, first', rfl⟩, after⟩

theorem under {x y : Resolution α} (h : Agrees ids b x y) (scope : ScopeId) :
    Agrees ids b (under scope x) (under scope y) := by
  intro t tallies r t' run
  obtain ⟨t₁, first, rfl⟩ := runs_under.mp run
  have entered : Tallies ids b (t.enter scope) := tallies.of_same rfl rfl
  obtain ⟨first', after⟩ := h entered first
  exact ⟨runs_under.mpr ⟨t₁, first', rfl⟩, after.of_same rfl rfl⟩

end Agrees

end Resolution

/-! ## Evaluation, types and objects -/

section Congruence

open Resolution

variable {bind bind' : DeclId → Resolution Unit}

namespace Expr

theorem agrees_computed (span : Span) (x : Except EvaluationFault Constant) :
    Agrees ids b (computed span x) (computed span x) := by
  cases x with
  | ok c => exact .pure c
  | error fault => exact .fail _ _

theorem agrees_truth (span : Span) (c : Constant) : Agrees ids b (truth span c) (truth span c) := by
  cases c with
  | boolean _ => exact .pure _
  | _ => exact .fail _ _

variable (binds : ∀ id ∈ ids, Agrees ids b (bind id) (bind' id))

include binds

/-- Only constants are given values. -/
theorem agrees_evaluateName (decl : DeclId) (name : String) (span : Span) :
    Agrees ids b (evaluateName bind decl name span) (evaluateName bind' decl name span) := by
  refine .bind_look fun t tallies => ?_
  split
  · rename_i constant
    refine (binds decl ((tallies.constants decl).mp constant)).bind fun _ => .bind_look fun t _ => ?_
    split
    · exact .pure _
    · exact .fail _ _
  · refine .bind_look fun t _ => ?_
    split
    · exact .pure _
    · exact .fail _ _

theorem agrees_evaluateWith : ∀ e : Expr, Agrees ids b (e.evaluateWith bind) (e.evaluateWith bind')
  | ⟨.deferred _, _, _⟩ | ⟨.call _ _, _, _⟩ | ⟨.assign _ _, _, _⟩ => .fail _ _
  | ⟨.boolean _, _, _⟩ | ⟨.integer _, _, _⟩ | ⟨.float _, _, _⟩ => .pure _
  | ⟨.name decl name, _, span⟩ => agrees_evaluateName binds decl name span
  | ⟨.unary _ e, _, span⟩ | ⟨.converted _ e, _, span⟩ =>
    (agrees_evaluateWith e).bind fun _ => agrees_computed span _
  | ⟨.binary (.arithmetic _) left right, _, span⟩
  | ⟨.binary (.comparison _) left right, _, span⟩ =>
    (agrees_evaluateWith left).bind fun _ =>
      (agrees_evaluateWith right).bind fun _ => agrees_computed span _
  | ⟨.binary (.connective op) left right, _, _⟩ => by
    refine (agrees_evaluateWith left).bind fun c => (agrees_truth left.span c).bind fun l => ?_
    split
    · exact .pure _
    · exact (agrees_evaluateWith right).bind fun c => (agrees_truth right.span c).bind fun _ => .pure _

end Expr

namespace TypePhrase

theorem agrees_typedIn (e : Phrase) : Agrees ids b (typedIn e) (typedIn e) :=
  .bind_get fun _ _ => .ofExcept _

theorem agrees_arrayOf (element : Ty) (extent : Constant) (position : Position) :
    Agrees ids b (arrayOf element extent position) (arrayOf element extent position) := by
  unfold arrayOf
  split
  · exact .pure _
  · exact .fail _ _

variable (binds : ∀ id ∈ ids, Agrees ids b (bind id) (bind' id))

include binds

theorem agrees_resolved : ∀ phrase : TypePhrase,
    Agrees ids b (phrase.resolved bind) (phrase.resolved bind')
  | .name _ => .bind_get fun _ _ => .ofExcept _
  | .auto | .decltypeAuto => .pure _
  | .decltype e => (agrees_typedIn e).map _
  | .qualified inner _ | .pointer inner | .reference inner | .sequence inner =>
    (agrees_resolved inner).map _
  | .array element extent =>
    (agrees_resolved element).bind fun type => (agrees_typedIn extent).bind fun e =>
      (e.agrees_evaluateWith binds).bind fun value => agrees_arrayOf type value _

theorem agrees_check (part : TypePart) : Agrees ids b (check bind part) (check bind' part) := by
  cases part with
  | type phrase => exact (agrees_resolved binds phrase).map _
  | expression e => exact (agrees_typedIn e).map _

theorem agrees_checks : ∀ parts : List TypePart,
    Agrees ids b (parts.forM (check bind)) (parts.forM (check bind'))
  | [] => .pure _
  | part :: rest => (agrees_check binds part).bind fun _ => agrees_checks rest

theorem agrees_typeOf (tokens : List Token) :
    Agrees ids b (typeOf bind tokens) (typeOf bind' tokens) := by
  unfold typeOf
  split
  · exact agrees_resolved binds _
  · exact (agrees_checks binds _).bind fun _ => .throw _

end TypePhrase

namespace Resolution

theorem agrees_forceExpression (e : Expr) : Agrees ids b (forceExpression e) (forceExpression e) :=
  .bind_get fun _ _ => .ofExcept _

theorem agrees_settleType (id : DeclId) (declared : Ty) (init : Expr) :
    Agrees ids b (settleType id declared init) (settleType id declared init) := by
  unfold settleType
  split
  · exact (Agrees.modify fun t tallies => tallies.modifyDecl id fun d => d.isConstant_withTypeIn _ _).bind
      fun _ => .pure _
  · exact .ofExcept _

variable (binds : ∀ id ∈ ids, Agrees ids b (bind id) (bind' id))

include binds

theorem agrees_forceTypeWith (type : Ty) :
    Agrees ids b (forceTypeWith bind type) (forceTypeWith bind' type) := by
  unfold forceTypeWith
  split
  · exact (TypePhrase.agrees_typeOf binds _).rethrow _
  · exact .pure _

theorem agrees_forceSlotWith (id : DeclId) (slot : TypeSlot) :
    Agrees ids b (forceSlotWith bind id slot) (forceSlotWith bind' id slot) := by
  refine .bind_look fun t _ => ?_
  split
  · exact .fail _ _
  · split
    · exact (agrees_forceTypeWith binds _).bind fun type =>
        .modify fun t tallies => tallies.modifyDecl id fun d => d.isConstant_withTypeIn slot type
    · exact .pure _

theorem agrees_forceObjectWith (id : DeclId) (scope : ScopeId) (init : Expr) :
    Agrees ids b (forceObjectWith bind id scope init) (forceObjectWith bind' id scope init) :=
  ((agrees_forceSlotWith binds id .declared).bind fun _ => agrees_forceExpression init).under scope

theorem agrees_settleObjectWith (id : DeclId) :
    Agrees ids b (settleObjectWith bind id) (settleObjectWith bind' id) := by
  refine .bind_look fun t _ => ?_
  split
  · exact .pure _
  refine (agrees_forceObjectWith binds _ _ _).bind fun init => .bind_look fun t _ => ?_
  split
  · exact .bind_look fun _ _ => .fail _ _
  refine (agrees_settleType id _ init).bind fun init => ?_
  have last : Agrees ids b (modify (·.modifyDecl id (·.withInitializer init)) : Resolution PUnit)
      (modify (·.modifyDecl id (·.withInitializer init))) :=
    .modify fun t tallies => tallies.modifyDecl id fun d => d.isConstant_withInitializer init
  split
  · exact (init.agrees_evaluateWith binds).bind fun value =>
      (Agrees.modify (f := (·.setConstant id value)) fun t tallies => tallies.of_same rfl rfl).bind
        fun _ => last
  · exact last

end Resolution

end Congruence

/-! ## How deep constants nest -/

/-- The constants of a table. -/
def SymbolTable.constantDecls (t : SymbolTable) : List DeclId :=
  ((List.range t.decls.size).map DeclId.mk).filter fun id => (t.decl id).isConstant

theorem SymbolTable.mem_constantDecls {id : DeclId} :
    id ∈ t.constantDecls ↔ (t.decl id).isConstant = true := by
  constructor
  · exact fun member => (List.mem_filter.mp member).2
  · exact fun constant => List.mem_filter.mpr
      ⟨List.mem_map.mpr ⟨id.index, List.mem_range.mpr (lt_size_of_kind (kind_of_isConstant constant)), rfl⟩, constant⟩

theorem SymbolTable.length_constantDecls_le (t : SymbolTable) :
    t.constantDecls.length ≤ t.decls.size :=
  Nat.le_trans (List.length_filter_le ..) (by simp)

theorem Tallies.here (t : SymbolTable) : Tallies t.constantDecls t.binding t :=
  ⟨fun _ => mem_constantDecls.symm, rfl, t.length_constantDecls_le⟩

/-- How many constants are not being computed. -/
def remaining (ids b : List DeclId) : Nat := (ids.filter (· ∉ b)).length

theorem mem_of_remaining_eq_zero (h : remaining ids b = 0) {id : DeclId} (member : id ∈ ids) :
    id ∈ b := by
  by_contra free
  have none := List.length_eq_zero_iff.mp h
  have some : id ∈ ids.filter (· ∉ b) := List.mem_filter.mpr ⟨member, decide_eq_true free⟩
  rw [none] at some
  cases some

/-- One constant fewer remains when one of them is entered. -/
theorem remaining_cons_lt {id : DeclId} (member : id ∈ ids) (free : id ∉ b) :
    remaining ids (id :: b) < remaining ids b := by
  have both : ids.filter (· ∉ id :: b) = (ids.filter (· ∉ b)).filter (· ≠ id) := by
    rw [List.filter_filter]
    congr 1
    funext other
    simp
  unfold remaining
  rw [both]
  exact List.length_filter_lt_length_iff_exists.mpr
    ⟨id, List.mem_filter.mpr ⟨member, decide_eq_true free⟩, by simp⟩

namespace Resolution

/-- A constant is entered only if it is not being computed. -/
theorem agrees_enterConstant {settle settle' : DeclId → Resolution Unit} {id : DeclId}
    (settles : id ∉ b → Agrees ids (id :: b) (settle id) (settle' id)) :
    Agrees ids b (enterConstant settle id) (enterConstant settle' id) := by
  intro t tallies r t' run
  rcases runs_enterConstant.mp run with ⟨inside, refused⟩ | ⟨free, t₁, inner, rfl⟩
  · have same := (runs_selfDependent.mp refused).2
    exact ⟨runs_enterConstant.mpr (.inl ⟨inside, refused⟩), same ▸ tallies⟩
  · have started : Tallies ids (id :: b) { t with binding := id :: t.binding } :=
      ⟨tallies.constants, congrArg (id :: ·) tallies.binding, tallies.enough⟩
    have free' : id ∉ b := tallies.binding ▸ free
    obtain ⟨inner', after⟩ := settles free' started inner
    refine ⟨runs_enterConstant.mpr (.inr ⟨free, t₁, inner', rfl⟩), ?_⟩
    exact ⟨after.constants, binding_finishBinding after.binding free', after.enough⟩

/-- Where every constant is being computed, none is entered. -/
theorem agrees_refused {settle : DeclId → Resolution Unit} {id : DeclId} (inside : id ∈ b) :
    Agrees ids b (selfDependent id) (enterConstant settle id) := by
  intro t tallies r t' run
  have same := (runs_selfDependent.mp run).2
  exact ⟨runs_enterConstant.mpr (.inl ⟨tallies.binding ▸ inside, run⟩), same ▸ tallies⟩

/-- A constant that has its value is left alone. -/
theorem agrees_unlessKnown {x y : Resolution Unit} (id : DeclId) (h : Agrees ids b x y) :
    Agrees ids b
      (do
        if (← look (·.constant? id)).isSome then return
        x)
      (do
        if (← look (·.constant? id)).isSome then return
        y) := by
  refine .bind_look fun t _ => ?_
  split
  · exact .pure _
  · exact h

/-- Each constant that is entered leaves one fewer to be entered inside it. -/
theorem agrees_bindNested (bottom : DeclId → Resolution Unit) : ∀ (level bound : Nat) (b : List DeclId),
    remaining ids b ≤ level → level ≤ bound → ∀ id ∈ ids,
    Agrees ids b (ensureConstantWithin bound id) (bindNested bottom level id)
  | 0, 0, _, few, _, id, member =>
    agrees_unlessKnown id (agrees_refused (mem_of_remaining_eq_zero (Nat.le_zero.mp few) member))
  | 0, _ + 1, _, few, _, id, member =>
    agrees_unlessKnown id (agrees_enterConstant fun free =>
      absurd (mem_of_remaining_eq_zero (Nat.le_zero.mp few) member) free)
  | level + 1, bound + 1, b, few, enough, id, member =>
    agrees_unlessKnown id (agrees_enterConstant fun free =>
      agrees_settleObjectWith (agrees_bindNested bottom level bound (id :: b)
        (Nat.le_of_lt_succ (Nat.lt_of_lt_of_le (remaining_cons_lt member free) few))
        (Nat.le_of_succ_le_succ enough)) id)

theorem agrees_ensureConstant (bottom : DeclId → Resolution Unit) :
    ∀ id ∈ ids, Agrees ids b (ensureConstant id) (bindNested bottom (remaining ids b) id) := by
  intro id member t tallies r t' run
  have enough : remaining ids b ≤ t.decls.size := Nat.le_trans (List.length_filter_le ..) tallies.enough
  exact agrees_bindNested bottom _ _ b (Nat.le_refl _) enough id member tallies (runs_bind_look.mp run)

/-- What agrees with itself however deep constants are followed nests no deeper than there are constants
that are not being computed. -/
theorem nestsWithin_of_agrees {action : (DeclId → Resolution Unit) → Resolution α} (t : SymbolTable)
    (h : ∀ bind', (∀ id ∈ t.constantDecls, Agrees t.constantDecls t.binding (ensureConstant id) (bind' id)) →
      Agrees t.constantDecls t.binding (action ensureConstant) (action bind')) :
    NestsWithin (remaining t.constantDecls t.binding) action t := by
  have agrees (bottom : DeclId → Resolution Unit) := h _ (agrees_ensureConstant bottom)
  have run : Runs (action ensureConstant) t _ _ := .of_run _ t
  refine ⟨(agrees (fun _ => pure ()) (.here t) run).2.binding, fun bottom => ?_⟩
  exact (agrees bottom (.here t) run).1

/-- No level is left out: giving a constant its value is entering it, unless it has its value, with other
constants given their values in just that way. -/
theorem agrees_unfolded {id : DeclId} (member : id ∈ ids) :
    Agrees ids b (ensureConstant id) (do
      if (← look (·.constant? id)).isSome then return
      enterConstant settleObject id) := by
  intro t tallies r t' run
  have few : remaining ids b ≤ t.decls.size := Nat.le_trans (List.length_filter_le ..) tallies.enough
  have some : 0 < t.decls.size := Nat.lt_of_lt_of_le (List.length_pos_of_mem member) tallies.enough
  obtain ⟨bound, size⟩ := Nat.exists_eq_add_one.mpr some
  have run := runs_bind_look.mp run
  rw [size] at run few
  refine agrees_unlessKnown id (agrees_enterConstant fun free => ?_) tallies run
  have fewer : remaining ids (id :: b) ≤ bound :=
    Nat.le_of_lt_succ (Nat.lt_of_lt_of_le (remaining_cons_lt member free) few)
  refine agrees_settleObjectWith (fun other inside => ?_) id
  exact (agrees_bindNested (fun _ => pure ()) _ _ _ (Nat.le_refl _) fewer other inside).trans
    (agrees_ensureConstant _ other inside).symm

/-- A constant that is being computed is refused. -/
theorem run_ensureConstant_of_mem_binding {id : DeclId} (inside : id ∈ t.binding)
    (unknown : t.constant? id = none) :
    (ensureConstant id).run.run t =
      (.error { cause := .notEvaluable (.selfDependent (t.decl id).name)
                position := (t.decl id).span.start }, t) := by
  have refused : Runs (selfDependent id) t _ t := runs_selfDependent.mpr ⟨rfl, rfl⟩
  have lacks : ¬(t.constant? id).isSome = true := by simp [unknown]
  refine runs_bind_look.mpr ?_
  cases t.decls.size with
  | zero =>
    refine runs_bind_look.mpr ?_
    rw [if_neg lacks]
    exact refused
  | succ level =>
    refine runs_bind_look.mpr ?_
    rw [if_neg lacks]
    exact runs_enterConstant.mpr (.inl ⟨inside, refused⟩)

end Resolution

/-- Computing constants ends. In a table that has been reached no constant is being computed; whatever is
evaluated, bound, defined or resolved there enters at most as many constants one inside the other as there
are constants. Each is entered by the same rule, unless it is being computed: then it is refused by its
name. -/
theorem constants_nest_of_reached {t : SymbolTable} {us : List SourceUnit} (h : Reached t us) :
    t.binding = [] ∧
    ((∀ e : Expr, NestsWithin t.constantDecls.length (e.evaluateWith ·) t) ∧
      (∀ id ∈ t.constantDecls, NestsWithin t.constantDecls.length (· id) t) ∧
      (∀ id, NestsWithin t.constantDecls.length (settleObjectWith · id) t) ∧
      (∀ type, NestsWithin t.constantDecls.length (forceTypeWith · type) t) ∧
      (∀ id slot, NestsWithin t.constantDecls.length (forceSlotWith · id slot) t) ∧
      ∀ e : Expr, (forceExpression e).run.run t = (t.forceExpression e, t)) ∧
    ∀ (inner : SymbolTable) (id : DeclId),
      (id ∈ inner.constantDecls → (ensureConstant id).run.run inner =
        (do
          if (← look (·.constant? id)).isSome then return
          enterConstant settleObject id : Resolution Unit).run.run inner) ∧
      (id ∈ inner.binding → inner.constant? id = none → (ensureConstant id).run.run inner =
        (.error { cause := .notEvaluable (.selfDependent (inner.decl id).name)
                  position := (inner.decl id).span.start }, inner)) := by
  have idle := h.furnished.2.1
  have all : remaining t.constantDecls t.binding = t.constantDecls.length := by
    simp [remaining, idle]
  rw [← all]
  refine ⟨idle, ⟨?_, ?_, ?_, ?_, ?_, ?_⟩, fun inner id => ⟨fun member => ?_, fun inside unknown => ?_⟩⟩
  · exact fun e => nestsWithin_of_agrees t fun _ binds => e.agrees_evaluateWith binds
  · exact fun id member => nestsWithin_of_agrees t fun _ binds => binds id member
  · exact fun id => nestsWithin_of_agrees t fun _ binds => agrees_settleObjectWith binds id
  · exact fun type => nestsWithin_of_agrees t fun _ binds => agrees_forceTypeWith binds type
  · exact fun id slot => nestsWithin_of_agrees t fun _ binds => agrees_forceSlotWith binds id slot
  · exact fun e => runs_bind_get.mpr (runs_ofExcept.mpr ⟨rfl, rfl⟩)
  · exact ((agrees_unfolded member) (.here inner) (.of_run _ inner)).1.symm
  · exact run_ensureConstant_of_mem_binding inside unknown

/-- Two constants that need each other, one of them also for its type. -/
def entangled : List Token :=
  (Token.scan "def a: int32[b] = b; def b: int32 = a;".toList "entangled").toOption.getD []

/-- Two constants nest, and then the first is refused. -/
theorem constants_nest_of_entangled : ∃ t us, Reached t us ∧ t.constantDecls = [⟨0⟩, ⟨1⟩] ∧
    (match ((ensureConstant ⟨0⟩).run.run t).1 with
      | .error d => some d.cause
      | .ok _ => none) = some (.notEvaluable (.selfDependent "a")) ∧
    NestsWithin 2 (· ⟨0⟩) t := by
  have ran : SourceUnit.seen? entangled .empty (fun _ t =>
      (t.constantDecls, match ((ensureConstant ⟨0⟩).run.run t).1 with
        | .error d => some d.cause
        | .ok _ => none)) = some ([⟨0⟩, ⟨1⟩], some (.notEvaluable (.selfDependent "a"))) := by
    unfold entangled
    rewrite [String.toList_ofList]
    decide +kernel
  obtain ⟨u, t, read, seen⟩ := SourceUnit.exists_of_seen? ran
  obtain ⟨constants, refused⟩ := Prod.mk.inj seen
  have reached := Reached.empty.read read
  have nests := (constants_nest_of_reached reached).2.1.2.1 ⟨0⟩ (by rw [constants]; decide)
  rw [constants] at nests
  exact ⟨t, _, reached, constants, refused, nests⟩

end Deferral
