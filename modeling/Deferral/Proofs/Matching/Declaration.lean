import Deferral.Proofs.Matching.Labelled
import Deferral.Proofs.Matching.Typing
import Deferral.Resolution.Name

/-!
# Statements and declarations that match

Two statements, bodies or declarations match when they are the same with their labels, apart from places,
and the types of the expressions in them are tame. What matches has the same form, and its parts match.
-/

namespace Deferral

variable {L R : Labels}

/-! ## Statements -/

/-- Two statements are the same with their labels, apart from places, and hold expressions of tame
types. -/
structure Stmt.Matches (L R : Labels) (s s' : Stmt) : Prop where
  same : s.labelled L = s'.labelled R
  tame : ∀ e ∈ s.expressions, e.type.Tame
  tame' : ∀ e ∈ s'.expressions, e.type.Tame

namespace Stmt

/-- Two sequences of statements match. -/
structure AllMatch (L R : Labels) (body body' : List Stmt) : Prop where
  same : allLabelled L body = allLabelled R body'
  tame : ∀ e ∈ expressionsIn body, e.type.Tame
  tame' : ∀ e ∈ expressionsIn body', e.type.Tame

/-- What stands behind two `else`s matches, or nothing does. -/
structure ElsesMatch (L R : Labels) (onFalse onFalse' : Option Stmt) : Prop where
  same : elseLabelled L onFalse = elseLabelled R onFalse'
  tame : ∀ e ∈ expressionsBehindElse onFalse, e.type.Tame
  tame' : ∀ e ∈ expressionsBehindElse onFalse', e.type.Tame

namespace AllMatch

variable {s s' : Stmt} {body body' rest rest' : List Stmt}

theorem nil : AllMatch L R [] [] := ⟨rfl, List.forall_mem_nil _, List.forall_mem_nil _⟩

theorem cons (first : s.Matches L R s') (others : AllMatch L R rest rest') :
    AllMatch L R (s :: rest) (s' :: rest') :=
  ⟨congrArg₂ List.cons first.same others.same,
    fun e member => (List.mem_append.mp member).elim (first.tame e) (others.tame e),
    fun e member => (List.mem_append.mp member).elim (first.tame' e) (others.tame' e)⟩

theorem eq_nil (h : AllMatch L R [] body') : body' = [] := by
  cases body' with
  | nil => rfl
  | cons s' rest' => cases h.same

theorem of_cons (h : AllMatch L R (s :: rest) body') :
    ∃ s' rest', body' = s' :: rest' ∧ s.Matches L R s' ∧ AllMatch L R rest rest' := by
  cases body' with
  | nil => cases h.same
  | cons s' rest' =>
    obtain ⟨first, others⟩ := List.cons.inj h.same
    exact ⟨s', rest', rfl,
      ⟨first, fun e member => h.tame e (List.mem_append_left _ member),
        fun e member => h.tame' e (List.mem_append_left _ member)⟩,
      others, fun e member => h.tame e (List.mem_append_right _ member),
      fun e member => h.tame' e (List.mem_append_right _ member)⟩

theorem iff_forall₂ : AllMatch L R body body' ↔ List.Forall₂ (Matches L R) body body' := by
  constructor
  · intro h
    induction body generalizing body' with
    | nil =>
      obtain rfl := h.eq_nil
      exact .nil
    | cons s rest ih =>
      obtain ⟨s', rest', rfl, first, others⟩ := h.of_cons
      exact .cons first (ih others)
  · intro h
    induction h with
    | nil => exact .nil
    | cons first _ ih => exact .cons first ih

theorem append (h : AllMatch L R body body') (h' : AllMatch L R rest rest') :
    AllMatch L R (body ++ rest) (body' ++ rest') :=
  iff_forall₂.mpr (List.rel_append (iff_forall₂.mp h) (iff_forall₂.mp h'))

end AllMatch

namespace Matches

variable {s s' : Stmt} {body : List Stmt} {e : Expr} {onTrue : Stmt} {onFalse : Option Stmt} {id : Nat}
  {decl : DeclId} {span span' : Span}

theorem of_block (h : (block id body span).Matches L R s') : ∃ id' body' span',
    s' = block id' body' span' ∧ L.block id = R.block id' ∧ AllMatch L R body body' := by
  cases s' with
  | block id' body' span' =>
    obtain ⟨number, same, -⟩ := Stmt.block.inj h.same
    exact ⟨id', body', span', rfl, number, same, h.tame, h.tame'⟩
  | _ => cases h.same

theorem block {id' : Nat} {body' : List Stmt} (number : L.block id = R.block id')
    (h : AllMatch L R body body') : (block id body span).Matches L R (.block id' body' span') :=
  ⟨congrArg₂ (Stmt.block · · .nowhere) number h.same, h.tame, h.tame'⟩

theorem of_returning {value : Option Expr} (h : (returning value span).Matches L R s') :
    ∃ value' span', s' = returning value' span' ∧
      Option.Rel (Expr.Matches L.decl R.decl) value value' := by
  cases s' with
  | returning value' span' =>
    obtain ⟨same, -⟩ := Stmt.returning.inj h.same
    refine ⟨value', span', rfl, ?_⟩
    cases value with
    | none =>
      cases value' with
      | none => exact .none
      | some e' => cases same
    | some e =>
      cases value' with
      | none => cases same
      | some e' => exact .some ⟨Option.some.inj same, h.tame e (List.mem_singleton_self e),
          h.tame' e' (List.mem_singleton_self e')⟩
  | _ => cases h.same

theorem returning {value value' : Option Expr}
    (h : Option.Rel (Expr.Matches L.decl R.decl) value value') :
    (returning value span).Matches L R (.returning value' span') := by
  cases h with
  | none => exact ⟨rfl, List.forall_mem_nil _, List.forall_mem_nil _⟩
  | some h => exact ⟨congrArg (fun e => Stmt.returning (some e) .nowhere) h.same, List.forall_mem_singleton.mpr h.tame,
      List.forall_mem_singleton.mpr h.tame'⟩

theorem of_yielding (h : (yielding e span).Matches L R s') :
    ∃ e' span', s' = yielding e' span' ∧ e.Matches L.decl R.decl e' := by
  cases s' with
  | yielding e' span' =>
    exact ⟨e', span', rfl, (Stmt.yielding.inj h.same).1, h.tame e (List.mem_singleton_self e),
      h.tame' e' (List.mem_singleton_self e')⟩
  | _ => cases h.same

theorem yielding {e' : Expr} (h : e.Matches L.decl R.decl e') :
    (yielding e span).Matches L R (.yielding e' span') :=
  ⟨congrArg (Stmt.yielding · .nowhere) h.same, List.forall_mem_singleton.mpr h.tame,
    List.forall_mem_singleton.mpr h.tame'⟩

theorem of_conditional (h : (conditional e onTrue onFalse span).Matches L R s') :
    ∃ e' onTrue' onFalse' span', s' = conditional e' onTrue' onFalse' span' ∧
      e.Matches L.decl R.decl e' ∧ onTrue.Matches L R onTrue' ∧ ElsesMatch L R onFalse onFalse' := by
  cases s' with
  | conditional e' onTrue' onFalse' span' =>
    obtain ⟨condition, first, second, -⟩ := Stmt.conditional.inj h.same
    obtain ⟨tame, others⟩ := List.forall_mem_cons.mp h.tame
    obtain ⟨tame', others'⟩ := List.forall_mem_cons.mp h.tame'
    obtain ⟨whole, rest⟩ := List.forall_mem_append.mp others
    obtain ⟨whole', rest'⟩ := List.forall_mem_append.mp others'
    exact ⟨e', onTrue', onFalse', span', rfl, ⟨condition, tame, tame'⟩, ⟨first, whole, whole'⟩, second, rest,
      rest'⟩
  | _ => cases h.same

theorem conditional {e' : Expr} {onTrue' : Stmt} {onFalse' : Option Stmt}
    (h : e.Matches L.decl R.decl e') (first : onTrue.Matches L R onTrue')
    (second : ElsesMatch L R onFalse onFalse') :
    (conditional e onTrue onFalse span).Matches L R (.conditional e' onTrue' onFalse' span') := by
  refine ⟨?_, List.forall_mem_cons.mpr ⟨h.tame, List.forall_mem_append.mpr ⟨first.tame, second.tame⟩⟩,
    List.forall_mem_cons.mpr ⟨h.tame', List.forall_mem_append.mpr ⟨first.tame', second.tame'⟩⟩⟩
  show Stmt.conditional _ _ _ _ = .conditional _ _ _ _
  rw [h.same, first.same, second.same]

theorem of_whileLoop (h : (whileLoop e onTrue span).Matches L R s') : ∃ e' onTrue' span',
    s' = whileLoop e' onTrue' span' ∧ e.Matches L.decl R.decl e' ∧ onTrue.Matches L R onTrue' := by
  cases s' with
  | whileLoop e' onTrue' span' =>
    obtain ⟨condition, body, -⟩ := Stmt.whileLoop.inj h.same
    obtain ⟨tame, rest⟩ := List.forall_mem_cons.mp h.tame
    obtain ⟨tame', rest'⟩ := List.forall_mem_cons.mp h.tame'
    exact ⟨e', onTrue', span', rfl, ⟨condition, tame, tame'⟩, body, rest, rest'⟩
  | _ => cases h.same

theorem whileLoop {e' : Expr} {onTrue' : Stmt} (h : e.Matches L.decl R.decl e')
    (body : onTrue.Matches L R onTrue') :
    (whileLoop e onTrue span).Matches L R (.whileLoop e' onTrue' span') := by
  refine ⟨?_, List.forall_mem_cons.mpr ⟨h.tame, body.tame⟩, List.forall_mem_cons.mpr ⟨h.tame', body.tame'⟩⟩
  show Stmt.whileLoop _ _ _ = .whileLoop _ _ _
  rw [h.same, body.same]

theorem of_breaking (h : (breaking span).Matches L R s') : ∃ span', s' = breaking span' := by
  cases s' with
  | breaking span' => exact ⟨span', rfl⟩
  | _ => cases h.same

theorem of_continuing (h : (continuing span).Matches L R s') : ∃ span', s' = continuing span' := by
  cases s' with
  | continuing span' => exact ⟨span', rfl⟩
  | _ => cases h.same

theorem breaking : (breaking span).Matches L R (.breaking span') :=
  ⟨rfl, List.forall_mem_nil _, List.forall_mem_nil _⟩

theorem continuing : (continuing span).Matches L R (.continuing span') :=
  ⟨rfl, List.forall_mem_nil _, List.forall_mem_nil _⟩

theorem of_declaration (h : (declaration decl span).Matches L R s') :
    ∃ decl' span', s' = declaration decl' span' ∧ L.held decl = R.held decl' := by
  cases s' with
  | declaration decl' span' => exact ⟨decl', span', rfl, (Stmt.declaration.inj h.same).1⟩
  | _ => cases h.same

theorem declaration {decl' : DeclId} (same : L.held decl = R.held decl') :
    (declaration decl span).Matches L R (.declaration decl' span') :=
  ⟨congrArg (Stmt.declaration · .nowhere) same, List.forall_mem_nil _, List.forall_mem_nil _⟩

theorem of_expression (h : (expression e).Matches L R s') :
    ∃ e', s' = expression e' ∧ e.Matches L.decl R.decl e' := by
  cases s' with
  | expression e' =>
    exact ⟨e', rfl, Stmt.expression.inj h.same, h.tame e (List.mem_singleton_self e),
      h.tame' e' (List.mem_singleton_self e')⟩
  | _ => cases h.same

theorem expression {e' : Expr} (h : e.Matches L.decl R.decl e') :
    (expression e).Matches L R (.expression e') :=
  ⟨congrArg Stmt.expression h.same, List.forall_mem_singleton.mpr h.tame,
    List.forall_mem_singleton.mpr h.tame'⟩

/-- Declaration statements match only declaration statements of the same label. -/
theorem declaration? (h : s.Matches L R s') :
    s.declaration?.map L.held = s'.declaration?.map R.held := by
  cases s with
  | declaration decl span =>
    obtain ⟨decl', span', rfl, same⟩ := h.of_declaration
    exact congrArg some same
  | _ =>
    cases s' with
    | declaration decl' span' => cases h.same
    | _ => rfl

end Matches

namespace ElsesMatch

variable {s s' : Stmt} {onFalse' : Option Stmt}

theorem none : ElsesMatch L R none none :=
  ⟨rfl, List.forall_mem_nil _, List.forall_mem_nil _⟩

theorem some (h : s.Matches L R s') : ElsesMatch L R (some s) (some s') :=
  ⟨congrArg Option.some h.same, h.tame, h.tame'⟩

theorem eq_none (h : ElsesMatch L R .none onFalse') : onFalse' = .none := by
  cases onFalse' with
  | none => rfl
  | some s' => cases h.same

theorem of_some (h : ElsesMatch L R (.some s) onFalse') :
    ∃ s', onFalse' = .some s' ∧ s.Matches L R s' := by
  cases onFalse' with
  | none => cases h.same
  | some s' => exact ⟨s', rfl, Option.some.inj h.same, h.tame, h.tame'⟩

end ElsesMatch

end Stmt

/-! ## Bodies and functions -/

/-- Two bodies of functions match. -/
structure Body.Matches (L R : Labels) (b b' : Body) : Prop where
  same : b.labelled L = b'.labelled R
  tame : ∀ e ∈ b.expressions, e.type.Tame
  tame' : ∀ e ∈ b'.expressions, e.type.Tame

namespace Body.Matches

variable {b' : Body} {s s' : Stmt} {e e' : Expr}

theorem absent : Body.absent.Matches L R .absent :=
  ⟨rfl, List.forall_mem_nil _, List.forall_mem_nil _⟩

theorem statement (h : s.Matches L R s') : (Body.statement s).Matches L R (.statement s') :=
  ⟨congrArg Body.statement h.same, h.tame, h.tame'⟩

theorem expression (h : e.Matches L.decl R.decl e') :
    (Body.expression e).Matches L R (.expression e') :=
  ⟨congrArg Body.expression h.same, List.forall_mem_singleton.mpr h.tame,
    List.forall_mem_singleton.mpr h.tame'⟩

theorem eq_absent (h : Body.absent.Matches L R b') : b' = .absent := by
  cases b' with
  | absent => rfl
  | _ => cases h.same

theorem of_statement (h : (Body.statement s).Matches L R b') :
    ∃ s', b' = .statement s' ∧ s.Matches L R s' := by
  cases b' with
  | statement s' => exact ⟨s', rfl, Body.statement.inj h.same, h.tame, h.tame'⟩
  | _ => cases h.same

theorem of_expression (h : (Body.expression e).Matches L R b') :
    ∃ e', b' = .expression e' ∧ e.Matches L.decl R.decl e' := by
  cases b' with
  | expression e' =>
    exact ⟨e', rfl, Body.expression.inj h.same, h.tame e (List.mem_singleton_self e),
      h.tame' e' (List.mem_singleton_self e')⟩
  | _ => cases h.same

end Body.Matches

/-- The parts of two functions match. -/
structure Callable.Matches (L R : Labels) (c c' : Callable) : Prop where
  parameters : c.parameters.map L.decl = c'.parameters.map R.decl
  result : c.result.Matches L.decl R.decl c'.result
  type : c.type.Matches L.decl R.decl c'.type
  body : c.body.Matches L R c'.body
  typeParameters : c.typeParameters.map L.decl = c'.typeParameters.map R.decl

theorem Callable.Matches.same {c c' : Callable} (h : c.Matches L R c') :
    c.labelled L = c'.labelled R := by
  unfold Callable.labelled
  rw [h.parameters, h.result.same, h.type.same, h.body.same, h.typeParameters]

/-! ## Declarations -/

/-- Two declarations are the same with their labels, apart from places and members, and hold tame
types. -/
structure Decl.Matches (L R : Labels) (d d' : Decl) : Prop where
  same : d.labelled L = d'.labelled R
  tame : d.kind.Tame
  tame' : d'.kind.Tame

namespace Decl.Matches

variable {d d' : Decl}

theorem name (h : d.Matches L R d') : d'.name = d.name :=
  (congrArg Decl.name h.same).symm

theorem scope (h : d.Matches L R d') : L.scope d.scope = R.scope d'.scope :=
  congrArg Decl.scope h.same

theorem kind (h : d.Matches L R d') : d.kind.labelled L = d'.kind.labelled R :=
  congrArg Decl.kind h.same

theorem subject (h : d.Matches L R d') : d'.subject = d.subject := by
  rw [← subject_labelled (L := L) d, h.same, subject_labelled]

theorem isExtension (h : d.Matches L R d') : d'.isExtension = d.isExtension := by
  rw [← isExtension_labelled (L := L) d, h.same, isExtension_labelled]

theorem isPrimaryClass (h : d.Matches L R d') : d'.isPrimaryClass = d.isPrimaryClass := by
  rw [← isPrimaryClass_labelled (L := L) d, h.same, isPrimaryClass_labelled]

theorem isTypeParameter (h : d.Matches L R d') : d'.isTypeParameter = d.isTypeParameter := by
  rw [← isTypeParameter_labelled (L := L) d, h.same, isTypeParameter_labelled]

theorem isConstant (h : d.Matches L R d') : d'.isConstant = d.isConstant := by
  rw [← isConstant_labelled (L := L) d, h.same, isConstant_labelled]

theorem typeIn? (h : d.Matches L R d') (slot : TypeSlot) :
    Option.Rel (Ty.Matches L.decl R.decl) (d.typeIn? slot) (d'.typeIn? slot) := by
  have same : (d.typeIn? slot).map (Ty.labelled L.decl) = (d'.typeIn? slot).map (Ty.labelled R.decl) := by
    rw [← typeIn?_labelled, h.same, typeIn?_labelled]
  have tame {type : Ty} (held : d.typeIn? slot = some type) := tame_typeIn? h.tame held
  have tame' {type : Ty} (held : d'.typeIn? slot = some type) := tame_typeIn? h.tame' held
  generalize d.typeIn? slot = type? at same tame
  generalize d'.typeIn? slot = type?' at same tame'
  cases type? with
  | none =>
    cases type?' with
    | none => exact .none
    | some _ => cases same
  | some type =>
    cases type?' with
    | none => cases same
    | some type' => exact .some ⟨Option.some.inj same, tame rfl, tame' rfl⟩

theorem ownType? (h : d.Matches L R d') :
    Option.Rel (Ty.Matches L.decl R.decl) d.ownType? d'.ownType? := h.typeIn? .declared

theorem initializer? (h : d.Matches L R d') :
    Option.Rel (Expr.Matches L.decl R.decl) d.initializer? d'.initializer? := by
  have same : d.initializer?.map (Expr.labelled L.decl) = d'.initializer?.map (Expr.labelled R.decl) := by
    rw [← initializer?_labelled, h.same, initializer?_labelled]
  have tame {e : Expr} := tame_initializer? (d := d) h.tame (e := e)
  have tame' {e : Expr} := tame_initializer? (d := d') h.tame' (e := e)
  generalize d.initializer? = init at same tame
  generalize d'.initializer? = init' at same tame'
  cases init with
  | none =>
    cases init' with
    | none => exact .none
    | some _ => cases same
  | some e =>
    cases init' with
    | none => cases same
    | some e' => exact .some ⟨Option.some.inj same, tame rfl, tame' rfl⟩

theorem callable? (h : d.Matches L R d') :
    Option.Rel (Callable.Matches L R) d.callable? d'.callable? := by
  have same : d.callable?.map (Callable.labelled L) = d'.callable?.map (Callable.labelled R) := by
    rw [← callable?_labelled, h.same, callable?_labelled]
  have tame {c : Callable} := tame_callable? (d := d) h.tame (c := c)
  have tame' {c : Callable} := tame_callable? (d := d') h.tame' (c := c)
  generalize d.callable? = c? at same tame
  generalize d'.callable? = c?' at same tame'
  cases c? with
  | none =>
    cases c?' with
    | none => exact .none
    | some _ => cases same
  | some c =>
    cases c?' with
    | none => cases same
    | some c' =>
      obtain ⟨parameters, result, type, body, typeParameters⟩ := Callable.mk.inj (Option.some.inj same)
      obtain ⟨tameResult, tameType, tameBody⟩ := tame rfl
      obtain ⟨tameResult', tameType', tameBody'⟩ := tame' rfl
      exact .some ⟨parameters, ⟨result, tameResult, tameResult'⟩, ⟨type, tameType, tameType'⟩,
        ⟨body, tameBody, tameBody'⟩, typeParameters⟩

/-- A use of a declaration has a type that matches. -/
theorem typeOfUse? (h : d.Matches L R d') :
    Option.Rel (Ty.Matches L.decl R.decl) (SymbolTable.typeOfUse? d) (SymbolTable.typeOfUse? d') := by
  have use {type type' : Ty} (same : type.Matches L.decl R.decl type') :
      (SymbolTable.useType type).Matches L.decl R.decl (SymbolTable.useType type') := by
    unfold SymbolTable.useType
    rw [same.isDeferred]
    split
    · exact ⟨rfl, trivial, trivial⟩
    · exact same
  have own := h.ownType?
  have callable := h.callable?
  have kinds := h.kind
  unfold SymbolTable.typeOfUse?
  unfold Decl.ownType? Decl.typeIn? at own
  unfold Decl.callable? at callable
  cases kind : d.kind <;> cases kind' : d'.kind <;> rw [kind, kind'] at kinds own callable <;>
    first
    | exact .none
    | (cases own with | some own => exact .some (use own))
    | (cases callable with | some callable => exact .some callable.type)
    | cases kinds

theorem isSome_members? (h : d.Matches L R d') : d'.members?.isSome = d.members?.isSome := by
  rw [← isSome_members?_labelled (L := L) d, h.same, isSome_members?_labelled]

/-! ### Changes -/

theorem withTypeIn (h : d.Matches L R d') (slot : TypeSlot) {type type' : Ty}
    (new : type.Matches L.decl R.decl type') :
    (d.withTypeIn slot type).Matches L R (d'.withTypeIn slot type') :=
  ⟨by rw [labelled_withTypeIn, h.same, new.same, labelled_withTypeIn],
    tame_withTypeIn h.tame slot new.tame, tame_withTypeIn h.tame' slot new.tame'⟩

theorem withInitializer (h : d.Matches L R d') {e e' : Expr} (new : e.Matches L.decl R.decl e') :
    (d.withInitializer e).Matches L R (d'.withInitializer e') :=
  ⟨by rw [labelled_withInitializer, h.same, new.same, labelled_withInitializer],
    tame_withInitializer h.tame new.tame, tame_withInitializer h.tame' new.tame'⟩

theorem mapMembers (h : d.Matches L R d') (f f' : List Stmt → List Stmt) :
    (d.mapMembers f).Matches L R (d'.mapMembers f') :=
  ⟨by rw [labelled_mapMembers, h.same, labelled_mapMembers], tame_mapMembers h.tame f,
    tame_mapMembers h.tame' f'⟩

/-- The parts of two functions may be changed so that they match again. -/
theorem mapCallable (h : d.Matches L R d') {f f' : Callable → Callable}
    (step : ∀ c c', c.Matches L R c' → (f c).Matches L R (f' c')) :
    (d.mapCallable f).Matches L R (d'.mapCallable f') := by
  have parts := h.callable?
  obtain ⟨same, tame, tame'⟩ := h
  obtain ⟨name, kind, scope, span⟩ := d
  obtain ⟨name', kind', scope', span'⟩ := d'
  obtain ⟨rfl, kinds, scopes, -⟩ := Decl.mk.inj same
  cases kind with
  | callable sort c =>
    cases kind' with
    | callable sort' c' =>
      obtain ⟨rfl, -⟩ := Declared.callable.inj kinds
      cases parts with
      | some parts =>
        have new := step _ _ parts
        exact ⟨congrArg₂ (fun c s => Decl.mk name (.callable sort c) s .nowhere) new.same scopes,
          ⟨new.result.tame, new.type.tame, new.body.tame⟩,
          ⟨new.result.tame', new.type.tame', new.body.tame'⟩⟩
    | _ => cases kinds
  | _ =>
    cases kind' with
    | callable sort' c' => cases kinds
    | _ => exact ⟨same, tame, tame'⟩

end Decl.Matches

end Deferral
