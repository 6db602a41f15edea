import Deferral.Proofs.Renaming.Phrase
import Deferral.Proofs.Renaming.Run
import Deferral.Proofs.Renaming.Typing

/-!
# Resolving renamed excerpts

Names are bound, excerpts read and constants computed on the renamed table as they are on the table, to
the renamed expressions and types and to the same values.
-/

namespace Deferral

variable {σ : Renaming} {t t' : SymbolTable}

theorem Excerpt.faulted_renamed (f : Excerpt) (what : String) {d d' : Diagnostic}
    (h : d.Renamed σ d') : (f.faulted what d).Renamed σ ((f.renamed σ).faulted what d') := by
  unfold faulted
  rw [h.cause.isGrammatical]
  split
  · exact .of_cause (.badExcerpt what h.cause) _
  · exact h

/-! ## Names -/

namespace SymbolTable.Renamed

variable (same : t.Renamed σ t')

include same

theorem follows_overloads (token : Token) :
    σ.Follows Eq (t.overloads token) (t'.overloads (token.named σ)) := by
  unfold overloads
  dsimp only [Token.named]
  rw [same.find]
  cases t.find token.text with
  | some set => exact .ok rfl
  | none => exact .fault (.undeclared _) _

theorem preferred? (set : Overloads) : t'.preferred? set = t.preferred? set := by
  unfold SymbolTable.preferred?
  simp only [(same.decl _).isExtension]

theorem follows_reference (token : Token) :
    σ.Follows (Expr.Renames σ) (t.reference token) (t'.reference (token.named σ)) := by
  unfold reference
  refine (same.follows_overloads token).bind ?_
  rintro set _ rfl
  rw [same.preferred?]
  cases t.preferred? set with
  | none => exact .fault (.undeclared _) _
  | some id =>
    dsimp only
    rw [(same.decl id).typeOfUse?, (same.decl id).subject]
    cases SymbolTable.typeOfUse? (t.decl id) with
    | some type => exact .ok rfl
    | none => exact .fault (.notAValue _ _) _

theorem typeOf? (name : String) (set : Overloads) :
    t'.typeOf? (σ.name name) set = (t.typeOf? name set).map (Ty.renamed σ) := by
  unfold SymbolTable.typeOf?
  simp only [(same.decl _).isPrimaryClass, (same.decl _).isExtension, (same.decl _).isTypeParameter]
  cases set.find? fun d => (t.decl d).isPrimaryClass with
  | some id => rfl
  | none =>
    cases set.find? fun d => (t.decl d).isExtension with
    | some id => rfl
    | none => cases set.find? fun d => (t.decl d).isTypeParameter <;> rfl

theorem follows_namedType (token : Token) :
    σ.Follows (fun type type' => type' = type.renamed σ) (t.namedType token)
      (t'.namedType (token.named σ)) := by
  unfold namedType
  dsimp only [Token.named]
  rw [Ty.builtin?_name]
  cases builtin : Ty.builtin? token.text with
  | some type => exact .ok (Ty.renamed_builtin? builtin).symm
  | none =>
    refine (same.follows_overloads token).bind ?_
    rintro set _ rfl
    rw [same.typeOf?]
    cases t.typeOf? token.text set with
    | some type => exact .ok rfl
    | none => exact .fault (.unknownType _) _

end SymbolTable.Renamed

/-! ## Expressions -/

theorem Expr.follows_ofNumber (token : Token) :
    σ.Follows (Renames σ) (ofNumber token) (ofNumber token) := by
  have fault : σ.Follows (Renames σ)
      (.error { cause := .badNumber token.text, position := token.span.start })
      (.error { cause := .badNumber token.text, position := token.span.start }) :=
    .fault (.badNumber _) _
  unfold ofNumber
  dsimp only
  split
  · cases Decimal.float? token.text with
    | some x => exact .ok rfl
    | none => exact fault
  · cases Decimal.natural? token.text.toList with
    | some n =>
      dsimp only
      split
      · refine .ok ?_
        unfold ofInteger
        dsimp only [Renames, Expr.renamed]
        split <;> rfl
      · exact fault
    | none => exact fault

namespace Phrase

mutual

theorem follows_typed (same : t.Renamed σ t') : ∀ p : Phrase,
    σ.Follows (Expr.Renames σ) (p.typed t) ((p.renamed σ).typed t')
  | .number token => Expr.follows_ofNumber token
  | .truth _ _ => .ok rfl
  | .name token => same.follows_reference token
  | .unary op start operand => by
    refine (follows_typed same operand).bind ?_
    rintro e _ rfl
    rw [Expr.span_renamed]
    exact Expr.follows_ofUnary op e _
  | .binary op left right => by
    refine (follows_typed same left).bind ?_
    rintro l _ rfl
    refine (follows_typed same right).bind ?_
    rintro r _ rfl
    exact Expr.follows_ofBinary op l r
  | .assign target value => by
    refine (follows_typed same target).bind ?_
    rintro l _ rfl
    refine (follows_typed same value).bind ?_
    rintro r _ rfl
    exact Expr.follows_ofAssign l r
  | .call callee arguments stop => by
    refine (follows_typed same callee).bind ?_
    rintro f _ rfl
    refine (follows_typedAll same arguments).bind ?_
    rintro es _ rfl
    rw [Expr.span_renamed]
    exact Expr.follows_ofCall f es _

theorem follows_typedAll (same : t.Renamed σ t') : ∀ ps : List Phrase,
    σ.Follows (fun es es' => es' = Expr.allRenamed σ es) (typedAll t ps)
      (typedAll t' (allRenamed σ ps))
  | [] => .ok rfl
  | p :: rest => by
    refine (follows_typed same p).bind ?_
    rintro e _ rfl
    refine (follows_typedAll same rest).bind ?_
    rintro es _ rfl
    exact .ok rfl

end

end Phrase

namespace SymbolTable.Renamed

variable (same : t.Renamed σ t')

include same

theorem follows_expressionOf (tokens : List Token) :
    σ.Follows (Expr.Renames σ) (t.expressionOf tokens)
      (t'.expressionOf (tokens.map (·.renamed σ))) := by
  have read := Phrase.follows_ofTokens (σ := σ) tokens
  unfold expressionOf
  generalize Phrase.ofTokens tokens = out at read
  generalize Phrase.ofTokens (tokens.map (·.renamed σ)) = out' at read
  cases read with
  | @ok phrase _ renamed =>
    subst renamed
    exact phrase.follows_typed same
  | @error parts d d' fault =>
    have typed := Phrase.follows_typedAll same parts
    rw [Phrase.allRenamed_eq_map] at typed
    exact typed.bind fun _ _ _ => .error fault

theorem follows_forceExpression (e : Expr) :
    σ.Follows (Expr.Renames σ) (t.forceExpression e) (t'.forceExpression (e.renamed σ)) := by
  unfold forceExpression
  rw [Expr.excerpt?_renamed]
  cases e.excerpt? with
  | none => exact .ok rfl
  | some f =>
    exact (same.follows_expressionOf f.tokens).mapError fun _ _ fault => f.faulted_renamed _ fault

end SymbolTable.Renamed

/-! ## Values -/

/-- An outcome whose faults mention no name. -/
def NamesNothing (o : Except EvaluationFault Constant) : Prop :=
  ∀ fault, o = .error fault → fault.IsNameless

namespace Constant

theorem namesNothing_unary (op : UnaryOp) (type : Ty) (c : Constant) :
    NamesNothing (unary op type c) := by
  intro fault h
  unfold unary checkWord at h
  split at h <;> split at h <;> (try split at h) <;> cases h <;> trivial

theorem namesNothing_arithmetic (op : Arithmetic) (type : Ty) (l r : Constant) :
    NamesNothing (arithmetic op type l r) := by
  intro fault h
  unfold arithmetic at h
  split at h
  · unfold Arithmetic.onIntegers checkWord at h
    split at h <;> (try split at h) <;> (try split at h) <;> cases h <;> trivial
  · cases h
  · cases h
    trivial
  · cases h
    trivial

theorem namesNothing_comparison (op : Comparison) (l r : Constant) :
    NamesNothing (comparison op l r) := by
  intro fault h
  unfold comparison at h
  split at h
  · cases h
  · cases h
  · split at h <;> cases h
    trivial
  · cases h
    trivial

theorem namesNothing_convert (conversion : Conversion) (type : Ty) (c : Constant) :
    NamesNothing (convert conversion type c) := by
  intro fault h
  unfold convert at h
  split at h <;> cases h
  trivial

theorem wrap_renamed (type : Ty) (n : Int) : (type.renamed σ).wrap n = type.wrap n := by
  unfold Ty.wrap
  rw [← Ty.renamed_unqualified]
  cases type.unqualified <;> rfl

theorem unary_renamed (op : UnaryOp) (type : Ty) (c : Constant) :
    unary op (type.renamed σ) c = unary op type c := by
  unfold unary
  simp only [wrap_renamed]

theorem arithmetic_renamed (op : Arithmetic) (type : Ty) (l r : Constant) :
    arithmetic op (type.renamed σ) l r = arithmetic op type l r := by
  unfold arithmetic
  simp only [wrap_renamed]

theorem convert_renamed (conversion : Conversion) (type : Ty) (c : Constant) :
    convert conversion (type.renamed σ) c = convert conversion type c := by
  unfold convert
  simp only [wrap_renamed]

end Constant

open Resolution

variable {bind bind' : DeclId → Resolution Unit}

/-- Constants are bound on the renamed table as on the table. -/
def FollowsBinding (σ : Renaming) (bind bind' : DeclId → Resolution Unit) : Prop :=
  ∀ id, Resolution.Follows σ (fun _ _ => True) (bind id) (bind' id)

namespace Expr

theorem follows_notEvaluable {α α' : Type} {A : α → α' → Prop} {fault fault' : EvaluationFault}
    (h : fault.Renamed σ fault') (span : Span) :
    Resolution.Follows σ A (notEvaluable fault span) (notEvaluable fault' span) :=
  follows_fail (.notEvaluable h) _

theorem follows_computed {o : Except EvaluationFault Constant} (h : NamesNothing o) (span : Span) :
    Resolution.Follows σ Eq (computed span o) (computed span o) := by
  cases o with
  | ok c => exact follows_pure rfl
  | error fault => exact follows_notEvaluable (.nameless (h fault rfl)) span

theorem follows_truth (c : Constant) (span : Span) :
    Resolution.Follows σ Eq (truth span c) (truth span c) := by
  cases c with
  | boolean b => exact follows_pure rfl
  | _ => exact follows_notEvaluable (.nameless (by exact trivial)) span

theorem follows_evaluateName (binds : FollowsBinding σ bind bind') (decl : DeclId) (name : String)
    (span : Span) :
    Resolution.Follows σ Eq (evaluateName bind decl name span)
      (evaluateName bind' decl (σ.name name) span) := by
  have value {k k' : Option Constant → Resolution Constant}
      (found : ∀ c, Resolution.Follows σ Eq (k (some c)) (k' (some c)))
      (missing : Resolution.Follows σ Eq (k none) (k' none)) :
      Resolution.Follows σ Eq (look (·.constant? decl) >>= k) (look (·.constant? decl) >>= k') := by
    refine (follows_look (A := Eq) fun t t' same => (same.constant? decl).symm).bind ?_
    rintro known _ rfl
    cases known with
    | some c => exact found c
    | none => exact missing
  have found (c : Constant) : Resolution.Follows σ Eq (pure c) (pure c) := follows_pure rfl
  have missing : Resolution.Follows σ Eq (notEvaluable (α := Constant) (.notConstant name) span)
      (notEvaluable (α := Constant) (.notConstant (σ.name name)) span) :=
    follows_notEvaluable (.notConstant name) span
  unfold evaluateName
  refine (follows_look (A := Eq) fun t t' same => (same.decl decl).isConstant.symm).bind ?_
  rintro isConstant _ rfl
  cases isConstant with
  | true => exact (binds decl).bind fun _ _ _ => value found missing
  | false => exact value found missing

theorem follows_evaluateWith (binds : FollowsBinding σ bind bind') : ∀ e : Expr,
    Resolution.Follows σ Eq (e.evaluateWith bind) ((e.renamed σ).evaluateWith bind')
  | ⟨.deferred _, _, span⟩ => follows_fail (.internal .deferredOperand) _
  | ⟨.boolean _, _, _⟩ | ⟨.integer _, _, _⟩ | ⟨.float _, _, _⟩ => follows_pure rfl
  | ⟨.name decl name, _, span⟩ => follows_evaluateName binds decl name span
  | ⟨.unary op operand, type, span⟩ => by
    refine (follows_evaluateWith binds operand).bind ?_
    rintro c _ rfl
    rw [Constant.unary_renamed]
    exact follows_computed (Constant.namesNothing_unary op type c) span
  | ⟨.binary (.connective op) left right, _, _⟩ => by
    refine (follows_evaluateWith binds left).bind ?_
    rintro c _ rfl
    rw [span_renamed, span_renamed]
    refine (follows_truth c _).bind ?_
    rintro l _ rfl
    by_cases decided : (l = true) = (op = .or)
    · simp only [if_pos decided]
      exact follows_pure rfl
    · simp only [if_neg decided]
      refine (follows_evaluateWith binds right).bind ?_
      rintro c _ rfl
      refine (follows_truth c _).bind ?_
      rintro r _ rfl
      exact follows_pure rfl
  | ⟨.binary (.arithmetic op) left right, type, span⟩ => by
    refine (follows_evaluateWith binds left).bind ?_
    rintro l _ rfl
    refine (follows_evaluateWith binds right).bind ?_
    rintro r _ rfl
    rw [Constant.arithmetic_renamed]
    exact follows_computed (Constant.namesNothing_arithmetic op type l r) span
  | ⟨.binary (.comparison op) left right, _, span⟩ => by
    refine (follows_evaluateWith binds left).bind ?_
    rintro l _ rfl
    refine (follows_evaluateWith binds right).bind ?_
    rintro r _ rfl
    exact follows_computed (Constant.namesNothing_comparison op l r) span
  | ⟨.call _ _, _, span⟩ => follows_notEvaluable (.nameless (by exact trivial)) span
  | ⟨.assign _ _, _, span⟩ => follows_notEvaluable (.nameless (by exact trivial)) span
  | ⟨.converted conversion source, type, span⟩ => by
    refine (follows_evaluateWith binds source).bind ?_
    rintro c _ rfl
    rw [Constant.convert_renamed]
    exact follows_computed (Constant.namesNothing_convert conversion type c) span

end Expr

/-! ## Types -/

namespace Ty

/-- A type and the one with its identifiers renamed. -/
abbrev Renames (σ : Renaming) (type type' : Ty) : Prop := type' = type.renamed σ

end Ty

namespace TypePhrase

theorem renamed_ofDecltype (e : Expr) : ofDecltype (e.renamed σ) = (ofDecltype e).renamed σ := by
  unfold ofDecltype
  rw [Expr.type_renamed, Ty.isDependent_renamed]
  split <;> rfl

theorem follows_arrayOf (element : Ty) (extent : Constant) (position : Position) :
    Resolution.Follows σ (Ty.Renames σ) (arrayOf element extent position)
      (arrayOf (element.renamed σ) extent position) := by
  unfold arrayOf
  split
  · exact follows_pure rfl
  · exact follows_fail (.notEvaluable (.nameless (by exact trivial))) _

theorem follows_typedIn (e : Phrase) :
    Resolution.Follows σ (Expr.Renames σ) (typedIn e) (typedIn (e.renamed σ)) :=
  follows_get.bind fun _ _ same => follows_ofExcept (e.follows_typed same)

theorem follows_resolved (binds : FollowsBinding σ bind bind') : ∀ type : TypePhrase,
    Resolution.Follows σ (Ty.Renames σ) (type.resolved bind) ((type.renamed σ).resolved bind')
  | .name token => follows_get.bind fun _ _ same => follows_ofExcept (same.follows_namedType token)
  | .auto => follows_pure rfl
  | .decltype e => (follows_typedIn e).map fun _ _ same => by
    subst same
    exact renamed_ofDecltype _
  | .decltypeAuto => follows_pure rfl
  | .qualified inner q => (follows_resolved binds inner).map fun _ _ same => by
    subst same
    exact (Ty.renamed_addQualifiers _ q).symm
  | .pointer target => (follows_resolved binds target).map fun _ _ same => by
    subst same
    rfl
  | .reference target => (follows_resolved binds target).map fun _ _ same => by
    subst same
    exact (Ty.renamed_toReference _).symm
  | .sequence element => (follows_resolved binds element).map fun _ _ same => by
    subst same
    rfl
  | .array element extent => by
    refine (follows_resolved binds element).bind ?_
    rintro type _ rfl
    refine (follows_typedIn extent).bind ?_
    rintro e _ rfl
    refine (e.follows_evaluateWith binds).bind ?_
    rintro c _ rfl
    rw [Expr.start_renamed]
    exact follows_arrayOf type c _

theorem follows_check (binds : FollowsBinding σ bind bind') (part : TypePart) :
    Resolution.Follows σ (fun _ _ => True) (check bind part) (check bind' (part.renamed σ)) := by
  cases part with
  | type type => exact (follows_resolved binds type).map fun _ _ _ => trivial
  | expression e => exact (follows_typedIn e).map fun _ _ _ => trivial

theorem follows_checks (binds : FollowsBinding σ bind bind') : ∀ parts : List TypePart,
    Resolution.Follows σ (fun _ _ => True) (parts.forM (check bind))
      ((parts.map (TypePart.renamed σ)).forM (check bind'))
  | [] => follows_pure trivial
  | part :: rest => (follows_check binds part).bind fun _ _ _ => follows_checks binds rest

theorem follows_typeOf (binds : FollowsBinding σ bind bind') (tokens : List Token) :
    Resolution.Follows σ (Ty.Renames σ) (typeOf bind tokens)
      (typeOf bind' (tokens.map (·.renamed σ))) := by
  have read := follows_ofTokens (σ := σ) tokens
  unfold typeOf
  generalize ofTokens tokens = out at read
  generalize ofTokens (tokens.map (·.renamed σ)) = out' at read
  cases read with
  | @ok phrase _ renamed =>
    subst renamed
    exact follows_resolved binds phrase
  | @error parts d d' fault =>
    exact (follows_checks binds parts).bind fun _ _ _ => follows_throw fault

end TypePhrase

/-! ## Defining objects -/

namespace Resolution

theorem follows_forceExpression (e : Expr) :
    Follows σ (Expr.Renames σ) (forceExpression e) (forceExpression (e.renamed σ)) :=
  follows_get.bind fun _ _ same => follows_ofExcept (same.follows_forceExpression e)

theorem follows_forceTypeWith (binds : FollowsBinding σ bind bind') (type : Ty) :
    Follows σ (Ty.Renames σ) (forceTypeWith bind type) (forceTypeWith bind' (type.renamed σ)) := by
  cases type with
  | deferred f =>
    exact (TypePhrase.follows_typeOf binds f.tokens).rethrow fun _ _ fault =>
      f.faulted_renamed "type" fault
  | _ => exact follows_pure rfl

theorem follows_forceSlotWith (binds : FollowsBinding σ bind bind') (id : DeclId)
    (slot : TypeSlot) :
    Follows σ (fun _ _ => True) (forceSlotWith bind id slot) (forceSlotWith bind' id slot) := by
  unfold forceSlotWith
  refine (follows_look (A := fun held held' => held' = held.map (Ty.renamed σ))
    fun t t' same => (same.decl id).typeIn? slot).bind ?_
  rintro held _ rfl
  cases held with
  | none => exact follows_fail (.internal (.noTypeHeld _)) _
  | some type =>
    dsimp only [Option.map]
    rw [Ty.isDeferred_renamed]
    split
    · refine (follows_forceTypeWith binds type).bind ?_
      rintro resolved _ rfl
      exact follows_modify fun _ _ same => same.withTypeIn id slot resolved
    · exact follows_pure trivial

theorem renamed_deduce? (placeholder : Ty) (e : Expr) :
    deduce? (placeholder.renamed σ) (e.renamed σ) = (deduce? placeholder e).map (Expr.renamed σ) := by
  cases placeholder with
  | auto => exact congrArg some e.renamed_asValue.symm
  | _ => rfl

theorem follows_settleType (id : DeclId) (declared : Ty) (init : Expr) :
    Follows σ (Expr.Renames σ) (settleType id declared init)
      (settleType id (declared.renamed σ) (init.renamed σ)) := by
  unfold settleType
  rw [renamed_deduce?]
  cases deduce? declared init with
  | some e =>
    dsimp only [Option.map]
    rw [Expr.type_renamed]
    exact (follows_modify fun _ _ same => same.withTypeIn id .declared e.type).bind
      fun _ _ _ => follows_pure rfl
  | none => exact follows_ofExcept (init.follows_definingInitializer declared)

theorem follows_forceObjectWith (binds : FollowsBinding σ bind bind') (id : DeclId)
    (scope : ScopeId) (init : Expr) :
    Follows σ (Expr.Renames σ) (forceObjectWith bind id scope init)
      (forceObjectWith bind' id scope (init.renamed σ)) := by
  refine Follows.under ?_ scope
  exact (follows_forceSlotWith binds id .declared).bind fun _ _ _ => follows_forceExpression init

theorem follows_settleObjectWith (binds : FollowsBinding σ bind bind') (id : DeclId) :
    Follows σ (fun _ _ => True) (settleObjectWith bind id) (settleObjectWith bind' id) := by
  unfold settleObjectWith
  refine (follows_look fun t t' same => same.decl id).bind fun d d' renamed => ?_
  rw [renamed.initializer?, renamed.scope, renamed.isConstant]
  cases d.initializer? with
  | none => exact follows_pure trivial
  | some init =>
    refine (follows_forceObjectWith binds id d.scope init).bind ?_
    rintro init _ rfl
    refine (follows_look (A := fun own own' => own' = own.map (Ty.renamed σ))
      fun t t' same => (same.decl id).ownType?).bind ?_
    rintro own _ rfl
    cases own with
    | none =>
      exact (follows_look fun t t' same => same.decl id).bind fun d d' renamed =>
        follows_unexpectedDecl renamed
    | some declared =>
      refine (follows_settleType id declared init).bind ?_
      rintro init _ rfl
      have put : Follows σ (fun _ _ => True)
          (modify (·.modifyDecl id (·.withInitializer init)) : Resolution Unit)
          (modify (·.modifyDecl id (·.withInitializer (init.renamed σ)))) :=
        follows_modify fun _ _ same => same.withInitializer id init
      split
      · refine (init.follows_evaluateWith binds).bind ?_
        rintro value _ rfl
        exact (follows_modify fun _ _ same => same.setConstant id value).bind fun _ _ _ => put
      · exact put

theorem follows_selfDependent (id : DeclId) :
    Follows σ (fun _ _ => True) (selfDependent id) (selfDependent id) := by
  refine (follows_look fun t t' same => same.decl id).bind fun d d' renamed => ?_
  rw [renamed.span]
  exact follows_fail (.notEvaluable (.selfDependent renamed.name)) _

theorem follows_enterConstant (settles : FollowsBinding σ bind bind') (id : DeclId) :
    Follows σ (fun _ _ => True) (enterConstant bind id) (enterConstant bind' id) := by
  refine follows_get.bind fun t t' same => ?_
  unfold SymbolTable.startBinding?
  rw [same.binding]
  by_cases entered : t.binding.contains id = true
  · simp only [if_pos entered]
    exact follows_selfDependent id
  · simp only [if_neg entered]
    exact (follows_set (same.withBinding _)).bind fun _ _ _ =>
      (settles id).ending fun _ _ same => same.finishBinding id

theorem follows_ensureConstantWithin : ∀ level : Nat,
    FollowsBinding σ (ensureConstantWithin level) (ensureConstantWithin level)
  | 0, id => by
    refine (follows_look (A := Eq) fun t t' same => (same.constant? id).symm).bind ?_
    rintro known _ rfl
    cases known.isSome with
    | true => exact follows_pure trivial
    | false => exact follows_selfDependent id
  | level + 1, id => by
    refine (follows_look (A := Eq) fun t t' same => (same.constant? id).symm).bind ?_
    rintro known _ rfl
    cases known.isSome with
    | true => exact follows_pure trivial
    | false =>
      exact follows_enterConstant
        (fun id => follows_settleObjectWith (follows_ensureConstantWithin level) id) id

/-- A constant gets on the renamed table the value that it gets on the table. -/
theorem follows_ensureConstant : FollowsBinding σ ensureConstant ensureConstant := by
  intro id
  refine (follows_look (A := Eq) fun t t' same => same.size_decls.symm).bind ?_
  rintro level _ rfl
  exact follows_ensureConstantWithin level id

theorem follows_forceSlot (id : DeclId) (slot : TypeSlot) :
    Follows σ (fun _ _ => True) (forceSlot id slot) (forceSlot id slot) :=
  follows_forceSlotWith follows_ensureConstant id slot

theorem follows_settleObject (id : DeclId) :
    Follows σ (fun _ _ => True) (settleObject id) (settleObject id) :=
  follows_settleObjectWith follows_ensureConstant id

end Resolution

end Deferral
