import Deferral.Proofs.Layout.FirstPass
import Deferral.Unit.Definition

/-!
# The order of the second pass

The second pass keeps a table laid out as well, and reports what it finds in the order of the places. What
is returned from a function is converted to its result, so that the pass over a body asks for a function
whose signature has been read.
-/

namespace Deferral

open SymbolTable

variable {α β : Type} {t t' : SymbolTable} {Q : α → SymbolTable → Prop} {Q' : β → SymbolTable → Prop}
  {L : Layout} {lo hi lo' hi' mid : Nat}

namespace Definition

open Reporting (TellsAll TellsEach Tells)
open Resolution (Lays bindsApart_ensureConstant)

/-- The fault that ended the work, which is still to be reported. -/
def Worked.pending (worked : Worked α) : List Diagnostic := worked.2.toList

/-- What is worked on in a stretch lies in it still. -/
theorem tells_settle {finish : Expr → Resolution Expr} {e : Expr}
    (finishes : ∀ e t', t.StaysLaid L t' → e.IsMade (L.known t'.decls.size) (L.Within lo hi) →
      Lays L (L.Admits lo hi) (finish e) t' fun e' t'' =>
        e'.IsMade (L.known t''.decls.size) (L.Within lo hi))
    (lies : e.LiesIn L t.decls.size lo hi) :
    Tells L lo hi Worked.pending (settle finish e) t fun worked t' =>
      worked.1.LiesIn L t'.decls.size lo hi := by
  refine Reporting.tells_bind_attempt (Resolution.lays_forceExpression lies) (fun resolved t₁ stays made => ?_)
    fun d t₁ stays admits => Reporting.tells_pure (lies.mono stays.size fun _ h => h) (.single admits)
  refine Reporting.tells_bind_attempt (finishes resolved t₁ stays made) (fun finished t₂ _ made => ?_)
    fun d t₂ stays admits => ?_
  · exact Reporting.tells_pure made.liesIn (.nil ..)
  · exact Reporting.tells_pure (made.liesIn.mono stays.size fun _ h => h) (.single admits)

/-! ## Results -/

/-- A function whose parameters and result have been read. -/
def Signed (t : SymbolTable) (id : DeclId) : Prop :=
  ∃ c, (t.decl id).callable? = some c ∧ (t.decl id).HasRead .result ∧
    ∀ p ∈ c.parameters, (t.decl p).HasRead .declared

theorem Signed.stays {id : DeclId} (h : Signed t id) (stays : t.StaysLaid L t') : Signed t' id := by
  obtain ⟨c, held, result, parameters⟩ := h
  have same := stays.parameters id
  rw [held, Option.map_some] at same
  obtain ⟨c', held', same⟩ := Option.map_eq_some_iff.mp same
  refine ⟨c', held', stays.reads _ _ result, fun p member => stays.reads _ _ (parameters p ?_)⟩
  rwa [same] at member

section Results

variable {id : DeclId}

theorem lays_resultOf (id : DeclId) (t : SymbolTable) :
    Lays L (L.Admits lo hi) (resultOf id) t fun result t' =>
      t' = t ∧ (t.decl id).typeIn? .result = some result := by
  refine Resolution.lays_bind_look ?_
  split
  · rename_i c held
    obtain ⟨sort, kind⟩ := Decl.kind_of_callable? held
    exact Resolution.lays_pure ⟨rfl, by simp [Decl.typeIn?, kind]⟩
  · exact Resolution.lays_unexpectedDecl _

theorem lays_deduceResult {deduced : Ty} (signed : Signed t id) (made : deduced.IsMade (L.known t.decls.size)) :
    Lays L (L.Admits lo hi) (deduceResult id deduced) t fun _ _ => True := by
  obtain ⟨c, held, result, parameters⟩ := signed
  refine (lays_resultOf id t).bind fun result' t₁ _ same => ?_
  obtain ⟨rfl, -⟩ := same
  have only {c' : Callable} (held' : (t₁.decl id).callable? = some c') : c' = c :=
    Option.some.inj (held'.symm.trans held)
  split
  · refine Resolution.lays_bind_modify (fun laid => .mapCallable laid (fun _ => rfl)
      (fun c' held' => { laid.callable held' with result := made.liesIn .. })
      (fun _ _ _ => made.not_deferred)
      fun c' held' => .inr ⟨made.not_deferred, (only held').symm ▸ parameters⟩) fun stays => ?_
    refine Resolution.lays_modify (fun laid => .rebuildType laid fun c' held' => ?_) fun _ _ => trivial
    rw [decl_modifyDecl_self (lt_size_of_callable? held)] at held'
    obtain ⟨sort, kind⟩ := Decl.kind_of_callable? held
    simp only [Decl.callable?, Decl.mapCallable, kind, Option.some.injEq] at held'
    subst held'
    exact ⟨made.not_deferred, fun p member => stays.reads _ _ (parameters p member)⟩
  · exact Resolution.lays_pure trivial

theorem lays_asResult {e : Expr} (signed : Signed t id)
    (made : e.IsMade (L.known t.decls.size) (L.Within lo hi)) :
    Lays L (L.Admits lo hi) (asResult id e) t fun e' t' =>
      e'.IsMade (L.known t'.decls.size) (L.Within lo hi) := by
  refine .of_laid fun laid => (lays_resultOf id t).bind fun result t₁ _ same => ?_
  obtain ⟨rfl, held⟩ := same
  have ⟨_, _, read, _⟩ := signed
  split
  · rename_i e' deduced
    have made := Resolution.isMade_of_deduce? deduced made
    exact (lays_deduceResult signed made.type).bind fun _ t₂ stays _ =>
      Resolution.lays_pure (made.mono (fun _ => L.known_mono stays.size) fun _ h => h)
  · exact Resolution.lays_ofExcept ((Expr.comes_definingInitializer made
      (laid.isMade_of_hasRead read held)).mono (fun _ => .plain) fun _ h => h)

theorem lays_withoutResult {position : Position} (signed : Signed t id) (start : L.Within lo hi position) :
    Lays L (L.Admits lo hi) (withoutResult id position) t fun _ _ => True := by
  refine (lays_resultOf id t).bind fun result t₁ _ same => ?_
  obtain ⟨rfl, -⟩ := same
  split
  · exact lays_deduceResult signed trivial
  · exact lays_deduceResult signed trivial
  · exact Resolution.lays_pure trivial
  · split
    · exact Resolution.lays_pure trivial
    · exact Resolution.lays_throw (.plain ⟨rfl, start⟩)

theorem lays_yielded {e : Expr} (signed : Signed t id)
    (made : e.IsMade (L.known t.decls.size) (L.Within lo hi)) :
    Lays L (L.Admits lo hi) (yielded id e) t fun e' t' =>
      e'.IsMade (L.known t'.decls.size) (L.Within lo hi) := by
  refine .of_laid fun laid => (lays_resultOf id t).bind fun result t₁ _ same => ?_
  obtain ⟨rfl, held⟩ := same
  obtain ⟨-, -, read, -⟩ := signed
  exact Resolution.lays_ofExcept ((Expr.comes_initializer made.asValue
    (laid.isMade_of_hasRead read held)).mono (fun _ => .plain) fun _ h => h)

end Results

/-! ## Statements -/

/-- What stands inside a function stands inside one whose signature has been read. -/
def Inside (t : SymbolTable) (function : Option DeclId) : Prop :=
  ∀ id, function = some id → Signed t id

theorem inside_none (t : SymbolTable) : Inside t none := fun _ absent => by cases absent

theorem Inside.stays {function : Option DeclId} (h : Inside t function) (stays : t.StaysLaid L t') :
    Inside t' function := fun id same => (h id same).stays stays

theorem lays_inside {function : Option DeclId} {finish : DeclId → Expr → Resolution Expr}
    (finishes : ∀ {id t} {e : Expr}, Signed t id → e.IsMade (L.known t.decls.size) (L.Within lo hi) →
      Lays L (L.Admits lo hi) (finish id e) t fun e' t' =>
        e'.IsMade (L.known t'.decls.size) (L.Within lo hi))
    (within : Inside t function) {e : Expr} (made : e.IsMade (L.known t.decls.size) (L.Within lo hi)) :
    Lays L (L.Admits lo hi) (inside function finish e) t fun e' t' =>
      e'.IsMade (L.known t'.decls.size) (L.Within lo hi) := by
  cases function with
  | none => exact Resolution.lays_pure made
  | some id => exact finishes (within id rfl) made

theorem tells_condition {e : Expr} (lies : e.LiesIn L t.decls.size lo hi) :
    Tells L lo hi Worked.pending (settle (Resolution.ofExcept ·.asCondition) e) t fun worked t' =>
      worked.1.LiesIn L t'.decls.size lo hi :=
  tells_settle (fun _ _ _ made => Resolution.lays_ofExcept ((Expr.comes_asCondition made).mono
    (fun _ => .plain) fun _ h => h)) lies

/-- What has been worked on becomes a part of something. -/
theorem tells_part {x : Reporting (Worked α)} {Q : Worked α → SymbolTable → Prop}
    {Q' : Worked β → SymbolTable → Prop} (h : Tells L lo hi Worked.pending x t Q) (ordered : lo ≤ hi)
    {f : α → β} (h' : ∀ a fault? t', Q (a, fault?) t' → Q' (f a, fault?) t') :
    Tells L lo hi Worked.pending (do
      let (a, fault?) ← x
      return (f a, fault?)) t Q' :=
  h.bind ordered (Nat.le_refl hi) fun (a, fault?) t' _ holds =>
    .inr ⟨(f a, fault?), rfl, rfl, h' a fault? t' holds⟩

/-- A statement reports its fault and goes on. -/
theorem tells_reportStatement {x : Reporting (Worked Stmt)} {Q : Stmt → SymbolTable → Prop}
    (h : Tells L lo hi Worked.pending x t fun worked t' => Q worked.1 t') :
    TellsAll L lo hi (x >>= reportStatement) t Q :=
  h.reported (fun worked => worked.2) fun worked t' holds ρ s ρ' t'' run => by
    obtain ⟨u, ρ₁, t₁, told, rest⟩ := Reporting.ends_bind.mp run
    obtain ⟨rfl, rfl⟩ := Reporting.ends_reportWithin.mp told
    obtain ⟨rfl, rfl, rfl⟩ := Reporting.ends_pure.mp rest
    exact ⟨rfl, holds, _, rfl⟩

variable {define : DeclId → Reporting Unit} {function : Option DeclId}

mutual

/-- What a statement becomes lies where it does. -/
theorem tells_statement (defines : TellsEach L define) : ∀ {s : Stmt} {t : SymbolTable} {lo hi : Nat},
    lo ≤ hi → Inside t function → s.LiesIn L t.decls.size lo hi →
    Tells L lo hi Worked.pending (statement define function s) t fun worked t' =>
      worked.1.LiesIn L t'.decls.size lo hi
  | .block id body span, t, lo, hi, ordered, within, lies => by
    refine Reporting.tells_bind_attempt (Resolution.lays_scopeOf (.block id)) (fun scope t₁ stays same => ?_)
      fun d t₁ stays admits => Reporting.tells_pure
        (Stmt.LiesIn.mono (s := .block id body span) stays.size (fun _ h => h) ordered lies) (.single admits)
    subst same
    have walk := tells_statements defines (t := t₁.enter scope) ordered
      (within.stays (.enter stays.laid scope)) lies
    exact TellsAll.bind (Reporting.tells_under walk fun _ _ h => h) ordered (Nat.le_refl hi)
      fun body' t₂ _ lies => Reporting.tells_pure lies (.nil ..)
  | .returning (some e) span, t, lo, hi, ordered, within, lies => by
    have settles := tells_settle (fun _ _ stays made => lays_inside
      (fun signed made => lays_asResult signed made) (within.stays stays) made) (lies.2 e rfl)
    refine tells_part (f := fun e => Stmt.returning (some e) span) settles ordered fun _ _ _ lies' => ?_
    exact ⟨lies.1, fun _ same => Option.some.inj same ▸ lies'⟩
  | .returning none span, t, lo, hi, ordered, within, lies => by
    cases function with
    | none => exact Reporting.tells_pure lies (.nil ..)
    | some id =>
      exact (Faulting.tells_fault? (Faulting.tells_resolve (lays_withoutResult (within id rfl) lies.1))).bind
        ordered (Nat.le_refl hi) fun fault? t' _ _ =>
          .inr ⟨(.returning none span, fault?), rfl, rfl, lies.1, fun _ absent => by cases absent⟩
  | .yielding e span, t, lo, hi, ordered, within, lies => by
    have settles := tells_settle (fun _ _ stays made => lays_inside
      (fun signed made => lays_yielded signed made) (within.stays stays) made) (e := e) lies
    refine tells_part (f := fun e => Stmt.yielding e span) settles ordered fun _ _ _ lies' => ?_
    exact lies'
  | .conditional e onTrue onFalse span, t, lo, hi, ordered, within,
      ⟨mid, mid', le₁, le₂, le₃, inFront, liesTrue, liesFalse⟩ => by
    refine (tells_condition inFront).bind le₁ (Nat.le_trans le₂ le₃) fun worked t₁ stays inFront => ?_
    have liesTrue := Stmt.LiesIn.mono stays.size (fun _ h => h) le₂ liesTrue
    have liesFalse := Stmt.LiesBehindElse.mono stays.size (fun _ h => h) le₃ liesFalse
    obtain ⟨e', _ | d⟩ := worked
    · refine .inl ⟨rfl, ?_⟩
      refine (tells_statement defines le₂ (within.stays stays) liesTrue).bind le₂ le₃
        fun worked t₂ stays' liesTrue => ?_
      have inFront := Expr.LiesIn.mono inFront stays'.size fun _ h => h
      have liesFalse := Stmt.LiesBehindElse.mono stays'.size (fun _ h => h) le₃ liesFalse
      obtain ⟨onTrue', _ | d⟩ := worked
      · refine .inl ⟨rfl, ?_⟩
        refine (tells_alternative defines le₃ ((within.stays stays).stays stays') liesFalse).bind le₃
          (Nat.le_refl hi) fun (onFalse', fault?) t₃ stays'' liesFalse =>
            .inr ⟨(.conditional e' onTrue' onFalse' span, fault?), rfl, rfl, mid, mid', le₁, le₂, le₃, ?_⟩
        exact ⟨inFront.mono stays''.size fun _ h => h,
          Stmt.LiesIn.mono stays''.size (fun _ h => h) le₂ liesTrue, liesFalse⟩
      · exact .inr ⟨_, rfl, rfl, mid, mid', le₁, le₂, le₃, inFront, liesTrue, liesFalse⟩
    · exact .inr ⟨_, rfl, rfl, mid, mid', le₁, le₂, le₃, inFront, liesTrue, liesFalse⟩
  | .whileLoop e body span, t, lo, hi, ordered, within, ⟨mid, le₁, le₂, inFront, lies⟩ => by
    refine (tells_condition inFront).bind le₁ le₂ fun worked t₁ stays inFront => ?_
    have lies := Stmt.LiesIn.mono stays.size (fun _ h => h) le₂ lies
    obtain ⟨e', _ | d⟩ := worked
    · refine .inl ⟨rfl, (tells_statement defines le₂ (within.stays stays) lies).bind le₂ (Nat.le_refl hi)
        fun (body', fault?) t₂ stays' lies => .inr ⟨(.whileLoop e' body' span, fault?), rfl, rfl, ?_⟩⟩
      exact ⟨mid, le₁, le₂, inFront.mono stays'.size fun _ h => h, lies⟩
    · exact .inr ⟨_, rfl, rfl, mid, le₁, le₂, inFront, lies⟩
  | .breaking _, _, _, _, _, _, _ | .continuing _, _, _, _, _, _, _ => Reporting.tells_pure trivial (.nil ..)
  | .declaration id span, t, lo, hi, ordered, _, lies =>
    TellsAll.bind (defines id t lies.2) ordered (Nat.le_refl hi) fun _ t₁ stays _ =>
      Reporting.tells_pure ⟨L.known_mono stays.size lies.1, lies.2⟩ (.nil ..)
  | .expression e, t, lo, hi, ordered, _, lies => by
    have settles := tells_settle (fun _ _ _ made => Resolution.lays_pure made) (e := e) lies
    refine tells_part (f := Stmt.expression) settles ordered fun _ _ _ lies' => ?_
    exact lies'

theorem tells_statements (defines : TellsEach L define) :
    ∀ {body : List Stmt} {t : SymbolTable} {lo hi : Nat}, lo ≤ hi → Inside t function →
    Stmt.AllLieIn L t.decls.size lo hi body →
    TellsAll L lo hi (statements define function body) t fun body' t' =>
      Stmt.AllLieIn L t'.decls.size lo hi body'
  | [], _, _, _, _, _, _ => Reporting.tellsAll_pure trivial
  | _ :: _, _, _, hi, _, within, ⟨mid, le₁, le₂, first, others⟩ =>
    (tells_reportStatement (Q := fun s t' => s.LiesIn L t'.decls.size _ mid)
      (tells_statement defines le₁ within first)).bind le₁ le₂ fun _ _ stays first =>
      (tells_statements defines le₂ (within.stays stays)
        (Stmt.AllLieIn.mono stays.size (fun _ h => h) le₂ others)).bind le₂ (Nat.le_refl hi)
        fun _ _ stays' others => Reporting.tellsAll_pure
          ⟨mid, le₁, le₂, Stmt.LiesIn.mono stays'.size (fun _ h => h) le₁ first, others⟩

theorem tells_alternative (defines : TellsEach L define) :
    ∀ {onFalse : Option Stmt} {t : SymbolTable} {lo hi : Nat}, lo ≤ hi → Inside t function →
    Stmt.LiesBehindElse L t.decls.size lo hi onFalse →
    Tells L lo hi Worked.pending (alternative define function onFalse) t fun worked t' =>
      Stmt.LiesBehindElse L t'.decls.size lo hi worked.1
  | none, _, _, _, _, _, _ => Reporting.tells_pure trivial (.nil ..)
  | some s, _, _, _, ordered, within, lies =>
    tells_part (tells_statement defines ordered within (s := s) lies) ordered fun _ _ _ lies' => lies'

end

/-! ## Declarations -/

theorem lays_object (id : DeclId) (t : SymbolTable) :
    Lays L (L.Admits (L.low id) (L.high id)) (object id) t fun _ _ => True := by
  refine Resolution.lays_bind_look ?_
  split
  · exact Resolution.lays_unexpectedDecl _
  · split
    · exact Resolution.lays_pure trivial
    · split
      · rename_i constant
        exact bindsApart_ensureConstant id t (Decl.subject_of_isConstant constant) _ _
      · exact Resolution.lays_settleObjectWith bindsApart_ensureConstant id t

theorem tells_body (defines : TellsEach L define) {id : DeclId} {b : Body} (ordered : lo ≤ hi)
    (signed : Signed t id) (lies : b.LiesIn L t.decls.size lo hi) :
    Tells L lo hi Worked.pending (body (statement define (some id)) id b) t fun worked t' =>
      worked.1.LiesIn L t'.decls.size lo hi := by
  have within : Inside t (some id) := fun _ same => Option.some.inj same ▸ signed
  cases b with
  | absent => exact Reporting.tells_pure trivial (.nil ..)
  | statement s => exact tells_part (tells_statement defines ordered within lies) ordered fun _ _ _ h => h
  | expression e =>
    refine Reporting.tells_bind_attempt (Resolution.lays_scopeOf (.body id)) (fun scope t₁ stays same => ?_)
      fun d t₁ stays admits => Reporting.tells_pure (Expr.LiesIn.mono (e := e) lies stays.size fun _ h => h)
        (.single admits)
    subst same
    have entered := StaysLaid.enter stays.laid scope
    exact tells_part (Reporting.tells_under (tells_settle (t := t₁.enter scope) (fun _ _ stays' made =>
      lays_asResult (signed.stays (entered.trans stays')) made) lies) fun _ _ h => h) ordered
      fun _ _ _ h => h

/-- A fault that the body of a function ended in is the fault of the function. -/
theorem tells_function (defines : TellsEach L define) (id : DeclId) (t : SymbolTable) :
    Faulting.Tells L (L.low id) (L.high id) (Definition.function (statement define (some id)) id) t
      fun _ _ => True := by
  have ordered := L.ordered id
  refine .of_laid fun laid => Faulting.tells_bind_look ?_
  split
  · exact Faulting.tells_resolve (Resolution.lays_unexpectedDecl _)
  rename_i c held
  split
  · exact Faulting.tells_pure trivial
  rename_i typed
  have signed : Signed t id := ⟨c, held, (laid.signed id).parts held typed⟩
  refine Faulting.tells_bind_resolve (Resolution.lays_scopeOf _) fun scope t₁ _ same => ?_
  subst same
  refine Faulting.tells_bind_change (fun laid => .withoutBody laid id) fun stays => ?_
  have lies := (laid.callable held).body.mono stays.size (.refl L _ _) ordered
  have entered := StaysLaid.enter stays.laid scope
  have walk := Reporting.tells_under (tells_body defines ordered
    (signed.stays (stays.trans entered)) lies) fun _ _ h => h
  intro laid ρ r ρ' t' run
  rcases Faulting.ends_bind.mp run with ⟨d, first, -⟩ | ⟨worked, ρ₁, t₂, first, rest⟩
  · obtain ⟨_, -, same⟩ := Faulting.ends_lift.mp first
    cases same
  obtain ⟨worked, inner, same⟩ := Faulting.ends_lift.mp first
  obtain rfl := Except.ok.inj same
  obtain ⟨stays', lies, δ, rfl, lists⟩ := walk laid inner
  obtain ⟨b, fault?⟩ := worked
  have put : t₂.StaysLaid L (Signature.withBody t₂ id b) := .withBody stays'.laid lies
  have rest := Faulting.ends_bind_change.mp rest
  cases fault? with
  | none =>
    obtain ⟨rfl, rfl, rfl⟩ := Faulting.ends_pure.mp rest
    exact ⟨stays'.trans put, fun _ _ => trivial, δ, rfl, lists⟩
  | some d =>
    obtain ⟨rfl, rfl, rfl⟩ := Faulting.ends_throw.mp rest
    exact ⟨stays'.trans put, nofun, δ, rfl, lists⟩

theorem tells_classMembers (defines : TellsEach L define) (id : DeclId) (t : SymbolTable) :
    Faulting.Tells L (L.low id) (L.high id) (classMembers (statements define none) id) t
      fun _ _ => True := by
  have ordered := L.ordered id
  refine Faulting.tells_bind_resolve (Resolution.lays_scopeOf _) fun scope t₁ _ _ =>
    .of_laid fun laid => Faulting.tells_bind_look ?_
  refine Faulting.tells_bind_change (fun laid => .mapMembers laid trivial) fun stays => ?_
  have lies := Stmt.AllLieIn.mono stays.size (fun _ h => h) ordered (laid.members id)
  have walk := tells_statements defines
    (t := (t₁.modifyDecl id (·.mapMembers fun _ => [])).enter scope) ordered (inside_none _) lies
  exact (Faulting.tells_lift (Reporting.tells_under walk fun _ _ h => h)).bind ordered fun body t₂ _ lies =>
    Faulting.tells_change (fun laid => .mapMembers (f := fun _ => body) laid lies) fun _ => trivial

/-- Whatever a declaration is, its faults lie in it. -/
theorem tells_declaration (defines : TellsEach L define) (id : DeclId) (t : SymbolTable) :
    Faulting.Tells L (L.low id) (L.high id) (declaration define id) t fun _ _ => True := by
  refine Faulting.tells_bind_look ?_
  split
  · exact Faulting.tells_resolve (lays_object id t)
  · exact tells_function defines id t
  · exact tells_classMembers defines id t
  · exact Faulting.tells_pure trivial
  · exact Faulting.tells_pure trivial
  · exact Faulting.tells_resolve (Resolution.lays_unexpectedDecl _)
  · exact Faulting.tells_resolve (Resolution.lays_unexpectedDecl _)

theorem tells_defineWithin (level : Nat) : TellsEach L (defineWithin level) := by
  induction level with
  | zero => exact fun _ _ _ _ _ => Reporting.tellsAll_pure trivial
  | succ level ih =>
    exact fun id t _ _ inside => (Reporting.tells_reportDeclaration (tells_declaration ih id t)).mono inside
      fun _ _ _ h => h

theorem tells_define : TellsEach L Definition.define :=
  fun id t _ _ inside => Reporting.tells_bind_look (tells_defineWithin _ id t inside)

end Definition

/-- The second pass over a unit lists what it reports. -/
theorem SourceUnit.lists_resolveDefinitions {u u' : SourceUnit} {reported : List Diagnostic}
    (laid : t.LaidOut L) (ordered : lo ≤ hi) (lies : Stmt.AllLieIn L t.decls.size lo hi u.body)
    (run : u.resolveDefinitions.run t = ((u', reported), t')) :
    t.StaysLaid L t' ∧ Stmt.AllLieIn L t'.decls.size lo hi u'.body ∧ L.Lists lo hi reported := by
  have walk := Reporting.tells_under (Definition.tells_statements Definition.tells_define
    (t := t.enter u.scope) ordered (Definition.inside_none _) lies) fun _ _ h => h
  obtain ⟨body, _, _, walked, rest⟩ := Reporting.ends_bind.mp (Reporting.run_collect.mp run)
  obtain ⟨rfl, rfl, rfl⟩ := Reporting.ends_pure.mp rest
  obtain ⟨stays, lies, δ, rfl, lists⟩ := walk laid walked
  rw [List.append_nil] at lists
  exact ⟨stays, lies, lists⟩

end Deferral
