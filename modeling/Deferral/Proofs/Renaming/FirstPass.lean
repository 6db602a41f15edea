import Deferral.Proofs.Progress.Restoring
import Deferral.Proofs.Renaming.Reading
import Deferral.Proofs.Renaming.Resolution

/-!
# The first pass over renamed declarations

Parameters declared `auto` get the same type parameters, under the same names, whatever the names around
them are. Otherwise what the first pass does to renamed declarations is what it does to the
declarations, renamed.
-/

namespace Deferral

variable {σ : Renaming} {t t' : SymbolTable}

namespace Signature

/-! ## Parameters -/

section

open Resolution

theorem isUntyped_renamed (type : Ty) : isUntyped (type.renamed σ) = isUntyped type := by
  induction type using isUntyped.induct with
  | case1 => rfl
  | case2 type ih | case3 type q ih => exact ih
  | case4 type auto reference qualified =>
    cases type with
    | auto => exact (auto rfl).elim
    | reference type => exact (reference type rfl).elim
    | qualified type q => exact (qualified type q rfl).elim
    | _ => rfl

theorem renamed_replaceAuto (replacement type : Ty) :
    (replaceAuto replacement type).renamed σ =
      replaceAuto (replacement.renamed σ) (type.renamed σ) := by
  induction type using isUntyped.induct with
  | case1 => rfl
  | case2 type ih => exact (Ty.renamed_toReference _).trans (congrArg Ty.toReference ih)
  | case3 type q ih =>
    exact (Ty.renamed_addQualifiers _ q).trans (congrArg (Ty.addQualifiers · q) ih)
  | case4 type auto reference qualified =>
    cases type with
    | auto => exact (auto rfl).elim
    | reference type => exact (reference type rfl).elim
    | qualified type q => exact (qualified type q rfl).elim
    | _ => rfl

/-- Type parameters are made under the names that they have anyway. -/
theorem renamed_addTypeParameter (same : t.Renamed σ t') (scope : ScopeId) (position : Position)
    (count : Nat) :
    (addTypeParameter scope position count t).Renamed σ (addTypeParameter scope position count t') := by
  have added := same.addUnnamed ⟨"T" ++ count.repr, .typeParameter, scope, .point position⟩
  unfold Decl.renamed at added
  rw [σ.typeParameter] at added
  exact added

theorem follows_parameter (scope : ScopeId) (made : List DeclId) (id : DeclId) :
    Follows σ Eq (parameter scope made id) (parameter scope made id) := by
  refine (follows_look (A := Eq) fun t t' same => (same.decl id).subject.symm).bind ?_
  rintro subject _ rfl
  refine ((follows_forceSlot id .declared).rethrow fun _ _ fault => fault.within subject).bind
    fun _ _ _ => (follows_look fun t t' same => same.decl id).bind fun d d' renamed => ?_
  rw [renamed.ownType?, renamed.span]
  cases d.ownType? with
  | none => exact follows_unexpectedDecl renamed
  | some type =>
    refine (follows_look (A := Eq) fun t t' same => same.nextDecl.symm).bind ?_
    rintro fresh _ rfl
    dsimp only [Option.map]
    rw [isUntyped_renamed]
    have replaced (made' : List DeclId) : Follows σ Eq
        (modify (·.modifyDecl id (·.withTypeIn .declared
            (replaceAuto (.named .typeParameter fresh ("T" ++ made.length.repr)) type))) >>= fun _ =>
          pure made' : Resolution (List DeclId))
        (modify (·.modifyDecl id (·.withTypeIn .declared
            (replaceAuto (.named .typeParameter fresh ("T" ++ made.length.repr))
              (type.renamed σ)))) >>= fun _ => pure made') := by
      refine (follows_modify fun t t' same => ?_).bind fun _ _ _ => follows_pure rfl
      have put := same.withTypeIn id .declared
        (replaceAuto (.named .typeParameter fresh ("T" ++ made.length.repr)) type)
      rw [renamed_replaceAuto, Ty.renamed, σ.typeParameter] at put
      exact put
    split
    · exact (follows_modify fun _ _ same => renamed_addTypeParameter same scope _ _).bind
        fun _ _ _ => replaced _
    · exact replaced _

theorem follows_parametersFrom (scope : ScopeId) : ∀ (ps made : List DeclId),
    Follows σ Eq (parametersFrom scope made ps) (parametersFrom scope made ps)
  | [], _ => follows_pure rfl
  | id :: rest, made => by
    refine (follows_parameter scope made id).bind ?_
    rintro made _ rfl
    exact follows_parametersFrom scope rest made

/-! ## Functions -/

theorem size_of_forceSlot {id : DeclId} {slot : TypeSlot} {r : Except Diagnostic Unit}
    (h : Runs (forceSlot id slot) t r t') : t'.decls.size = t.decls.size :=
  (restores_forceSlotWith moves_ensureConstant id slot h).size

/-- Declarations that the table has. -/
def Present (t : SymbolTable) (ids : List DeclId) : Prop := ∀ id ∈ ids, id.index < t.decls.size

theorem present_of_parameter {scope : ScopeId} {made made' : List DeclId} {id : DeclId}
    (old : Present t made) (h : Runs (parameter scope made id) t (.ok made') t') : Present t' made' := by
  unfold parameter at h
  rw [runs_bind_look] at h
  rcases runs_bind.mp h with ⟨d, -, same⟩ | ⟨_, t₁, forced, h⟩
  · cases same
  obtain ⟨r₁, forced, -⟩ := runs_rethrow.mp forced
  have size := size_of_forceSlot forced
  rw [runs_bind_look] at h
  split at h
  · exact absurd rfl ((runs_unexpectedDecl h).2 made')
  rw [runs_bind_look] at h
  split at h
  · rw [runs_bind_modify, runs_bind_modify] at h
    obtain ⟨same, rfl⟩ := runs_pure.mp h
    obtain rfl := Except.ok.inj same
    intro p member
    have added : ((addTypeParameter scope (t₁.decl id).span.start made.length t₁).decls).size =
        t₁.decls.size + 1 := by simp [addTypeParameter, SymbolTable.addUnnamed]
    rw [SymbolTable.size_modifyDecl, added]
    rcases List.mem_append.mp member with member | member
    · have lt := old p member
      omega
    · obtain rfl := List.mem_singleton.mp member
      exact Nat.lt_succ_self _
  · dsimp only at h
    rw [runs_bind_modify] at h
    obtain ⟨same, rfl⟩ := runs_pure.mp h
    obtain rfl := Except.ok.inj same
    intro p member
    rw [SymbolTable.size_modifyDecl, size]
    exact old p member

theorem present_of_parametersFrom {scope : ScopeId} : ∀ (ps : List DeclId) {made made' : List DeclId}
    {t t' : SymbolTable}, Present t made → Runs (parametersFrom scope made ps) t (.ok made') t' →
    Present t' made'
  | [], _, _, _, _, old, h => by
    obtain ⟨same, rfl⟩ := runs_pure.mp h
    obtain rfl := Except.ok.inj same
    exact old
  | id :: rest, made, _, _, _, old, h => by
    rcases runs_bind.mp h with ⟨_, -, same⟩ | ⟨_, _, first, h⟩
    · cases same
    · exact present_of_parametersFrom rest (present_of_parameter old first) h

/-- Names of declarations that the table has are bound as the renamed ones are. -/
theorem followsAt_bindNames (scope : ScopeId) : ∀ (made : List DeclId) {t t' : SymbolTable},
    Present t made → t.Renamed σ t' →
    FollowsAt σ (fun _ _ => True)
      (made.forM fun p => modify fun t => t.bindName scope (t.decl p).name p : Resolution Unit) t
      (made.forM fun p => modify fun t => t.bindName scope (t.decl p).name p) t'
  | [], _, _, _, same => follows_pure trivial same
  | p :: rest, t, t', present, same => by
    have bound : (t.bindName scope (t.decl p).name p).Renamed σ
        (t'.bindName scope (t'.decl p).name p) := by
      rw [same.decl_of_lt (present p (List.mem_cons_self ..))]
      exact same.bindName scope _ p
    exact followsAt_bindNames scope rest
      (fun id member => present id (List.mem_cons_of_mem _ member)) bound

theorem follows_functionSignature (id : DeclId) (scope : ScopeId) (c : Callable) :
    Follows σ (fun _ _ => True) (functionSignature id scope c)
      (functionSignature id scope (c.renamed σ)) := by
  have signed : Follows σ Eq
      (under scope do
        let made ← parametersFrom scope [] c.parameters
        forceSlot id .result
        return made)
      (under scope do
        let made ← parametersFrom scope [] c.parameters
        forceSlot id .result
        return made) := by
    refine Follows.under ?_ scope
    refine (follows_parametersFrom scope c.parameters []).bind ?_
    rintro made _ rfl
    exact (follows_forceSlot id .result).bind fun _ _ _ => follows_pure rfl
  intro t t' same
  refine (signed same).bind ?_
  rintro made _ u u' run rfl same₁
  have present : Present u made := by
    obtain ⟨u₁, inner, rfl⟩ := runs_under.mp run
    rcases runs_bind.mp inner with ⟨_, -, no⟩ | ⟨made', u₂, parameters, inner⟩
    · cases no
    rcases runs_bind.mp inner with ⟨_, -, no⟩ | ⟨_, u₃, result, inner⟩
    · cases no
    obtain ⟨yields, rfl⟩ := runs_pure.mp inner
    obtain rfl := Except.ok.inj yields
    have before := present_of_parametersFrom c.parameters (fun _ none => by cases none) parameters
    intro p member
    change p.index < u₁.decls.size
    rw [size_of_forceSlot result]
    exact before p member
  refine (followsAt_bindNames scope made present same₁).bind fun _ _ u₁ u₁' _ _ same₂ => ?_
  refine Follows.bind (A := fun _ _ => True) ?_ (fun _ _ _ => ?_) same₂
  · exact follows_modify fun _ _ same => same.rebuildType id
  · exact follows_modify fun _ _ same => same.mapCallable id fun _ => rfl

end

/-! ## Passes over statements inside -/

section Walk

open Faulting

theorem follows_function {walk walk' : Stmt → Reporting Stmt}
    (walks : ∀ s, Reporting.Follows σ (fun s s' => s' = s.renamed σ) (walk s) (walk' (s.renamed σ)))
    (id : DeclId) :
    Follows σ (fun _ _ => True) (function walk id) (function walk' id) := by
  refine (follows_resolve (Resolution.follows_scopeOf _)).bind ?_
  rintro scope _ rfl
  refine (follows_look fun t t' same => same.decl id).bind fun d d' renamed => ?_
  rw [renamed.callable?]
  cases d.callable? with
  | none => exact follows_resolve (Resolution.follows_unexpectedDecl renamed)
  | some c =>
    refine (follows_resolve (follows_functionSignature id scope c)).bind fun _ _ _ =>
      (follows_change fun _ _ same => same.withoutBody id).bind fun _ _ _ => ?_
    have put (body : Body) : Follows σ (fun _ _ => True)
        (change (withBody · id body)) (change (withBody · id (body.renamed σ))) :=
      follows_change fun _ _ same => same.withBody id body
    cases body : c.body with
    | absent =>
      simp only [Callable.renamed, body]
      exact put .absent
    | expression e =>
      simp only [Callable.renamed, body]
      exact put (.expression e)
    | statement s =>
      simp only [Callable.renamed, body, Body.renamed]
      have walked : Follows σ (fun body body' => body' = body.renamed σ)
          (Body.statement <$> monadLift (Reporting.under scope (Reporting.underFresh (walk s))))
          (Body.statement <$>
            monadLift (Reporting.under scope (Reporting.underFresh (walk' (s.renamed σ))))) :=
        (follows_lift ((walks s).underFresh.under scope)).map fun _ _ same =>
          congrArg Body.statement same
      refine walked.bind ?_
      rintro body _ rfl
      exact put body

variable {walk walk' : List Stmt → Reporting (List Stmt)}
  (walks : ∀ body, Reporting.Follows σ (fun body body' => body' = Stmt.allRenamed σ body) (walk body)
    (walk' (Stmt.allRenamed σ body)))

include walks

theorem follows_members (id : DeclId) (scope : ScopeId) :
    Reporting.Follows σ (fun _ _ => True) (members walk id scope) (members walk' id scope) := by
  refine (Reporting.follows_look (A := fun body body' => body' = Stmt.allRenamed σ body)
    fun t t' same => same.members id).bind ?_
  rintro body _ rfl
  refine (Reporting.follows_change fun _ _ same => same.withMembers id []).bind
    fun _ _ _ => ((walks body).under scope).bind ?_
  rintro body _ rfl
  exact Reporting.follows_change fun _ _ same => same.withMembers id body

end Walk

end Signature

/-! ## Classes -/

namespace Resolution

theorem follows_absorbAll (cls : DeclId) (outer : ScopeId) : ∀ ids : List DeclId,
    Follows σ (fun _ _ => True) (absorbAll cls outer ids) (absorbAll cls outer ids)
  | [] => follows_pure trivial
  | id :: rest => by
    refine (follows_look (A := Eq) fun t t' same => (same.decl id).isExtension.symm).bind ?_
    rintro extends_ _ rfl
    cases extends_ with
    | true =>
      refine (follows_scopeOf _).bind ?_
      rintro inner _ rfl
      exact (follows_modify fun _ _ same => same.absorb cls id inner outer).bind
        fun _ _ _ => follows_absorbAll cls outer rest
    | false => exact follows_absorbAll cls outer rest

theorem followsAt_absorbExtensions (same : t.Renamed σ t') (enclosing : ScopeId) {cls : DeclId}
    (present : cls.index < t.decls.size) :
    FollowsAt σ (fun _ _ => True) (absorbExtensions enclosing cls) t
      (absorbExtensions enclosing cls) t' := by
  have set : ((t'.scope enclosing).find? (t'.decl cls).name).getD [] =
      ((t.scope enclosing).find? (t.decl cls).name).getD [] := by
    rw [same.decl_of_lt present]
    exact congrArg (Option.getD · []) ((same.scope enclosing).find? _)
  have rest (ids : List DeclId) : Follows σ (fun _ _ => True)
      (scopeOf (.decl cls) >>= fun outer => absorbAll cls outer ids)
      (scopeOf (.decl cls) >>= fun outer => absorbAll cls outer ids) := by
    refine (follows_scopeOf _).bind ?_
    rintro outer _ rfl
    exact follows_absorbAll cls outer ids
  have absorbs := rest (((t.scope enclosing).find? (t.decl cls).name).getD []) same
  intro r u run
  obtain ⟨r', u', run', related⟩ := absorbs run
  refine ⟨r', u', ?_, related⟩
  rw [← set] at run'
  exact run'

end Resolution

namespace Faulting

/-- A class has the members of the same extensions meanwhile. -/
theorem followsAt_withExtensions {α α' : Type} {A : α → α' → Prop} {x : Reporting α}
    {x' : Reporting α'} (same : t.Renamed σ t') (enclosing : ScopeId) {cls : DeclId}
    (present : cls.index < t.decls.size) (h : Reporting.Follows σ A x x') :
    FollowsAt σ A (withExtensions enclosing cls x) t (withExtensions enclosing cls x') t' := by
  have name : (t'.decl cls).name = σ.name (t.decl cls).name := by
    rw [same.decl_of_lt present]
    rfl
  have overloaded : t'.isOverloaded enclosing (t'.decl cls).name =
      t.isOverloaded enclosing (t.decl cls).name := by
    rw [name]
    exact same.isOverloaded enclosing _
  refine followsAt_bind_look (followsAt_bind_look ?_)
  rw [overloaded, name]
  split
  · have absorbed : FollowsAt σ A
        (resolve (Resolution.absorbExtensions enclosing cls) >>= fun _ => monadLift x) t
        (resolve (Resolution.absorbExtensions enclosing cls) >>= fun _ => monadLift x') t' :=
      followsAt_bind_resolve (Resolution.followsAt_absorbExtensions same enclosing present)
        fun _ _ _ _ _ _ same' => follows_lift h same'
    exact absorbed.ending fun _ _ same => same.keepOnly enclosing _ fun d =>
      congrArg (!·) (same.decl d).isExtension
  · exact follows_lift h same

end Faulting

namespace Signature

theorem followsAt_classMembers {walk walk' : List Stmt → Reporting (List Stmt)}
    (walks : ∀ body, Reporting.Follows σ (fun body body' => body' = Stmt.allRenamed σ body)
      (walk body) (walk' (Stmt.allRenamed σ body)))
    (same : t.Renamed σ t') {id : DeclId} (present : id.index < t.decls.size) :
    Faulting.FollowsAt σ (fun _ _ => True) (classMembers walk id) t (classMembers walk' id) t' := by
  refine Faulting.followsAt_bind_look ?_
  rw [(same.decl id).scope]
  refine Faulting.followsAt_bind_resolve ((Resolution.follows_forceSlot id .kind).under _ same) ?_
  rintro _ _ u u' forced - same₁
  have present₁ : id.index < u.decls.size := by
    obtain ⟨u₁, inner, rfl⟩ := Resolution.runs_under.mp forced
    exact present.trans_eq (size_of_forceSlot inner).symm
  refine Faulting.followsAt_bind_resolve (Resolution.follows_scopeOf _ same₁) ?_
  rintro scope _ u₁ u₁' found rfl same₂
  obtain rfl : u₁ = u := (Resolution.moves_scopeOf (R := Eq) _ found).symm
  exact Faulting.followsAt_withExtensions same₂ _ present₁ (follows_members walks id scope)

/-! ## Statements -/

theorem allRenamed_withoutExtensions (same : t.Renamed σ t') (body : List Stmt) :
    withoutExtensions t' (Stmt.allRenamed σ body) =
      Stmt.allRenamed σ (withoutExtensions t body) := by
  unfold withoutExtensions
  rw [Stmt.allRenamed_eq_map, Stmt.allRenamed_eq_map, List.filter_map]
  simp [Function.comp_def, (same.decl _).isExtension]

section Nested

open Reporting

variable {declare declare' : DeclId → Reporting Unit}

/-- Declarations are passed over on the renamed table as on the table. -/
def FollowsDeclaring (σ : Renaming) (declare declare' : DeclId → Reporting Unit) : Prop :=
  ∀ id, Follows σ (fun _ _ => True) (declare id) (declare' id)

mutual

theorem follows_statement (declares : FollowsDeclaring σ declare declare') : ∀ s : Stmt,
    Follows σ (fun s s' => s' = s.renamed σ) (statement declare s) (statement declare' (s.renamed σ))
  | .block id body span => by
    refine (follows_attempt (Resolution.follows_scopeOf (.block id))).bind fun r r' outcome => ?_
    cases outcome with
    | error fault => exact (follows_report fault).bind fun _ _ _ => follows_pure rfl
    | ok found =>
      subst found
      refine Follows.bind (A := fun body body' => body' = Stmt.allRenamed σ body)
        (Follows.under ?_ _) ?_
      · refine (follows_statements declares body).bind ?_
        rintro walked _ rfl
        exact follows_look fun t t' same => allRenamed_withoutExtensions same walked
      · rintro walked _ rfl
        exact follows_pure rfl
  | .declaration id span => (declares id).bind fun _ _ _ => follows_pure rfl
  | .conditional condition onTrue onFalse span => by
    refine (follows_statement declares onTrue).bind ?_
    rintro onTrue _ rfl
    refine (follows_alternative declares onFalse).bind ?_
    rintro onFalse _ rfl
    exact follows_pure rfl
  | .whileLoop condition body span => by
    refine (follows_statement declares body).bind ?_
    rintro body _ rfl
    exact follows_pure rfl
  | .returning _ _ | .yielding _ _ | .breaking _ | .continuing _ | .expression _ => follows_pure rfl

theorem follows_statements (declares : FollowsDeclaring σ declare declare') : ∀ body : List Stmt,
    Follows σ (fun body body' => body' = Stmt.allRenamed σ body) (statements declare body)
      (statements declare' (Stmt.allRenamed σ body))
  | [] => follows_pure rfl
  | s :: rest => by
    refine (follows_statement declares s).bind ?_
    rintro s _ rfl
    refine (follows_statements declares rest).bind ?_
    rintro rest _ rfl
    exact follows_pure rfl

theorem follows_alternative (declares : FollowsDeclaring σ declare declare') : ∀ onFalse : Option Stmt,
    Follows σ (fun onFalse onFalse' => onFalse' = Stmt.renamedBehindElse σ onFalse)
      (alternative declare onFalse) (alternative declare' (Stmt.renamedBehindElse σ onFalse))
  | none => follows_pure rfl
  | some s => (follows_statement declares s).map fun _ _ same => congrArg some same

end

theorem follows_sequence (declares : FollowsDeclaring σ declare declare') (body : List Stmt) :
    Follows σ (fun body body' => body' = Stmt.allRenamed σ body) (sequence declare body)
      (sequence declare' (Stmt.allRenamed σ body)) := by
  refine (follows_statements declares body).bind ?_
  rintro walked _ rfl
  exact follows_look fun t t' same => allRenamed_withoutExtensions same walked

end Nested

/-! ## Declarations -/

theorem follows_object (id : DeclId) :
    Resolution.Follows σ (fun _ _ => True) (object id) (object id) := by
  refine (Resolution.follows_look (A := Eq) fun t t' same => (same.decl id).scope.symm).bind ?_
  rintro scope _ rfl
  exact (Resolution.follows_forceSlot id .declared).under scope

theorem follows_declaration {declare declare' : DeclId → Reporting Unit}
    (declares : FollowsDeclaring σ declare declare') (id : DeclId) :
    Faulting.Follows σ (fun _ _ => True) (declaration declare id) (declaration declare' id) := by
  intro t t' same
  refine Faulting.followsAt_bind_look ?_
  have renamed := same.decl id
  have unexpected : Faulting.Follows σ (fun _ _ => True)
      (Faulting.resolve (Resolution.unexpectedDecl (t.decl id)) : Faulting Unit)
      (Faulting.resolve (Resolution.unexpectedDecl (t'.decl id)) : Faulting Unit) :=
    Faulting.follows_resolve (Resolution.follows_unexpectedDecl renamed)
  rw [renamed.kind]
  cases kind : (t.decl id).kind with
  | object sort type init => exact Faulting.follows_resolve (follows_object id) same
  | super type => exact Faulting.follows_resolve (follows_object id) same
  | callable sort c => exact follows_function (follows_statement declares) id same
  | classDecl sort type body =>
    cases sort with
    | primary =>
      have present : id.index < t.decls.size :=
        SymbolTable.lt_size_of_kind (by rw [kind]; nofun)
      exact followsAt_classMembers (follows_sequence declares) same present
    | extension => exact Faulting.follows_pure trivial same
  | parameter type => exact unexpected same
  | typeParameter => exact unexpected same

theorem follows_declareWithin (level : Nat) :
    FollowsDeclaring σ (declareWithin level) (declareWithin level) := by
  induction level with
  | zero => exact fun _ => Reporting.follows_pure trivial
  | succ level ih =>
    intro id
    refine (follows_declaration ih id).fault?.bind fun fault? fault?' related => ?_
    refine (Reporting.follows_look (A := Eq) fun t t' same => (same.decl id).subject.symm).bind ?_
    rintro subject _ rfl
    exact Reporting.follows_reportWithin subject related

theorem follows_declare : FollowsDeclaring σ declare declare := by
  intro id
  refine (Reporting.follows_look (A := Eq) fun t t' same => same.size_decls.symm).bind ?_
  rintro size _ rfl
  exact follows_declareWithin _ id

end Signature

namespace SourceUnit

/-- The first pass over a unit and over the renamed one. -/
theorem renamed_resolveSignatures (u : SourceUnit) (same : t.Renamed σ t') :
    Reporting.Collects σ (fun u u' => u' = u.renamed σ) (u.resolveSignatures.run t)
      ((u.renamed σ).resolveSignatures.run t') := by
  refine Reporting.collects_of_follows
    (Reporting.Follows.bind (A := fun body body' => body' = Stmt.allRenamed σ body) ?_ ?_) same
  · exact (Signature.follows_sequence Signature.follows_declare u.body).under u.scope
  · rintro body _ rfl
    exact Reporting.follows_pure rfl

end SourceUnit

end Deferral
