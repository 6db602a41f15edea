import Deferral.Proofs.FirstPass.Absorbing
import Deferral.Proofs.Integrity.Integral

/-!
# What extending a class changes

A class that is worked on together with its extensions has their members behind its own, and in its scope
the names of theirs behind its own. The extensions are left without members, and their scopes lie in that of
the class. Nothing else is different. Afterwards the name of the class has lost the extensions, and nothing
else has changed since the class was worked on.
-/

namespace Deferral

namespace Decl

theorem mapMembers_id (d : Decl) : (d.mapMembers fun body => body) = d := by
  obtain ⟨name, kind, scope, span⟩ := d
  cases kind <;> rfl

theorem members?_mapMembers (d : Decl) (f : List Stmt → List Stmt) :
    (d.mapMembers f).members? = d.members?.map f := by
  obtain ⟨name, kind, scope, span⟩ := d
  cases kind <;> rfl

theorem mapMembers_mapMembers (d : Decl) (f g : List Stmt → List Stmt) :
    (d.mapMembers f).mapMembers g = d.mapMembers fun body => g (f body) := by
  obtain ⟨name, kind, scope, span⟩ := d
  cases kind <;> rfl

theorem isPrimaryClass_mapMembers (d : Decl) (f : List Stmt → List Stmt) :
    (d.mapMembers f).isPrimaryClass = d.isPrimaryClass := by
  obtain ⟨name, ⟨_, _, _⟩ | _ | _ | _ | ⟨_ | _, _, _⟩ | _, scope, span⟩ := d <;> rfl

end Decl

namespace SymbolTable

variable {t t₁ t' : SymbolTable} {cls e : DeclId} {enclosing inner outer : ScopeId}
  {es es' : List DeclId}

/-! ## Extensions of a class -/

/-- The scopes saved for some declarations. -/
def scopesOf (t : SymbolTable) (ids : List DeclId) : List ScopeId :=
  ids.filterMap fun id => t.scopeOf? (.decl id)

def extensionsAmong (t : SymbolTable) (ids : List DeclId) : List DeclId :=
  ids.filter fun id => (t.decl id).isExtension

/-- The extensions that share the name of a class in the scope `enclosing`. -/
def extensionsOf (t : SymbolTable) (enclosing : ScopeId) (cls : DeclId) : List DeclId :=
  t.extensionsAmong (((t.scope enclosing).find? (t.decl cls).name).getD [])

/-- The overload sets that a name has in some scopes, one behind the other. -/
def together (t : SymbolTable) (scopes : List ScopeId) (name : String) : Option Overloads :=
  scopes.foldr (fun s => Option.merge (· ++ ·) ((t.scope s).find? name)) none

/-- A class with the scope `outer`, and extensions `es` with scopes that are different from it and from one
another. -/
structure Extensible (t : SymbolTable) (cls : DeclId) (outer : ScopeId) (es : List DeclId) :
    Prop where
  ordered : t.Ordered
  primary : (t.decl cls).isPrimaryClass = true
  extension : ∀ e ∈ es, (t.decl e).isExtension = true
  owner : ∀ e ∈ es, (t.scopeOf? (.decl e)).isSome = true
  distinct : (outer :: t.scopesOf es).Nodup
  inside : ∀ s ∈ outer :: t.scopesOf es, s.index < t.scopes.size

/-- What is different in `t'` from `t` once a class with the scope `outer` has taken in the extensions `es`,
and that nothing else is. -/
structure TakesIn (cls : DeclId) (outer : ScopeId) (es : List DeclId) (t t' : SymbolTable) :
    Prop where
  members : t'.decl cls = (t.decl cls).mapMembers (· ++ es.flatMap t.members)
  emptied : ∀ e ∈ es, t'.decl e = (t.decl e).mapMembers fun _ => []
  decl : ∀ id, id ≠ cls → id ∉ es → t'.decl id = t.decl id
  decls : t'.decls.size = t.decls.size
  names : ∀ name, (t'.scope outer).find? name = t.together (outer :: t.scopesOf es) name
  parent : (t'.scope outer).parent = (t.scope outer).parent
  inside : ∀ s ∈ t.scopesOf es, t'.scope s = { t.scope s with parent := some outer }
  scope : ∀ s, s ≠ outer → s ∉ t.scopesOf es → t'.scope s = t.scope s
  scopes : t'.scopes.size = t.scopes.size
  saved : t'.saved = t.saved
  active : t'.active = t.active
  constants : t'.constants = t.constants
  binding : t'.binding = t.binding
  nextBlock : t'.nextBlock = t.nextBlock

/-- What is different in `t'` from `t` once a name in a scope has lost its extensions, and that nothing else
is. -/
structure Drops (scope : ScopeId) (name : String) (t t' : SymbolTable) : Prop where
  set : (t'.scope scope).find? name =
    ((t.scope scope).find? name).map (List.filter fun id => !(t.decl id).isExtension)
  names : ∀ other, other ≠ name → (t'.scope scope).find? other = (t.scope scope).find? other
  parent : (t'.scope scope).parent = (t.scope scope).parent
  scope : ∀ s, s ≠ scope → t'.scope s = t.scope s
  scopes : t'.scopes.size = t.scopes.size
  decls : t'.decls = t.decls
  saved : t'.saved = t.saved
  active : t'.active = t.active
  constants : t'.constants = t.constants
  binding : t'.binding = t.binding
  nextBlock : t'.nextBlock = t.nextBlock

theorem mem_scopesOf {ids : List DeclId} {s : ScopeId} :
    s ∈ t.scopesOf ids ↔ ∃ id ∈ ids, t.scopeOf? (.decl id) = some s :=
  List.mem_filterMap

theorem extensionsAmong_cons (t : SymbolTable) (id : DeclId) (ids : List DeclId) :
    t.extensionsAmong (id :: ids) =
      if (t.decl id).isExtension then id :: t.extensionsAmong ids else t.extensionsAmong ids :=
  List.filter_cons

theorem scopesOf_congr (saved : t'.saved = t.saved) (ids : List DeclId) :
    t'.scopesOf ids = t.scopesOf ids := by
  simp only [scopesOf, scopeOf?, saved]

theorem together_cons (t : SymbolTable) (s : ScopeId) (scopes : List ScopeId) (name : String) :
    t.together (s :: scopes) name =
      Option.merge (· ++ ·) ((t.scope s).find? name) (t.together scopes name) := rfl

theorem together_congr {scopes : List ScopeId} {name : String}
    (same : ∀ s ∈ scopes, (t'.scope s).find? name = (t.scope s).find? name) :
    t'.together scopes name = t.together scopes name := by
  induction scopes with
  | nil => rfl
  | cons s scopes ih =>
    obtain ⟨first, rest⟩ := List.forall_mem_cons.mp same
    rw [together_cons, together_cons, first, ih rest]

theorem together_append (t : SymbolTable) (scopes scopes' : List ScopeId) (name : String) :
    t.together (scopes ++ scopes') name =
      Option.merge (· ++ ·) (t.together scopes name) (t.together scopes' name) := by
  induction scopes with
  | nil => exact (Option.merge_none_left ..).symm
  | cons s scopes ih =>
    rw [List.cons_append, together_cons, together_cons, ih]
    cases (t.scope s).find? name <;> cases t.together scopes name <;>
      cases t.together scopes' name <;> simp

/-! ## One extension after the other -/

theorem lt_size_of_isExtension (extension : (t.decl e).isExtension = true) :
    e.index < t.decls.size :=
  lt_size_of_kind fun absent => by simp [Decl.isExtension, absent] at extension

theorem decl_absorb (primary : (t.decl cls).isPrimaryClass = true)
    (extension : (t.decl e).isExtension = true) (inner outer : ScopeId) (id : DeclId) :
    (t.absorb cls e inner outer).decl id =
      if id = cls then (t.decl cls).mapMembers (· ++ t.members e)
      else if id = e then (t.decl e).mapMembers fun _ => []
      else t.decl id := by
  have ne : cls ≠ e := by
    rintro rfl
    rw [not_isExtension_of_isPrimaryClass primary] at extension
    cases extension
  have lt : cls.index < t.decls.size := lt_size_of_isPrimaryClass primary
  have lt' : e.index < t.decls.size := lt_size_of_isExtension extension
  simp only [absorb, decl_modifyDecl]
  split
  · rename_i same
    rw [if_pos same.1, if_neg fun same => ne same.1]
    rfl
  · rename_i other
    rw [if_neg fun same => other ⟨same, by simpa [modifyDecl, reparent, modifyScope] using lt⟩]
    split
    · rename_i same
      rw [if_pos same.1]
      rfl
    · rename_i other
      rw [if_neg fun same => other ⟨same, lt'⟩]
      rfl

/-- Only members of declarations change. -/
theorem exists_decl_absorb (primary : (t.decl cls).isPrimaryClass = true)
    (extension : (t.decl e).isExtension = true) (inner outer : ScopeId) (id : DeclId) :
    ∃ f, (t.absorb cls e inner outer).decl id = (t.decl id).mapMembers f := by
  rw [decl_absorb primary extension]
  split
  · rename_i same
    exact ⟨_, by rw [same]⟩
  · split
    · rename_i same
      exact ⟨_, by rw [same]⟩
    · exact ⟨_, (Decl.mapMembers_id _).symm⟩

theorem isExtension_absorb (primary : (t.decl cls).isPrimaryClass = true)
    (extension : (t.decl e).isExtension = true) (inner outer : ScopeId) (id : DeclId) :
    ((t.absorb cls e inner outer).decl id).isExtension = (t.decl id).isExtension := by
  obtain ⟨f, same⟩ := exists_decl_absorb primary extension inner outer id
  rw [same, Decl.isExtension_mapMembers]

theorem isPrimaryClass_absorb (primary : (t.decl cls).isPrimaryClass = true)
    (extension : (t.decl e).isExtension = true) (inner outer : ScopeId) (id : DeclId) :
    ((t.absorb cls e inner outer).decl id).isPrimaryClass = (t.decl id).isPrimaryClass := by
  obtain ⟨f, same⟩ := exists_decl_absorb primary extension inner outer id
  rw [same, Decl.isPrimaryClass_mapMembers]

theorem scope_absorb_eq (distinct : inner ≠ outer) (lt : inner.index < t.scopes.size)
    (lt' : outer.index < t.scopes.size) (cls e : DeclId) (s : ScopeId) :
    (t.absorb cls e inner outer).scope s =
      if s = inner then { t.scope inner with parent := some outer }
      else if s = outer then (t.scope outer).extendAll (t.scope inner).names
      else t.scope s := by
  change ((t.modifyScope outer (·.extendAll (t.scope inner).names)).reparent inner outer).scope s = _
  unfold reparent
  rw [scope_modifyScope, scope_modifyScope, scope_modifyScope]
  simp [lt, lt', distinct, modifyScope]

/-- What one extension changes. -/
theorem takesIn_absorb (ordered : t.Ordered) (primary : (t.decl cls).isPrimaryClass = true)
    (extension : (t.decl e).isExtension = true) (owns : t.scopeOf? (.decl e) = some inner)
    (distinct : inner ≠ outer) (lt : inner.index < t.scopes.size)
    (lt' : outer.index < t.scopes.size) :
    TakesIn cls outer [e] t (t.absorb cls e inner outer) := by
  have ne : e ≠ cls := by
    rintro rfl
    rw [not_isExtension_of_isPrimaryClass primary] at extension
    cases extension
  have scopes : t.scopesOf [e] = [inner] := by simp [scopesOf, owns]
  constructor
  case members => simp [decl_absorb primary extension]
  case emptied => simp [decl_absorb primary extension, ne]
  case decl =>
    intro id notClass notExtension
    rw [decl_absorb primary extension, if_neg notClass, if_neg (by simpa using notExtension)]
  case names =>
    intro name
    rw [scope_absorb_eq distinct lt lt', if_neg distinct.symm, if_pos rfl,
      Scope.find?_extendAll (ordered outer) (ordered inner), scopes]
    change Option.elim ((t.scope inner).find? name) _ _ = _
    simp only [together, List.foldr]
    cases (t.scope inner).find? name <;> cases (t.scope outer).find? name <;> simp
  case parent =>
    rw [scope_absorb_eq distinct lt lt', if_neg distinct.symm, if_pos rfl, Scope.parent_extendAll]
  case inside => simp [scopes, scope_absorb_eq distinct lt lt']
  case scope =>
    intro s notOuter notInner
    rw [scope_absorb_eq distinct lt lt', if_neg (by simpa [scopes] using notInner), if_neg notOuter]
  all_goals simp [absorb, modifyDecl, reparent, modifyScope]

namespace TakesIn

theorem refl (t : SymbolTable) (cls : DeclId) (outer : ScopeId) : TakesIn cls outer [] t t := by
  constructor
  case members => simp [Decl.mapMembers_id]
  case names => simp [scopesOf, together]
  all_goals simp [scopesOf]

theorem members_class (h : TakesIn cls outer es t t')
    (primary : (t.decl cls).isPrimaryClass = true) :
    t'.members cls = t.members cls ++ es.flatMap t.members := by
  obtain ⟨body, held⟩ := Option.isSome_iff_exists.mp (members?_isSome_of_isPrimaryClass primary)
  rw [SymbolTable.members, h.members, Decl.members?_mapMembers, SymbolTable.members, held]
  rfl

theorem members_extension (h : TakesIn cls outer es t t') (e : DeclId) (member : e ∈ es) :
    t'.members e = [] := by
  rw [SymbolTable.members, h.emptied e member, Decl.members?_mapMembers]
  cases (t.decl e).members? <;> rfl

/-- A class takes in some extensions and then others. -/
theorem append (first : TakesIn cls outer es t t₁) (second : TakesIn cls outer es' t₁ t')
    (notClass : cls ∉ es ++ es') (apart : es.Disjoint es')
    (distinct : (outer :: t.scopesOf (es ++ es')).Nodup) : TakesIn cls outer (es ++ es') t t' := by
  have scopes : t.scopesOf (es ++ es') = t.scopesOf es ++ t.scopesOf es' := List.filterMap_append
  have later := scopesOf_congr first.saved es'
  rw [scopes] at distinct
  obtain ⟨notOuter, distinct⟩ := List.nodup_cons.mp distinct
  have disjoint := List.disjoint_of_nodup_append distinct
  have untaken : ∀ s ∈ t.scopesOf es', t₁.scope s = t.scope s := fun s member =>
    first.scope s (fun same => notOuter (by simp [← same, member])) fun member' =>
      disjoint member' member
  have untaken' : ∀ id ∈ es', t₁.decl id = t.decl id := fun id member =>
    first.decl id (fun same => notClass (by simp [← same, member])) fun member' =>
      apart member' member
  constructor
  case members =>
    have same : es'.flatMap t₁.members = es'.flatMap t.members :=
      List.flatMap_congr fun id member => by
        rw [SymbolTable.members, untaken' id member, SymbolTable.members]
    rw [second.members, first.members, Decl.mapMembers_mapMembers, same]
    simp only [List.flatMap_append, List.append_assoc]
  case emptied =>
    intro id member
    rcases List.mem_append.mp member with member | member
    · rw [second.decl id (fun same => notClass (by simp [← same, member])) (apart member),
        first.emptied id member]
    · rw [second.emptied id member, untaken' id member]
  case decl =>
    intro id other notIn
    obtain ⟨notFirst, notSecond⟩ := not_or.mp (fun h => notIn (List.mem_append.mpr h))
    rw [second.decl id other notSecond, first.decl id other notFirst]
  case names =>
    intro name
    have rest : t₁.together (t.scopesOf es') name = t.together (t.scopesOf es') name :=
      together_congr fun s member => by rw [untaken s member]
    rw [second.names, together_cons, first.names, later, rest, scopes, ← List.cons_append,
      together_append]
  case parent => rw [second.parent, first.parent]
  case inside =>
    intro s member
    rw [scopes] at member
    rcases List.mem_append.mp member with member | member
    · rw [second.scope s (fun same => notOuter (by simp [← same, member]))
        (later ▸ fun member' => disjoint member member'), first.inside s member]
    · rw [second.inside s (later ▸ member), untaken s member]
  case scope =>
    intro s other notIn
    rw [scopes] at notIn
    obtain ⟨notFirst, notSecond⟩ := not_or.mp (fun h => notIn (List.mem_append.mpr h))
    rw [second.scope s other (later ▸ notSecond), first.scope s other notFirst]
  case decls => rw [second.decls, first.decls]
  case scopes => rw [second.scopes, first.scopes]
  case saved => rw [second.saved, first.saved]
  case active => rw [second.active, first.active]
  case constants => rw [second.constants, first.constants]
  case binding => rw [second.binding, first.binding]
  case nextBlock => rw [second.nextBlock, first.nextBlock]

end TakesIn

/-- No class takes in an extension twice. -/
theorem Extensible.notMem (h : t.Extensible cls outer (e :: es)) : e ∉ es := by
  intro member
  obtain ⟨inner, owns⟩ := Option.isSome_iff_exists.mp (h.owner e (by simp))
  have scopes : t.scopesOf (e :: es) = inner :: t.scopesOf es := by simp [scopesOf, owns]
  have distinct := scopes ▸ (List.nodup_cons.mp h.distinct).2
  exact (List.nodup_cons.mp distinct).1 (mem_scopesOf.mpr ⟨e, member, owns⟩)

/-- What an extension does not change leaves a class extensible by the others. -/
theorem Extensible.absorb (h : t.Extensible cls outer (e :: es))
    (owns : t.scopeOf? (.decl e) = some inner) :
    TakesIn cls outer [e] t (t.absorb cls e inner outer) ∧
      (t.absorb cls e inner outer).Extensible cls outer es := by
  have extension := h.extension e (by simp)
  have scopes : t.scopesOf (e :: es) = inner :: t.scopesOf es := by simp [scopesOf, owns]
  have distinct := h.distinct
  rw [scopes, List.nodup_cons, List.mem_cons, not_or, List.nodup_cons] at distinct
  obtain ⟨⟨other, notOuter⟩, notInner, rest⟩ := distinct
  have inside := h.inside
  rw [scopes] at inside
  have taken := takesIn_absorb h.ordered h.primary extension owns (Ne.symm other)
    (inside inner (by simp)) (inside outer (by simp))
  have later := scopesOf_congr taken.saved es
  refine ⟨taken, ordered_absorb h.ordered _ _ _ _, ?_, fun id member => ?_, fun id member => ?_, ?_, ?_⟩
  · rw [taken.members, Decl.isPrimaryClass_mapMembers]
    exact h.primary
  · rw [isExtension_absorb h.primary extension]
    exact h.extension id (List.mem_cons_of_mem _ member)
  · rw [scopeOf?, taken.saved]
    exact h.owner id (List.mem_cons_of_mem _ member)
  · rw [later]
    exact List.nodup_cons.mpr ⟨notOuter, rest⟩
  · rw [later, taken.scopes]
    intro s member
    rcases List.mem_cons.mp member with rfl | member
    · exact inside s (by simp)
    · exact inside s (by simp [member])

end SymbolTable

/-! ## Runs -/

open SymbolTable

variable {t : SymbolTable} {cls : DeclId} {enclosing outer : ScopeId}

/-- A class takes in the extensions among some declarations, in their order. -/
theorem Resolution.exists_runs_absorbAll (ids : List DeclId)
    (h : t.Extensible cls outer (t.extensionsAmong ids)) :
    ∃ t', Runs (absorbAll cls outer ids) t (.ok ()) t' ∧ t'.Ordered ∧
      TakesIn cls outer (t.extensionsAmong ids) t t' := by
  induction ids generalizing t with
  | nil => exact ⟨t, runs_pure.mpr ⟨rfl, rfl⟩, h.ordered, .refl ..⟩
  | cons id rest ih =>
    unfold absorbAll
    by_cases extension : (t.decl id).isExtension = true
    · simp only [extensionsAmong_cons, runs_bind_look, extension, ↓reduceIte] at h ⊢
      obtain ⟨inner, owns⟩ := Option.isSome_iff_exists.mp (h.owner id (by simp))
      obtain ⟨first, later⟩ := h.absorb owns
      have same : (t.absorb cls id inner outer).extensionsAmong rest = t.extensionsAmong rest :=
        List.filter_congr fun other _ => isExtension_absorb h.primary extension inner outer other
      obtain ⟨t', run, ordered, taken⟩ := ih (same ▸ later)
      rw [same] at taken
      refine ⟨t', runs_bind.mpr (.inr ⟨inner, t, run_scopeOf_of_eq_some owns, ?_⟩), ordered,
        first.append taken (fun member => ?_) ?_ h.distinct⟩
      · exact runs_bind_modify.mpr run
      · have := h.extension cls member
        rw [not_isExtension_of_isPrimaryClass h.primary] at this
        cases this
      · exact List.singleton_disjoint.mpr h.notMem
    · simp only [extensionsAmong_cons, runs_bind_look, extension, Bool.false_eq_true, ↓reduceIte] at h ⊢
      exact ih h

/-- What dropping the extensions of a name changes. -/
theorem SymbolTable.drops_keepOnly (ordered : t.Ordered) (scope : ScopeId) (name : String) :
    Drops scope name t (t.keepOnly scope name fun d => !d.isExtension) := by
  unfold keepOnly
  split
  · rename_i unbound
    constructor
    case set => simp [unbound]
    all_goals simp
  · rename_i set found
    have lt : scope.index < t.scopes.size := by
      by_contra ge
      simp [SymbolTable.scope, Array.getD_eq_getD_getElem?, ge] at found
      cases found
    constructor
    case set =>
      rw [scope_modifyScope_self lt]
      refine (Names.find?_alter_self (ordered scope) ..).trans ?_
      change some (List.filter _ (((t.scope scope).find? name).getD [])) = _
      rw [found]
      rfl
    case names =>
      intro other ne
      rw [scope_modifyScope_self lt]
      exact Names.find?_alter_of_ne ne _ _
    case parent => rw [scope_modifyScope_self lt]
    case scope =>
      intro s ne
      rw [scope_modifyScope_of_ne ne]
    all_goals simp [modifyScope]

/-- A class that shares its name is worked on with the members and names of its extensions behind its own, and
its name loses the extensions afterwards, whatever has been done in between. A class that does not share its
name is worked on as it is. -/
theorem withExtensions_exactly (t : SymbolTable) (enclosing : ScopeId) (cls : DeclId) :
    (∀ outer, t.isOverloaded enclosing (t.decl cls).name = true →
      t.scopeOf? (.decl cls) = some outer → t.Extensible cls outer (t.extensionsOf enclosing cls) →
      ∃ t₁, t₁.Ordered ∧ TakesIn cls outer (t.extensionsOf enclosing cls) t t₁ ∧
        t₁.members cls = t.members cls ++ (t.extensionsOf enclosing cls).flatMap t.members ∧
        (∀ e ∈ t.extensionsOf enclosing cls, t₁.members e = []) ∧
        ∀ {α : Type} (action : Reporting α) (ρ ρ' : List Diagnostic) (a : α) (t₂ : SymbolTable),
          t₂.Ordered → Reporting.Ends action ρ t₁ a ρ' t₂ →
          ∃ t₃, Faulting.Ends (Faulting.withExtensions enclosing cls action) ρ t (.ok a) ρ' t₃ ∧
            Drops enclosing (t.decl cls).name t₂ t₃) ∧
    (t.isOverloaded enclosing (t.decl cls).name = false →
      ∀ {α : Type} (action : Reporting α) (ρ ρ' : List Diagnostic) (r : Except Diagnostic α)
        (t' : SymbolTable), Faulting.Ends (Faulting.withExtensions enclosing cls action) ρ t r ρ' t' ↔
          ∃ a, r = .ok a ∧ Reporting.Ends action ρ t a ρ' t') := by
  constructor
  · intro outer overloaded owner h
    obtain ⟨t₁, run, ordered, taken⟩ := Resolution.exists_runs_absorbAll _ h
    refine ⟨t₁, ordered, taken, taken.members_class h.primary, taken.members_extension,
      fun action ρ ρ' a t₂ ordered' ends => ?_⟩
    refine ⟨_, ?_, drops_keepOnly ordered' enclosing (t.decl cls).name⟩
    unfold Faulting.withExtensions
    rw [Faulting.ends_bind_look, Faulting.ends_bind_look, if_pos overloaded, Faulting.ends_ending]
    refine ⟨t₂, Faulting.ends_bind.mpr (.inr ⟨(), ρ, t₁, Faulting.ends_resolve.mpr ⟨?_, rfl⟩,
      Faulting.ends_lift.mpr ⟨a, ends, rfl⟩⟩), rfl⟩
    unfold Resolution.absorbExtensions
    rw [Resolution.runs_bind_look]
    exact Resolution.runs_bind.mpr (.inr ⟨outer, t, Resolution.run_scopeOf_of_eq_some owner, run⟩)
  · intro single α action ρ ρ' r t'
    unfold Faulting.withExtensions
    rw [Faulting.ends_bind_look, Faulting.ends_bind_look, single, if_neg (by simp),
      Faulting.ends_lift]
    exact exists_congr fun a => and_comm

/-- A class and two extensions of it, each with the same name in it. -/
def extendedTwice : List Token :=
  (Token.scan ("class C { def A: int32 = 1; } extension C { def A: int32 = 2; } " ++
    "extension C { def A: int32 = 3; }").toList "twice").toOption.getD []

/-- The class has all of the name while it is worked on. -/
theorem withExtensions_extendedTwice : ∃ (t t₁ t₃ : SymbolTable) (us : List SourceUnit), Reached t us ∧
    t.isOverloaded .global (t.decl ⟨0⟩).name = true ∧ t.scopeOf? (.decl ⟨0⟩) = some ⟨1⟩ ∧
    t.Extensible ⟨0⟩ ⟨1⟩ (t.extensionsOf .global ⟨0⟩) ∧
    (t₁.scope ⟨1⟩).find? "A" = some [⟨1⟩, ⟨3⟩, ⟨5⟩] ∧
    Faulting.Ends (Faulting.withExtensions .global ⟨0⟩ (pure ())) [] t (.ok ()) [] t₃ ∧
    Drops .global (t.decl ⟨0⟩).name t₁ t₃ := by
  have ran : SourceUnit.seen? extendedTwice .empty (fun _ t => decide (
      (t.decl ⟨0⟩).isPrimaryClass = true ∧ t.isOverloaded .global (t.decl ⟨0⟩).name = true ∧
      t.scopeOf? (.decl ⟨0⟩) = some ⟨1⟩ ∧ t.extensionsOf .global ⟨0⟩ = [⟨2⟩, ⟨4⟩] ∧
      (∀ e ∈ ([⟨2⟩, ⟨4⟩] : List DeclId), (t.decl e).isExtension = true ∧ (t.scopeOf? (.decl e)).isSome = true) ∧
      t.scopesOf [⟨2⟩, ⟨4⟩] = [⟨2⟩, ⟨3⟩] ∧ t.scopes.size = 4 ∧
      t.together [⟨1⟩, ⟨2⟩, ⟨3⟩] "A" = some [⟨1⟩, ⟨3⟩, ⟨5⟩])) = some true := by
    unfold extendedTwice
    rewrite [String.toList_append, String.toList_ofList, String.toList_ofList]
    decide +kernel
  obtain ⟨u, t, read, seen⟩ := SourceUnit.exists_of_seen? ran
  obtain ⟨primary, overloaded, owner, extensions, each, scopes, size, together⟩ := of_decide_eq_true seen
  have reached := Reached.empty.read read
  obtain ⟨_, _, tidy⟩ := reached.tidy.1
  have extensible : t.Extensible ⟨0⟩ ⟨1⟩ (t.extensionsOf .global ⟨0⟩) := by
    rw [extensions]
    refine ⟨tidy.ordered, primary, fun e member => (each e member).1,
      fun e member => (each e member).2, ?_, ?_⟩ <;> rw [scopes]
    · decide
    · rw [size]
      decide
  obtain ⟨t₁, ordered, taken, -, -, runs⟩ :=
    (withExtensions_exactly t .global ⟨0⟩).1 ⟨1⟩ overloaded owner extensible
  obtain ⟨t₃, ends, drops⟩ := runs (pure ()) [] [] () t₁ ordered rfl
  refine ⟨t, t₁, t₃, _, reached, overloaded, owner, extensible, ?_, ends, drops⟩
  rw [taken.names, extensions, scopes]
  exact together

end Deferral
