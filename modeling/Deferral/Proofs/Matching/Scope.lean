import Deferral.Proofs.Constant.Termination
import Deferral.Proofs.Execution.Parallel
import Deferral.Proofs.Matching.Change
import Deferral.Proofs.Matching.Typing
import Deferral.Proofs.Scope.Global

/-!
# Scopes of tables that match

Looking up a name in paired scopes leads to declarations that are paired. The first pass opens scopes, binds
type parameters, and lets classes take in extensions; done to paired scopes this keeps tables matching, as
long as nothing else has the label of the scope that changes.
-/

namespace Deferral

namespace Matching

variable {M : Matching} {n : Nat} {t t' u u' : SymbolTable} {x x' : DeclId} {s s' : ScopeId} {name : String}

/-! ## Looking up names -/

/-- What looking up a name in two tables leads to. -/
structure FoundAlike (M : Matching) (t : SymbolTable) (set? set?' : Option Overloads) : Prop where
  shown : set?.map M.shown = set?'.map (List.map M.right.decl)
  lacks : ∀ set, set? = some set → (∀ d ∈ set, M.keep d = true) ∨ ∃ s name, M.Lacks t.decl s name set

theorem Aligned.find?_eq_some {a a' : Scope} (h : M.Aligned a a') {set : Overloads}
    (found : a.find? name = some set) :
    ∃ set', a'.find? name = some set' ∧ M.shown set = set'.map M.right.decl := by
  have same := h.names name
  rw [found] at same
  cases found' : a'.find? name with
  | none => rw [found'] at same; cases same
  | some set' => rw [found'] at same; exact ⟨set', rfl, Option.some.inj same⟩

theorem Aligned.find?_eq_none {a a' : Scope} (h : M.Aligned a a') (absent : a.find? name = none) :
    a'.find? name = none := by
  have same := h.names name
  rw [absent] at same
  cases found' : a'.find? name with
  | none => rfl
  | some set' => rw [found'] at same; cases same

theorem Joins.finds (h : M.Joins n t t') {set? : Option Overloads} (found : t.Finds name s set?) :
    ∀ {s' : ScopeId} {set?' : Option Overloads}, M.left.scope s = M.right.scope s' →
    t'.Finds name s' set?' → M.FoundAlike t set? set?' := by
  induction found with
  | @here s set here =>
    intro s' set?' paired found'
    -- A scope that has the name, or the one outside of it that has it as well, is aligned.
    obtain ⟨set', here', same⟩ : ∃ set', (t'.scope s').find? name = some set' ∧
        M.shown set = set'.map M.right.decl := by
      rcases h.scope paired with aligned | ⟨outer, detours⟩
      · exact aligned.find?_eq_some here
      · exact detours.aligned.find?_eq_some (detours.names _ _ here)
    have lacks : ∀ other, some set = some other →
        (∀ d ∈ other, M.keep d = true) ∨ ∃ s name, M.Lacks t.decl s name other := by
      rintro _ ⟨⟩
      exact (h.lacks here).imp id fun lacks => ⟨_, _, lacks⟩
    cases found' with
    | here found' =>
      obtain rfl := Option.some.inj (here'.symm.trans found')
      exact ⟨congrArg some same, lacks⟩
    | outward absent => rw [here'] at absent; cases absent
    | nowhere absent => rw [here'] at absent; cases absent
  | @outward s p set? absent inside _ ih =>
    intro s' set?' paired found'
    rcases h.scope paired with aligned | ⟨outer, detours⟩
    · have parents := aligned.parent
      rw [inside] at parents
      cases found' with
      | here found' => rw [aligned.find?_eq_none absent] at found'; cases found'
      | @outward _ p' _ _ inside' found' =>
        rw [inside'] at parents
        exact ih (Option.some.inj parents) found'
      | nowhere _ outermost => rw [outermost] at parents; cases parents
    · obtain rfl := Option.some.inj (inside.symm.trans detours.inside)
      exact ih detours.same found'
  | @nowhere s absent outermost =>
    intro s' set?' paired found'
    rcases h.scope paired with aligned | ⟨outer, detours⟩
    · have parents := aligned.parent
      rw [outermost] at parents
      cases found' with
      | here found' => rw [aligned.find?_eq_none absent] at found'; cases found'
      | outward _ inside' => rw [inside'] at parents; cases parents
      | nowhere _ _ => exact ⟨rfl, by simp⟩
    · rw [detours.inside] at outermost
      cases outermost

/-- Looked up in paired scopes, a name leads to declarations that are paired. -/
theorem Joins.findFrom (h : M.Joins n t t') (paired : M.left.scope s = M.right.scope s')
    (lt : s.index < t.scopes.size) (name : String) :
    M.FoundAlike t (t.findFrom s name) (t'.findFrom s' name) := by
  obtain ⟨_, layers⟩ := h.confined.layered
  obtain ⟨_, layers'⟩ := h.confined'.layered
  exact h.finds (layers.finds lt name) paired (layers'.finds ((h.scope_lt_size_iff paired).mp lt) name)

/-! ## Scopes changed -/

namespace Joins

variable (h : M.Joins n t t')

include h

/-- Scopes change that nothing else has the label of. -/
theorem scope_of_plain {W W' : Set ScopeId} (plain : ∀ s ∈ W, M.Plain s)
    (together : ∀ s s', M.left.scope s = M.right.scope s' → (s ∈ W ↔ s' ∈ W'))
    (here : ∀ s ∈ W, ∀ s', M.left.scope s = M.right.scope s' → M.Aligned (u.scope s) (u'.scope s'))
    (others : ∀ o ∉ W, u.scope o = t.scope o) (others' : ∀ o ∉ W', u'.scope o = t'.scope o)
    (paired : M.left.scope s = M.right.scope s') : M.Aligned (u.scope s) (u'.scope s') ∨
      ∃ outer, M.Detours (u.scope s) outer (u.scope outer) s' (u'.scope s') := by
  by_cases inside : s ∈ W
  · exact .inl (here s inside s' paired)
  · rw [others s inside, others' s' fun inside' => inside ((together s s' paired).mpr inside')]
    refine (h.scope paired).imp id fun ⟨outer, detours⟩ => ⟨outer, ?_⟩
    have outside : outer ∉ W := fun member =>
      inside ((plain outer member s (paired.trans detours.same.symm)) ▸ member)
    rwa [others outer outside]

theorem single_of_plain {W W' : Set ScopeId} (plain : ∀ s ∈ W, M.Plain s)
    (together : ∀ s s', M.left.scope s = M.right.scope s' → (s ∈ W ↔ s' ∈ W'))
    (others : ∀ o ∉ W, u.scope o = t.scope o) (others' : ∀ o ∉ W', u'.scope o = t'.scope o)
    (signing : M.signing) (paired : M.left.scope s = M.right.scope s') :
    M.Plain s ∨ Single (u.scope s) ∧ Single (u'.scope s') := by
  by_cases inside : s ∈ W
  · exact .inl (plain s inside)
  · rw [others s inside, others' s' fun inside' => inside ((together s s' paired).mpr inside')]
    exact h.single signing paired

omit h in
/-- One scope and the one it is paired with change together. -/
theorem together_singleton (plain : M.Plain s) (paired : M.left.scope s = M.right.scope s') (o o' : ScopeId)
    (other : M.left.scope o = M.right.scope o') : o ∈ ({s} : Set ScopeId) ↔ o' ∈ ({s'} : Set ScopeId) := by
  constructor
  · rintro rfl
    exact M.distinctScopes' (other.symm.trans paired)
  · rintro rfl
    exact plain o (other.trans paired.symm)

omit h in
theorem aligned_extend {a a' : Scope} (aligned : M.Aligned a a') (increasing : a.names.Increasing)
    (increasing' : a'.names.Increasing) (paired : M.left.decl x = M.right.decl x')
    (keep : M.keep x = true) (name : String) : M.Aligned (a.extend name [x]) (a'.extend name [x']) where
  parent := aligned.parent
  names other := by
    by_cases same : other = name
    · subst same
      rw [Scope.find?_extend_self increasing, Scope.find?_extend_self increasing']
      cases found : a.find? other with
      | none =>
        rw [aligned.find?_eq_none found]
        simp [shown, keep, paired]
      | some set =>
        obtain ⟨set', found', shown⟩ := aligned.find?_eq_some found
        rw [found']
        simp only [Matching.shown] at shown
        simp [Matching.shown, keep, paired, shown]
    · rw [Scope.find?_extend_of_ne a same, Scope.find?_extend_of_ne a' same]
      exact aligned.names other

/-- A declaration is bound to its name in the scope it lies in. -/
theorem bindName (paired : M.left.decl x = M.right.decl x') (keep : M.keep x = true)
    (present : x.index < t.decls.size) (plain : M.Plain (t.decl x).scope)
    (inner : (t.decl x).scope ≠ .global) (name : String) :
    M.Joins n (t.bindName (t.decl x).scope name x) (t'.bindName (t'.decl x').scope name x') := by
  have scopes := (h.decl paired).scope
  have present' := (h.lt_size_iff paired).mp present
  generalize lies : (t.decl x).scope = s at plain scopes inner
  generalize lies' : (t'.decl x').scope = s' at scopes
  have lt : s.index < t.scopes.size := by
    obtain ⟨_, layers⟩ := h.confined.layered
    exact lies ▸ layers.declared x
  have lt' := (h.scope_lt_size_iff scopes).mp lt
  have inside : ∀ o ∈ ({s} : Set ScopeId), M.Plain o := by
    rintro o rfl
    exact plain
  have together := together_singleton plain scopes
  have others : ∀ o ∉ ({s} : Set ScopeId), (t.bindName s name x).scope o = t.scope o :=
    fun o outside => SymbolTable.scope_modifyScope_of_ne outside t _
  have others' : ∀ o ∉ ({s'} : Set ScopeId), (t'.bindName s' name x').scope o = t'.scope o :=
    fun o outside => SymbolTable.scope_modifyScope_of_ne outside t' _
  have left : (t.bindName s name x).scope s = (t.scope s).extend name [x] :=
    SymbolTable.scope_modifyScope_self lt _
  have right : (t'.bindName s' name x').scope s' = (t'.scope s').extend name [x'] :=
    SymbolTable.scope_modifyScope_self lt' _
  have size (u : SymbolTable) (o : ScopeId) (y : DeclId) :
      (u.bindName o name y).scopes.size = u.scopes.size := by
    simp [SymbolTable.bindName, SymbolTable.modifyScope]
  exact
  { h with
    scope := h.scope_of_plain inside together (fun o here o' other => by
      obtain rfl := here
      obtain rfl := M.distinctScopes' (other.symm.trans scopes)
      rw [left, right]
      exact aligned_extend (h.aligned plain scopes) (h.confined.ordered _) (h.confined'.ordered _) paired
        keep name) others others'
    single := fun signing {_ _} other => h.single_of_plain inside together others others' signing other
    lacks := fun {o other set} found => by
      by_cases here : o = s
      · subst here
        rw [left] at found
        by_cases same : other = name
        · subst same
          rw [Scope.find?_extend_self (h.confined.ordered _)] at found
          obtain rfl := Option.some.inj found
          cases old : (t.scope o).find? other with
          | none => exact .inl (by simpa using keep)
          | some set =>
            refine (h.lacks old).imp (fun all => ?_) fun lacks => ⟨lacks.scope, lacks.name, ?_, ?_⟩
            · simpa [or_imp, forall_and] using ⟨all, keep⟩
            · exact lacks.hasClass.imp fun c ⟨member, rest⟩ => ⟨List.mem_append_left _ member, rest⟩
            · intro e member dropped
              rcases List.mem_append.mp member with member | member
              · exact lacks.extensions e member dropped
              · obtain rfl := List.mem_singleton.mp member
                rw [keep] at dropped
                cases dropped
        · rw [Scope.find?_extend_of_ne _ same] at found
          exact h.lacks found
      · rw [others o here] at found
        exact h.lacks found
    own := by
      rw [others _ (ne_comm.mp inner)]
      exact h.own
    scopes := by simpa only [size] using h.scopes
    confined := h.confined.bindName ⟨s', scopes.symm⟩ present lies name
    confined' := h.confined'.bindName ⟨s, scopes⟩ present' lies' name
    bounded := h.bounded.of_declares fun _ => rfl }

/-- A fresh scope is opened inside the innermost one. -/
theorem addScope : M.Joins n (t.addScope t.innermost) (t'.addScope t'.innermost) := by
  have paired := h.nextScope
  have plain := h.plain_nextScope
  have inside : ∀ o ∈ ({t.nextScope} : Set ScopeId), M.Plain o := by
    rintro o rfl
    exact plain
  have together := together_singleton plain paired
  have others : ∀ o ∉ ({t.nextScope} : Set ScopeId), (t.addScope t.innermost).scope o = t.scope o :=
    fun o outside => (SymbolTable.scope_addScope ..).trans (if_neg outside)
  have others' : ∀ o ∉ ({t'.nextScope} : Set ScopeId), (t'.addScope t'.innermost).scope o = t'.scope o :=
    fun o outside => (SymbolTable.scope_addScope ..).trans (if_neg outside)
  exact
  { h with
    scope := h.scope_of_plain inside together (fun o here o' other => by
      obtain rfl := here
      obtain rfl := M.distinctScopes' (other.symm.trans paired)
      rw [SymbolTable.scope_addScope_nextScope, SymbolTable.scope_addScope_nextScope]
      exact ⟨congrArg some h.innermost, fun _ => rfl⟩) others others'
    single := fun signing {_ _} other => h.single_of_plain inside together others others' signing other
    lacks := fun {o other set} found => by
      by_cases here : o = t.nextScope
      · subst here
        rw [SymbolTable.scope_addScope_nextScope] at found
        cases found
      · rw [others o here] at found
        exact h.lacks found
    own := by
      obtain ⟨_, layers⟩ := h.confined.layered
      rw [others _ fun same => Nat.lt_irrefl _ (congrArg ScopeId.index same ▸ layers.global)]
      exact h.own
    scopes := by
      obtain ⟨k, size, size'⟩ := h.scopes
      refine ⟨k + 1, ?_, ?_⟩ <;> simp only [SymbolTable.addScope, Array.size_push] <;> omega
    confined := h.confined.addScope ⟨t'.nextScope, paired.symm⟩
    confined' := h.confined'.addScope ⟨t.nextScope, paired⟩
    bounded := h.bounded.of_declares fun _ => rfl }

/-- The same type parameter is added to both tables. -/
theorem addTypeParameter (scopes : M.left.scope s = M.right.scope s') (lt : s.index < t.scopes.size)
    (position position' : Position) (count : Nat) :
    M.Joins n (Signature.addTypeParameter s position count t)
      (Signature.addTypeParameter s' position' count t') := by
  have paired := h.nextDecl
  -- What is added is as little a class or has members as what stands for a declaration not made.
  have plain (u : SymbolTable) (o : ScopeId) (p : Position) (y : DeclId) :
      ((Signature.addTypeParameter o p count u).decl y).isExtension = (u.decl y).isExtension ∧
      ((Signature.addTypeParameter o p count u).decl y).isPrimaryClass = (u.decl y).isPrimaryClass ∧
      ((Signature.addTypeParameter o p count u).decl y).declares = (u.decl y).declares ∧
      (Signature.addTypeParameter o p count u).members y = u.members y := by
    unfold SymbolTable.members Signature.addTypeParameter
    rw [SymbolTable.decl_addUnnamed]
    split
    · rename_i next
      subst next
      rw [SymbolTable.decl_nextDecl]
      exact ⟨rfl, rfl, rfl, rfl⟩
    · exact ⟨rfl, rfl, rfl, rfl⟩
  exact
  { h with
    decl := fun {y y'} other => by
      unfold Signature.addTypeParameter
      rw [SymbolTable.decl_addUnnamed, SymbolTable.decl_addUnnamed]
      by_cases next : y = t.nextDecl
      · subst next
        rw [if_pos rfl, if_pos (right_unique paired other)]
        exact ⟨congrArg (Decl.mk _ .typeParameter · .nowhere) scopes, trivial, trivial⟩
      · rw [if_neg next, if_neg fun next' : y' = t'.nextDecl => next (left_unique paired (next' ▸ other))]
        exact h.decl other
    members := fun {y y'} other => by
      rw [(plain t s position y).2.2.2, (plain t' s' position' y').2.2.2]
      exact h.members other
    extension := fun signing {y y'} other extension =>
      h.extension signing other ((plain t s position y).1.symm.trans extension)
    apart := fun signing {y y'} other primary => by
      have primary' := (plain t s position y).2.1.symm.trans primary
      have old : (Signature.addTypeParameter s position count t).decl y = t.decl y := by
        refine (SymbolTable.decl_addUnnamed ..).trans (if_neg ?_)
        rintro rfl
        rw [SymbolTable.decl_nextDecl] at primary'
        cases primary'
      rw [old]
      exact h.apart signing other primary'
    lacks := fun {o name set} found => (h.lacks found).imp id fun lacks =>
      lacks.mono (fun d => (plain t s position d).1) fun d => (plain t s position d).2.1.trans
    decls := by
      obtain ⟨k, size, size'⟩ := h.decls
      refine ⟨k + 1, ?_, ?_⟩ <;>
        simp only [Signature.addTypeParameter, SymbolTable.addUnnamed, Array.size_push] <;> omega
    confined := h.confined.addUnnamed ⟨t'.nextDecl, paired.symm⟩ lt rfl
    confined' := h.confined'.addUnnamed ⟨t.nextDecl, paired⟩ ((h.scope_lt_size_iff scopes).mp lt) rfl
    bounded := h.bounded.of_declares fun y => (plain t' s' position' y).2.2.1 }

/-! ## Extensions taken in -/

omit h in
theorem shown_append (set set' : Overloads) : M.shown (set ++ set') = M.shown set ++ M.shown set' := by
  simp [Matching.shown]

omit h in
theorem aligned_extendAll {a a' b b' : Scope} (aligned : M.Aligned a a') (added : M.Aligned b b')
    (increasing : a.names.Increasing) (increasing' : a'.names.Increasing) (adds : b.names.Increasing)
    (adds' : b'.names.Increasing) : M.Aligned (a.extendAll b.names) (a'.extendAll b'.names) where
  parent := by
    rw [Scope.parent_extendAll, Scope.parent_extendAll]
    exact aligned.parent
  names name := by
    rw [Scope.find?_extendAll increasing adds, Scope.find?_extendAll increasing' adds']
    show Option.map M.shown (Option.elim (b.find? name) _ _) =
      Option.map (List.map M.right.decl) (Option.elim (b'.find? name) _ _)
    cases found : b.find? name with
    | none =>
      rw [added.find?_eq_none found]
      exact aligned.names name
    | some set =>
      obtain ⟨set', found', shown⟩ := added.find?_eq_some found
      rw [found']
      refine congrArg some ?_
      rw [shown_append, List.map_append, shown]
      cases own : a.find? name with
      | none =>
        rw [aligned.find?_eq_none own]
        rfl
      | some set₀ =>
        obtain ⟨set₀', own', shown₀⟩ := aligned.find?_eq_some own
        rw [own']
        exact congrArg (· ++ _) shown₀

omit h in
/-- The scope that is saved for a declaration is not the global one. -/
theorem ne_global_of_scopeOf? (layered : t.Layered) (owns : t.scopeOf? (.decl x) = some s) :
    s ≠ .global := by
  obtain ⟨L, layers⟩ := layered
  obtain ⟨-, deep, -⟩ := layers.opened owns
  rintro rfl
  rw [layers.surface] at deep
  omega

omit h in
/-- A class and an extension have different scopes saved. -/
theorem ne_of_scopeOf? {c e : DeclId} {inner outer : ScopeId} (layered : t.Layered)
    (extension : (t.decl e).isExtension = true) (proper : (t.decl c).isExtension = false)
    (inside : t.scopeOf? (.decl e) = some inner) (owns : t.scopeOf? (.decl c) = some outer) :
    inner ≠ outer := by
  obtain ⟨L, layers⟩ := layered
  obtain ⟨-, -, sort⟩ := layers.opened inside
  obtain ⟨-, -, sort'⟩ := layers.opened owns
  rintro rfl
  rw [sort, extension, proper] at sort'
  cases sort'

omit h in
/-- Where all declarations of two scopes are kept, so are those of both together. -/
theorem kept_extendAll {a b : Scope} {name : String} {set : Overloads} (increasing : a.names.Increasing)
    (adds : b.names.Increasing) (kept : ∀ set, a.find? name = some set → ∀ d ∈ set, M.keep d = true)
    (added : ∀ set, b.find? name = some set → ∀ d ∈ set, M.keep d = true)
    (found : (a.extendAll b.names).find? name = some set) : ∀ d ∈ set, M.keep d = true := by
  rw [Scope.find?_extendAll increasing adds] at found
  change Option.elim (b.find? name) _ _ = _ at found
  cases new : b.find? name with
  | none =>
    rw [new] at found
    exact kept _ found
  | some others =>
    rw [new] at found
    obtain rfl := Option.some.inj found
    intro d member
    rcases List.mem_append.mp member with member | member
    · cases own : a.find? name with
      | none => simp [own] at member
      | some old => exact kept old own d (by simpa [own] using member)
    · exact added others new d member

section Absorb

variable {c c' e e' y y' : DeclId} (heldC : M.left.held c = M.right.held c') (heldE : M.left.held e = M.right.held e')
  (primary : (t.decl c).isPrimaryClass = true) (primary' : (t'.decl c').isPrimaryClass = true)
  (extension : (t.decl e).isExtension = true) (extension' : (t'.decl e').isExtension = true)
  (inner inner' outer outer' : ScopeId)

include heldC heldE primary primary' extension extension'

theorem decl_absorb (paired : M.left.decl y = M.right.decl y') :
    ((t.absorb c e inner outer).decl y).Matches M.left M.right ((t'.absorb c' e' inner' outer').decl y') := by
  have pairedC := M.held heldC
  have pairedE := M.held heldE
  rw [SymbolTable.decl_absorb primary extension, SymbolTable.decl_absorb primary' extension']
  by_cases isC : y = c
  · subst isC
    rw [if_pos rfl, if_pos (right_unique pairedC paired)]
    exact (h.decl pairedC).mapMembers _ _
  rw [if_neg isC, if_neg fun isC' : y' = c' => isC (left_unique pairedC (isC' ▸ paired))]
  by_cases isE : y = e
  · subst isE
    rw [if_pos rfl, if_pos (right_unique pairedE paired)]
    exact (h.decl pairedE).mapMembers _ _
  · rw [if_neg isE, if_neg fun isE' : y' = e' => isE (left_unique pairedE (isE' ▸ paired))]
    exact h.decl paired

theorem members_absorb (held : M.left.held y = M.right.held y') :
    Stmt.AllMatch M.left M.right ((t.absorb c e inner outer).members y)
      ((t'.absorb c' e' inner' outer').members y') := by
  have paired := M.held held
  rw [SymbolTable.members_absorb primary extension, SymbolTable.members_absorb primary' extension']
  by_cases isC : y = c
  · subst isC
    rw [if_pos rfl, if_pos (right_unique (M.held heldC) paired)]
    exact (h.members heldC).append (h.members heldE)
  rw [if_neg isC, if_neg fun isC' : y' = c' => isC (left_unique (M.held heldC) (isC' ▸ paired))]
  by_cases isE : y = e
  · subst isE
    rw [if_pos rfl, if_pos (right_unique (M.held heldE) paired)]
    exact .nil
  · rw [if_neg isE, if_neg fun isE' : y' = e' => isE (left_unique (M.held heldE) (isE' ▸ paired))]
    exact h.members held

end Absorb

/-- Paired classes take in paired extensions. -/
theorem absorb (signing : M.signing) {c c' e e' : DeclId} {inner inner' outer outer' : ScopeId}
    (heldC : M.left.held c = M.right.held c') (heldE : M.left.held e = M.right.held e')
    (primary : (t.decl c).isPrimaryClass = true) (extension : (t.decl e).isExtension = true)
    (inside : t.scopeOf? (.decl e) = some inner) (inside' : t'.scopeOf? (.decl e') = some inner')
    (owns : t.scopeOf? (.decl c) = some outer) (owns' : t'.scopeOf? (.decl c') = some outer')
    (layered : (t.absorb c e inner outer).Layered) (layered' : (t'.absorb c' e' inner' outer').Layered) :
    M.Joins n (t.absorb c e inner outer) (t'.absorb c' e' inner' outer') := by
  have pairedC := M.held heldC
  have pairedE := M.held heldE
  have primary' : (t'.decl c').isPrimaryClass = true := (h.decl pairedC).isPrimaryClass.trans primary
  have extension' : (t'.decl e').isExtension = true := (h.decl pairedE).isExtension.trans extension
  have scopesI : M.left.scope inner = M.right.scope inner' := by
    simpa [inside, inside'] using h.scopeOf?_decl heldE
  have scopesO : M.left.scope outer = M.right.scope outer' := by
    simpa [owns, owns'] using h.scopeOf?_decl heldC
  have plainI := h.plain_scopeOf? signing heldE inside
  have plainO := h.plain_scopeOf? signing heldC owns
  have differ := ne_of_scopeOf? h.confined.layered extension
    (SymbolTable.not_isExtension_of_isPrimaryClass primary) inside owns
  have differ' := ne_of_scopeOf? h.confined'.layered extension'
    (SymbolTable.not_isExtension_of_isPrimaryClass primary') inside' owns'
  have scope := SymbolTable.scope_absorb_eq differ (h.confined.layered.lt_size inside)
    (h.confined.layered.lt_size owns) c e
  have scope' := SymbolTable.scope_absorb_eq differ' (h.confined'.layered.lt_size inside')
    (h.confined'.layered.lt_size owns') c' e'
  -- Only the two scopes change.
  have plain : ∀ o ∈ ({inner, outer} : Set ScopeId), M.Plain o := by
    rintro o (rfl | rfl)
    · exact plainI
    · exact plainO
  have together : ∀ o o', M.left.scope o = M.right.scope o' →
      (o ∈ ({inner, outer} : Set ScopeId) ↔ o' ∈ ({inner', outer'} : Set ScopeId)) := fun o o' other =>
    or_congr (together_singleton plainI scopesI o o' other) (together_singleton plainO scopesO o o' other)
  have others : ∀ o ∉ ({inner, outer} : Set ScopeId), (t.absorb c e inner outer).scope o = t.scope o := by
    intro o outside
    obtain ⟨notInner, notOuter⟩ : o ≠ inner ∧ o ≠ outer := not_or.mp outside
    rw [scope, if_neg notInner, if_neg notOuter]
  have others' : ∀ o ∉ ({inner', outer'} : Set ScopeId),
      (t'.absorb c' e' inner' outer').scope o = t'.scope o := by
    intro o outside
    obtain ⟨notInner, notOuter⟩ : o ≠ inner' ∧ o ≠ outer' := not_or.mp outside
    rw [scope', if_neg notInner, if_neg notOuter]
  -- Neither is the global one, so that all their declarations are kept.
  have neI := ne_global_of_scopeOf? h.confined.layered inside
  have neO := ne_global_of_scopeOf? h.confined.layered owns
  have kept {s : ScopeId} (ne : s ≠ .global) {name : String} (set : Overloads)
      (found : (t.scope s).find? name = some set) : ∀ d ∈ set, M.keep d = true :=
    (h.lacks found).resolve_right fun lacks => ne lacks.scope
  have isExtension := SymbolTable.isExtension_absorb primary extension inner outer
  have isPrimaryClass := SymbolTable.isPrimaryClass_absorb primary extension inner outer
  exact
  { decl := h.decl_absorb heldC heldE primary primary' extension extension' inner inner' outer outer'
    members := h.members_absorb heldC heldE primary primary' extension extension' inner inner' outer outer'
    extension := fun signing {y y'} other extension =>
      h.extension signing other ((isExtension y).symm.trans extension)
    apart := fun signing {y y'} other primaryY => by
      obtain ⟨f, same⟩ := SymbolTable.exists_decl_absorb primary extension inner outer y
      rw [same, Decl.scope_mapMembers, Decl.name_mapMembers]
      exact h.apart signing other ((isPrimaryClass y).symm.trans primaryY)
    scope := h.scope_of_plain plain together (fun o here o' other => by
      rcases here with rfl | rfl
      · obtain rfl := M.distinctScopes' (other.symm.trans scopesI)
        rw [scope, scope', if_pos rfl, if_pos rfl]
        exact ⟨congrArg some scopesO, (h.aligned plainI scopesI).names⟩
      · obtain rfl := M.distinctScopes' (other.symm.trans scopesO)
        rw [scope, scope', if_neg differ.symm, if_pos rfl, if_neg differ'.symm, if_pos rfl]
        exact aligned_extendAll (h.aligned plainO scopesO) (h.aligned plainI scopesI)
          (h.confined.ordered _) (h.confined'.ordered _) (h.confined.ordered _) (h.confined'.ordered _))
      others others'
    single := fun signing {_ _} other => h.single_of_plain plain together others others' signing other
    lacks := fun {o name set} found => by
      rw [scope] at found
      split at found
      · exact .inl (kept neI set found)
      · split at found
        · exact .inl (kept_extendAll (h.confined.ordered _) (h.confined.ordered _) (kept neO) (kept neI) found)
        · exact (h.lacks found).imp id fun lacks => lacks.mono isExtension fun d => (isPrimaryClass d).trans
    own := by
      rw [others _ (not_or.mpr ⟨neI.symm, neO.symm⟩)]
      exact h.own
    active := h.active
    constant := h.constant
    binding := h.binding
    decls := by simpa [SymbolTable.absorb, SymbolTable.reparent, SymbolTable.modifyScope] using h.decls
    scopes := by
      simpa [SymbolTable.absorb, SymbolTable.reparent, SymbolTable.modifyScope, SymbolTable.modifyDecl]
        using h.scopes
    confined := h.confined.absorb ⟨c', pairedC.symm⟩ ⟨e', pairedE.symm⟩ ⟨c', heldC.symm⟩ ⟨e', heldE.symm⟩
      ⟨inner', scopesI.symm⟩ ⟨outer', scopesO.symm⟩ layered
    confined' := h.confined'.absorb ⟨c, pairedC⟩ ⟨e, pairedE⟩ ⟨c, heldC⟩ ⟨e, heldE⟩ ⟨inner, scopesI⟩
      ⟨outer, scopesO⟩ layered'
    bounded := h.bounded.absorb primary' extension' inner' outer' }

omit h in
/-- Leaving out declarations that are paired leaves out their labels. -/
theorem map_filter_of_map {p p' : DeclId → Bool} (same : ∀ {x x'}, M.left.decl x = M.right.decl x' →
    p' x' = p x) : ∀ {set set' : List DeclId}, set.map M.left.decl = set'.map M.right.decl →
      (set.filter p).map M.left.decl = (set'.filter p').map M.right.decl
  | [], [], _ => rfl
  | x :: set, x' :: set', shown => by
    obtain ⟨first, others⟩ := List.cons.inj shown
    rw [List.filter_cons, List.filter_cons, same first]
    split
    · exact congrArg₂ List.cons first (map_filter_of_map same others)
    · exact map_filter_of_map same others
  | [], _ :: _, shown => by cases shown
  | _ :: _, [], shown => by cases shown

omit h in
/-- Scopes of which a name leaves out what is paired stay aligned. -/
theorem aligned_alter {a a' : Scope} (aligned : M.Aligned a a') (ordered : a.names.Increasing)
    (ordered' : a'.names.Increasing) {p p' : DeclId → Bool}
    (same : ∀ {x x'}, M.left.decl x = M.right.decl x' → p' x' = p x) {set : Overloads}
    (found : a.find? name = some set) :
    M.Aligned { a with names := Names.alter name (List.filter p) a.names }
      { a' with names := Names.alter name (List.filter p') a'.names } where
  parent := aligned.parent
  names other := by
    obtain ⟨set', found', shown⟩ := aligned.find?_eq_some found
    unfold Scope.find?
    by_cases here : other = name
    · subst here
      rw [Names.find?_alter_self ordered, Names.find?_alter_self ordered']
      change some (M.shown (List.filter p ((a.find? other).getD []))) =
        some ((((a'.find? other).getD []).filter p').map M.right.decl)
      rw [found, found']
      unfold Matching.shown at shown ⊢
      rw [List.filter_comm]
      exact congrArg some (map_filter_of_map same shown)
    · rw [Names.find?_alter_of_ne here, Names.find?_alter_of_ne here]
      exact aligned.names other

/-- A name that has given up extensions leads to nothing else that is not kept. -/
theorem keep_of_proper {set : Overloads} (found : (t.scope s).find? name = some set) :
    ∀ d ∈ set.filter fun d => !(t.decl d).isExtension, M.keep d = true := by
  intro d member
  obtain ⟨member, proper⟩ := List.mem_filter.mp member
  rcases h.lacks found with all | lacks
  · exact all d member
  · by_contra dropped
    have extension := lacks.extensions d member (by simpa using dropped)
    simp [extension] at proper

/-- Paired scopes give up the names of extensions. -/
theorem keepOnly (scopes : M.left.scope s = M.right.scope s') (plain : M.Plain s) (name : String)
    (apart : s = .global → name ≠ M.name) :
    M.Joins n (t.keepOnly s name fun d => !d.isExtension)
      (t'.keepOnly s' name fun d => !d.isExtension) := by
  have aligned := h.aligned plain scopes
  cases found : (t.scope s).find? name with
  | none =>
    have unchanged : (t.keepOnly s name fun d => !d.isExtension) = t := by
      unfold SymbolTable.keepOnly
      rw [found]
    have unchanged' : (t'.keepOnly s' name fun d => !d.isExtension) = t' := by
      unfold SymbolTable.keepOnly
      rw [aligned.find?_eq_none found]
    rw [unchanged, unchanged']
    exact h
  | some set =>
    obtain ⟨set', found', -⟩ := aligned.find?_eq_some found
    have confined := h.confined.keepOnly ⟨s', scopes.symm⟩ name fun d => !d.isExtension
    have confined' := h.confined'.keepOnly ⟨s, scopes⟩ name fun d => !d.isExtension
    have lt : s.index < t.scopes.size := by
      by_contra outside
      simp [SymbolTable.scope, Array.getD_eq_getD_getElem?, outside] at found
      cases found
    unfold SymbolTable.keepOnly at confined confined' ⊢
    rw [found] at confined ⊢
    rw [found'] at confined' ⊢
    dsimp only at confined confined' ⊢
    have inside : ∀ o ∈ ({s} : Set ScopeId), M.Plain o := by
      rintro o rfl
      exact plain
    have together := together_singleton plain scopes
    have others (f : Scope → Scope) : ∀ o ∉ ({s} : Set ScopeId), (t.modifyScope s f).scope o = t.scope o :=
      fun o outside => SymbolTable.scope_modifyScope_of_ne outside t f
    have others' (f : Scope → Scope) :
        ∀ o ∉ ({s'} : Set ScopeId), (t'.modifyScope s' f).scope o = t'.scope o :=
      fun o outside => SymbolTable.scope_modifyScope_of_ne outside t' f
    exact
    { h with
      scope := h.scope_of_plain inside together (fun o here o' other => by
        obtain rfl := here
        obtain rfl := M.distinctScopes' (other.symm.trans scopes)
        rw [SymbolTable.scope_modifyScope_self lt,
          SymbolTable.scope_modifyScope_self ((h.scope_lt_size_iff scopes).mp lt)]
        exact aligned_alter aligned (h.confined.ordered _) (h.confined'.ordered _)
          (fun paired => congrArg (!·) (h.decl paired).isExtension) found) (others _) (others' _)
      single := fun signing {_ _} other => h.single_of_plain inside together (others _) (others' _) signing other
      lacks := fun {o other set₀} here => by
        by_cases same : o = s
        · subst same
          rw [SymbolTable.scope_modifyScope_self lt] at here
          unfold Scope.find? at here
          by_cases sameName : other = name
          · subst sameName
            rw [Names.find?_alter_self (h.confined.ordered _)] at here
            obtain rfl := Option.some.inj here
            refine .inl (h.keep_of_proper (found.trans (congrArg some ?_)))
            exact (congrArg (Option.getD · []) found).symm
          · rw [Names.find?_alter_of_ne sameName] at here
            exact h.lacks here
        · rw [SymbolTable.scope_modifyScope_of_ne same] at here
          exact h.lacks here
      own := by
        rw [← h.own]
        by_cases here : ScopeId.global = s
        · subst here
          rw [SymbolTable.scope_modifyScope_self lt]
          exact Names.find?_alter_of_ne (apart rfl).symm _ _
        · rw [others _ _ here]
      scopes := by simpa [SymbolTable.modifyScope] using h.scopes
      confined
      confined'
      bounded := h.bounded.of_declares fun _ => rfl }

end Joins

end Matching

/-! ## Resolving in tables that match

Excerpts that are the same apart from their places are read in paired scopes: their names lead to paired
declarations, operations are typed alike, and constants get the same values.
-/

variable {M : Matching} {n : Nat} {t t' : SymbolTable}

/-! ## Names -/

namespace Matching

variable {set set' : Overloads} {p q : DeclId → Bool}

theorem find?_of_map (same : ∀ {x x'}, M.left.decl x = M.right.decl x' → q x' = p x) :
    ∀ {set set' : Overloads}, set.map M.left.decl = set'.map M.right.decl →
      (set.find? p).map M.left.decl = (set'.find? q).map M.right.decl
  | [], [], _ => rfl
  | x :: set, x' :: set', shown => by
    obtain ⟨first, others⟩ := List.cons.inj shown
    rw [List.find?_cons, List.find?_cons, same first]
    cases p x with
    | true => exact congrArg some first
    | false => exact find?_of_map same others
  | [], _ :: _, shown => by cases shown
  | _ :: _, [], shown => by cases shown

/-- The first declaration that satisfies a predicate is the same if all that satisfy it are kept. -/
theorem find?_of_shown (shown : M.shown set = set'.map M.right.decl)
    (same : ∀ {x x'}, M.left.decl x = M.right.decl x' → q x' = p x)
    (kept : ∀ x ∈ set, p x = true → M.keep x = true) :
    (set.find? p).map M.left.decl = (set'.find? q).map M.right.decl := by
  have among : set.find? p = (set.filter M.keep).find? p := by
    rw [List.find?_filter]
    refine List.find?_congr fun x member => ?_
    cases holds : p x with
    | true => simp [kept x member holds]
    | false => simp
  rw [among]
  exact find?_of_map same shown

/-- An overload set of the one table and the one of the other that it is shown as. -/
structure SetsMatch (M : Matching) (t : SymbolTable) (set set' : Overloads) : Prop where
  shown : M.shown set = set'.map M.right.decl
  lacks : (∀ d ∈ set, M.keep d = true) ∨ ∃ s name, M.Lacks t.decl s name set

theorem SetsMatch.map_eq (h : M.SetsMatch t set set') (all : ∀ d ∈ set, M.keep d = true) :
    set.map M.left.decl = set'.map M.right.decl := by
  rw [← h.shown]
  unfold Matching.shown
  rw [List.filter_eq_self.mpr all]

/-- A predicate that no extension satisfies singles out the same declaration in both sets. -/
theorem SetsMatch.find? (h : M.SetsMatch t set set')
    (same : ∀ {x x'}, M.left.decl x = M.right.decl x' → q x' = p x)
    (proper : ∀ x, p x = true → (t.decl x).isExtension = false) :
    (set.find? p).map M.left.decl = (set'.find? q).map M.right.decl := by
  refine find?_of_shown h.shown same fun x member holds => ?_
  rcases h.lacks with all | ⟨_, _, lacks⟩
  · exact all x member
  · by_contra dropped
    have extension := lacks.extensions x member (by simpa using dropped)
    rw [proper x holds] at extension
    cases extension

/-- Where nothing is found that every class would be found by, everything is kept. -/
theorem SetsMatch.all_of_find? (h : M.SetsMatch t set set')
    (classes : ∀ x, (t.decl x).isPrimaryClass = true → p x = true) (absent : set.find? p = none) :
    ∀ d ∈ set, M.keep d = true := by
  rcases h.lacks with all | ⟨_, _, lacks⟩
  · exact all
  · obtain ⟨c, member, -, primary⟩ := lacks.hasClass
    exact absurd (classes c primary) (by simpa using List.find?_eq_none.mp absent c member)

namespace Joins

variable (h : M.Joins n t t')

include h

theorem parallel_overloads {token token' : Token} (text : token'.text = token.text) :
    Parallel (M.SetsMatch t) (t.overloads token) (t'.overloads token') := by
  obtain ⟨_, layers⟩ := h.confined.layered
  have found := h.findFrom h.innermost layers.innermost token.text
  unfold SymbolTable.overloads SymbolTable.undeclared
  rw [text]
  change M.FoundAlike t (t.find token.text) (t'.find token.text) at found
  generalize t.find token.text = set? at found
  generalize t'.find token.text = set?' at found
  obtain ⟨shown, lacks⟩ := found
  cases set? with
  | none =>
    cases set?' with
    | none => exact .fault _ _ _
    | some set' => cases shown
  | some set =>
    cases set?' with
    | none => cases shown
    | some set' => exact .ok ⟨Option.some.inj shown, lacks set rfl⟩

theorem preferred? (sets : M.SetsMatch t set set') :
    (t.preferred? set).map M.left.decl = (t'.preferred? set').map M.right.decl := by
  have first := sets.find? (p := fun d => !(t.decl d).isExtension)
    (q := fun d => !(t'.decl d).isExtension)
    (fun paired => congrArg (!·) (h.decl paired).isExtension) (fun x holds => by simpa using holds)
  unfold SymbolTable.preferred?
  cases found : set.find? fun d => !(t.decl d).isExtension with
  | some id =>
    rw [found] at first
    cases found' : set'.find? fun d => !(t'.decl d).isExtension with
    | none => rw [found'] at first; cases first
    | some id' => rw [found'] at first; exact first
  | none =>
    rw [found] at first
    cases found' : set'.find? fun d => !(t'.decl d).isExtension with
    | some id' => rw [found'] at first; cases first
    | none =>
      have all := sets.all_of_find?
        (fun x primary => by simp [SymbolTable.not_isExtension_of_isPrimaryClass primary]) found
      simp only [Option.none_or, ← List.head?_map]
      rw [sets.map_eq all]

theorem parallel_reference {token token' : Token} (same : token.unplaced = token'.unplaced) :
    Parallel (Expr.Matches M.left.decl M.right.decl) (t.reference token) (t'.reference token') := by
  have text : token'.text = token.text := (congrArg Token.text same).symm
  unfold SymbolTable.reference
  refine (h.parallel_overloads text).bind fun set set' sets => ?_
  have preferred := h.preferred? sets
  generalize t.preferred? set = id? at preferred
  generalize t'.preferred? set' = id?' at preferred
  cases id? with
  | none =>
    cases id?' with
    | none =>
      unfold SymbolTable.undeclared
      rw [text]
      exact .fault _ _ _
    | some id' => cases preferred
  | some id =>
    cases id?' with
    | none => cases preferred
    | some id' =>
      have paired : M.left.decl id = M.right.decl id' := Option.some.inj preferred
      have matched := h.decl paired
      have types : Option.Rel (Ty.Matches M.left.decl M.right.decl) (SymbolTable.typeOfUse? (t.decl id))
          (SymbolTable.typeOfUse? (t'.decl id')) := matched.typeOfUse?
      dsimp only
      rw [text, matched.subject]
      generalize SymbolTable.typeOfUse? (t.decl id) = type? at types
      generalize SymbolTable.typeOfUse? (t'.decl id') = type?' at types
      cases types with
      | none => exact .fault _ _ _
      | some type =>
        refine .ok ⟨?_, type.tame, type.tame'⟩
        simp only [Expr.labelled, Node.labelled, paired, type.same]

theorem typeOf? (sets : M.SetsMatch t set set') (name : String) :
    Option.Rel (Ty.Matches M.left.decl M.right.decl) (t.typeOf? name set) (t'.typeOf? name set') := by
  have classes := sets.find? (p := fun d => (t.decl d).isPrimaryClass)
    (q := fun d => (t'.decl d).isPrimaryClass) (fun paired => (h.decl paired).isPrimaryClass)
    fun x primary => SymbolTable.not_isExtension_of_isPrimaryClass primary
  have named (sort : NameSort) {id id' : DeclId} (paired : M.left.decl id = M.right.decl id') :
      (Ty.named sort id name).Matches M.left.decl M.right.decl (.named sort id' name) :=
    ⟨congrArg (Ty.named sort · name) paired, trivial, trivial⟩
  unfold SymbolTable.typeOf?
  cases found : set.find? fun d => (t.decl d).isPrimaryClass with
  | some id =>
    rw [found] at classes
    cases found' : set'.find? fun d => (t'.decl d).isPrimaryClass with
    | none => rw [found'] at classes; cases classes
    | some id' =>
      rw [found'] at classes
      exact .some (named _ (Option.some.inj classes))
  | none =>
    rw [found] at classes
    cases found' : set'.find? fun d => (t'.decl d).isPrimaryClass with
    | some id' => rw [found'] at classes; cases classes
    | none =>
      -- Without a class all declarations are kept, and the sets correspond one by one.
      have whole := sets.map_eq (sets.all_of_find? (fun x primary => primary) found)
      have extensions := find?_of_map (M := M) (p := fun d => (t.decl d).isExtension)
        (q := fun d => (t'.decl d).isExtension) (fun paired => (h.decl paired).isExtension) whole
      have parameters := find?_of_map (M := M) (p := fun d => (t.decl d).isTypeParameter)
        (q := fun d => (t'.decl d).isTypeParameter) (fun paired => (h.decl paired).isTypeParameter) whole
      dsimp only
      generalize set.find? (fun d => (t.decl d).isExtension) = e? at extensions
      generalize set'.find? (fun d => (t'.decl d).isExtension) = e?' at extensions
      generalize set.find? (fun d => (t.decl d).isTypeParameter) = p? at parameters
      generalize set'.find? (fun d => (t'.decl d).isTypeParameter) = p?' at parameters
      cases e? with
      | some id =>
        cases e?' with
        | none => cases extensions
        | some id' => exact .some (named _ (Option.some.inj extensions))
      | none =>
        cases e?' with
        | some id' => cases extensions
        | none =>
          cases p? with
          | some id =>
            cases p?' with
            | none => cases parameters
            | some id' => exact .some (named _ (Option.some.inj parameters))
          | none =>
            cases p?' with
            | some id' => cases parameters
            | none => exact .none

theorem parallel_namedType {token token' : Token} (same : token.unplaced = token'.unplaced) :
    Parallel (Ty.Matches M.left.decl M.right.decl) (t.namedType token) (t'.namedType token') := by
  have text : token'.text = token.text := (congrArg Token.text same).symm
  unfold SymbolTable.namedType
  rw [text]
  cases builtin : Ty.builtin? token.text with
  | some type =>
    exact .ok ⟨(Ty.labelled_builtin? builtin).trans (Ty.labelled_builtin? builtin).symm,
      Ty.tame_builtin? builtin, Ty.tame_builtin? builtin⟩
  | none =>
    refine (h.parallel_overloads text).bind fun set set' sets => ?_
    have types := h.typeOf? sets token.text
    generalize t.typeOf? token.text set = type? at types
    generalize t'.typeOf? token.text set' = type?' at types
    cases types with
    | none => exact .fault _ _ _
    | some type => exact .ok type

end Joins

end Matching

/-! ## Expressions -/

namespace Phrase

mutual

theorem parallel_typed (h : M.Joins n t t') : ∀ p p' : Phrase, p.unplaced = p'.unplaced →
    Parallel (Expr.Matches M.left.decl M.right.decl) (p.typed t) (p'.typed t')
  | .number token, .number token', same => by
    have echo := Expr.echoes_ofNumber (l := M.left.decl) token
    rw [Phrase.number.inj same] at echo
    exact Expr.parallel_matches echo (Expr.echoes_ofNumber token')
  | .truth value _, .truth value' _, same => by
    obtain ⟨rfl, -⟩ := Phrase.truth.inj same
    exact .ok ⟨rfl, trivial, trivial⟩
  | .name token, .name token', same => h.parallel_reference (Phrase.name.inj same)
  | .unary op _ operand, .unary op' _ operand', same => by
    obtain ⟨rfl, -, same⟩ := Phrase.unary.inj same
    exact (parallel_typed h operand operand' same).bind fun _ _ e =>
      Expr.matches_ofUnary M.distinct M.distinct' op e _ _
  | .binary op left right, .binary op' left' right', same => by
    obtain ⟨rfl, first, second⟩ := Phrase.binary.inj same
    exact (parallel_typed h left left' first).bind fun _ _ l =>
      (parallel_typed h right right' second).bind fun _ _ r =>
        Expr.matches_ofBinary M.distinct M.distinct' op l r
  | .assign target value, .assign target' value', same => by
    obtain ⟨first, second⟩ := Phrase.assign.inj same
    exact (parallel_typed h target target' first).bind fun _ _ l =>
      (parallel_typed h value value' second).bind fun _ _ r =>
        Expr.matches_ofAssign M.distinct M.distinct' l r
  | .call callee arguments _, .call callee' arguments' _, same => by
    obtain ⟨first, others, -⟩ := Phrase.call.inj same
    exact (parallel_typed h callee callee' first).bind fun _ _ f =>
      (parallel_typedAll h arguments arguments' others).bind fun _ _ es =>
        Expr.matches_ofCall M.distinct M.distinct' f es _ _
  | .number _, .truth _ _, same | .number _, .name _, same | .number _, .unary _ _ _, same
  | .number _, .binary _ _ _, same | .number _, .assign _ _, same | .number _, .call _ _ _, same
  | .truth _ _, .number _, same | .truth _ _, .name _, same | .truth _ _, .unary _ _ _, same
  | .truth _ _, .binary _ _ _, same | .truth _ _, .assign _ _, same | .truth _ _, .call _ _ _, same
  | .name _, .number _, same | .name _, .truth _ _, same | .name _, .unary _ _ _, same
  | .name _, .binary _ _ _, same | .name _, .assign _ _, same | .name _, .call _ _ _, same
  | .unary _ _ _, .number _, same | .unary _ _ _, .truth _ _, same | .unary _ _ _, .name _, same
  | .unary _ _ _, .binary _ _ _, same | .unary _ _ _, .assign _ _, same
  | .unary _ _ _, .call _ _ _, same
  | .binary _ _ _, .number _, same | .binary _ _ _, .truth _ _, same | .binary _ _ _, .name _, same
  | .binary _ _ _, .unary _ _ _, same | .binary _ _ _, .assign _ _, same
  | .binary _ _ _, .call _ _ _, same
  | .assign _ _, .number _, same | .assign _ _, .truth _ _, same | .assign _ _, .name _, same
  | .assign _ _, .unary _ _ _, same | .assign _ _, .binary _ _ _, same | .assign _ _, .call _ _ _, same
  | .call _ _ _, .number _, same | .call _ _ _, .truth _ _, same | .call _ _ _, .name _, same
  | .call _ _ _, .unary _ _ _, same | .call _ _ _, .binary _ _ _, same
  | .call _ _ _, .assign _ _, same => by cases same

theorem parallel_typedAll (h : M.Joins n t t') : ∀ ps ps' : List Phrase,
    allUnplaced ps = allUnplaced ps' →
    Parallel (List.Forall₂ (Expr.Matches M.left.decl M.right.decl)) (typedAll t ps) (typedAll t' ps')
  | [], [], _ => .ok .nil
  | p :: rest, p' :: rest', same => by
    obtain ⟨first, others⟩ := List.cons.inj same
    exact (parallel_typed h p p' first).bind fun _ _ e =>
      (parallel_typedAll h rest rest' others).bind fun _ _ es => .ok (.cons e es)
  | [], _ :: _, same | _ :: _, [], same => by cases same

end

end Phrase

theorem Excerpt.alike_faulted {f f' : Excerpt} (what : String) {d d' : Diagnostic} (h : d.Alike d') :
    (f.faulted what d).Alike (f'.faulted what d') := by
  unfold faulted
  rw [h.cause.isGrammatical]
  split
  · rename_i grammatical
    rw [h.cause.eq_of_isGrammatical grammatical]
    exact .of_cause _ _ _
  · exact h

namespace Matching.Joins

variable (h : M.Joins n t t')

include h

theorem parallel_expressionOf {tokens tokens' : List Token}
    (same : tokens.map Token.unplaced = tokens'.map Token.unplaced) :
    Parallel (Expr.Matches M.left.decl M.right.decl) (t.expressionOf tokens)
      (t'.expressionOf tokens') := by
  have read := Phrase.alike_ofTokens same
  unfold SymbolTable.expressionOf
  generalize Phrase.ofTokens tokens = out at read
  generalize Phrase.ofTokens tokens' = out' at read
  cases read with
  | ok same => exact Phrase.parallel_typed h _ _ same
  | error parts fault =>
    rw [← Phrase.allUnplaced_eq_map, ← Phrase.allUnplaced_eq_map] at parts
    exact (Phrase.parallel_typedAll h _ _ parts).bind fun _ _ _ => .error fault

theorem parallel_forceExpression {e e' : Expr} (same : e.Matches M.left.decl M.right.decl e') :
    Parallel (Expr.Matches M.left.decl M.right.decl) (t.forceExpression e) (t'.forceExpression e') := by
  have excerpts := same.excerpt?
  unfold SymbolTable.forceExpression
  generalize e.excerpt? = f? at excerpts
  generalize e'.excerpt? = f?' at excerpts
  cases f? with
  | none =>
    cases f?' with
    | none => exact .ok same
    | some f' => cases excerpts
  | some f =>
    cases f?' with
    | none => cases excerpts
    | some f' =>
      have tokens := congrArg Excerpt.tokens (Option.some.inj excerpts)
      exact (h.parallel_expressionOf tokens).mapError fun _ _ fault => Excerpt.alike_faulted _ fault

end Matching.Joins

end Deferral
