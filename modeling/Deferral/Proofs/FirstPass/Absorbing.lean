import Deferral.Proofs.FirstPass.Visited

/-!
# Absorbing extensions

A class absorbs the extensions bound to its name: their members become its own, and the names in
their scopes are bound in its scope. Afterwards its name is bound to no extension.
-/

namespace Deferral

open SymbolTable

namespace SymbolTable

variable {t t' : SymbolTable} {rank : ScopeId → Nat} {S V : Set DeclId}

/-! ## Members -/

theorem members_mapMembers_self {id : DeclId} (isClass : (t.decl id).members?.isSome = true)
    (f : List Stmt → List Stmt) :
    (t.modifyDecl id (·.mapMembers f)).members id = f (t.members id) := by
  obtain ⟨body, held⟩ := Option.isSome_iff_exists.mp isClass
  have lt : id.index < t.decls.size := lt_size_of_kind fun absent => by
    simp [Decl.members?, absent] at held
  unfold SymbolTable.members
  rw [decl_modifyDecl_self lt]
  unfold Decl.mapMembers Decl.members? at *
  split at held <;> simp_all

theorem members_modifyDecl_of_ne {id other : DeclId} (ne : other ≠ id) (f : Decl → Decl) :
    (t.modifyDecl id f).members other = t.members other := by
  unfold SymbolTable.members
  rw [decl_modifyDecl_of_ne ne]

theorem body_mapMembers (id other : DeclId) (f : List Stmt → List Stmt) :
    ((t.modifyDecl id (·.mapMembers f)).decl other).body = (t.decl other).body := by
  rw [decl_modifyDecl]
  split
  · rename_i same
    rw [same.1, Decl.body_mapMembers]
  · rfl

theorem members?_isSome_of_isPrimaryClass {id : DeclId} (h : (t.decl id).isPrimaryClass = true) :
    (t.decl id).members?.isSome = true := by
  unfold Decl.isPrimaryClass at h
  unfold Decl.members?
  split at h <;> simp_all

theorem members?_isSome_of_isExtension {id : DeclId} (h : (t.decl id).isExtension = true) :
    (t.decl id).members?.isSome = true := by
  unfold Decl.isExtension at h
  unfold Decl.members?
  split at h <;> simp_all

theorem body_of_isExtension {id : DeclId} (h : (t.decl id).isExtension = true) :
    (t.decl id).body = .absent := by
  unfold Decl.isExtension at h
  unfold Decl.body Decl.callable?
  split at h <;> simp_all

theorem body_of_isPrimaryClass {id : DeclId} (h : (t.decl id).isPrimaryClass = true) :
    (t.decl id).body = .absent := by
  unfold Decl.isPrimaryClass at h
  unfold Decl.body Decl.callable?
  split at h <;> simp_all

/-- What a class states is what its members declare, also when they are changed. -/
theorem declares_mapMembers {id : DeclId} (primary : (t.decl id).isPrimaryClass = true)
    (f : List Stmt → List Stmt) :
    ((t.modifyDecl id (·.mapMembers f)).decl id).declares = Stmt.declaresIn (f (t.members id)) := by
  rw [declares_eq, body_mapMembers, body_of_isPrimaryClass primary,
    members_mapMembers_self (members?_isSome_of_isPrimaryClass primary)]
  rfl

/-- A class is neat with members that are: no extensions among them, and blocks that have been read. -/
theorem neat_mapMembers {id : DeclId} {scope : ScopeId} (primary : (t.decl id).isPrimaryClass = true)
    (owns : t.scopeOf? (.decl id) = some scope) {f : List Stmt → List Stmt}
    (merged : Stmt.mergedIn (t.modifyDecl id (·.mapMembers f)) (f (t.members id)) = f (t.members id))
    (blocks : t.HasBlocks (Stmt.blocksIn (f (t.members id)))) :
    (t.modifyDecl id (·.mapMembers f)).Neat id := by
  refine ⟨fun s same => ?_, ?_, .inr ⟨scope, owns⟩⟩
  · rw [body_mapMembers, body_of_isPrimaryClass primary] at same
    cases same
  · rw [members_mapMembers_self (members?_isSome_of_isPrimaryClass primary)]
    exact ⟨merged, blocks⟩

theorem not_isExtension_of_isPrimaryClass {d : Decl} (h : d.isPrimaryClass = true) :
    d.isExtension = false := by
  unfold Decl.isPrimaryClass at h
  unfold Decl.isExtension
  split at h <;> simp_all

/-! ## One extension -/

section Absorb

variable {cls e : DeclId} {inner outer : ScopeId}

theorem Advances.absorb (sound : t.Sound) (cls e : DeclId) (inner outer : ScopeId) :
    t.Advances (t.absorb cls e inner outer) :=
  .of_edit sound (.absorb cls e inner outer) (by simp [SymbolTable.absorb, reparent, modifyScope])
    rfl rfl rfl

theorem body_absorb (cls e : DeclId) (inner outer : ScopeId) (id : DeclId) :
    ((t.absorb cls e inner outer).decl id).body = (t.decl id).body := by
  unfold SymbolTable.absorb
  rw [body_mapMembers, body_mapMembers]
  rfl

theorem members_absorb (primary : (t.decl cls).isPrimaryClass = true)
    (extension : (t.decl e).isExtension = true) (inner outer : ScopeId) (id : DeclId) :
    (t.absorb cls e inner outer).members id =
      if id = cls then t.members cls ++ t.members e
      else if id = e then [] else t.members id := by
  have ne : cls ≠ e := by
    rintro rfl
    rw [not_isExtension_of_isPrimaryClass primary] at extension
    cases extension
  have emptied (other : DeclId) (differs : other ≠ e) :
      (((t.modifyScope outer (·.extendAll (t.scope inner).names)).reparent inner outer).modifyDecl e
        (·.mapMembers fun _ => [])).decl other = t.decl other := decl_modifyDecl_of_ne differs _ _
  unfold SymbolTable.absorb
  split
  · rename_i same
    subst same
    rw [members_mapMembers_self]
    · unfold SymbolTable.members
      rw [emptied id ne]
    · rw [emptied id ne]
      exact members?_isSome_of_isPrimaryClass primary
  · rename_i other
    rw [members_modifyDecl_of_ne other]
    split
    · rename_i same
      subst same
      rw [members_mapMembers_self]
      exact members?_isSome_of_isExtension extension
    · rename_i differs
      unfold SymbolTable.members
      rw [emptied id differs]

theorem scope_absorb (cls e : DeclId) (inner outer s : ScopeId) :
    ((t.absorb cls e inner outer).scope s).names =
      if s = outer ∧ outer.index < t.scopes.size then
        ((t.scope outer).extendAll (t.scope inner).names).names
      else (t.scope s).names := by
  change (((t.modifyScope outer (·.extendAll (t.scope inner).names)).reparent inner outer).scope
    s).names = _
  unfold reparent
  rw [scope_modifyScope]
  split
  · rename_i same
    rw [← same.1, scope_modifyScope]
    split <;> rfl
  · rw [scope_modifyScope]
    split <;> rfl

theorem ordered_absorb (h : t.Ordered) (cls e : DeclId) (inner outer : ScopeId) :
    (t.absorb cls e inner outer).Ordered := by
  intro s
  rw [scope_absorb]
  split
  · exact Scope.increasing_extendAll (h outer) _
  · exact h s

theorem binds_absorb_old {s : ScopeId} {name : String} {d : DeclId} (h : t.Binds s name d)
    (cls e : DeclId) (inner outer : ScopeId) : (t.absorb cls e inner outer).Binds s name d := by
  unfold Binds Scope.Binds
  rw [scope_absorb]
  split
  · rename_i same
    refine Scope.binds_extendAll.mpr (.inl ?_)
    rw [← same.1]
    exact h
  · exact h

theorem binds_absorb_new {s : ScopeId} {name : String} {d : DeclId}
    (h : (t.absorb cls e inner outer).Binds s name d) :
    t.Binds s name d ∨ s = outer ∧ t.Binds inner name d := by
  unfold Binds Scope.Binds at h
  rw [scope_absorb] at h
  split at h
  · rename_i same
    rcases Scope.binds_extendAll.mp h with h | h
    · exact .inl (by rw [same.1]; exact h)
    · exact .inr ⟨same.1, h⟩
  · exact .inl h

/-- A class and an extension of it in the scopes saved for them. -/
structure Extends (t : SymbolTable) (cls e : DeclId) (inner outer : ScopeId) : Prop where
  primary : (t.decl cls).isPrimaryClass = true
  extension : (t.decl e).isExtension = true
  bound : t.Binds (t.decl cls).scope (t.decl cls).name e
  inner : t.scopeOf? (.decl e) = some inner
  outer : t.scopeOf? (.decl cls) = some outer

/-- What lies in an extension may lie in the class, which is as deep. -/
theorem Placed.absorb (h : t.Placed rank) (sound : t.Sound) (extends' : t.Extends cls e inner outer) :
    (t.absorb cls e inner outer).Placed rank := by
  obtain ⟨primary, extension, bound, inside, outside⟩ := extends'
  have advances := Advances.absorb sound cls e inner outer
  have level := h.level bound
  refine h.of_binds advances (ordered_absorb h.ordered cls e inner outer)
    (fun c isClass => binds_absorb_old (h.named c isClass) ..) (fun {s name d} b => ?_)
    fun holder w member => ?_
  · rcases binds_absorb_new b with own | ⟨rfl, absorbed⟩
    · have lt := h.present own
      refine ⟨Nat.lt_of_lt_of_le lt advances.evolves.size, ?_⟩
      rw [advances.scope lt]
      exact h.level own
    · have lt := h.present absorbed
      refine ⟨Nat.lt_of_lt_of_le lt advances.evolves.size, ?_⟩
      rw [advances.scope lt, h.level absorbed, h.opened inside, h.opened outside, level]
  · rw [declares_eq, body_absorb, members_absorb primary extension] at member
    have own : w ∈ (t.decl holder).declares →
        t.Houses rank holder w ∧ holder.index < t.decls.size :=
      fun member => ⟨h.inside holder w member, lt_size_of_mem_declares member⟩
    split at member
    · rename_i same
      subst same
      rw [Stmt.declaresIn_append, ← List.append_assoc, ← declares_eq] at member
      rcases List.mem_append.mp member with member | member
      · exact own member
      · have member : w ∈ (t.decl e).declares := by
          rw [declares_eq]
          exact List.mem_append_right _ member
        have houses := h.inside e w member
        refine ⟨⟨houses.lt, level ▸ houses.deeper, fun c isClass owns => ?_⟩,
          lt_size_of_isPrimaryClass primary⟩
        obtain rfl := houses.house c isClass owns
        rw [not_isExtension_of_isPrimaryClass isClass] at extension
        cases extension
    · split at member
      · rename_i same
        subst same
        refine own ?_
        rw [declares_eq]
        exact List.mem_append_left _ (by simpa [Stmt.declaresIn] using member)
      · exact own (by rw [declares_eq]; exact member)

/-- What has been visited is not touched by the extensions of a class that has not been. -/
theorem Visited.absorb (h : t.Visited S V) (sound : t.Sound)
    (extends' : t.Extends cls e inner outer) (fresh : cls ∉ V)
    (apart : ∀ v ∈ V, (t.decl v).scope ≠ outer) : (t.absorb cls e inner outer).Visited S V := by
  obtain ⟨primary, extension, bound, inside, outside⟩ := extends'
  have advances := Advances.absorb sound cls e inner outer
  refine fun v member => (h v member).of_advances advances (.inl (body_absorb ..)) (fun other => ?_)
    fun isClass d b => ?_
  · have notClass : v ≠ cls := by
      rintro rfl
      exact fresh member
    have notExtension : v ≠ e := by
      rintro rfl
      rw [extension] at other
      cases other
    rw [members_absorb primary extension, if_neg notClass, if_neg notExtension]
    exact .inl rfl
  · rw [advances.isExtension]
    rcases binds_absorb_new b with b | ⟨same, -⟩
    · exact (h v member).drained isClass d b
    · exact absurd same (apart v member)

/-- The class has something inside it instead of the extension. -/
theorem Bounded.absorb {n : Nat} (h : t.Bounded n) (primary : (t.decl cls).isPrimaryClass = true)
    (extension : (t.decl e).isExtension = true) (inner outer : ScopeId) :
    (t.absorb cls e inner outer).Bounded n := by
  have ne : cls ≠ e := by
    rintro rfl
    rw [not_isExtension_of_isPrimaryClass primary] at extension
    cases extension
  have others : ∀ id, id ≠ cls → id ≠ e →
      ((t.absorb cls e inner outer).decl id).declares = (t.decl id).declares := by
    intro id notClass notExtension
    rw [declares_eq, declares_eq, body_absorb, members_absorb primary extension, if_neg notClass,
      if_neg notExtension]
  by_cases empty : Stmt.declaresIn (t.members e) = []
  · refine h.of_declares fun id => ?_
    rw [declares_eq, declares_eq, body_absorb, members_absorb primary extension]
    split
    · rename_i isClass
      rw [Stmt.declaresIn_append, empty, List.append_nil, isClass]
    · split
      · rename_i isExtension
        rw [isExtension, empty]
        rfl
      · rfl
  · obtain ⟨holders, le, all⟩ := h
    have holds : e ∈ holders := all e (by rw [declares_eq]; simp [empty])
    have positive := List.length_pos_of_mem holds
    refine ⟨cls :: holders.erase e, ?_, fun id some => ?_⟩
    · rw [List.length_cons, List.length_erase_of_mem holds]
      omega
    by_cases isClass : id = cls
    · simp [isClass]
    have notExtension : id ≠ e := by
      rintro rfl
      rw [declares_eq, body_absorb, body_of_isExtension extension,
        members_absorb primary extension, if_neg isClass, if_pos rfl] at some
      exact some rfl
    rw [others id isClass notExtension] at some
    exact List.mem_cons_of_mem _ ((List.mem_erase_of_ne notExtension).mpr (all id some))

end Absorb

/-! ## All extensions of a class -/

/-- A class absorbs the extensions among some declarations, one after the other. -/
inductive Absorbs (cls : DeclId) (outer : ScopeId) : List DeclId → SymbolTable → SymbolTable → Prop
  | nil (t : SymbolTable) : Absorbs cls outer [] t t
  | skip {t t' : SymbolTable} {id : DeclId} {rest : List DeclId} :
      (t.decl id).isExtension = false → Absorbs cls outer rest t t' →
      Absorbs cls outer (id :: rest) t t'
  | absorb {t t' : SymbolTable} {id : DeclId} {rest : List DeclId} {inner : ScopeId} :
      (t.decl id).isExtension = true → t.scopeOf? (.decl id) = some inner →
      Absorbs cls outer rest (t.absorb cls id inner outer) t' →
      Absorbs cls outer (id :: rest) t t'

namespace Absorbs

variable {cls : DeclId} {outer : ScopeId} {ids : List DeclId}

theorem advances (h : Absorbs cls outer ids t t') (sound : t.Sound) : t.Advances t' := by
  induction h with
  | nil t => exact .refl t
  | skip _ _ ih => exact ih sound
  | @absorb t _ id _ inner _ _ _ ih =>
    have first := Advances.absorb sound cls id inner outer
    exact first.trans (ih (first.sound sound))

theorem eq_of_none (h : Absorbs cls outer ids t t')
    (none : ∀ id ∈ ids, (t.decl id).isExtension = false) : t' = t := by
  induction h with
  | nil => rfl
  | skip _ _ ih => exact ih fun id member => none id (by simp [member])
  | absorb extension _ _ _ =>
    rw [none _ (by simp)] at extension
    cases extension

theorem binds (h : Absorbs cls outer ids t t') {s : ScopeId} {name : String} {d : DeclId}
    (b : t.Binds s name d) : t'.Binds s name d := by
  induction h with
  | nil => exact b
  | skip _ _ ih => exact ih b
  | absorb _ _ _ ih => exact ih (binds_absorb_old b ..)

/-- Where a class that has not been visited absorbs extensions bound to its name, everything stays
where it lies and as visited as it was. -/
theorem keeps (h : Absorbs cls outer ids t t') (sound : t.Sound) {n : Nat}
    (primary : (t.decl cls).isPrimaryClass = true)
    (owns : t.scopeOf? (.decl cls) = some outer)
    (bound : ∀ id ∈ ids, t.Binds (t.decl cls).scope (t.decl cls).name id)
    (placed : t.Placed rank) (visited : t.Visited S V) (bounded : t.Bounded n) (fresh : cls ∉ V)
    (apart : ∀ v ∈ V, (t.decl v).scope ≠ outer) :
    t'.Placed rank ∧ t'.Visited S V ∧ t'.Bounded n := by
  induction h with
  | nil => exact ⟨placed, visited, bounded⟩
  | skip _ _ ih =>
    exact ih sound primary owns (fun id member => bound id (by simp [member])) placed visited bounded
      apart
  | @absorb t _ id _ inner extension inside _ ih =>
    have extends' : t.Extends cls id inner outer :=
      ⟨primary, extension, bound id (by simp), inside, owns⟩
    have advances := Advances.absorb sound cls id inner outer
    have lt := lt_size_of_isPrimaryClass primary
    refine ih (advances.sound sound) (by rw [advances.isPrimaryClass]; exact primary)
      (by rw [advances.scopeOf?]; exact owns) (fun other member => ?_)
      (placed.absorb sound extends') (visited.absorb sound extends' fresh apart)
      (bounded.absorb primary extension inner outer) fun v member => ?_
    · rw [advances.scope lt, advances.name lt]
      exact binds_absorb_old (bound other (by simp [member])) ..
    · rw [advances.scope (visited v member).lt]
      exact apart v member

end Absorbs

/-! ## Names without extensions -/

section KeepOnly

variable {scope : ScopeId} {name : String}

theorem decl_keepOnly (t : SymbolTable) (scope : ScopeId) (name : String) (keep : Decl → Bool)
    (id : DeclId) : (t.keepOnly scope name keep).decl id = t.decl id := by
  unfold keepOnly
  split <;> rfl

theorem Advances.keepOnly (sound : t.Sound) (scope : ScopeId) (name : String) :
    t.Advances (t.keepOnly scope name fun d => !d.isExtension) := by
  refine .of_edit sound (.keepOnly scope name) ?_ ?_ ?_ ?_ <;>
    · unfold SymbolTable.keepOnly
      split <;> rfl

theorem binds_keepOnly (ordered : t.Ordered) {s : ScopeId} {other : String} {d : DeclId} :
    (t.keepOnly scope name fun d => !d.isExtension).Binds s other d ↔
      t.Binds s other d ∧ (s = scope → other = name → (t.decl d).isExtension = false) := by
  unfold keepOnly
  split
  · rename_i unbound
    refine ⟨fun b => ⟨b, fun sameScope sameName => ?_⟩, And.left⟩
    subst sameScope sameName
    obtain ⟨set, found, -⟩ := Names.find?_of_binds (ordered s) b
    exact absurd (found.symm.trans unbound) (by simp)
  · unfold Binds
    rw [scope_modifyScope]
    split
    · rename_i same
      obtain ⟨rfl, lt⟩ := same
      unfold Scope.Binds
      rw [Names.binds_filter (ordered s)]
      simp
    · rename_i differs
      refine ⟨fun b => ⟨b, fun same _ => ?_⟩, And.left⟩
      subst same
      by_cases lt : s.index < t.scopes.size
      · exact absurd ⟨rfl, lt⟩ differs
      · obtain ⟨set, found, -⟩ := b
        simp [SymbolTable.scope, Array.getD_eq_getD_getElem?, lt] at found
        cases found

theorem ordered_keepOnly (ordered : t.Ordered) (scope : ScopeId) (name : String)
    (keep : Decl → Bool) : (t.keepOnly scope name keep).Ordered := by
  unfold keepOnly
  split
  · exact ordered
  · exact ordered.modifyScope (Names.increasing_alter (ordered scope) ..)

theorem Placed.keepOnly (h : t.Placed rank) (sound : t.Sound) (scope : ScopeId) (name : String) :
    (t.keepOnly scope name fun d => !d.isExtension).Placed rank := by
  have advances := Advances.keepOnly sound scope name
  refine h.of_binds advances (ordered_keepOnly h.ordered scope name _) (fun c primary => ?_)
    (fun {s other d} b => ?_) fun holder w member => ?_
  · exact (binds_keepOnly h.ordered).mpr
      ⟨h.named c primary, fun _ _ => not_isExtension_of_isPrimaryClass primary⟩
  · obtain ⟨b, -⟩ := (binds_keepOnly h.ordered).mp b
    have lt := h.present b
    refine ⟨Nat.lt_of_lt_of_le lt advances.evolves.size, ?_⟩
    rw [advances.scope lt]
    exact h.level b
  · rw [decl_keepOnly] at member
    exact ⟨h.inside holder w member, lt_size_of_mem_declares member⟩

theorem Visited.keepOnly (h : t.Visited S V) (ordered : t.Ordered) (sound : t.Sound)
    (scope : ScopeId) (name : String) :
    (t.keepOnly scope name fun d => !d.isExtension).Visited S V := by
  have advances := Advances.keepOnly sound scope name
  refine fun v member => (h v member).of_advances advances (.inl (by rw [decl_keepOnly]))
    (fun _ => .inl (by simp only [SymbolTable.members, decl_keepOnly])) fun primary d b => ?_
  rw [advances.isExtension]
  exact (h v member).drained primary d ((binds_keepOnly ordered).mp b).1

theorem Bounded.keepOnly {n : Nat} (h : t.Bounded n) (scope : ScopeId) (name : String)
    (keep : Decl → Bool) : (t.keepOnly scope name keep).Bounded n :=
  h.of_declares fun id => by rw [decl_keepOnly]

end KeepOnly

/-- A class that shares its name with no other declaration is bound to it alone. -/
theorem Placed.alone (h : t.Placed rank) {cls : DeclId} (primary : (t.decl cls).isPrimaryClass = true)
    (single : t.isOverloaded (t.decl cls).scope (t.decl cls).name = false) {d : DeclId}
    (b : t.Binds (t.decl cls).scope (t.decl cls).name d) : d = cls := by
  obtain ⟨set, found, member⟩ := Names.find?_of_binds (h.ordered _) b
  obtain ⟨set', found', member'⟩ := Names.find?_of_binds (h.ordered _) (h.named cls primary)
  obtain rfl := Option.some.inj (found.symm.trans found')
  have short : ¬ 1 < set.length := by
    unfold isOverloaded Scope.find? at single
    simpa [found] using single
  match set, member, member', short with
  | [only], member, member', _ =>
    rw [List.mem_singleton.mp member, List.mem_singleton.mp member']
  | _ :: _ :: _, _, _, short => simp at short

end SymbolTable

/-! ## Runs -/

namespace Resolution

variable {t t' : SymbolTable}

theorem runs_absorbAll {cls : DeclId} {outer : ScopeId} : ∀ (ids : List DeclId)
    {t t' : SymbolTable} {r : Except Diagnostic Unit}, t.Sound →
    Runs (absorbAll cls outer ids) t r t' →
    t.Advances t' ∧ (r = .ok () → Absorbs cls outer ids t t')
  | [], _, _, _, _, h => by
    obtain ⟨-, rfl⟩ := runs_pure.mp h
    exact ⟨.refl _, fun _ => .nil _⟩
  | id :: rest, t, _, _, sound, h => by
    unfold absorbAll at h
    rw [runs_bind_look] at h
    split at h
    · rename_i extension
      rcases runs_bind.mp h with ⟨fault, looked, rfl⟩ | ⟨inner, t₁, looked, others⟩
      · obtain ⟨rfl, -⟩ := runs_scopeOf looked
        exact ⟨.refl _, fun same => (by cases same)⟩
      obtain ⟨rfl, known⟩ := runs_scopeOf looked
      have first := Advances.absorb sound cls id inner outer
      obtain ⟨advances, absorbs⟩ :=
        runs_absorbAll rest (first.sound sound) (runs_bind_modify.mp others)
      exact ⟨first.trans advances, fun ok => .absorb extension (known inner rfl) (absorbs ok)⟩
    · rename_i other
      obtain ⟨advances, absorbs⟩ := runs_absorbAll rest sound h
      exact ⟨advances, fun ok => .skip (by simpa using other) (absorbs ok)⟩

theorem runs_absorbExtensions {enclosing : ScopeId} {cls : DeclId} {r : Except Diagnostic Unit}
    (sound : t.Sound) (h : Runs (absorbExtensions enclosing cls) t r t') :
    t.Advances t' ∧ (r = .ok () → ∃ outer, t.scopeOf? (.decl cls) = some outer ∧
      Absorbs cls outer (((t.scope enclosing).find? (t.decl cls).name).getD []) t t') := by
  unfold absorbExtensions at h
  rw [runs_bind_look] at h
  rcases runs_bind.mp h with ⟨fault, looked, rfl⟩ | ⟨outer, t₁, looked, rest⟩
  · obtain ⟨rfl, -⟩ := runs_scopeOf looked
    exact ⟨.refl _, fun same => (by cases same)⟩
  · obtain ⟨rfl, known⟩ := runs_scopeOf looked
    obtain ⟨advances, absorbs⟩ := runs_absorbAll _ sound rest
    exact ⟨advances, fun ok => ⟨outer, known outer rfl, absorbs ok⟩⟩

end Resolution

/-- How a run ends that works on a class while it has the members of its extensions: there are none
to be absorbed, or they are absorbed first and lose the name of the class afterwards. -/
inductive Faulting.Extended {α : Type} (enclosing : ScopeId) (cls : DeclId) (action : Reporting α)
    (ρ : List Diagnostic) (t : SymbolTable) (a : α) (ρ' : List Diagnostic) : SymbolTable → Prop
  | alone {t' : SymbolTable} : t.isOverloaded enclosing (t.decl cls).name = false →
      Reporting.Ends action ρ t a ρ' t' → Extended enclosing cls action ρ t a ρ' t'
  | absorbed {outer : ScopeId} {t₁ t₂ : SymbolTable} :
      t.scopeOf? (.decl cls) = some outer →
      Absorbs cls outer (((t.scope enclosing).find? (t.decl cls).name).getD []) t t₁ →
      Reporting.Ends action ρ t₁ a ρ' t₂ →
      Extended enclosing cls action ρ t a ρ'
        (t₂.keepOnly enclosing (t.decl cls).name fun d => !d.isExtension)

theorem Faulting.ends_withExtensions {α : Type} {enclosing : ScopeId} {cls : DeclId}
    {action : Reporting α} {ρ ρ' : List Diagnostic} {t t' : SymbolTable}
    {r : Except Diagnostic α} (sound : t.Sound)
    (h : Faulting.Ends (withExtensions enclosing cls action) ρ t r ρ' t') :
    (∃ d t₁, r = .error d ∧ ρ' = ρ ∧ t.Advances t₁ ∧
        t' = t₁.keepOnly enclosing (t.decl cls).name fun d => !d.isExtension) ∨
      ∃ a, r = .ok a ∧ Extended enclosing cls action ρ t a ρ' t' := by
  unfold withExtensions at h
  rw [Faulting.ends_bind_look, Faulting.ends_bind_look] at h
  split at h
  · obtain ⟨t₂, run, rfl⟩ := Faulting.ends_ending.mp h
    rcases Faulting.ends_bind.mp run with ⟨fault, absorbs, rfl⟩ | ⟨_, ρ₁, t₁, absorbs, rest⟩
    · obtain ⟨run₁, rfl⟩ := Faulting.ends_resolve.mp absorbs
      obtain ⟨advances, -⟩ := Resolution.runs_absorbExtensions sound run₁
      exact .inl ⟨fault, t₂, rfl, rfl, advances, rfl⟩
    obtain ⟨run₁, rfl⟩ := Faulting.ends_resolve.mp absorbs
    obtain ⟨advances, absorbed⟩ := Resolution.runs_absorbExtensions sound run₁
    obtain ⟨outer, owns, absorbed⟩ := absorbed rfl
    obtain ⟨a, run₂, rfl⟩ := Faulting.ends_lift.mp rest
    exact .inr ⟨a, rfl, .absorbed owns absorbed run₂⟩
  · rename_i single
    obtain ⟨a, run, rfl⟩ := Faulting.ends_lift.mp h
    exact .inr ⟨a, rfl, .alone (by simpa using single) run⟩

end Deferral
