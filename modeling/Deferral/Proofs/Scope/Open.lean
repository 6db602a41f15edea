import Deferral.Proofs.FirstPass.Absorbing
import Deferral.Proofs.Scope.Binding
import Deferral.Proofs.Table.Building

/-!
# Which scopes are open

The first pass opens functions and classes: names in a function's own scope are final once it has got
its type parameters, and those in a class once it has absorbed its extensions. A scope is open when
all functions and classes around it are. What is seen from an open scope lies in open scopes, and is
seen for the rest of the pass.
-/

namespace Deferral

namespace SymbolTable

variable {t t' : SymbolTable} {rank : ScopeId → Nat} {D D' : Set DeclId} {s p a : ScopeId}
  {id : DeclId}

/-- A scope around which there are no functions and classes but those among `D`. -/
structure Open (D : Set DeclId) (t : SymbolTable) (s : ScopeId) : Prop where
  lt : s.index < t.scopes.size
  owners : ∀ a id, t.Around s a → t.scopeOf? (.decl id) = some a → id ∈ D

theorem Open.mono (h : t.Open D s) (within : D ⊆ D') : t.Open D' s :=
  ⟨h.lt, fun a id around owns => within (h.owners a id around owns)⟩

theorem lt_of_around (parents : ∀ {s p}, t.IsInside s p → p.index < t.scopes.size)
    (lt : s.index < t.scopes.size) (around : t.Around s a) : a.index < t.scopes.size := by
  induction around with
  | refl => exact lt
  | tail _ inside _ => exact parents inside

/-- The scopes around are the same as long as these have the same parents. -/
theorem around_of_parents (around : t'.Around s a)
    (parents : ∀ a, t.Around s a → (t'.scope a).parent = (t.scope a).parent) : t.Around s a := by
  induction around with
  | refl => exact .refl
  | @tail b c _ inside ih =>
    refine .tail ih ?_
    unfold IsInside at inside ⊢
    rw [← parents b ih]
    exact inside

theorem Open.of_parents (h : t.Open D s) (size : t.scopes.size ≤ t'.scopes.size)
    (saved : ∀ owner, t'.scopeOf? owner = t.scopeOf? owner)
    (parents : ∀ a, t.Around s a → (t'.scope a).parent = (t.scope a).parent) : t'.Open D s :=
  ⟨Nat.lt_of_lt_of_le h.lt size, fun a id around owns =>
    h.owners a id (around_of_parents around parents) ((saved _).symm.trans owns)⟩

/-! ## Where declarations lie while scopes are opened -/

/-- Where declarations lie while `D` are open: in their own scopes, and what lay in an extension among
`D` in the class that has absorbed it. -/
structure Nested (D : Set DeclId) (t : SymbolTable) : Prop where
  distinct : ∀ {owner owner' s}, t.scopeOf? owner = some s → t.scopeOf? owner' = some s →
    owner = owner'
  owned : ∀ {owner s}, t.scopeOf? owner = some s → s.index < t.scopes.size
  parents : ∀ {s p}, t.IsInside s p → p.index < t.scopes.size
  reached : ∀ id ∈ D, ∃ a, t.scopeOf? (.decl id) = some a ∧ t.Open D a
  within : ∀ {id a}, t.scopeOf? (.decl id) = some a →
    (id ∈ D → (t.decl id).isExtension = false) → t.IsInside a (t.decl id).scope
  bound : ∀ {s name d}, t.Binds s name d → (t.decl d).scope = s ∨
    ∃ e ∈ D, t.scopeOf? (.decl e) = some (t.decl d).scope
  titled : ∀ {s name d}, t.Binds s name d → (t.decl d).isExtension = true → (t.decl d).name = name
  encloses : ∀ h, ∀ w ∈ (t.decl h).declares, ∃ id a, (id = h ∨ id ∈ D) ∧
    t.scopeOf? (.decl id) = some a ∧ t.Encloses a (t.decl w).scope
  constants : ∀ {f s name d}, (t.decl f).callable?.isSome = true → t.scopeOf? (.decl f) = some s →
    t.Binds s name d → (t.decl d).isConstant = false

theorem Built.nested (h : t.Built rank) : t.Nested ∅ where
  distinct := h.distinct
  owned known := (h.owned known).2.1
  parents := h.laid.parents
  reached _ none := by cases none
  within owns _ := h.laid.within owns
  bound b := .inl (h.bound b).2
  titled b _ := h.laid.titled b
  encloses holder w member := by
    obtain ⟨a, owns, encloses⟩ := h.laid.encloses holder w member
    exact ⟨holder, a, .inl rfl, owns, encloses⟩
  constants {f s name d} callable owns b := by
    by_contra constant
    exact h.laid.constants callable owns (by simpa using constant) (h.bound b).2

namespace Nested

/-- A scope around an open one is open. -/
theorem around (h : t.Nested D) (opened : t.Open D' s) (around : t.Around s a) : t.Open D' a :=
  ⟨lt_of_around h.parents opened.lt around,
    fun b id further owns => opened.owners b id (around.trans further) owns⟩

/-- Blocks in an open scope are open. -/
theorem open_of_encloses (h : t.Nested D) (opened : t.Open D a) (encloses : t.Encloses a s) :
    t.Open D s := by
  induction encloses using Relation.ReflTransGen.head_induction_on with
  | refl => exact opened
  | head block _ ih =>
    obtain ⟨inside, b, owns⟩ := block
    refine ⟨h.owned owns, fun c id around owns' => ?_⟩
    rcases Relation.ReflTransGen.cases_head around with rfl | ⟨p, inside', around⟩
    · cases h.distinct owns owns'
    · obtain rfl := Option.some.inj (inside.symm.trans inside')
      exact ih.owners c id around owns'

/-- What lies inside an open function or class lies in an open scope. -/
theorem open_of_declares (h : t.Nested D) (member : id ∈ D) {w : DeclId}
    (inside : w ∈ (t.decl id).declares) : t.Open D (t.decl w).scope := by
  obtain ⟨holder, a, held, owns, encloses⟩ := h.encloses id w inside
  have open' : holder ∈ D := by
    rcases held with rfl | held
    · exact member
    · exact held
  obtain ⟨b, owns', opened⟩ := h.reached holder open'
  obtain rfl := Option.some.inj (owns.symm.trans owns')
  exact h.open_of_encloses opened encloses

/-- The scope that an open function or class lies in is open. -/
theorem open_scope (h : t.Nested D) (member : id ∈ D) (other : (t.decl id).isExtension = false) :
    t.Open D (t.decl id).scope := by
  obtain ⟨a, owns, opened⟩ := h.reached id member
  exact h.around opened (.single (h.within owns fun _ => other))

/-- What is bound in an open scope lies in an open scope. -/
theorem open_of_binds (h : t.Nested D) (opened : t.Open D s) {name : String} {d : DeclId}
    (b : t.Binds s name d) : t.Open D (t.decl d).scope := by
  rcases h.bound b with same | ⟨e, member, owns⟩
  · rw [same]
    exact opened
  · obtain ⟨a, owns', opened'⟩ := h.reached e member
    obtain rfl := Option.some.inj (owns.symm.trans owns')
    exact opened'

/-- What is seen from an open scope lies in open scopes. -/
theorem sees (h : t.Nested D) (opened : t.Open D s) : t.Sees (t.Open D) s := by
  intro name d denotes _
  obtain ⟨a, around, b⟩ := denotes.binds
  exact h.open_of_binds (h.around opened around) b

/-- No constant lies in a function's own scope, so that those seen from there lie in open scopes. -/
theorem sees_of_callable (h : t.Nested D) (callable : (t.decl id).callable?.isSome = true)
    (owns : t.scopeOf? (.decl id) = some s) (opened : t.Open D (t.decl id).scope) :
    t.Sees (t.Open D) s := by
  intro name d denotes constant
  obtain ⟨a, around, b⟩ := denotes.binds
  have other : (t.decl id).isExtension = false := by
    unfold Decl.callable? at callable
    unfold Decl.isExtension
    split at callable <;> simp_all
  rcases Relation.ReflTransGen.cases_head around with rfl | ⟨p, inside, around⟩
  · rw [h.constants callable owns b] at constant
    cases constant
  · obtain rfl := Option.some.inj ((h.within owns fun _ => other).symm.trans inside)
    exact h.open_of_binds (h.around opened around) b

theorem legible (h : t.Nested D) (initializers : t.LexicalIn (t.Open D)) : t.Legible (t.Open D) :=
  ⟨fun _ opened => h.sees opened, initializers⟩

end Nested

/-! ## Steps that open nothing -/

theorem Advances.isConstant (h : t.Advances t') (id : DeclId) :
    (t'.decl id).isConstant = (t.decl id).isConstant := by
  by_cases lt : id.index < t.decls.size
  · have evolves := (h.evolves.decls id lt).kind
    unfold Decl.isConstant
    generalize (t.decl id).kind = k at evolves
    generalize (t'.decl id).kind = k' at evolves
    cases evolves with
    | @object sort _ _ _ _ => cases sort <;> rfl
    | _ => rfl
  · have outside : t.decls.size ≤ id.index := by omega
    simp [Decl.isConstant, h.added id outside, kind_eq_typeParameter outside]

theorem Advances.isSome_callable? (h : t.Advances t') (id : DeclId) :
    (t'.decl id).callable?.isSome = (t.decl id).callable?.isSome := by
  by_cases lt : id.index < t.decls.size
  · have evolves := (h.evolves.decls id lt).kind
    unfold Decl.callable?
    generalize (t.decl id).kind = k at evolves
    generalize (t'.decl id).kind = k' at evolves
    cases evolves <;> rfl
  · have outside : t.decls.size ≤ id.index := by omega
    simp [Decl.callable?, h.added id outside, kind_eq_typeParameter outside]

/-- A step after which every scope has the parent it had, and names are bound to no more than
before, type parameters in their own scopes aside. -/
structure Stays (t t' : SymbolTable) : Prop where
  advances : t.Advances t'
  size : t.scopes.size ≤ t'.scopes.size
  parents : ∀ s, s.index < t.scopes.size → (t'.scope s).parent = (t.scope s).parent
  fresh : ∀ {s p}, t'.IsInside s p → t.IsInside s p ∨ p.index < t'.scopes.size
  binds : ∀ {s name d}, t'.Binds s name d → t.Binds s name d ∨ t'.IsMade s d

/-- The declaration `w` lies in `h`, or in what `h` has absorbed. -/
def LiesWithin (D : Set DeclId) (t : SymbolTable) (h w : DeclId) : Prop :=
  w.index < t.decls.size ∧ ∃ id a, (id = h ∨ id ∈ D) ∧ t.scopeOf? (.decl id) = some a ∧
    t.Encloses a (t.decl w).scope

theorem Nested.liesWithin (h : t.Nested D) (placed : t.Placed rank) {holder w : DeclId}
    (member : w ∈ (t.decl holder).declares) : t.LiesWithin D holder w :=
  ⟨(placed.inside holder w member).lt, h.encloses holder w member⟩

namespace Stays

theorem of_scopes (advances : t.Advances t') (scopes : t'.scopes = t.scopes) : t.Stays t' where
  advances := advances
  size := by rw [scopes]
  parents s _ := by rw [scope_congr scopes]
  fresh inside := .inl (by unfold IsInside at inside ⊢; rw [← scope_congr scopes]; exact inside)
  binds b := .inl (by unfold Binds at b ⊢; rw [← scope_congr scopes]; exact b)

theorem saved (h : t.Stays t') (owner : ScopeOwner) : t'.scopeOf? owner = t.scopeOf? owner :=
  h.advances.scopeOf? owner

theorem «open» (h : t.Stays t') (nested : t.Nested D) (opened : t.Open D s) : t'.Open D s :=
  opened.of_parents h.size h.saved fun a around =>
    h.parents a (lt_of_around nested.parents opened.lt around)

theorem encloses (h : t.Stays t') (nested : t.Nested D) (encloses : t.Encloses a s) :
    t'.Encloses a s := by
  refine Relation.ReflTransGen.mono (fun s p block => ?_) _ _ encloses
  obtain ⟨inside, b, owns⟩ := block
  refine ⟨?_, b, (h.saved _).trans owns⟩
  unfold IsInside
  rw [h.parents s (nested.owned owns)]
  exact inside

theorem liesWithin (h : t.Stays t') (nested : t.Nested D) {holder w : DeclId}
    (lies : t.LiesWithin D holder w) : t'.LiesWithin D holder w := by
  obtain ⟨lt, id, a, held, owns, encloses⟩ := lies
  refine ⟨Nat.lt_of_lt_of_le lt h.advances.evolves.size, id, a, held, (h.saved _).trans owns, ?_⟩
  rw [h.advances.scope lt]
  exact h.encloses nested encloses

/-- Declarations lie where they did, if those inside others do. -/
theorem nested (h : t.Stays t') (placed : t.Placed rank) (nested : t.Nested D)
    (inside : ∀ holder, ∀ w ∈ (t'.decl holder).declares, t.LiesWithin D holder w) :
    t'.Nested D where
  distinct {owner owner' s} known known' := by
    rw [h.saved] at known known'
    exact nested.distinct known known'
  owned {owner s} known := by
    rw [h.saved] at known
    exact Nat.lt_of_lt_of_le (nested.owned known) h.size
  parents inside := (h.fresh inside).elim
    (fun old => Nat.lt_of_lt_of_le (nested.parents old) h.size) fun lt => lt
  reached id member := by
    obtain ⟨a, owns, opened⟩ := nested.reached id member
    exact ⟨a, (h.saved _).trans owns, h.open nested opened⟩
  within {id a} owns other := by
    rw [h.saved] at owns
    rw [h.advances.isExtension] at other
    unfold IsInside
    rw [h.parents a (nested.owned owns), h.advances.scope (placed.owned owns)]
    exact nested.within owns other
  bound {s name d} b := by
    rcases h.binds b with b | made
    · rw [h.advances.scope (placed.present b)]
      exact (nested.bound b).imp_right fun ⟨e, member, owns⟩ =>
        ⟨e, member, (h.saved _).trans owns⟩
    · exact .inl made.scope
  titled {s name d} b extension := by
    rcases h.binds b with b | made
    · rw [h.advances.isExtension] at extension
      rw [h.advances.name (placed.present b)]
      exact nested.titled b extension
    · rw [made.not_isExtension] at extension
      cases extension
  encloses holder w member := (h.liesWithin nested (inside holder w member)).2
  constants {f s name d} callable owns b := by
    rw [h.saved] at owns
    rw [h.advances.isSome_callable?] at callable
    rcases h.binds b with b | made
    · rw [h.advances.isConstant]
      exact nested.constants callable owns b
    · simp [Decl.isConstant, made.kind]

end Stays

/-! ## Steps that open functions and classes -/

/-- A function or class is opened that lies in an open scope. -/
theorem Nested.insert (h : t.Nested D) (owns : t.scopeOf? (.decl id) = some a)
    (other : (t.decl id).isExtension = false) (outer : t.Open D (t.decl id).scope) :
    t.Nested (insert id D) where
  distinct := h.distinct
  owned := h.owned
  parents := h.parents
  reached d member := by
    rcases member with rfl | member
    · refine ⟨a, owns, h.owned owns, fun b c around owns' => ?_⟩
      rcases Relation.ReflTransGen.cases_head around with rfl | ⟨p, inside, around⟩
      · exact .inl (ScopeOwner.decl.inj (h.distinct owns' owns))
      · obtain rfl := Option.some.inj ((h.within owns fun _ => other).symm.trans inside)
        exact .inr (outer.owners b c around owns')
    · obtain ⟨b, owns', opened⟩ := h.reached d member
      exact ⟨b, owns', opened.mono (Set.subset_insert id D)⟩
  within owns' other' := h.within owns' fun member => other' (.inr member)
  bound b := (h.bound b).imp_right fun ⟨e, member, owns'⟩ => ⟨e, .inr member, owns'⟩
  titled := h.titled
  encloses holder w member := by
    obtain ⟨d, b, held, rest⟩ := h.encloses holder w member
    exact ⟨d, b, held.imp_right .inr, rest⟩
  constants := h.constants

section Absorb

variable {cls e : DeclId} {inner outer : ScopeId}

theorem parent_absorb (inRange : inner.index < t.scopes.size) (cls e : DeclId) (s : ScopeId) :
    ((t.absorb cls e inner outer).scope s).parent =
      if s = inner then some outer else (t.scope s).parent := by
  have imported : ∀ (names : Deferral.Names) (s : Scope), (s.extendAll names).parent = s.parent := by
    intro names
    unfold Scope.extendAll
    induction names with
    | nil => exact fun s => rfl
    | cons entry rest ih => exact fun s => ih _
  change (((t.modifyScope outer (·.extendAll (t.scope inner).names)).reparent inner outer).scope
    s).parent = _
  unfold reparent
  rw [scope_modifyScope]
  have size : (t.modifyScope outer (·.extendAll (t.scope inner).names)).scopes.size =
      t.scopes.size := by simp [modifyScope]
  split
  · rename_i same
    rw [if_pos same.1]
  · rename_i differs
    have ne : s ≠ inner := fun same => differs ⟨same, by rw [size]; exact inRange⟩
    rw [if_neg ne, scope_modifyScope]
    split
    · rename_i same
      rw [imported, same.1]
    · rfl

theorem size_scopes_absorb (cls e : DeclId) (inner outer : ScopeId) :
    (t.absorb cls e inner outer).scopes.size = t.scopes.size := by
  have modified : ∀ (t : SymbolTable) (s : ScopeId) (f : Scope → Scope),
      (t.modifyScope s f).scopes.size = t.scopes.size := by simp [modifyScope]
  exact (modified _ _ _).trans (modified _ _ _)

/-- The scope of an extension goes into that of its class; no other scope moves. -/
theorem around_of_absorb (inRange : inner.index < t.scopes.size)
    (around : (t.absorb cls e inner outer).Around s a) : t.Around s a ∨ t.Around outer a := by
  induction around with
  | refl => exact .inl .refl
  | @tail b c _ inside ih =>
    unfold IsInside at inside
    rw [parent_absorb inRange] at inside
    split at inside
    · obtain rfl := Option.some.inj inside
      exact .inr .refl
    · exact ih.imp (fun around => .tail around inside) fun around => .tail around inside

namespace Nested

/-- What is open stays so where an open class absorbs an extension that is open then. -/
theorem open_absorb (h : t.Nested D) (extends' : t.Extends cls e inner outer) (member : cls ∈ D)
    (opened : t.Open D s) : (t.absorb cls e inner outer).Open (Insert.insert e D) s := by
  obtain ⟨a, owns, class'⟩ := h.reached cls member
  obtain rfl := Option.some.inj (extends'.outer.symm.trans owns)
  refine ⟨by rw [size_scopes_absorb]; exact opened.lt, fun a id around owns => ?_⟩
  rcases around_of_absorb (h.owned extends'.inner) around with around | around
  · exact .inr (opened.owners a id around owns)
  · exact .inr (class'.owners a id around owns)

/-- What is open without the extension stays so. -/
theorem open_absorb_of_notMem (h : t.Nested D) (extends' : t.Extends cls e inner outer)
    (fresh : e ∉ D') (opened : t.Open D' s) : (t.absorb cls e inner outer).Open D' s := by
  refine opened.of_parents (size_scopes_absorb ..).ge (fun _ => rfl) fun a around => ?_
  rw [parent_absorb (h.owned extends'.inner), if_neg]
  rintro rfl
  exact fresh (opened.owners a e around extends'.inner)

/-- No block is moved. -/
theorem encloses_absorb (h : t.Nested D) (extends' : t.Extends cls e inner outer)
    (encloses : t.Encloses a s) : (t.absorb cls e inner outer).Encloses a s := by
  refine Relation.ReflTransGen.mono (fun s p block => ?_) _ _ encloses
  obtain ⟨inside, b, owns⟩ := block
  refine ⟨?_, b, owns⟩
  unfold IsInside
  rw [parent_absorb (h.owned extends'.inner), if_neg]
  · exact inside
  · rintro rfl
    cases h.distinct owns extends'.inner

/-- The scope of a class that is open is open. -/
theorem open_of_extends (h : t.Nested D) (extends' : t.Extends cls e inner outer) (member : cls ∈ D) :
    t.Open D outer := by
  obtain ⟨a, owns, opened⟩ := h.reached cls member
  obtain rfl := Option.some.inj (extends'.outer.symm.trans owns)
  exact opened

/-- The extension is open inside the class. -/
theorem open_inner_absorb (h : t.Nested D) (sound : t.Sound) (extends' : t.Extends cls e inner outer)
    (member : cls ∈ D) : (t.absorb cls e inner outer).Open (Insert.insert e D) inner := by
  have opened := h.open_of_extends extends' member
  have inRange := h.owned extends'.inner
  refine ⟨by rw [size_scopes_absorb]; exact inRange, fun a id around owns => ?_⟩
  rw [(Advances.absorb sound cls e inner outer).scopeOf?] at owns
  rcases Relation.ReflTransGen.cases_head around with rfl | ⟨p, inside, around⟩
  · exact .inl (ScopeOwner.decl.inj (h.distinct owns extends'.inner))
  · unfold IsInside at inside
    rw [parent_absorb inRange, if_pos rfl] at inside
    obtain rfl := Option.some.inj inside
    rcases around_of_absorb inRange around with around | around
    · exact .inr (opened.owners a id around owns)
    · exact .inr (opened.owners a id around owns)

/-- What a declaration states goes on lying in it or in another one that is open. -/
theorem lies_absorb (h : t.Nested D) (placed : t.Placed rank) (sound : t.Sound)
    (extends' : t.Extends cls e inner outer) {holder w : DeclId} (stated : w ∈ (t.decl holder).declares) :
    ∃ id a, (id = holder ∨ id ∈ D) ∧ (t.absorb cls e inner outer).scopeOf? (.decl id) = some a ∧
      (t.absorb cls e inner outer).Encloses a ((t.absorb cls e inner outer).decl w).scope := by
  have advances := Advances.absorb sound cls e inner outer
  obtain ⟨id, a, held, owns, encloses⟩ := h.encloses holder w stated
  refine ⟨id, a, held, (advances.scopeOf? _).trans owns, ?_⟩
  rw [advances.scope (placed.inside holder w stated).lt]
  exact h.encloses_absorb extends' encloses

/-- What a class states then, it has stated itself, or the extension has. -/
theorem stated_of_absorb (extends' : t.Extends cls e inner outer) {holder w : DeclId}
    (stated : w ∈ ((t.absorb cls e inner outer).decl holder).declares) :
    w ∈ (t.decl holder).declares ∨ holder = cls ∧ w ∈ (t.decl e).declares := by
  rw [declares_eq, body_absorb, members_absorb extends'.primary extends'.extension] at stated
  rw [declares_eq t holder, declares_eq t e]
  split at stated
  · rename_i same
    subst same
    rw [Stmt.declaresIn_append, ← List.append_assoc] at stated
    refine (List.mem_append.mp stated).imp_right fun stated => ⟨rfl, ?_⟩
    exact List.mem_append_right _ stated
  · split at stated
    · exact .inl (List.mem_append_left _ (by simpa [Stmt.declaresIn] using stated))
    · exact .inl stated

/-- An open class absorbs an extension, which is open then. -/
theorem absorb (h : t.Nested D) (placed : t.Placed rank) (sound : t.Sound)
    (extends' : t.Extends cls e inner outer) (member : cls ∈ D) :
    (t.absorb cls e inner outer).Nested (Insert.insert e D) := by
  have opened : t.Open D outer := h.open_of_extends extends' member
  have openInner := h.open_inner_absorb sound extends' member
  have stays : ∀ {s}, t.Open D s → (t.absorb cls e inner outer).Open (Insert.insert e D) s :=
    h.open_absorb extends' member
  have primary := extends'.primary
  have extension := extends'.extension
  have inside := extends'.inner
  have outside := extends'.outer
  have advances := Advances.absorb sound cls e inner outer
  have saved := advances.scopeOf?
  have inRange := h.owned inside
  exact
    { distinct := fun {owner owner' s} known known' => by
        rw [saved] at known known'
        exact h.distinct known known'
      owned := fun {owner s} known => by
        rw [saved] at known
        rw [size_scopes_absorb]
        exact h.owned known
      parents := fun {s p} inside' => by
        unfold IsInside at inside'
        rw [parent_absorb inRange] at inside'
        rw [size_scopes_absorb]
        split at inside'
        · exact Option.some.inj inside' ▸ opened.lt
        · exact h.parents inside'
      reached := fun d member' => by
        rcases member' with rfl | member'
        · exact ⟨inner, (saved _).trans inside, openInner⟩
        · obtain ⟨a, owns, open'⟩ := h.reached d member'
          exact ⟨a, (saved _).trans owns, stays open'⟩
      within := fun {d a} owns other => by
        rw [saved] at owns
        rw [advances.isExtension] at other
        have ne : a ≠ inner := by
          rintro rfl
          obtain rfl := ScopeOwner.decl.inj (h.distinct owns inside)
          rw [other (.inl rfl)] at extension
          cases extension
        unfold IsInside
        rw [parent_absorb inRange, if_neg ne, advances.scope (placed.owned owns)]
        exact h.within owns fun member' => other (.inr member')
      bound := fun {s name d} b => by
        rcases binds_absorb_new b with old | ⟨rfl, old⟩
        · rw [advances.scope (placed.present old)]
          exact (h.bound old).imp_right fun ⟨e', member', owns⟩ =>
            ⟨e', .inr member', (saved _).trans owns⟩
        · rw [advances.scope (placed.present old)]
          rcases h.bound old with same | ⟨e', member', owns⟩
          · exact .inr ⟨e, .inl rfl, by rw [same, saved, inside]⟩
          · exact .inr ⟨e', .inr member', (saved _).trans owns⟩
      titled := fun {s name d} b extension' => by
        rw [advances.isExtension] at extension'
        rcases binds_absorb_new b with b | ⟨_, b⟩
        · rw [advances.name (placed.present b)]
          exact h.titled b extension'
        · rw [advances.name (placed.present b)]
          exact h.titled b extension'
      encloses := fun holder w stated => by
        rcases stated_of_absorb extends' stated with own | ⟨rfl, other⟩
        · obtain ⟨id, a, held, rest⟩ := h.lies_absorb placed sound extends' own
          exact ⟨id, a, held.imp_right .inr, rest⟩
        · obtain ⟨id, a, held, rest⟩ := h.lies_absorb placed sound extends' other
          exact ⟨id, a, .inr held, rest⟩
      constants := fun {f s name d} callable owns b => by
        rw [saved] at owns
        rw [advances.isSome_callable?] at callable
        rw [advances.isConstant]
        rcases binds_absorb_new b with b | ⟨rfl, -⟩
        · exact h.constants callable owns b
        · obtain rfl := ScopeOwner.decl.inj (h.distinct owns outside)
          unfold Decl.isPrimaryClass at primary
          unfold Decl.callable? at callable
          split at primary <;> simp_all }

end Nested

end Absorb

end SymbolTable

end Deferral
