import Deferral.Proofs.Pass.Advance

/-!
# What names are bound to

A scope binds a name to every declaration in its overload set. Passes bind names of type parameters,
let a class have the names of its extensions, and unbind those of extensions.
-/

namespace Deferral

namespace Names

/-- Some set of a name has a declaration. -/
def Binds (names : Names) (name : String) (d : DeclId) : Prop :=
  ∃ set, (name, set) ∈ names ∧ d ∈ set

theorem binds_of_find? {names : Names} {name : String} {set : Overloads}
    (h : names.find? name = some set) {d : DeclId} (member : d ∈ set) : names.Binds name d := by
  induction names with
  | nil => cases h
  | cons entry rest ih =>
    obtain ⟨other, first⟩ := entry
    rw [find?_cons] at h
    split at h
    · rename_i same
      exact ⟨first, by simp [same], Option.some.inj h ▸ member⟩
    · obtain ⟨set, found, member⟩ := ih h
      exact ⟨set, List.mem_cons_of_mem _ found, member⟩

/-- In names that increase, what is found is the entry of the name. -/
theorem find?_of_mem {names : Names} (increasing : names.Increasing) {name : String} {set : Overloads}
    (found : (name, set) ∈ names) : names.find? name = some set := by
  induction names with
  | nil => cases found
  | cons entry rest ih =>
    obtain ⟨other, first⟩ := entry
    obtain ⟨before, increasing⟩ := List.pairwise_cons.mp increasing
    rw [find?_cons]
    rcases List.mem_cons.mp found with same | later
    · obtain ⟨rfl, rfl⟩ := Prod.mk.inj same
      exact if_pos rfl
    · have ne : name ≠ other := by
        rintro rfl
        exact String.lt_irrefl _ (before (name, set) later)
      rw [if_neg ne]
      exact ih increasing later

theorem find?_of_binds {names : Names} (increasing : names.Increasing) {name : String} {d : DeclId}
    (h : names.Binds name d) : ∃ set, names.find? name = some set ∧ d ∈ set := by
  obtain ⟨set, found, member⟩ := h
  exact ⟨set, find?_of_mem increasing found, member⟩

theorem mem_alter_cases {name other : String} {f : Overloads → Overloads} {set : Overloads} :
    ∀ {names : Names}, (other, set) ∈ alter name f names →
      (other, set) ∈ names ∨
        other = name ∧ (set = f [] ∨ ∃ old, (name, old) ∈ names ∧ set = f old)
  | [], h => by
    obtain ⟨rfl, rfl⟩ := Prod.mk.inj (List.mem_singleton.mp h)
    exact .inr ⟨rfl, .inl rfl⟩
  | (first, old) :: rest, h => by
    unfold alter at h
    split at h
    · rename_i same
      subst same
      rcases List.mem_cons.mp h with same | h
      · obtain ⟨rfl, rfl⟩ := Prod.mk.inj same
        exact .inr ⟨rfl, .inr ⟨old, by simp, rfl⟩⟩
      · exact .inl (List.mem_cons_of_mem _ h)
    · split at h
      · rcases List.mem_cons.mp h with same | h
        · obtain ⟨rfl, rfl⟩ := Prod.mk.inj same
          exact .inr ⟨rfl, .inl rfl⟩
        · exact .inl h
      · rcases List.mem_cons.mp h with same | h
        · exact .inl (by simp [same])
        · rcases mem_alter_cases h with h | ⟨rfl, fresh | ⟨old, member, rfl⟩⟩
          · exact .inl (List.mem_cons_of_mem _ h)
          · exact .inr ⟨rfl, .inl fresh⟩
          · exact .inr ⟨rfl, .inr ⟨old, List.mem_cons_of_mem _ member, rfl⟩⟩

theorem mem_alter_of_mem (name : String) (f : Overloads → Overloads) {other : String}
    {set : Overloads} : ∀ {names : Names}, (other, set) ∈ names →
      (other, set) ∈ alter name f names ∨ other = name ∧ (name, f set) ∈ alter name f names
  | (first, old) :: rest, h => by
    unfold alter
    split
    · rename_i same
      subst same
      rcases List.mem_cons.mp h with same | h
      · obtain ⟨rfl, rfl⟩ := Prod.mk.inj same
        exact .inr ⟨rfl, by simp⟩
      · exact .inl (List.mem_cons_of_mem _ h)
    · split
      · exact .inl (List.mem_cons_of_mem _ h)
      · rcases List.mem_cons.mp h with same | h
        · exact .inl (by simp [same])
        · rcases mem_alter_of_mem name f h with h | ⟨rfl, h⟩
          · exact .inl (List.mem_cons_of_mem _ h)
          · exact .inr ⟨rfl, List.mem_cons_of_mem _ h⟩

theorem exists_mem_alter (name : String) (f : Overloads → Overloads) :
    ∀ names : Names, ∃ old, (name, f old) ∈ alter name f names
  | [] => ⟨[], by simp [alter]⟩
  | (first, old) :: rest => by
    unfold alter
    split
    · rename_i same
      exact ⟨old, by simp [same]⟩
    · split
      · exact ⟨[], by simp⟩
      · obtain ⟨old, member⟩ := exists_mem_alter name f rest
        exact ⟨old, List.mem_cons_of_mem _ member⟩

theorem binds_extend {names : Names} {name other : String} {ds : Overloads} {d : DeclId} :
    Binds (alter name (· ++ ds) names) other d ↔
      names.Binds other d ∨ other = name ∧ d ∈ ds := by
  constructor
  · rintro ⟨set, found, member⟩
    rcases mem_alter_cases found with old | ⟨rfl, rfl | ⟨old, before, rfl⟩⟩
    · exact .inl ⟨set, old, member⟩
    · exact .inr ⟨rfl, by simpa using member⟩
    · rcases List.mem_append.mp member with member | member
      · exact .inl ⟨old, before, member⟩
      · exact .inr ⟨rfl, member⟩
  · rintro (⟨set, found, member⟩ | ⟨rfl, member⟩)
    · rcases mem_alter_of_mem name (· ++ ds) found with found | ⟨rfl, found'⟩
      · exact ⟨set, found, member⟩
      · exact ⟨_, found', List.mem_append_left _ member⟩
    · obtain ⟨old, found⟩ := exists_mem_alter other (· ++ ds) names
      exact ⟨_, found, List.mem_append_right _ member⟩

theorem binds_filter {names : Names} (increasing : names.Increasing) {name other : String}
    {keep : DeclId → Bool} {d : DeclId} :
    Binds (alter name (List.filter keep) names) other d ↔
      names.Binds other d ∧ (other = name → keep d = true) := by
  constructor
  · intro h
    obtain ⟨set, found, member⟩ := find?_of_binds (increasing_alter increasing ..) h
    by_cases same : other = name
    · subst same
      rw [find?_alter_self increasing] at found
      cases old : names.find? other with
      | none => simp [old] at found; simp [found] at member
      | some old' =>
        simp only [old, Option.getD_some, Option.some.injEq] at found
        obtain ⟨member, keeps⟩ := List.mem_filter.mp (found ▸ member)
        exact ⟨binds_of_find? old member, fun _ => keeps⟩
    · rw [find?_alter_of_ne same] at found
      exact ⟨binds_of_find? found member, fun same' => absurd same' same⟩
  · rintro ⟨⟨set, found, member⟩, keeps⟩
    rcases mem_alter_of_mem name (List.filter keep) found with found | ⟨rfl, found'⟩
    · exact ⟨set, found, member⟩
    · exact ⟨_, found', List.mem_filter.mpr ⟨member, keeps rfl⟩⟩

end Names

namespace Scope

/-- A scope binds a name to a declaration. -/
def Binds (s : Scope) (name : String) (d : DeclId) : Prop := s.names.Binds name d

theorem binds_extendAll {s : Scope} {names : Names} {name : String} {d : DeclId} :
    (s.extendAll names).Binds name d ↔ s.Binds name d ∨ names.Binds name d := by
  unfold extendAll
  induction names generalizing s with
  | nil => simp [Names.Binds]
  | cons entry rest ih =>
    obtain ⟨other, set⟩ := entry
    rw [List.foldl_cons, ih]
    unfold Binds extend
    rw [Names.binds_extend]
    unfold Names.Binds
    constructor
    · rintro ((old | ⟨rfl, member⟩) | ⟨set, found, member⟩)
      · exact .inl old
      · exact .inr ⟨set, by simp, member⟩
      · exact .inr ⟨set, List.mem_cons_of_mem _ found, member⟩
    · rintro (old | ⟨set', found, member⟩)
      · exact .inl (.inl old)
      · rcases List.mem_cons.mp found with same | found
        · obtain ⟨rfl, rfl⟩ := Prod.mk.inj same
          exact .inl (.inr ⟨rfl, member⟩)
        · exact .inr ⟨set', found, member⟩

theorem increasing_extendAll {s : Scope} (increasing : s.names.Increasing) (names : Names) :
    (s.extendAll names).names.Increasing := by
  unfold extendAll
  induction names generalizing s with
  | nil => exact increasing
  | cons entry rest ih =>
    rw [List.foldl_cons]
    exact ih (Names.increasing_alter increasing ..)

end Scope

namespace SymbolTable

variable {t t' t'' : SymbolTable}

/-- A scope of the table binds a name to a declaration. -/
def Binds (t : SymbolTable) (s : ScopeId) (name : String) (d : DeclId) : Prop :=
  (t.scope s).Binds name d

/-- The names of every scope increase. -/
def Ordered (t : SymbolTable) : Prop := ∀ s, (t.scope s).names.Increasing

theorem scope_congr (scopes : t'.scopes = t.scopes) (s : ScopeId) : t'.scope s = t.scope s := by
  simp only [scope, scopes]

theorem Ordered.of_scopes (h : t.Ordered) (scopes : t'.scopes = t.scopes) : t'.Ordered :=
  fun s => by rw [scope_congr scopes]; exact h s

theorem scope_modifyScope (t : SymbolTable) (s other : ScopeId) (f : Scope → Scope) :
    (t.modifyScope s f).scope other =
      if other = s ∧ s.index < t.scopes.size then f (t.scope s) else t.scope other := by
  by_cases same : other = s
  · subst same
    by_cases lt : other.index < t.scopes.size
    · rw [scope_modifyScope_self lt, if_pos ⟨rfl, lt⟩]
    · rw [if_neg fun h => lt h.2]
      simp [scope, modifyScope, Array.getD_eq_getD_getElem?, lt]
  · rw [scope_modifyScope_of_ne same, if_neg fun h => same h.1]

theorem Ordered.modifyScope (h : t.Ordered) {s : ScopeId} {f : Scope → Scope}
    (increasing : (f (t.scope s)).names.Increasing) : (t.modifyScope s f).Ordered := by
  intro other
  rw [scope_modifyScope]
  split
  · exact increasing
  · exact h other

/-- A fresh scope binds nothing, as if it had not been made. -/
theorem names_addScope (t : SymbolTable) (parent s : ScopeId) :
    ((t.addScope parent).scope s).names = (t.scope s).names := by
  by_cases next : s = t.nextScope
  · rw [next, scope_addScope_nextScope]
    simp [scope, nextScope, Scope.child, Array.getD_eq_getD_getElem?]
    rfl
  · by_cases lt : s.index < t.scopes.size
    · rw [scope_addScope_of_lt lt]
    · have ne : s.index ≠ t.scopes.size := fun same => next (congrArg ScopeId.mk same)
      simp [scope, addScope, Array.getD_eq_getD_getElem?, Array.getElem?_push, ne]

/-- A type parameter that a pass has made. -/
structure IsMade (t : SymbolTable) (scope : ScopeId) (p : DeclId) : Prop where
  lt : p.index < t.decls.size
  kind : (t.decl p).kind = .typeParameter
  scope : (t.decl p).scope = scope

theorem IsMade.of_evolves {scope : ScopeId} {p : DeclId} (h : t.IsMade scope p)
    (evolves : t.Evolves t') : t'.IsMade scope p := by
  have same := evolves.decls p h.lt
  refine ⟨Nat.lt_of_lt_of_le h.lt evolves.size, ?_, same.scope.trans h.scope⟩
  have kind := same.kind
  rw [h.kind] at kind
  generalize (t'.decl p).kind = k at kind ⊢
  cases kind
  rfl

/-- Names are bound, all of them names of type parameters in their own scopes. -/
structure BindsMade (t t' : SymbolTable) : Prop where
  old : ∀ {s name d}, t.Binds s name d → t'.Binds s name d
  new : ∀ {s name d}, t'.Binds s name d → t.Binds s name d ∨ t'.IsMade s d
  ordered : t.Ordered → t'.Ordered

namespace BindsMade

theorem of_names (h : ∀ s, (t'.scope s).names = (t.scope s).names) : t.BindsMade t' where
  old {s _ _} b := by unfold Binds Scope.Binds; rw [h]; exact b
  new {s _ _} b := by unfold Binds Scope.Binds at b; rw [h] at b; exact .inl b
  ordered ordered s := by rw [h]; exact ordered s

theorem of_scopes (scopes : t'.scopes = t.scopes) : t.BindsMade t' :=
  .of_names fun s => by rw [scope_congr scopes]

theorem trans (h : t.BindsMade t') (evolves : t'.Evolves t'') (h' : t'.BindsMade t'') :
    t.BindsMade t'' where
  old b := h'.old (h.old b)
  new b := by
    rcases h'.new b with b | made
    · rcases h.new b with b | made
      · exact .inl b
      · exact .inr (made.of_evolves evolves)
    · exact .inr made
  ordered ordered := h'.ordered (h.ordered ordered)

theorem bindName {scope : ScopeId} {p : DeclId} (made : t.IsMade scope p) (name : String) :
    t.BindsMade (t.bindName scope name p) := by
  have cases_of : ∀ {s other d}, (t.bindName scope name p).Binds s other d →
      t.Binds s other d ∨ s = scope ∧ d = p := by
    intro s other d b
    unfold SymbolTable.bindName SymbolTable.Binds at b
    rw [scope_modifyScope] at b
    split at b
    · rename_i same
      unfold Scope.Binds Scope.extend at b
      rcases Names.binds_extend.mp b with b | ⟨-, member⟩
      · exact .inl (by unfold SymbolTable.Binds; rw [same.1]; exact b)
      · exact .inr ⟨same.1, List.mem_singleton.mp member⟩
    · exact .inl b
  refine ⟨fun {s other d} b => ?_, fun b => ?_, fun ordered => ?_⟩
  · unfold SymbolTable.bindName SymbolTable.Binds
    rw [scope_modifyScope]
    split
    · rename_i same
      unfold Scope.Binds Scope.extend
      refine Names.binds_extend.mpr (.inl ?_)
      rw [← same.1]
      exact b
    · exact b
  · rcases cases_of b with b | ⟨rfl, rfl⟩
    · exact .inl b
    · exact .inr ⟨made.lt, made.kind, made.scope⟩
  · exact ordered.modifyScope (Names.increasing_alter (ordered scope) ..)

theorem addScope (t : SymbolTable) (parent : ScopeId) : t.BindsMade (t.addScope parent) :=
  .of_names fun s => names_addScope t parent s

end BindsMade

/-- A step that changes neither what is inside functions and classes nor what names are bound to,
type parameters aside. -/
structure Idles (t t' : SymbolTable) : Prop where
  advances : t.Advances t'
  keeps : t.Keeps t'
  binds : t.BindsMade t'

namespace Idles

theorem refl (t : SymbolTable) : t.Idles t := ⟨.refl t, .refl t, .of_scopes rfl⟩

theorem trans (h : t.Idles t') (h' : t'.Idles t'') : t.Idles t'' :=
  ⟨h.advances.trans h'.advances, h.keeps.trans h'.keeps,
    h.binds.trans h'.advances.evolves h'.binds⟩

/-- A fresh scope changes nothing for now. -/
theorem openScope (sound : t.Sound) : t.Idles (t.addScope t.innermost) :=
  ⟨.of_edit sound .openScope rfl rfl rfl rfl, .of_decls rfl, .addScope t t.innermost⟩

theorem of_settles {own : Option DeclId} (h : Settles own t t')
    (bare : ∀ id, own = some id → (t.decl id).IsBare) : t.Idles t' :=
  ⟨.of_settles h, h.keeps bare, .of_scopes h.scopes⟩

theorem of_slotted {id : DeclId} {slot : TypeSlot} (h : Settles (some id) t t')
    (slotted : Resolution.Slotted id slot t t') : t.Idles t' :=
  ⟨.of_settles h, h.keeps_of_slotted slotted, .of_scopes h.scopes⟩

theorem leave {scope : ScopeId} (h : (t.enter scope).Idles t') : t.Idles t'.leave :=
  ⟨h.advances.leave, ⟨h.keeps.body, h.keeps.members⟩, ⟨h.binds.old, fun b => by
    rcases h.binds.new b with old | made
    · exact .inl old
    · exact .inr ⟨made.lt, made.kind, made.scope⟩, h.binds.ordered⟩⟩

end Idles

end SymbolTable

end Deferral
