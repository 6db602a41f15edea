import Deferral.Proofs.Integrity.Reading
import Deferral.Proofs.Integrity.SecondPass
import Deferral.Proofs.Layout.Order

/-!
# The integrity of tables

Whatever is read and resolved, in whichever order and however it ends, scopes, declarations and units refer
only to scopes and declarations that are in the table, names lead to declarations of that name, and whatever
has a name is found by it where it lies.
-/

namespace Deferral

open SymbolTable Layout

/-- What a table and units refer to is in the table, and what has a name is found by it, once. -/
structure SymbolTable.Integral (t : SymbolTable) (us : List SourceUnit) : Prop where
  outer : ∀ {s p}, (t.scope s).parent = some p → p.index < t.scopes.size
  active : ∀ s ∈ t.active, s.index < t.scopes.size
  saved : ∀ {owner s}, t.scopeOf? owner = some s →
    s.index < t.scopes.size ∧ ∀ id, owner = .decl id ∨ owner = .body id → id.index < t.decls.size
  lies : ∀ id, (t.decl id).scope.index < t.scopes.size
  mentions : ∀ id, ∀ w ∈ (t.decl id).kind.mentions, w.index < t.decls.size
  units : ∀ u ∈ us, u.scope.index < t.scopes.size ∧ ∀ w ∈ Stmt.mentionsIn u.body, w.index < t.decls.size
  bound : ∀ {s name d}, t.Binds s name d → d.index < t.decls.size ∧ (t.decl d).name = name
  /-- The names of a scope increase, so that it has one overload set for a name. -/
  ordered : t.Ordered
  filled : ∀ {s name set}, (name, set) ∈ (t.scope s).names → set ≠ [] ∧ set.Nodup
  listed : ∀ d, d.index < t.decls.size → (t.decl d).subject ≠ .extension →
    (t.decl d).subject ≠ .typeParameter → t.Binds (t.decl d).scope (t.decl d).name d
  recorded : ∀ f, ∀ p ∈ (t.decl f).typeParameters, (t.decl p).subject = .typeParameter ∧
    ∃ s, t.scopeOf? (.decl f) = some s ∧ t.Binds s (t.decl p).name p

namespace SymbolTable

variable {t t' : SymbolTable} {us : List SourceUnit}

theorem lt_size_of_parent {s p : ScopeId} (held : (t.scope s).parent = some p) :
    s.index < t.scopes.size := by
  by_contra outside
  simp [SymbolTable.scope, Array.getD_eq_getD_getElem?, outside] at held
  cases held

theorem decl_mem_decls {id : DeclId} (lt : id.index < t.decls.size) : t.decl id ∈ t.decls.toList := by
  simp [SymbolTable.decl, Array.getD_eq_getD_getElem?, lt]

theorem scope_mem_scopes {s : ScopeId} (lt : s.index < t.scopes.size) : t.scope s ∈ t.scopes.toList := by
  simp [SymbolTable.scope, Array.getD_eq_getD_getElem?, lt]

/-- Nothing is declared in the empty table. -/
theorem tidy_empty : SymbolTable.empty.Tidy (fun _ => 0) (fun _ _ => False) ∅ := by
  have absent (id : DeclId) : SymbolTable.empty.decl id = default := decl_eq_default (Nat.zero_le _)
  have unbound {s name d} (b : SymbolTable.empty.Binds s name d) : False :=
    absurd (built_empty.bound b).1 (Nat.not_lt_zero _)
  exact
    { ordered := built_empty.ordered
      leads := fun b => (unbound b).elim
      filled := fun {s name set} found => by
        rw [Scope.find?, names_empty] at found
        cases found
      listed := fun d lt => absurd lt (Nat.not_lt_zero _)
      recorded := fun f p member => by
        rw [absent] at member
        cases member
      lies := fun id => by
        rw [absent]
        exact Nat.zero_lt_one
      saved := fun owns => by cases owns
      distinct := fun owns => by cases owns
      opened := fun owns => by cases owns
      deeper := fun holder w member => by
        rw [absent] at member
        cases member
      bodies := fun owns => by cases owns
      begun_lt := fun _ none => none.elim
      sorts := False.elim
      traced := False.elim
      once := False.elim }

/-- A tidy, sound table is laid out, as far as no places matter. -/
theorem Tidy.laidOut {rank : ScopeId → Nat} {took : DeclId → DeclId → Prop} (h : t.Tidy rank took ∅)
    (sound : t.Sound) (lies : ∀ id, (t.decl id).kind.LiesIn .present t.decls.size 0 0) :
    t.LaidOut .present :=
  ⟨fun id => (lies id).decl, fun b => (h.leads b).lt, sound.signs⟩

end SymbolTable

/-- Every step leaves the table tidy, and only what has been declared is mentioned in it and in the units. -/
theorem Reached.tidy {t : SymbolTable} {us : List SourceUnit} (h : Reached t us) :
    (∃ rank took, t.Tidy rank took ∅) ∧ (∀ id, (t.decl id).kind.LiesIn .present t.decls.size 0 0) ∧
      ∀ u ∈ us, Stmt.AllLieIn .present t.decls.size 0 0 u.body := by
  induction h with
  | empty =>
    refine ⟨⟨_, _, tidy_empty⟩, fun id => ?_, fun _ none => by cases none⟩
    rw [decl_eq_default (Nat.zero_le _)]
    trivial
  | read before run ih =>
    obtain ⟨⟨rank, took, tidy⟩, lies, units⟩ := ih
    obtain ⟨L, layers⟩ := before.layered.1
    obtain ⟨rank', tidy', lies', le, body⟩ := SourceUnit.tidies_read tidy lies layers.global run
    exact ⟨⟨rank', took, tidy'⟩, lies', List.forall_mem_cons.mpr ⟨body _ rfl, fun u member =>
      (units u member).mono le (.refl _ 0 0) (Nat.le_refl 0)⟩⟩
  | failed before run ih =>
    obtain ⟨⟨rank, took, tidy⟩, lies, units⟩ := ih
    obtain ⟨L, layers⟩ := before.layered.1
    obtain ⟨rank', tidy', lies', le, -⟩ := SourceUnit.tidies_read tidy lies layers.global run
    exact ⟨⟨rank', took, tidy'⟩, lies', fun u member =>
      (units u member).mono le (.refl _ 0 0) (Nat.le_refl 0)⟩
  | @signatures _ _ _ u _ _ before member run ih =>
    obtain ⟨⟨rank, took, tidy⟩, lies, units⟩ := ih
    have sound := before.sound.1
    obtain ⟨stays, body, -⟩ := SourceUnit.lists_resolveSignatures (tidy.laidOut sound lies) (Nat.le_refl 0)
      (units u member) run
    obtain ⟨took', tidy'⟩ := SourceUnit.tidies_resolveSignatures sound tidy (units u member).declares run
    exact ⟨⟨rank, took', tidy'⟩, fun id => (stays.laid.decls id).kind, List.forall_mem_cons.mpr ⟨body,
      fun v inside => (units v inside).mono stays.size (.refl _ 0 0) (Nat.le_refl 0)⟩⟩
  | @definitions _ _ _ u _ _ before member run ih =>
    obtain ⟨⟨rank, took, tidy⟩, lies, units⟩ := ih
    obtain ⟨sound, known⟩ := before.sound
    obtain ⟨stays, body, -⟩ := SourceUnit.lists_resolveDefinitions (tidy.laidOut sound lies) (Nat.le_refl 0)
      (units u member) run
    have tidy' := SourceUnit.tidy_resolveDefinitions sound (known u member) tidy run
    exact ⟨⟨rank, took, tidy'⟩, fun id => (stays.laid.decls id).kind, List.forall_mem_cons.mpr ⟨body,
      fun v inside => (units v inside).mono stays.size (.refl _ 0 0) (Nat.le_refl 0)⟩⟩

/-- Every table that comes of reading sources and running passes, well or not, is integral together with the
units that have come of it. -/
theorem integral_of_reached {t : SymbolTable} {us : List SourceUnit} (h : Reached t us) : t.Integral us := by
  obtain ⟨⟨rank, took, tidy⟩, lies, units⟩ := h.tidy
  obtain ⟨⟨L, layers⟩, global⟩ := h.layered
  exact
    { outer := fun {s p} held => by
        by_cases outermost : s = .global
        · rw [outermost, layers.outermost] at held
          cases held
        · obtain ⟨q, inside, inRange, -⟩ := layers.inside s (lt_size_of_parent held) outermost
          exact Option.some.inj (inside.symm.trans held) ▸ inRange
      active := layers.active
      saved := fun owns => ⟨tidy.saved owns, fun id same => by
        rcases same with rfl | rfl
        · exact (tidy.opened owns).1
        · exact tidy.bodies owns⟩
      lies := tidy.lies
      mentions := fun id => (lies id).mentions
      units := fun u member => ⟨global u member ▸ layers.global, (units u member).mentions⟩
      bound := fun b => ⟨(tidy.leads b).lt, (tidy.leads b).named⟩
      ordered := tidy.ordered
      filled := fun member => tidy.filled (Names.find?_of_mem (tidy.ordered _) member)
      listed := tidy.listed
      recorded := tidy.recorded }

/-- An extension in front of its class, with a function that has a type parameter of its own. -/
def promotedMember : List Token :=
  (Token.scan "extension C { def g(a: auto) -> int32 { return 1; } } class C { }".toList "late").toOption.getD []

/-- The class has the function of its extension, and its name for itself; the function has its type
parameter. -/
theorem integral_of_promotedMember : ∃ t us, Reached t us ∧
    (t.scope .global).names = [("C", [⟨3⟩])] ∧ (t.scope ⟨4⟩).names = [("g", [⟨1⟩])] ∧
    (t.decl ⟨1⟩).typeParameters = [⟨4⟩] ∧ t.Integral us := by
  have ran : SourceUnit.resolved? promotedMember (fun t =>
      ((t.scope .global).names, (t.scope ⟨4⟩).names, (t.decl ⟨1⟩).typeParameters)) =
      some ([("C", [⟨3⟩])], [("g", [⟨1⟩])], [⟨4⟩]) := by
    unfold promotedMember
    rewrite [String.toList_ofList]
    decide +kernel
  obtain ⟨t, us, reached, seen⟩ := Reached.exists_of_resolved? ran
  obtain ⟨outside, seen⟩ := Prod.mk.inj seen
  obtain ⟨inside, recorded⟩ := Prod.mk.inj seen
  exact ⟨t, us, reached, outside, inside, recorded, integral_of_reached reached⟩

/-- A function whose second parameter has a type that nothing declares. -/
def failedParameter : List Token :=
  (Token.scan "def f(x: auto, y: nothing) -> int32 { return 1; }".toList "failed").toOption.getD []

/-- What is recorded is bound, but not everything is recorded: a signature that fails behind a parameter
declared `auto` leaves the parameter with a type parameter that no function has and no name leads to. -/
theorem not_recorded_of_failedParameter : ∃ t us, Reached t us ∧
    (t.decl ⟨0⟩).callable?.map (·.parameters) = some [⟨1⟩, ⟨2⟩] ∧
    (t.decl ⟨1⟩).ownType? = some (.named .typeParameter ⟨3⟩ "T0") ∧
    (∀ f, (t.decl f).typeParameters = []) ∧ ∀ s name, ¬ t.Binds s name ⟨3⟩ := by
  have ran : SourceUnit.resolved? failedParameter (fun t =>
      ((t.decl ⟨0⟩).callable?.map (·.parameters),
        (t.decl ⟨1⟩).ownType?.any (·.same (.named .typeParameter ⟨3⟩ "T0")),
        t.decls.toList.all (·.typeParameters.isEmpty),
        t.scopes.toList.all fun s => s.names.all fun entry => !entry.2.contains ⟨3⟩)) =
      some (some [⟨1⟩, ⟨2⟩], true, true, true) := by
    unfold failedParameter
    rewrite [String.toList_ofList]
    decide +kernel
  obtain ⟨t, us, reached, seen⟩ := Reached.exists_of_resolved? ran
  obtain ⟨parameters, seen⟩ := Prod.mk.inj seen
  obtain ⟨promoted, seen⟩ := Prod.mk.inj seen
  obtain ⟨unrecorded, unbound⟩ := Prod.mk.inj seen
  refine ⟨t, us, reached, parameters, Ty.any_same_named promoted, fun f => ?_, fun s name b => ?_⟩
  · by_cases lt : f.index < t.decls.size
    · exact List.isEmpty_iff.mp (List.all_eq_true.mp unrecorded _ (decl_mem_decls lt))
    · rw [decl_eq_default (Nat.not_lt.mp lt)]
      rfl
  · have inside := List.all_eq_true.mp unbound _ (scope_mem_scopes (lt_size_of_binds b))
    obtain ⟨set, entry, member⟩ := b
    have other := List.all_eq_true.mp inside _ entry
    simp [member] at other

end Deferral
