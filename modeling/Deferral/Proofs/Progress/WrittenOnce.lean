import Deferral.Proofs.Progress.Restored
import Deferral.Proofs.Table.Building

/-!
# What is known is written once

A type that is neither deferred nor dependent stays in its place, and a constant keeps its value:
passes only write where something is still to be found out, and reading only adds. So it is along every
sequence of readings and passes.
-/

namespace Deferral

open Resolution SymbolTable

variable {t t' t'' : SymbolTable} {us us' : List SourceUnit}

/-- A type that leaves nothing to be found out. -/
def Ty.IsKnown (type : Ty) : Prop := type.isDeferred = false ∧ type.isDependent = false

theorem Ty.IsKnown.not_placeholder {type : Ty} (known : type.IsKnown) : type.isPlaceholder = false := by
  cases placeholder : type.isPlaceholder with
  | false => rfl
  | true => exact absurd (isDependent_of_isPlaceholder placeholder) (by simp [known.2])

/-- A class has no result type, whatever its members are. -/
theorem Decl.result_mapMembers {d : Decl} {type : Ty} (held : d.typeIn? .result = some type)
    (f : List Stmt → List Stmt) : (d.mapMembers f).typeIn? .result = some type := by
  rcases d.mapMembers_cases f with ⟨sort, kind, body, old, -⟩ | same
  · simp [typeIn?, old] at held
  · rwa [same]

theorem Ty.IsKnown.not_untyped {type : Ty} (known : type.IsKnown) :
    Signature.isUntyped type = false := by
  cases untyped : Signature.isUntyped type with
  | false => rfl
  | true => exact absurd (isDependent_of_isUntyped untyped) (by simp [known.2])

/-- As declarations become known, known types other than results stay. -/
theorem Decl.Evolves.typeIn? {d d' : Decl} (h : d.Evolves d') {slot : TypeSlot} {type : Ty}
    (held : d.typeIn? slot = some type) (known : type.IsKnown) (other : slot ≠ .result) :
    d'.typeIn? slot = some type := by
  obtain ⟨name, kind, scope, span⟩ := d
  obtain ⟨name', kind', scope', span'⟩ := d'
  have evolves : kind.Evolves kind' := h.kind
  cases evolves with
  | object kept _ _ _ =>
    cases slot with
    | declared =>
      obtain rfl := Option.some.inj held
      rcases kept with rfl | deferred | placeholder
      · rfl
      · rw [known.1] at deferred
        cases deferred
      · rw [known.not_placeholder] at placeholder
        cases placeholder
    | result => exact absurd rfl other
    | kind => cases held
  | parameter kept _ =>
    cases slot with
    | declared =>
      obtain rfl := Option.some.inj held
      rcases kept with rfl | deferred | untyped
      · rfl
      · rw [known.1] at deferred
        cases deferred
      · rw [known.not_untyped] at untyped
        cases untyped
    | result => exact absurd rfl other
    | kind => cases held
  | super kept _ =>
    cases slot with
    | declared =>
      obtain rfl := Option.some.inj held
      rw [kept.resolve_right (by simp [known.1])]
      rfl
    | result => exact absurd rfl other
    | kind => cases held
  | classDecl kept _ =>
    cases slot with
    | declared => cases held
    | result => exact absurd rfl other
    | kind =>
      obtain rfl := Option.some.inj held
      rw [kept.resolve_right (by simp [known.1])]
      rfl
  | callable _ _ =>
    cases slot with
    | declared | kind => cases held
    | result => exact absurd rfl other
  | typeParameter => cases slot <;> cases held

/-- A known type of a function stays. -/
theorem Decl.Evolves.callable? {d d' : Decl} (h : d.Evolves d') {c : Callable}
    (held : d.callable? = some c) (known : c.type.IsKnown) :
    ∃ c', d'.callable? = some c' ∧ c'.type = c.type := by
  obtain ⟨name, kind, scope, span⟩ := d
  obtain ⟨name', kind', scope', span'⟩ := d'
  have evolves : kind.Evolves kind' := h.kind
  cases evolves with
  | @callable _ _ c' kept _ =>
    obtain rfl := Option.some.inj held
    exact ⟨c', rfl, kept.resolve_right (by simp [known.2])⟩
  | object _ _ _ _ | parameter _ _ | super _ _ | classDecl _ _ | typeParameter => cases held

namespace SymbolTable

theorem lt_size_of_typeIn? {id : DeclId} {slot : TypeSlot} {type : Ty}
    (held : (t.decl id).typeIn? slot = some type) : id.index < t.decls.size := by
  refine lt_size_of_kind fun absent => ?_
  cases slot <;> simp [Decl.typeIn?, absent] at held

/-- Known types stay in their slots, known types of functions stay as they are, and constants keep
their values. -/
structure Remembers (t t' : SymbolTable) : Prop where
  types : ∀ id slot type, (t.decl id).typeIn? slot = some type → type.IsKnown →
    (t'.decl id).typeIn? slot = some type
  callables : ∀ id c, (t.decl id).callable? = some c → c.type.IsKnown →
    ∃ c', (t'.decl id).callable? = some c' ∧ c'.type = c.type
  constants : ∀ id v, t.constant? id = some v → t'.constant? id = some v

theorem Remembers.refl (t : SymbolTable) : t.Remembers t :=
  ⟨fun _ _ _ held _ => held, fun _ c held _ => ⟨c, held, rfl⟩, fun _ _ known => known⟩

theorem Remembers.trans (h : t.Remembers t') (h' : t'.Remembers t'') : t.Remembers t'' where
  types id slot type held known := h'.types id slot type (h.types id slot type held known) known
  callables id c held known := by
    obtain ⟨c', held', same⟩ := h.callables id c held known
    obtain ⟨c'', held'', same'⟩ := h'.callables id c' held' (same ▸ known)
    exact ⟨c'', held'', same'.trans same⟩
  constants id v known := h'.constants id v (h.constants id v known)

/-! ## Result types

While a function has no type yet, that the table evolves says nothing of its result. -/

/-- Known result types stay. -/
def KeepsResults (t t' : SymbolTable) : Prop :=
  ∀ id type, (t.decl id).typeIn? .result = some type → type.IsKnown →
    (t'.decl id).typeIn? .result = some type

theorem KeepsResults.of_decls (same : t'.decls = t.decls) : t.KeepsResults t' := fun id type held _ => by
  rwa [show t'.decl id = t.decl id by simp [decl, same]]

theorem KeepsResults.addUnnamed (t : SymbolTable) (d : Decl) : t.KeepsResults (t.addUnnamed d) := by
  intro id type held _
  rwa [decl_addUnnamed_of_lt (lt_size_of_typeIn? held)]

theorem KeepsResults.modifyDecl {id : DeclId} {f : Decl → Decl}
    (kept : ∀ type, (t.decl id).typeIn? .result = some type → type.IsKnown →
      (f (t.decl id)).typeIn? .result = some type) : t.KeepsResults (t.modifyDecl id f) := by
  intro other type held known
  rw [decl_modifyDecl]
  split
  · rename_i same
    rw [same.1] at held
    exact kept type held known
  · exact held

/-- A function changes in parts other than its result. -/
theorem KeepsResults.mapCallable (t : SymbolTable) (id : DeclId) {f : Callable → Callable}
    (result : ∀ c, (f c).result = c.result) : t.KeepsResults (t.modifyDecl id (·.mapCallable f)) := by
  refine .modifyDecl fun type held _ => ?_
  rcases (t.decl id).mapCallable_cases f with ⟨sort, c, old, new⟩ | same
  · simpa [Decl.typeIn?, old, new, result] using held
  · rwa [same]

theorem KeepsResults.mapMembers (t : SymbolTable) (id : DeclId) (f : List Stmt → List Stmt) :
    t.KeepsResults (t.modifyDecl id (·.mapMembers f)) :=
  .modifyDecl fun _ held _ => Decl.result_mapMembers held f

theorem KeepsResults.trans (h : t.KeepsResults t') (h' : t'.KeepsResults t'') : t.KeepsResults t'' :=
  fun id type held known => h' id type (h id type held known) known

/-- No edit replaces a known result type. -/
theorem Edit.keepsResults (edit : t.Edit t') : t.KeepsResults t' := by
  cases edit with
  | enter _ => exact .of_decls rfl
  | leave => exact .of_decls rfl
  | openScope => exact .of_decls rfl
  | saveScope _ => exact .of_decls rfl
  | takeBlock => exact .of_decls rfl
  | startBinding _ _ => exact .of_decls rfl
  | finishBinding _ => exact .of_decls rfl
  | bindName _ _ _ => exact .of_decls rfl
  | keepOnly scope name =>
    unfold SymbolTable.keepOnly
    split <;> exact .of_decls rfl
  | @declare d _ _ => exact (KeepsResults.addUnnamed t d).trans (.of_decls rfl)
  | addTypeParameter _ _ _ => exact .addUnnamed t _
  | completeCallable span announced _ =>
    refine .modifyDecl fun type held known => ?_
    obtain rfl : Ty.auto = type := by simpa [Decl.typeIn?, announced, Callable.announced] using held
    exact absurd known.2 (by decide)
  | completeClass _ _ _ => exact .modifyDecl fun _ held _ => Decl.result_mapMembers held _
  | @resolve id slot old new held deferred _ =>
    refine .modifyDecl fun type result known => ?_
    rcases Decl.withTypeIn_cases held new with ⟨sort, e, kind, -⟩ | ⟨kind, -⟩ | ⟨kind, -⟩ |
      ⟨sort, c, kind, same, -⟩ | ⟨sort, body, kind, -⟩ <;> simp only [Decl.typeIn?, kind, reduceCtorEq,
        Option.some.injEq] at result
    rw [← same, result, known.1] at deferred
    cases deferred
  | deduce kind _ _ _ => exact .modifyDecl fun _ held _ => by simp [Decl.typeIn?, kind] at held
  | define kind _ => exact .modifyDecl fun _ held _ => by simp [Decl.typeIn?, kind] at held
  | @store id _ _ _ v kind _ _ _ =>
    have stored : t.KeepsResults (t.setConstant id v) := .of_decls rfl
    exact stored.trans (.modifyDecl fun _ held _ => by simp [Decl.typeIn?, kind] at held)
  | promote _ _ kind _ => exact .modifyDecl fun _ held _ => by simp [Decl.typeIn?, kind] at held
  | rebuild _ _ _ => exact .mapCallable t _ fun _ => rfl
  | addTypeParameters id _ => exact .mapCallable t id fun _ => rfl
  | setBody id _ => exact .mapCallable t id fun _ => rfl
  | setMembers id _ => exact .mapMembers t id _
  | @deduceResult id sort c result kind _ placeholder _ =>
    refine .modifyDecl fun type held known => ?_
    obtain rfl : c.result = type := by simpa [Decl.typeIn?, kind] using held
    rw [known.not_placeholder] at placeholder
    cases placeholder
  | absorb cls extension inner outer =>
    have moved : t.KeepsResults ((t.modifyScope outer (·.extendAll (t.scope inner).names)).reparent
      inner outer) := .of_decls rfl
    exact (moved.trans (.mapMembers _ extension fun _ => [])).trans (.mapMembers _ cls _)

/-! ## Edits, passes and readings -/

theorem Evolves.remembers (h : t.Evolves t') (results : t.KeepsResults t') : t.Remembers t' where
  types id slot type held known := by
    by_cases result : slot = .result
    · subst result
      exact results id type held known
    · exact (h.decls id (lt_size_of_typeIn? held)).typeIn? held known result
  callables id c held known :=
    (h.decls id (lt_size_of_callable (by simp [held]))).callable? held known
  constants id v known := (h.constants id v known).1

theorem Edit.remembers (sound : t.Sound) (edit : t.Edit t') : t.Remembers t' :=
  (edit.evolves sound).remembers edit.keepsResults

theorem Reaches.remembers (h : t.Reaches t') (sound : t.Sound) : t.Remembers t' := by
  induction h with
  | refl => exact .refl t
  | tail first edit ih => exact ih.trans (edit.remembers (Reaches.sound first sound))

/-- Reading leaves all that is declared alone. -/
theorem Appends.remembers (h : Appends none t t') (sound : t.Sound) : t.Remembers t' :=
  (h.evolves sound).remembers fun id type held _ => by
    rwa [h.decls id (lt_size_of_typeIn? held) nofun]

end SymbolTable

/-! ## Sequences of readings and passes -/

/-- One reading, whether it succeeds or not, or one pass over a unit that was read before. -/
inductive Step : SymbolTable × List SourceUnit → SymbolTable × List SourceUnit → Prop
  | read {t t' : SymbolTable} {us : List SourceUnit} {tokens : List Token} {u : SourceUnit} :
      Runs (SourceUnit.read tokens) t (.ok u) t' → Step (t, us) (t', u :: us)
  | failed {t t' : SymbolTable} {us : List SourceUnit} {tokens : List Token} {d : Diagnostic} :
      Runs (SourceUnit.read tokens) t (.error d) t' → Step (t, us) (t', us)
  | signatures {t t' : SymbolTable} {us : List SourceUnit} {u u' : SourceUnit}
      {reported : List Diagnostic} : u ∈ us →
      u.resolveSignatures.run t = ((u', reported), t') → Step (t, us) (t', u' :: us)
  | definitions {t t' : SymbolTable} {us : List SourceUnit} {u u' : SourceUnit}
      {reported : List Diagnostic} : u ∈ us →
      u.resolveDefinitions.run t = ((u', reported), t') → Step (t, us) (t', u' :: us)

namespace Step

theorem reached (step : Step (t, us) (t', us')) (h : Reached t us) : Reached t' us' := by
  cases step with
  | read run => exact h.read run
  | failed run => exact h.failed run
  | signatures member run => exact h.signatures member run
  | definitions member run => exact h.definitions member run

theorem remembers (step : Step (t, us) (t', us')) (h : Reached t us) : t.Remembers t' := by
  obtain ⟨sound, units⟩ := h.sound
  cases step with
  | read run | failed run => exact (SourceUnit.appends_read sound run).1.remembers sound
  | signatures _ run =>
    exact (SourceUnit.passes_resolveSignatures sound run).1.advances.edits.remembers sound
  | definitions member run =>
    obtain ⟨passes, -⟩ := SourceUnit.passes_resolveDefinitions sound (units _ member) run
    exact passes.advances.edits.remembers sound

theorem reached_of_steps (h : Reached t us) {later : SymbolTable × List SourceUnit}
    (steps : Relation.ReflTransGen Step (t, us) later) : Reached later.1 later.2 := by
  induction steps with
  | refl => exact h
  | tail _ step ih => exact step.reached ih

/-- Both passes are two steps. -/
theorem resolve {u u' : SourceUnit} {reported : List Diagnostic} (member : u ∈ us)
    (run : u.resolve.run t = ((u', reported), t')) :
    ∃ us', u' ∈ us' ∧ Relation.ReflTransGen Step (t, us) (t', us') := by
  obtain ⟨⟨⟨u₁, first⟩, t₁⟩, run₁⟩ : ∃ out, u.resolveSignatures.run t = out := ⟨_, rfl⟩
  obtain ⟨⟨⟨u₂, second⟩, t₂⟩, run₂⟩ : ∃ out, u₁.resolveDefinitions.run t₁ = out := ⟨_, rfl⟩
  obtain ⟨same, rfl⟩ := Prod.mk.inj ((SourceUnit.run_resolve run₁ run₂).symm.trans run)
  obtain ⟨rfl, -⟩ := Prod.mk.inj same
  exact ⟨u₂ :: u₁ :: us, List.mem_cons_self .., .tail (.single (.signatures member run₁))
    (.definitions (List.mem_cons_self ..) run₂)⟩

end Step

theorem reached_iff_steps : Reached t us ↔ Relation.ReflTransGen Step (.empty, []) (t, us) := by
  constructor
  · intro h
    induction h with
    | empty => exact .refl
    | read _ run ih => exact ih.tail (.read run)
    | failed _ run ih => exact ih.tail (.failed run)
    | signatures _ member run ih => exact ih.tail (.signatures member run)
    | definitions _ member run ih => exact ih.tail (.definitions member run)
  · exact Step.reached_of_steps .empty

/-- Along every sequence of readings and passes a type that is neither deferred nor dependent stays in
its slot, the type of a function stays once it is known, and a constant keeps its value. -/
theorem known_stays_of_reached (h : Reached t us)
    (steps : Relation.ReflTransGen Step (t, us) (t', us')) : t.Remembers t' := by
  suffices along : ∀ later, Relation.ReflTransGen Step (t, us) later → t.Remembers later.1 from
    along _ steps
  intro later steps
  induction steps with
  | refl => exact .refl t
  | tail before step ih => exact ih.trans (step.remembers (Step.reached_of_steps h before))

/-- A constant and a variable that has the type of its value. -/
def counted : List Token :=
  (Token.scan "def N: int32 = 2 + 3; var y: auto = N;".toList "counted").toOption.getD []

/-- What the first passes find out stays when a broken source is read and the passes are repeated. -/
theorem known_stays_of_counted : ∃ t us t' us' value type, Reached t us ∧
    Relation.ReflTransGen Step (t, us) (t', us') ∧
    t'.constant? ⟨0⟩ = some value ∧ value.shown = "5" ∧
    (t'.decl ⟨1⟩).typeIn? .declared = some type ∧ type.shown = "int32" := by
  have ran : SourceUnit.seen? counted .empty (fun u t =>
      let t₁ := (u.resolve.run t).2
      (((SourceUnit.read brokenOff).run.run t₁).1.toBool, (t₁.constant? ⟨0⟩).map Constant.shown,
        ((t₁.decl ⟨1⟩).typeIn? .declared).map fun type =>
          (type.shown, type.isDeferred, type.isDependent))) =
      some (false, some "5", some ("int32", false, false)) := by
    unfold counted brokenOff
    rewrite [String.toList_ofList, String.toList_ofList]
    decide +kernel
  obtain ⟨u, t, run, seen⟩ := SourceUnit.exists_of_seen? ran
  obtain ⟨broken, seen⟩ := Prod.mk.inj seen
  obtain ⟨constant, declared⟩ := Prod.mk.inj seen
  obtain ⟨⟨⟨u', reported⟩, t₁⟩, resolved⟩ : ∃ out, u.resolve.run t = out := ⟨_, rfl⟩
  rw [resolved] at broken constant declared
  obtain ⟨⟨r₁, t₂⟩, again⟩ : ∃ out, (SourceUnit.read brokenOff).run.run t₁ = out := ⟨_, rfl⟩
  rw [again] at broken
  cases r₁ with
  | ok _ => cases broken
  | error d =>
    obtain ⟨value, bound, five⟩ := Option.map_eq_some_iff.mp constant
    obtain ⟨type, held, facts⟩ := Option.map_eq_some_iff.mp declared
    obtain ⟨shown, known⟩ := Prod.mk.inj facts
    obtain ⟨u₁, reached⟩ := (Reached.empty.read run).resolve (List.mem_cons_self ..) resolved
    obtain ⟨us', -, repeated⟩ :=
      Step.resolve (t := t₂) (List.mem_cons_self (a := u') (l := [u₁, u])) rfl
    have steps := Relation.ReflTransGen.head (Step.failed again) repeated
    have remembers := known_stays_of_reached reached steps
    exact ⟨_, _, _, us', value, type, reached, steps, remembers.constants _ _ bound, five,
      remembers.types _ _ _ held (Prod.mk.inj known), shown⟩

end Deferral
