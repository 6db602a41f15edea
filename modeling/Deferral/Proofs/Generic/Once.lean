import Deferral.Proofs.Generic.Declaration
import Deferral.Proofs.Integrity.Integral
import Deferral.Proofs.Progress.WrittenOnce

/-!
# Functions become generic once

A function whose parameters have not been resolved gets its signature from the first pass that comes to it.
Each parameter declared `auto` has a type parameter of its own then, and whatever is read and passed over
later, the type of the function leads from the types of its parameters to its result.
-/

namespace Deferral

open Reporting SymbolTable

variable {t t' t'' : SymbolTable} {us us' : List SourceUnit} {u u' : SourceUnit} {reported : List Diagnostic}
  {f x p q : DeclId} {scope : ScopeId} {c : Callable} {types : List Ty} {type σ : Ty} {i j : Nat}

/-! ## Nothing is held twice -/

/-- The second pass leaves no declaration more often inside others than it was. -/
theorem SourceUnit.held_resolveDefinitions (h : Reached t us) (member : u ∈ us)
    (run : u.resolveDefinitions.run t = ((u', reported), t')) (w : DeclId) : t'.held w ≤ t.held w := by
  obtain ⟨⟨rank, took, tidy⟩, lies, units⟩ := h.tidy
  obtain ⟨sound, known⟩ := h.sound
  obtain ⟨stays, -, -⟩ :=
    lists_resolveDefinitions (tidy.laidOut sound lies) (Nat.le_refl 0) (units u member) run
  refine held_le_of_holds (rests_resolveDefinitions run).1.size fun id => ?_
  have declares := (holds_resolveDefinitions sound (known u member) run).1 id
  have parameters : (t'.decl id).parameters = (t.decl id).parameters := by
    rw [Decl.parameters, stays.parameters, Decl.parameters]
  rw [Decl.holds, Decl.holds, parameters, List.count_append, List.count_append]
  exact Nat.add_le_add_left (declares.count_le w) _

/-- No declaration is held twice, and what a unit states is held by no other declaration. -/
theorem Reached.single (h : Reached t us) : t.Single [] ∧ ∀ u ∈ us, t.Single (Stmt.declaresIn u.body) := by
  induction h with
  | empty => exact ⟨fun w => by simp [held, SymbolTable.empty], nofun⟩
  | read before run ih =>
    obtain ⟨single, units⟩ := ih
    obtain ⟨gains, yields⟩ := SourceUnit.gains_read run
    exact ⟨gains.single single, List.forall_mem_cons.mpr ⟨(yields _ rfl).single single,
      fun v inside => (gains.frame (Stmt.declaresIn v.body)).single (units v inside)⟩⟩
  | failed before run ih =>
    obtain ⟨single, units⟩ := ih
    have gains := (SourceUnit.gains_read run).1
    exact ⟨gains.single single, fun v inside =>
      (gains.frame (Stmt.declaresIn v.body)).single (units v inside)⟩
  | @signatures _ _ _ u _ _ before member run ih =>
    obtain ⟨single, units⟩ := ih
    obtain ⟨⟨passes, passed⟩, fewer⟩ := SourceUnit.passesOver_resolveSignatures before.sound.1 run
    have kept {hand : List DeclId} (single : Single hand _) :=
      single.of_held passed.held passes.advances.evolves.size
    exact ⟨kept single, List.forall_mem_cons.mpr ⟨(kept (units u member)).of_fewer fewer.count_le,
      fun v inside => kept (units v inside)⟩⟩
  | @definitions _ _ _ u _ _ before member run ih =>
    obtain ⟨single, units⟩ := ih
    have size := (SourceUnit.rests_resolveDefinitions run).1.size
    have kept {hand : List DeclId} (single : Single hand _) :=
      single.of_held (SourceUnit.held_resolveDefinitions before member run) size.ge
    have same := (SourceUnit.holds_resolveDefinitions before.sound.1 (before.sound.2 u member) run).2
    exact ⟨kept single, List.forall_mem_cons.mpr ⟨same ▸ kept (units u member),
      fun v inside => kept (units v inside)⟩⟩

theorem Reached.namesKnown (h : Reached t us) : t.NamesKnown :=
  fun _ ⟨_, _, b⟩ => ((integral_of_reached h).bound b).1

/-! ## The types of functions -/

/-- The type of a function leads from the types of its parameters, in their order, to its result. -/
def Callable.TypedByParts (t : SymbolTable) (c : Callable) : Prop :=
  ∃ held, List.Forall₂ (fun p type => (t.decl p).kind = .parameter type) c.parameters held ∧
    c.type = .function held c.result

theorem Callable.Signed.typedByParts (h : c.Signed t) : c.TypedByParts t := by
  refine ⟨_, ?_, h.type⟩
  refine List.forall₂_map_right_iff.mpr (List.forall₂_same.mpr fun p member => ?_)
  obtain ⟨type, kind, -⟩ := h.parameters p member
  simp [Decl.ownType?, Decl.typeIn?, kind]

theorem Step.evolves (step : Step (t, us) (t', us')) (h : Reached t us) : t.Evolves t' := by
  obtain ⟨sound, units⟩ := h.sound
  cases step with
  | read run | failed run => exact (SourceUnit.appends_read sound run).1.evolves sound
  | signatures _ run => exact (SourceUnit.passes_resolveSignatures sound run).1.advances.evolves
  | definitions member run =>
    exact (SourceUnit.passes_resolveDefinitions sound (units _ member) run).1.advances.evolves

/-- A function that has a type keeps its parameters, and its type goes on being made of its parts. -/
theorem typedByParts_of_steps (h : Reached t us) {sort : CallableSort}
    (kind : (t.decl f).kind = .callable sort c) (typed : c.type ≠ .auto) {later : SymbolTable × List SourceUnit}
    (steps : Relation.ReflTransGen Step (t, us) later) : ∃ c', (later.1.decl f).kind = .callable sort c' ∧
      c'.parameters = c.parameters ∧ c'.TypedByParts later.1 := by
  suffices kept : ∃ c', (later.1.decl f).kind = .callable sort c' ∧ c'.parameters = c.parameters ∧
      c'.type ≠ .auto by
    obtain ⟨c', kind', parameters, typed'⟩ := kept
    have sound := (Step.reached_of_steps h steps).sound.1.decls f
    rw [kind'] at sound
    exact ⟨c', kind', parameters, (sound.type.resolve_left typed').typedByParts⟩
  induction steps with
  | refl => exact ⟨c, kind, rfl, typed⟩
  | tail before step ih =>
    obtain ⟨c₁, kind₁, parameters₁, typed₁⟩ := ih
    have evolves := ((step.evolves (Step.reached_of_steps h before)).decls f
      (lt_size_of_kind (by simp [kind₁]))).kind
    rw [kind₁] at evolves
    generalize (SymbolTable.decl _ f).kind = k at evolves ⊢
    cases evolves with
    | callable _ known =>
      obtain ⟨typed₂, parameters₂, -⟩ := known typed₁
      exact ⟨_, rfl, parameters₂.trans parameters₁, typed₂⟩

/-! ## Type parameters and their places -/

namespace Signature

theorem countP_take_lt {α : Type} {P : α → Bool} {l : List α} {a : α} (here : l[i]? = some a)
    (holds : P a = true) (lt : i < j) : (l.take i).countP P < (l.take j).countP P := by
  have next : (l.take (i + 1)).countP P = (l.take i).countP P + 1 := by
    rw [List.take_add_one, here, Option.toList_some, List.countP_append, List.countP_singleton, if_pos holds]
  have front : (l.take (i + 1)).Sublist (l.take j) := (List.take_prefix_take_left lt).sublist
  have le := front.countP_le (p := P)
  omega

/-- Elements with a property are told apart by the number of those in front of them. -/
theorem countP_take_inj {α : Type} {P : α → Bool} {l : List α} {a b : α} (here : l[i]? = some a)
    (there : l[j]? = some b) (holds : P a = true) (holds' : P b = true)
    (same : (l.take i).countP P = (l.take j).countP P) : i = j := by
  rcases Nat.lt_trichotomy i j with lt | rfl | lt
  · exact absurd same (countP_take_lt here holds lt).ne
  · rfl
  · exact absurd same (countP_take_lt there holds' lt).ne'

/-- What a signature is that has been given to a function for the first time, after `types` have been read for
its parameters. -/
structure Generic (t t' : SymbolTable) (scope : ScopeId) (types : List Ty) (c : Callable) : Prop where
  reads : List.Forall₂ (t.ReadsAs t' scope) c.parameters types
  settled : ∀ p ∈ c.parameters, ∃ type, (t'.decl p).kind = .parameter type ∧ isUntyped type = false
  /-- There is a type parameter for each parameter declared `auto`. -/
  length : c.typeParameters.length = types.countP isUntyped
  nodup : c.typeParameters.Nodup
  fresh : ∀ x ∈ c.typeParameters, t.decls.size ≤ x.index
  /-- Type parameters are numbered in their order. -/
  bound : ∀ {k : Nat} {x}, c.typeParameters[k]? = some x →
    (t'.decl x).kind = .typeParameter ∧ (t'.decl x).name = "T" ++ k.repr ∧ t'.Binds scope ("T" ++ k.repr) x
  /-- A parameter keeps the type that has been read for it. -/
  typed : ∀ {i : Nat} {p type}, c.parameters[i]? = some p → types[i]? = some type → isUntyped type = false →
    (t'.decl p).kind = .parameter type
  /-- A parameter declared `auto` has a type parameter in place of it that stands behind those of the
  parameters in front of it, and is in the type of no other parameter. -/
  untyped : ∀ {i : Nat} {p type}, c.parameters[i]? = some p → types[i]? = some type → isUntyped type = true →
    ∃ x, c.typeParameters[(types.take i).countP isUntyped]? = some x ∧
      (t'.decl p).kind = .parameter (replaceAuto (.named .typeParameter x (t'.decl x).name) type) ∧
      ∀ {j : Nat} {q σ}, c.parameters[j]? = some q → (t'.decl q).kind = .parameter σ →
        (x ∈ σ.typeParameters ↔ j = i)
  parts : c.TypedByParts t'

namespace Generalized

variable {made : List DeclId}

/-- A type parameter is in the type of the parameter that it has been made for, and in that of no other. -/
theorem mem_typeParameters_iff (done : Generalized t t' scope types c) (declared : types[i]? = some type)
    (untyped : isUntyped type = true) (made : c.typeParameters[(types.take i).countP isUntyped]? = some x)
    (there : c.parameters[j]? = some q) (held : (t'.decl q).kind = .parameter σ) :
    x ∈ σ.typeParameters ↔ j = i := by
  obtain ⟨inRange, -⟩ := List.getElem?_eq_some_iff.mp there
  obtain ⟨read, found⟩ : ∃ read, types[j]? = some read :=
    ⟨_, List.getElem?_eq_getElem (done.promoted.arity ▸ inRange)⟩
  obtain ⟨new, promoted, stands⟩ := done.promoted.get there found
  rw [Nat.zero_add] at promoted
  cases promoted with
  | typed _ typed kind =>
    obtain rfl := Declared.parameter.inj (held.symm.trans kind)
    have absent := done.separate _ (List.mem_of_getElem? found) x (List.mem_of_getElem? made)
    refine ⟨fun occurs => absurd occurs absent, ?_⟩
    rintro rfl
    obtain rfl := Option.some.inj (declared.symm.trans found)
    exact absurd untyped (by simp [typed])
  | @untyped y _ untyped' _ _ kind =>
    obtain rfl := Declared.parameter.inj (held.symm.trans kind)
    have stands := stands y (List.mem_singleton_self y)
    rw [typeParameters_replaceAuto _ _ untyped']
    refine List.mem_singleton.trans ⟨fun same => ?_, ?_⟩
    · subst same
      obtain ⟨inRange, -⟩ := List.getElem?_eq_some_iff.mp made
      have ranks := (List.getElem?_inj inRange done.nodup).mp (made.trans stands.symm)
      exact (countP_take_inj declared found untyped untyped' ranks).symm
    · rintro rfl
      exact Option.some.inj (made.symm.trans stands)

theorem generic (done : Generalized t t' scope types c)
    (recorded : ∀ x ∈ c.typeParameters, t'.Binds scope (t'.decl x).name x) : Generic t t' scope types c where
  reads := done.reads
  settled p member := (done.signed.parameters p member).imp fun _ ⟨kind, _, typed⟩ => ⟨kind, typed⟩
  length := done.promoted.length_eq
  nodup := done.nodup
  fresh := done.fresh
  bound {k x} stands := by
    have member := List.mem_of_getElem? stands
    have named := done.promoted.names stands
    rw [Nat.zero_add] at named
    exact ⟨(done.promoted.isMade x member).kind, named, named ▸ recorded x member⟩
  typed here read typed := by
    obtain ⟨new, promoted, -⟩ := done.promoted.get here read
    cases promoted with
    | typed _ _ kind => exact kind
    | untyped _ untyped => exact absurd untyped (by simp [typed])
  untyped {i p type} here read untyped := by
    obtain ⟨new, promoted, stands⟩ := done.promoted.get here read
    rw [Nat.zero_add] at promoted
    cases promoted with
    | typed _ typed => exact absurd untyped (by simp [typed])
    | @untyped x _ _ _ named kind =>
      have stands := stands x (List.mem_singleton_self x)
      exact ⟨x, stands, named.symm ▸ kind, fun there held =>
        done.mem_typeParameters_iff read untyped stands there held⟩
  parts := done.signed.typedByParts

end Generalized

end Signature

/-! ## Reading, and the first pass after it -/

/-- A function that reading declares has not been passed over. -/
theorem unvisited_of_read (h : Reached t us) {tokens : List Token}
    (run : Resolution.Runs (SourceUnit.read tokens) t (.ok u) t') (new : t.decls.size ≤ f.index)
    {sort : CallableSort} (kind : (t'.decl f).kind = .callable sort c) : t'.Unvisited f := by
  have appends := (SourceUnit.appends_read h.sound.1 run).1
  have absent : (t.decl f).callable? = none := by
    rw [decl_eq_default new]
    rfl
  have unread : c.IsUnread t' := appends.callables f (by simp [absent]) c (by simp [Decl.callable?, kind])
  have parameters := Decl.parameters_of_kind kind
  refine ⟨?_, fun p member => unread.parameters p (parameters ▸ member)⟩
  rw [Decl.signature?_of_kind kind, parameters, unread.type, unread.typeParameters]

/-- Reading leaves every function that it declares unvisited. The first pass over one that is unvisited, if it
gives the function a type, makes it generic in the parameters that are declared `auto`; and whatever is read
and passed over later, that function keeps a type made of the types of its parameters and its result. -/
theorem generic_of_reached (h : Reached t us) :
    (∀ {tokens u t'}, Resolution.Runs (SourceUnit.read tokens) t (.ok u) t' → ∀ {f sort c},
      t.decls.size ≤ f.index → (t'.decl f).kind = .callable sort c → t'.Unvisited f) ∧
    ∀ {u u' reported t'}, u ∈ us → u.resolveSignatures.run t = ((u', reported), t') → ∀ {f sort c},
      t.Unvisited f → (t'.decl f).kind = .callable sort c → c.type ≠ .auto →
      c.parameters = (t.decl f).parameters ∧
      (∃ scope types, t'.scopeOf? (.decl f) = some scope ∧ Signature.Generic t t' scope types c) ∧
      ∀ {t'' us''}, Relation.ReflTransGen Step (t', u' :: us) (t'', us'') →
        ∃ c', (t''.decl f).kind = .callable sort c' ∧ c'.parameters = c.parameters ∧ c'.TypedByParts t'' := by
  refine ⟨fun run _ _ _ new kind => unvisited_of_read h run new kind,
    fun {u u' reported t'} member run {f sort c} unvisited kind typed => ?_⟩
  have reached : Reached t' (u' :: us) := h.signatures member run
  obtain ⟨passes, passed⟩ := (SourceUnit.passesOver_resolveSignatures h.sound.1 run).1
  have single := h.single.2 u member
  have untyped {ps made : List DeclId} (signature : (t'.decl f).signature? = some (ps, .auto, made)) :
      False := by
    rw [Decl.signature?_of_kind kind] at signature
    exact typed (congrArg (·.2.1) (Option.some.inj signature))
  rcases passed.once [] f h.sound.1 h.namesKnown ((List.append_nil _).symm ▸ single) unvisited with
    spares | ⟨⟨ps, made, signature⟩ | ⟨scope, sort', c', types, owns, kind', parameters, done⟩, -⟩
  · exact (untyped (spares.signature.trans unvisited.signature)).elim
  · exact (untyped signature).elim
  obtain ⟨-, rfl⟩ := Declared.callable.inj (kind.symm.trans kind')
  refine ⟨parameters, ⟨scope, types, owns, done.generic fun x inside => ?_⟩, fun steps =>
    typedByParts_of_steps reached kind typed steps⟩
  obtain ⟨-, s, owns', binds⟩ := (integral_of_reached reached).recorded f x (by
    simpa [Decl.typeParameters, Decl.callable?, kind] using inside)
  obtain rfl := Option.some.inj (owns.symm.trans owns')
  exact binds

/-- A function two of whose parameters are declared `auto`, as is its result. -/
def measure : List Token :=
  (Token.scan "def f(x: auto, y: int32, z: auto const&) -> auto { return x; }".toList
    "measure").toOption.getD []

/-- The function is generic after the first pass, and its type has the result deduced in the second. -/
theorem generic_of_measure : ∃ u t u' reported t' c us'' t'' c',
    Resolution.Runs (SourceUnit.read measure) .empty (.ok u) t ∧ t.Unvisited ⟨0⟩ ∧
    u.resolveSignatures.run t = ((u', reported), t') ∧ (t'.decl ⟨0⟩).callable? = some c ∧
    c.typeParameters = [⟨4⟩, ⟨5⟩] ∧ c.type.shown = "(T0, int32, T1 const&) -> auto" ∧
    (∃ scope types, t'.scopeOf? (.decl ⟨0⟩) = some scope ∧ Signature.Generic t t' scope types c) ∧
    Relation.ReflTransGen Step (t', [u', u]) (t'', us'') ∧ (t''.decl ⟨0⟩).callable? = some c' ∧
    c'.type.shown = "(T0, int32, T1 const&) -> T0" ∧ c'.TypedByParts t'' := by
  have ran : SourceUnit.seen? measure .empty (fun u t =>
      let first := u.resolveSignatures.run t
      let second := first.1.1.resolveDefinitions.run first.2
      ((t.decl ⟨0⟩).callable?.isSome,
        (first.2.decl ⟨0⟩).callable?.map fun c => (c.typeParameters, c.type.shown),
        (second.2.decl ⟨0⟩).callable?.map fun c => c.type.shown)) =
      some (true, some ([⟨4⟩, ⟨5⟩], "(T0, int32, T1 const&) -> auto"),
        some "(T0, int32, T1 const&) -> T0") := by
    unfold measure
    rewrite [String.toList_ofList]
    decide +kernel
  obtain ⟨u, t, run, seen⟩ := SourceUnit.exists_of_seen? ran
  obtain ⟨declared, seen⟩ := Prod.mk.inj seen
  obtain ⟨first, second⟩ := Prod.mk.inj seen
  obtain ⟨⟨⟨u', reported⟩, t'⟩, run'⟩ : ∃ out, u.resolveSignatures.run t = out := ⟨_, rfl⟩
  rw [run'] at first second
  obtain ⟨⟨⟨u'', reported'⟩, t''⟩, run''⟩ : ∃ out, u'.resolveDefinitions.run t' = out := ⟨_, rfl⟩
  rw [run''] at second
  obtain ⟨c₀, declared⟩ := Option.isSome_iff_exists.mp declared
  obtain ⟨_, kind₀⟩ := Decl.kind_of_callable? declared
  obtain ⟨c, callable, facts⟩ := Option.map_eq_some_iff.mp first
  obtain ⟨made, shown⟩ := Prod.mk.inj facts
  obtain ⟨sort, kind⟩ := Decl.kind_of_callable? callable
  have typed : c.type ≠ .auto := fun auto => absurd shown (by rw [auto]; decide)
  have unvisited := (generic_of_reached .empty).1 run (Nat.zero_le _) kind₀
  have reached : Reached t [u] := Reached.empty.read run
  obtain ⟨-, generic, later⟩ :=
    (generic_of_reached reached).2 (List.mem_singleton_self u) run' unvisited kind typed
  have step : Step (t', [u', u]) (t'', [u'', u', u]) := .definitions (List.mem_cons_self ..) run''
  obtain ⟨c', kind', -, parts⟩ := later (.single step)
  have callable' : (t''.decl ⟨0⟩).callable? = some c' := by simp [Decl.callable?, kind']
  obtain ⟨c'', held, shown'⟩ := Option.map_eq_some_iff.mp second
  obtain rfl := Option.some.inj (callable'.symm.trans held)
  exact ⟨u, t, u', reported, t', c, _, t'', c', run, unvisited, run', callable, made, shown, generic,
    .single step, callable', shown', parts⟩

/-- The expression whose type a type is. -/
def Ty.operand? : Ty → Option Expr
  | .decltype e => some e
  | _ => none

/-- A function one of whose parameters has the type of another. -/
def measuredParameter : List Token :=
  (Token.scan "def f(x: auto, y: decltype(x)) { }".toList "measured").toOption.getD []

/-- The operand of `decltype` in the type of one parameter may have the type parameter of another in it. -/
theorem typeParameter_in_decltype : ∃ u t u' t' c e,
    Resolution.Runs (SourceUnit.read measuredParameter) .empty (.ok u) t ∧
    u.resolveSignatures.run t = ((u', []), t') ∧ (t'.decl ⟨0⟩).callable? = some c ∧
    c.parameters = [⟨1⟩, ⟨2⟩] ∧ c.typeParameters = [⟨3⟩] ∧
    (t'.decl ⟨1⟩).ownType? = some (.named .typeParameter ⟨3⟩ "T0") ∧
    (t'.decl ⟨2⟩).ownType? = some (.decltype e) ∧ e.type = .named .typeParameter ⟨3⟩ "T0" := by
  have ran : SourceUnit.seen? measuredParameter .empty (fun u t =>
      let first := u.resolveSignatures.run t
      (first.1.2.isEmpty, (first.2.decl ⟨0⟩).callable?.map fun c => (c.parameters, c.typeParameters),
        (first.2.decl ⟨1⟩).ownType?.any (·.same (.named .typeParameter ⟨3⟩ "T0")),
        ((first.2.decl ⟨2⟩).ownType?.bind fun type => type.operand?.map (·.type)).any
          (·.same (.named .typeParameter ⟨3⟩ "T0")))) =
      some (true, some ([⟨1⟩, ⟨2⟩], [⟨3⟩]), true, true) := by
    unfold measuredParameter
    rewrite [String.toList_ofList]
    decide +kernel
  obtain ⟨u, t, run, seen⟩ := SourceUnit.exists_of_seen? ran
  obtain ⟨quiet, seen⟩ := Prod.mk.inj seen
  obtain ⟨parts, seen⟩ := Prod.mk.inj seen
  obtain ⟨promoted, operand⟩ := Prod.mk.inj seen
  obtain ⟨⟨⟨u', reported⟩, t'⟩, run'⟩ : ∃ out, u.resolveSignatures.run t = out := ⟨_, rfl⟩
  rw [run'] at quiet parts promoted operand
  obtain rfl := List.isEmpty_iff.mp quiet
  obtain ⟨c, callable, facts⟩ := Option.map_eq_some_iff.mp parts
  obtain ⟨parameters, made⟩ := Prod.mk.inj facts
  obtain ⟨type, held, measured⟩ := Option.bind_eq_some_iff.mp (Ty.any_same_named operand)
  cases type with
  | decltype e =>
    exact ⟨u, t, u', t', c, e, run, run', callable, parameters, made, Ty.any_same_named promoted, held,
      Option.some.inj measured⟩
  | _ => cases measured

end Deferral
