import Deferral.Proofs.Generic.TypeParameters

/-!
# Signatures with type parameters

When the parameters of a function are resolved for the first time, each of them keeps the type that is read
from its excerpt, or has a type parameter of its own in place of `auto`. The type parameters are numbered in
the order of the parameters.
-/

namespace Deferral

open Resolution SymbolTable

variable {t t' : SymbolTable} {scope : ScopeId} {p x : DeclId} {type : Ty} {count : Nat}

/-- While one table becomes another, `type` has been read under `scope` from the excerpt in which a parameter
has its type at first. -/
def SymbolTable.ReadsAs (t t' : SymbolTable) (scope : ScopeId) (p : DeclId) (type : Ty) : Prop :=
  ∃ excerpt t₁ t₂, (t.decl p).kind = .parameter (.deferred excerpt) ∧ t.Reaches t₁ ∧ t₁.innermost = scope ∧
    Runs (typeOf excerpt.tokens) t₁ (.ok type) t₂ ∧ t₂.Reaches t'

theorem SymbolTable.ReadsAs.before {t₀ : SymbolTable} (h : t.ReadsAs t' scope p type) (reaches : t₀.Reaches t)
    (same : (t₀.decl p).kind = (t.decl p).kind) : t₀.ReadsAs t' scope p type := by
  obtain ⟨excerpt, t₁, t₂, kind, before, rest⟩ := h
  exact ⟨excerpt, t₁, t₂, same.trans kind, reaches.trans before, rest⟩

theorem SymbolTable.ReadsAs.behind {t'' : SymbolTable} (h : t.ReadsAs t' scope p type)
    (reaches : t'.Reaches t'') : t.ReadsAs t'' scope p type := by
  obtain ⟨excerpt, t₁, t₂, kind, before, here, run, behind⟩ := h
  exact ⟨excerpt, t₁, t₂, kind, before, here, run, behind.trans reaches⟩

namespace Signature

/-! ## One parameter -/

/-- What has become of a parameter whose type has been read as `type`, behind `count` type parameters of the
same function, and which type parameters have been made for it. -/
inductive Promoted (t : SymbolTable) (scope : ScopeId) (count : Nat) (p : DeclId) (type : Ty) :
    List DeclId → Prop
  | typed : type.Normal → isUntyped type = false → (t.decl p).kind = .parameter type →
      Promoted t scope count p type []
  | untyped {x : DeclId} : type.Normal → isUntyped type = true → t.IsMade scope x →
      (t.decl x).name = "T" ++ count.repr →
      (t.decl p).kind = .parameter (replaceAuto (.named .typeParameter x ("T" ++ count.repr)) type) →
      Promoted t scope count p type [x]

namespace Promoted

variable {new : List DeclId}

theorem settled (h : Promoted t scope count p type new) : (t.decl p).IsSettledParameter := by
  cases h with
  | typed normal typed kind => exact ⟨type, kind, normal, typed⟩
  | @untyped x normal _ _ _ kind =>
    have named : (Ty.named .typeParameter x ("T" ++ count.repr)).Normal := trivial
    exact ⟨_, kind, replaceAuto_normal named type normal, isUntyped_replaceAuto rfl type⟩

/-- What has become of a parameter stays so. -/
theorem of_evolves (h : Promoted t scope count p type new) (evolves : t.Evolves t') :
    Promoted t' scope count p type new := by
  have same := evolves.settledParameter h.settled
  cases h with
  | typed normal typed kind => exact .typed normal typed (same.trans kind)
  | untyped normal untyped isMade name kind =>
    exact .untyped normal untyped (isMade.of_evolves evolves)
      ((evolves.decls _ isMade.lt).name.trans name) (same.trans kind)

theorem isMade (h : Promoted t scope count p type new) : ∀ x ∈ new, t.IsMade scope x := by
  cases h with
  | typed => exact List.forall_mem_nil _
  | untyped _ _ isMade _ _ => exact List.forall_mem_singleton.mpr isMade

theorem nodup (h : Promoted t scope count p type new) : new.Nodup := by
  cases h with
  | typed => exact List.nodup_nil
  | untyped => exact List.nodup_singleton _

theorem length_eq (h : Promoted t scope count p type new) : new.length = [type].countP isUntyped := by
  cases h with
  | typed _ typed _ => simp [typed]
  | untyped _ untyped _ _ _ => simp [untyped]

end Promoted

/-- The type of a parameter is read from its excerpt, and put in its place. -/
theorem typeOf_of_forceSlot {excerpt : Excerpt} (kind : (t.decl p).kind = .parameter (.deferred excerpt))
    {u : Unit} (h : Runs (forceSlot p .declared) t (.ok u) t') : ∃ type t₁,
      Runs (typeOf excerpt.tokens) t (.ok type) t₁ ∧ t' = t₁.modifyDecl p (·.withTypeIn .declared type) := by
  unfold forceSlot forceSlotWith at h
  rw [runs_bind_look] at h
  simp only [Decl.typeIn?, kind, Ty.isDeferred, if_true] at h
  rcases runs_bind.mp h with ⟨_, -, wrong⟩ | ⟨type, t₁, forced, put⟩
  · cases wrong
  obtain ⟨r, run, same⟩ := runs_rethrow.mp forced
  obtain rfl := mapError_eq_ok_iff.mp same.symm
  exact ⟨type, t₁, run, (runs_modify.mp put).2⟩

/-- A parameter that has not been resolved before gets the type that is read from its excerpt, with a new type
parameter in place of `auto`. -/
theorem promoted_parameter (sound : t.Sound) {excerpt : Excerpt}
    (kind : (t.decl p).kind = .parameter (.deferred excerpt)) {made made' : List DeclId}
    (h : Runs (parameter scope made p) t (.ok made') t') : ∃ type t₁ new,
      Runs (typeOf excerpt.tokens) t (.ok type) t₁ ∧ t₁.Reaches t' ∧ made' = made ++ new ∧
      Promoted t' scope made.length p type new ∧ ∀ x ∈ new, t.decls.size ≤ x.index := by
  unfold parameter at h
  rw [runs_bind_look] at h
  rcases runs_bind.mp h with ⟨_, -, wrong⟩ | ⟨_, t₁, forced, rest⟩
  · cases wrong
  obtain ⟨r, forced, same⟩ := runs_rethrow.mp forced
  obtain rfl := mapError_eq_ok_iff.mp same.symm
  obtain ⟨type, t₀, run, rfl⟩ := typeOf_of_forceSlot kind forced
  have read := TypePhrase.runs_typeOf binds_ensureConstant sound run
  have normal := read.normal type rfl
  have size := read.settles.size
  have kind₀ : (t₀.decl p).kind = .parameter (.deferred excerpt) := by
    rw [read.settles.others p (isConstant_of_kind kind) (by simp), kind]
  have lt : p.index < t₀.decls.size := lt_size_of_kind (by simp [kind₀])
  have kind₁ : ((t₀.modifyDecl p (·.withTypeIn .declared type)).decl p).kind = .parameter type := by
    rw [decl_modifyDecl_self lt]
    simp [Decl.withTypeIn, kind₀]
  have slotted : t₀.Reaches (t₀.modifyDecl p (·.withTypeIn .declared type)) :=
    Edit.reaches (.resolve (show (t₀.decl p).typeIn? .declared = some (.deferred excerpt) by
      simp [Decl.typeIn?, kind₀]) rfl normal)
  have next : t₀.decls.size = (t₀.modifyDecl p (·.withTypeIn .declared type)).nextDecl.index := by
    simp [nextDecl]
  generalize t₀.modifyDecl p (·.withTypeIn .declared type) = t₁ at *
  rw [runs_bind_look] at rest
  simp only [Decl.ownType?, Decl.typeIn?, kind₁] at rest
  rw [runs_bind_look] at rest
  have lt₁ : p.index < t₁.decls.size := lt_size_of_kind (by simp [kind₁])
  split at rest
  · rename_i untyped
    rw [runs_bind_modify, runs_bind_modify] at rest
    obtain ⟨same, rfl⟩ := runs_pure.mp rest
    have ne : t₁.nextDecl ≠ p := fun same => by
      rw [← same] at lt₁
      exact Nat.lt_irrefl _ lt₁
    have kind₂ : ((addTypeParameter scope (t₁.decl p).span.start made.length t₁).decl p).kind =
        .parameter type := by
      rw [addTypeParameter, decl_addUnnamed_of_lt lt₁, kind₁]
    have fresh : (addTypeParameter scope (t₁.decl p).span.start made.length t₁).decl t₁.nextDecl = _ :=
      decl_addUnnamed_nextDecl ..
    refine ⟨type, t₀, [t₁.nextDecl], run, ?_, Except.ok.inj same,
      .untyped normal untyped ⟨?_, ?_, ?_⟩ ?_ ?_, ?_⟩
    · exact slotted.trans ((Edit.reaches (.addTypeParameter scope _ _)).trans
        (Edit.reaches (.promote _ _ kind₂ normal)))
    · simp [addTypeParameter, addUnnamed, nextDecl]
    · rw [decl_modifyDecl_of_ne ne, fresh]
    · rw [decl_modifyDecl_of_ne ne, fresh]
    · rw [decl_modifyDecl_of_ne ne, fresh]
    · rw [decl_modifyDecl_self (lt_size_of_kind (by simp [kind₂]))]
      simp only [Decl.withTypeIn, kind₂]
    · intro x member
      rw [List.mem_singleton.mp member, ← next, size]
  · rename_i typed
    rw [runs_bind_modify] at rest
    obtain ⟨same, rfl⟩ := runs_pure.mp rest
    have typed := Bool.eq_false_iff.mpr typed
    refine ⟨type, t₀, [], run, slotted.trans (Edit.reaches (.promote _ _ kind₁ normal)), ?_,
      .typed normal typed ?_, List.forall_mem_nil _⟩
    · rw [List.append_nil]
      exact Except.ok.inj same
    · rw [decl_modifyDecl_self lt₁]
      simp only [Decl.withTypeIn, kind₁, replaceAuto_eq_self type normal typed]

/-! ## All parameters -/

/-- What has become of the parameters of a function, one after the other. -/
inductive PromotedAll (t : SymbolTable) (scope : ScopeId) :
    Nat → List DeclId → List Ty → List DeclId → Prop
  | nil {count : Nat} : PromotedAll t scope count [] [] []
  | cons {count : Nat} {p : DeclId} {ps : List DeclId} {type : Ty} {types : List Ty}
      {new made : List DeclId} :
      Promoted t scope count p type new → PromotedAll t scope (count + new.length) ps types made →
      PromotedAll t scope count (p :: ps) (type :: types) (new ++ made)

namespace PromotedAll

variable {ps made : List DeclId} {types : List Ty}

theorem of_evolves (h : PromotedAll t scope count ps types made) (evolves : t.Evolves t') :
    PromotedAll t' scope count ps types made := by
  induction h with
  | nil => exact .nil
  | cons first _ ih => exact .cons (first.of_evolves evolves) ih

theorem isMade (h : PromotedAll t scope count ps types made) : ∀ x ∈ made, t.IsMade scope x := by
  induction h with
  | nil => exact List.forall_mem_nil _
  | cons first _ ih => exact List.forall_mem_append.mpr ⟨first.isMade, ih⟩

/-- There are as many type parameters as parameters declared `auto`. -/
theorem length_eq (h : PromotedAll t scope count ps types made) : made.length = types.countP isUntyped := by
  induction h with
  | nil => rfl
  | @cons _ _ _ type types _ _ first _ ih =>
    rw [List.length_append, first.length_eq, ih, ← List.countP_append, List.singleton_append]

theorem arity (h : PromotedAll t scope count ps types made) : types.length = ps.length := by
  induction h with
  | nil => rfl
  | cons _ _ ih => rw [List.length_cons, List.length_cons, ih]

/-- Type parameters are named by the number of those in front of them. -/
theorem names (h : PromotedAll t scope count ps types made) : ∀ {k : Nat}, made[k]? = some x →
    (t.decl x).name = "T" ++ (count + k).repr := by
  induction h with
  | nil => intro k none; simp at none
  | @cons count q ps type types new made first _ ih =>
    intro k stands
    cases first with
    | typed => exact ih stands
    | untyped _ _ _ named _ =>
      rcases k with _ | k
      · obtain rfl := Option.some.inj stands
        exact named
      · have named := ih (k := k) stands
        rwa [List.length_singleton, Nat.add_assoc, Nat.add_comm 1 k] at named

/-- What has become of the `i`-th parameter: its type parameter, if it has one, stands behind those of the
parameters in front of it. -/
theorem get (h : PromotedAll t scope count ps types made) : ∀ {i : Nat}, ps[i]? = some p →
    types[i]? = some type → ∃ new, Promoted t scope (count + (types.take i).countP isUntyped) p type new ∧
      ∀ x ∈ new, made[(types.take i).countP isUntyped]? = some x := by
  induction h with
  | nil => intro i none; simp at none
  | @cons count q ps type' types new made first _ ih =>
    rintro (_ | i) isParameter isType
    · obtain rfl := Option.some.inj isParameter
      obtain rfl := Option.some.inj isType
      refine ⟨new, first, fun x member => ?_⟩
      cases first with
      | typed => cases member
      | untyped => rw [List.mem_singleton.mp member]; rfl
    · obtain ⟨new', promoted, stands⟩ := ih isParameter isType
      have front : ((type' :: types).take (i + 1)).countP isUntyped =
          new.length + (types.take i).countP isUntyped := by
        rw [first.length_eq, ← List.countP_append]
        rfl
      refine ⟨new', by rw [front, ← Nat.add_assoc]; exact promoted, fun x member => ?_⟩
      rw [front, List.getElem?_append_right (Nat.le_add_right _ _), Nat.add_sub_cancel_left]
      exact stands x member

end PromotedAll

/-- What comes of resolving parameters for the first time, behind `count` type parameters. -/
structure Generalizes (t t' : SymbolTable) (scope : ScopeId) (count : Nat) (ps : List DeclId)
    (types : List Ty) (made : List DeclId) : Prop where
  promoted : PromotedAll t' scope count ps types made
  reads : List.Forall₂ (t.ReadsAs t' scope) ps types
  fresh : ∀ x ∈ made, t.decls.size ≤ x.index
  nodup : made.Nodup
  /-- No type names a type parameter that is made here. -/
  named : ∀ type ∈ types, ∀ d ∈ type.typeParameters, t.IsNamed d

theorem generalizes_parametersFrom : ∀ (ps : List DeclId) {made made' : List DeclId} {t t' : SymbolTable},
    t.Sound → t.innermost = scope → (∀ p ∈ ps, (t.decl p).IsUnreadParameter) → ps.Nodup →
    Runs (parametersFrom scope made ps) t (.ok made') t' →
    ∃ types new, made' = made ++ new ∧ Generalizes t t' scope made.length ps types new
  | [], made, _, _, _, _, _, _, _, h => by
    obtain ⟨same, rfl⟩ := runs_pure.mp h
    exact ⟨[], [], by rw [List.append_nil, Except.ok.inj same], .nil, .nil, List.forall_mem_nil _,
      List.nodup_nil, List.forall_mem_nil _⟩
  | p :: rest, made, _, t, t', sound, here, unread, nodup, h => by
    obtain ⟨⟨excerpt, kind⟩, unread⟩ := List.forall_mem_cons.mp unread
    obtain ⟨other, nodup⟩ := List.nodup_cons.mp nodup
    rcases runs_bind.mp h with ⟨_, -, wrong⟩ | ⟨made₁, t₁, first, others⟩
    · cases wrong
    obtain ⟨promotes, -⟩ := runs_parameter sound kind first
    obtain ⟨type, t₀, new, run, reaches, rfl, promoted, fresh⟩ := promoted_parameter sound kind first
    have advances := promotes.advances
    -- The parameters behind stay as they are.
    have same : ∀ q ∈ rest, (t₁.decl q).kind = (t.decl q).kind := fun q member => by
      obtain ⟨excerpt', kind'⟩ := unread q member
      rw [promotes.others q (lt_size_of_kind (by simp [kind'])) (isConstant_of_kind kind') fun single =>
        other (List.mem_singleton.mp single ▸ member)]
    have here₁ : t₁.innermost = scope := by
      rw [← here, SymbolTable.innermost, advances.active, SymbolTable.innermost]
    obtain ⟨types, new', rfl, all⟩ := generalizes_parametersFrom rest (advances.sound sound) here₁
      (fun q member => (unread q member).imp fun excerpt kind => (same q member).trans kind) nodup others
    have behind := (runs_parametersFrom rest (advances.sound sound) (fun q member =>
      (unread q member).elim fun excerpt kind => ⟨_, (same q member).trans kind⟩) others).1.advances
    refine ⟨type :: types, new ++ new', List.append_assoc .., ?_, ?_, ?_, ?_, ?_⟩
    · rw [List.length_append] at all
      exact .cons (promoted.of_evolves behind.evolves) all.promoted
    · have read : ∀ q ∈ rest, ∀ {type}, t₁.ReadsAs t' scope q type → t.ReadsAs t' scope q type :=
        fun q member _ reads => reads.before advances.edits (same q member).symm
      exact .cons ⟨excerpt, t, t₀, kind, .refl t, here, run, reaches.trans behind.edits⟩
        (((List.forall₂_and_left rest types).mpr ⟨fun _ => id, all.reads⟩).imp
          fun q type reads => read q reads.1 reads.2)
    · exact List.forall_mem_append.mpr ⟨fresh, fun x member =>
        advances.evolves.size.trans (all.fresh x member)⟩
    · refine List.nodup_append.mpr ⟨promoted.nodup, all.nodup, fun x member y member' same => ?_⟩
      have lt := (promoted.isMade x member).lt
      have le := all.fresh y member'
      rw [same] at lt
      omega
    · refine List.forall_mem_cons.mpr ⟨fun d occurs => TypePhrase.isNamed_of_typeOf sound run occurs,
        fun type' member d occurs => (all.named type' member d occurs).of_scopes promotes.scopes.symm⟩

/-! ## Functions -/

/-- What has become of a function since `t`, when its parameters had not been resolved: `types` have been read
for its parameters, and it has type parameters in place of the `auto` in them. -/
structure Generalized (t t' : SymbolTable) (scope : ScopeId) (types : List Ty) (c : Callable) : Prop where
  signed : c.Signed t'
  promoted : PromotedAll t' scope 0 c.parameters types c.typeParameters
  reads : List.Forall₂ (t.ReadsAs t' scope) c.parameters types
  fresh : ∀ x ∈ c.typeParameters, t.decls.size ≤ x.index
  nodup : c.typeParameters.Nodup
  separate : ∀ type ∈ types, ∀ x ∈ c.typeParameters, x ∉ type.typeParameters

/-- A function that is given its signature for the first time is generalized. -/
theorem generalized_functionSignature (sound : t.Sound) {id : DeclId} {sort : CallableSort} {c : Callable}
    (kind : (t.decl id).kind = .callable sort c) (unread : ∀ p ∈ c.parameters, (t.decl p).IsUnreadParameter)
    (none : c.typeParameters = []) (nodup : c.parameters.Nodup)
    (known : ∀ d, t.IsNamed d → d.index < t.decls.size)
    (h : Runs (functionSignature id scope c) t (.ok ()) t') :
    ∃ types c', (t'.decl id).kind = .callable sort c' ∧ Generalized t t' scope types c' := by
  obtain ⟨advances, given⟩ := runs_functionSignature sound kind h
  obtain ⟨idles, ⟨c', kind', signed, -, parameters⟩, made, t₁, run, reaches, has⟩ := given rfl
  obtain ⟨types, _, rfl, all⟩ :=
    generalizes_parametersFrom c.parameters (sound.enter scope) rfl unread nodup run
  have sound₁ : t₁.Sound :=
    ((runs_parametersFrom c.parameters (sound.enter scope) (fun p member => (unread p member).elim
      fun excerpt kind => ⟨_, kind⟩) run).1.advances).sound (sound.enter scope)
  have has : c'.typeParameters = made := by simpa [Decl.callable?, kind', none] using has
  have entered : t.Reaches (t.enter scope) := Edit.reaches (.enter scope)
  refine ⟨types, c', kind', signed, ?_, ?_, ?_, ?_, ?_⟩ <;> simp only [parameters, has]
  · exact all.promoted.of_evolves (reaches.evolves sound₁)
  · exact all.reads.imp fun p type reads => (reads.before entered rfl).behind reaches
  · exact all.fresh
  · exact all.nodup
  · intro type member x isNew occurs
    have lt : x.index < t.decls.size := known x (all.named type member x occurs)
    have le : t.decls.size ≤ x.index := all.fresh x isNew
    omega

end Signature

end Deferral
