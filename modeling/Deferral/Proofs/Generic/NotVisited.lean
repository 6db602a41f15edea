import Deferral.Proofs.Generic.Reading
import Deferral.Proofs.Generic.Signature
import Deferral.Proofs.Scope.Signature

/-!
# What the first pass does not come to

Resolving constants, merging extensions and passing over other declarations leave alone what a function is
called with. A set of declarations is shut when whatever has one of them inside it is in the set as well: what
starts outside of it does not get into it.
-/

namespace Deferral

open Reporting SymbolTable

namespace Decl

/-- What a function is called with: its parameters, its type and its type parameters. -/
def signature? (d : Decl) : Option (List DeclId × Ty × List DeclId) :=
  d.callable?.map fun c => (c.parameters, c.type, c.typeParameters)

variable {d d' : Decl}

theorem signature?_of_kind {sort : CallableSort} {c : Callable} (kind : d.kind = .callable sort c) :
    d.signature? = some (c.parameters, c.type, c.typeParameters) := by
  simp [signature?, callable?, kind]

theorem parameters_congr (same : d'.signature? = d.signature?) : d'.parameters = d.parameters := by
  have first (d : Decl) : d.parameters = (d.signature?.map (·.1)).getD [] := by
    simp [parameters, signature?, Function.comp_def]
  rw [first, first, same]

theorem signature?_withTypeIn (slot : TypeSlot) (type : Ty) :
    (d.withTypeIn slot type).signature? = d.signature? := by
  unfold withTypeIn
  split <;> simp_all [signature?, callable?]

theorem signature?_withInitializer (e : Expr) : (d.withInitializer e).signature? = d.signature? := by
  unfold withInitializer
  split <;> simp_all [signature?, callable?]

theorem signature?_mapMembers (f : List Stmt → List Stmt) : (d.mapMembers f).signature? = d.signature? := by
  unfold mapMembers
  split <;> simp_all [signature?, callable?]

theorem signature?_withBody (body : Body) :
    (d.mapCallable fun c => { c with body }).signature? = d.signature? := by
  unfold mapCallable
  split <;> simp_all [signature?, callable?]

theorem kind_mapMembers_of_parameter {type : Ty} (kind : d.kind = .parameter type)
    (f : List Stmt → List Stmt) : (d.mapMembers f).kind = .parameter type := by
  simp [mapMembers, kind]

theorem kind_mapCallable_of_parameter {type : Ty} (kind : d.kind = .parameter type)
    (f : Callable → Callable) : (d.mapCallable f).kind = .parameter type := by
  simp [mapCallable, kind]

theorem declares_extendMembers (d : Decl) (more : List Stmt) :
    (d.mapMembers (· ++ more)).declares ⊆ d.declares ++ Stmt.declaresIn more := by
  unfold mapMembers
  split <;> simp_all [declares]

end Decl

namespace SymbolTable

variable {t t' t'' : SymbolTable} {id : DeclId} {V : Set DeclId}

/-! ## Shut sets -/

/-- Whatever has a declaration of `V` inside it is in `V`, and is not an extension, whose members would get
into a class. -/
def Shut (t : SymbolTable) (V : Set DeclId) : Prop :=
  ∀ holder, ∀ v ∈ (t.decl holder).declares, v ∈ V → holder ∈ V ∧ (t.decl holder).isExtension = false

theorem Shut.modifyDecl (h : t.Shut V) {f : Decl → Decl}
    (declares : ∀ v ∈ (f (t.decl id)).declares, v ∈ V → v ∈ (t.decl id).declares)
    (extension : (f (t.decl id)).isExtension = (t.decl id).isExtension) : (t.modifyDecl id f).Shut V := by
  intro holder v member inside
  rw [decl_modifyDecl] at member ⊢
  split at member
  · rename_i same
    rw [if_pos same, extension, same.1]
    exact h id v (declares v member inside) inside
  · rename_i other
    rw [if_neg other]
    exact h holder v member inside

/-! ## Names -/

/-- Names lead only to what has been declared. -/
def NamesKnown (t : SymbolTable) : Prop := ∀ d, t.IsNamed d → d.index < t.decls.size

theorem NamesKnown.of_named (h : t.NamesKnown) (size : t.decls.size ≤ t'.decls.size)
    (named : ∀ d, t'.IsNamed d → t.IsNamed d ∨ d.index < t'.decls.size) : t'.NamesKnown :=
  fun d name => (named d name).elim (fun old => (h d old).trans_le size) id

theorem isNamed_of_absorb {cls e : DeclId} {inner outer : ScopeId} (d : DeclId)
    (h : (t.absorb cls e inner outer).IsNamed d) : t.IsNamed d := by
  obtain ⟨s, name, b⟩ := h
  rcases binds_absorb_new b with old | ⟨-, old⟩
  · exact ⟨s, name, old⟩
  · exact ⟨inner, name, old⟩

theorem isNamed_of_keepOnly {scope : ScopeId} {name : String} {keep : Decl → Bool} (d : DeclId)
    (h : (t.keepOnly scope name keep).IsNamed d) : t.IsNamed d := by
  obtain ⟨s, other, b⟩ := h
  unfold keepOnly at b
  split at b
  · exact ⟨s, other, b⟩
  unfold Binds at b
  rw [scope_modifyScope] at b
  split at b
  · obtain ⟨set, found, member⟩ := b
    rcases Names.mem_alter_cases found with old | ⟨-, rfl | ⟨old, before, rfl⟩⟩
    · exact ⟨scope, other, set, old, member⟩
    · cases member
    · exact ⟨scope, name, old, before, List.mem_of_mem_filter member⟩
  · exact ⟨s, other, b⟩

theorem isNamed_of_addScope {parent : ScopeId} (d : DeclId) (h : (t.addScope parent).IsNamed d) :
    t.IsNamed d := by
  obtain ⟨s, name, b⟩ := h
  refine ⟨s, name, ?_⟩
  unfold Binds Scope.Binds at b ⊢
  rwa [names_addScope] at b

/-! ## Steps that come to no function -/

/-- What can be read off a declaration stays so when it does for the declaration that changes. -/
theorem read_modifyDecl {α : Type} (read : Decl → α) {f : Decl → Decl}
    (same : read (f (t.decl id)) = read (t.decl id)) (other : DeclId) :
    read ((t.modifyDecl id f).decl other) = read (t.decl other) := by
  rw [decl_modifyDecl]
  split
  · rename_i changed
    rw [same, changed.1]
  · rfl

theorem kind_modifyDecl_of_parameter {f : Decl → Decl}
    (parameter : ∀ type, (t.decl id).kind = .parameter type → (f (t.decl id)).kind = .parameter type)
    (p : DeclId) (type : Ty) (kind : (t.decl p).kind = .parameter type) :
    ((t.modifyDecl id f).decl p).kind = .parameter type := by
  rw [decl_modifyDecl]
  split
  · rename_i changed
    exact parameter type (changed.1 ▸ kind)
  · exact kind

theorem declares_modifyCallable (t : SymbolTable) (id : DeclId) {f : Callable → Callable}
    (same : ∀ c, (f c).body = c.body) (holder : DeclId) :
    ((t.modifyDecl id (·.mapCallable f)).decl holder).declares = (t.decl holder).declares :=
  read_modifyDecl Decl.declares (Decl.declares_mapCallable _ same) holder

/-- No declaration changes what is inside it or what it is called with, and names lead to nothing unknown. -/
structure Still (t t' : SymbolTable) : Prop where
  known : t.NamesKnown → t'.NamesKnown
  declares : ∀ holder, (t'.decl holder).declares = (t.decl holder).declares
  signature : ∀ f, (t'.decl f).signature? = (t.decl f).signature?

theorem Still.modifyDecl {f : Decl → Decl} (declares : (f (t.decl id)).declares = (t.decl id).declares)
    (signature : (f (t.decl id)).signature? = (t.decl id).signature?) : t.Still (t.modifyDecl id f) :=
  ⟨fun known => known.of_named (size_modifyDecl ..).ge fun _ name => .inl name,
    read_modifyDecl Decl.declares declares, read_modifyDecl Decl.signature? signature⟩

instance : Settling Still where
  refl _ := ⟨fun known => known, fun _ => rfl, fun _ => rfl⟩
  trans _ _ _ h h' := ⟨fun known => h'.known (h.known known),
    fun id => (h'.declares id).trans (h.declares id), fun f => (h'.signature f).trans (h.signature f)⟩
  leave h := ⟨h.known, h.declares, h.signature⟩
  values _ _ _ := ⟨fun known => known, fun _ => rfl, fun _ => rfl⟩
  withTypeIn _ _ slot type :=
    .modifyDecl (Decl.declares_withTypeIn _ slot type) (Decl.signature?_withTypeIn ..)
  withInitializer _ _ e := .modifyDecl (Decl.declares_withInitializer _ e) (Decl.signature?_withInitializer _)

/-- What a step of the pass does that comes to no function. -/
structure Passive (t t' : SymbolTable) : Prop where
  known : t.NamesKnown → t'.NamesKnown
  held : ∀ w, t'.held w ≤ t.held w
  shut : ∀ V, t.Shut V → t'.Shut V
  signature : ∀ f, (t'.decl f).signature? = (t.decl f).signature?
  parameters : ∀ p type, (t.decl p).kind = .parameter type → (t'.decl p).kind = .parameter type

namespace Passive

theorem refl (t : SymbolTable) : t.Passive t :=
  ⟨id, fun _ => Nat.le_refl _, fun _ => id, fun _ => rfl, fun _ _ => id⟩

theorem trans (h : t.Passive t') (h' : t'.Passive t'') : t.Passive t'' where
  known known := h'.known (h.known known)
  held w := (h'.held w).trans (h.held w)
  shut V shut := h'.shut V (h.shut V shut)
  signature f := (h'.signature f).trans (h.signature f)
  parameters p type kind := h'.parameters p type (h.parameters p type kind)

/-- The declarations stay as they are. -/
theorem of_decls (same : t'.decls = t.decls) (named : ∀ d, t'.IsNamed d → t.IsNamed d) : t.Passive t' := by
  have decls (id : DeclId) : t'.decl id = t.decl id := by rw [decl, same, decl]
  refine ⟨fun known => known.of_named (by rw [same]) fun d name => .inl (named d name),
    fun w => (LeavesHeld.of_decls same w).le, fun V shut holder v => ?_, fun f => by rw [decls],
    fun p type kind => by rw [decls, kind]⟩
  rw [decls]
  exact shut holder v

/-- A declaration changes that is not a parameter, and has no more inside it afterwards. -/
theorem modifyDecl {f : Decl → Decl} (held : ∀ w, (t.modifyDecl id f).held w ≤ t.held w)
    (declares : (f (t.decl id)).declares ⊆ (t.decl id).declares)
    (extension : (f (t.decl id)).isExtension = (t.decl id).isExtension)
    (signature : (f (t.decl id)).signature? = (t.decl id).signature?)
    (parameter : ∀ type, (t.decl id).kind = .parameter type → (f (t.decl id)).kind = .parameter type) :
    t.Passive (t.modifyDecl id f) :=
  ⟨fun known => known.of_named (size_modifyDecl ..).ge fun _ name => .inl name, held,
    fun _ shut => shut.modifyDecl (fun _ member _ => declares member) extension,
    read_modifyDecl Decl.signature? signature, kind_modifyDecl_of_parameter parameter⟩

/-- A type is resolved that is not that of a parameter. -/
theorem slotUnder (sound : t.Sound) {slot : TypeSlot} (other : ∀ type, (t.decl id).kind ≠ .parameter type)
    {r : Except Diagnostic Unit}
    (h : Resolution.Runs (Resolution.under (t.decl id).scope (Resolution.forceSlot id slot)) t r t') :
    t.Passive t' := by
  have calm {R : SymbolTable → SymbolTable → Prop} [Settling R] : R t t' :=
    Resolution.calm_under (Resolution.calm_forceSlot id slot) _ h
  have still : t.Still t' := calm
  have held : t.LeavesHeld t' := calm
  have settles := (Signature.runs_slotUnder sound h).1
  refine ⟨still.known, fun w => (held w).le, fun V shut holder v => ?_, still.signature,
    fun p type kind => ?_⟩
  · rw [still.declares, settles.isExtension]
    exact shut holder v
  · have ne : some p ≠ some id := fun same => other type (Option.some.inj same ▸ kind)
    rw [settles.others p (Signature.isConstant_of_kind kind) ne, kind]

theorem withoutBody (t : SymbolTable) (id : DeclId) : t.Passive (Signature.withoutBody t id) := by
  refine .modifyDecl (fun w => (Signature.held_withoutBody t id w).ge.trans' (Nat.le_add_right ..)) ?_
    (Decl.isExtension_mapCallable ..) (Decl.signature?_withBody _)
    fun type kind => Decl.kind_mapCallable_of_parameter kind _
  unfold Decl.mapCallable
  split <;> simp_all [Decl.declares, Body.declares]

theorem withoutMembers (t : SymbolTable) (id : DeclId) : t.Passive (Signature.withoutMembers t id) := by
  refine .modifyDecl (fun w => (Signature.held_withoutMembers t id w).ge.trans' (Nat.le_add_right ..)) ?_
    (Decl.isExtension_mapMembers ..) (Decl.signature?_mapMembers _)
    fun type kind => Decl.kind_mapMembers_of_parameter kind _
  unfold Decl.mapMembers
  split <;> simp_all [Decl.declares, Stmt.declaresIn]

/-- Nothing of a shut set is in an extension, so that none of it gets into the class. -/
theorem absorb {cls e : DeclId} (extension : (t.decl e).isExtension = true) (inner outer : ScopeId) :
    t.Passive (t.absorb cls e inner outer) := by
  have emptied := withoutMembers
    ((t.modifyScope outer (·.extendAll (t.scope inner).names)).reparent inner outer) e
  refine ⟨fun known => known.of_named ?_ fun d name => .inl (isNamed_of_absorb d name),
    Signature.held_absorb t cls e inner outer, fun V shut => ?_, fun f => ?_, fun p type kind => ?_⟩
  · exact (leaves_absorb t cls e inner outer).size.ge
  · refine (emptied.shut V shut).modifyDecl (fun v member inside => ?_) (Decl.isExtension_mapMembers ..)
    rcases List.mem_append.mp (Decl.declares_extendMembers _ _ member) with own | absorbed
    · exact own
    · have holds : v ∈ (t.decl e).declares := by
        rw [declares_eq]
        exact List.mem_append_right _ absorbed
      rw [(shut e v holds inside).2] at extension
      cases extension
  · exact (read_modifyDecl Decl.signature? (Decl.signature?_mapMembers _) f).trans (emptied.signature f)
  · exact kind_modifyDecl_of_parameter (fun type kind => Decl.kind_mapMembers_of_parameter kind _) p type
      (emptied.parameters p type kind)

theorem keepOnly (t : SymbolTable) (scope : ScopeId) (name : String) (keep : Decl → Bool) :
    t.Passive (t.keepOnly scope name keep) :=
  .of_decls (by unfold SymbolTable.keepOnly; split <;> rfl) isNamed_of_keepOnly

theorem absorbAll {cls : DeclId} {outer : ScopeId} : ∀ (ids : List DeclId) {t t' : SymbolTable}
    {r : Except Diagnostic Unit}, Resolution.Runs (Resolution.absorbAll cls outer ids) t r t' → t.Passive t'
  | [], _, _, _, h => by
    obtain ⟨-, rfl⟩ := Resolution.runs_pure.mp h
    exact .refl _
  | e :: rest, t, _, _, h => by
    unfold Resolution.absorbAll at h
    rw [Resolution.runs_bind_look] at h
    split at h
    · rename_i extension
      rcases Resolution.runs_bind.mp h with ⟨fault, looked, -⟩ | ⟨inner, t₁, looked, others⟩
      · obtain ⟨rfl, -⟩ := Resolution.runs_scopeOf looked
        exact .refl _
      obtain ⟨rfl, -⟩ := Resolution.runs_scopeOf looked
      exact (absorb extension inner outer).trans (absorbAll rest (Resolution.runs_bind_modify.mp others))
    · exact absorbAll rest h

theorem absorbExtensions {enclosing : ScopeId} {cls : DeclId} {r : Except Diagnostic Unit}
    (h : Resolution.Runs (Resolution.absorbExtensions enclosing cls) t r t') : t.Passive t' := by
  unfold Resolution.absorbExtensions at h
  rw [Resolution.runs_bind_look] at h
  rcases Resolution.runs_bind.mp h with ⟨fault, looked, -⟩ | ⟨outer, t₁, looked, rest⟩
  · obtain ⟨rfl, -⟩ := Resolution.runs_scopeOf looked
    exact .refl _
  · obtain ⟨rfl, -⟩ := Resolution.runs_scopeOf looked
    exact absorbAll _ rest

end Passive

end SymbolTable

/-! ## Signatures -/

namespace Signature

open Resolution

variable {t t' : SymbolTable} {scope : ScopeId} {id : DeclId}

theorem still_addTypeParameter (t : SymbolTable) (scope : ScopeId) (position : Position) (count : Nat) :
    t.Still (addTypeParameter scope position count t) := by
  have same (id : DeclId) : ((addTypeParameter scope position count t).decl id).kind = (t.decl id).kind :=
    kind_addUnnamed rfl id
  refine ⟨fun known => known.of_named ?_ fun d name => .inl name, fun id => ?_, fun id => ?_⟩
  · simp [addTypeParameter, addUnnamed]
  · simp only [Decl.declares, same]
  · simp only [Decl.signature?, Decl.callable?, same]

/-- What giving a function its signature does to everything else. -/
structure SignsOnly (id : DeclId) (ps : List DeclId) (t t' : SymbolTable) : Prop where
  known : t.NamesKnown → t'.NamesKnown
  held : t.LeavesHeld t'
  declares : ∀ holder, (t'.decl holder).declares = (t.decl holder).declares
  signature : ∀ f, f ≠ id → (t'.decl f).signature? = (t.decl f).signature?
  parameters : ∀ p type, (t.decl p).kind = .parameter type → p ∉ ps → (t'.decl p).kind = .parameter type

/-- A function that is refused a signature keeps what it has, and all that it is given otherwise changes
nothing else. -/
theorem signsOnly_functionSignature (sound : t.Sound) {sort : CallableSort} {c : Callable}
    (kind : (t.decl id).kind = .callable sort c) {r : Except Diagnostic Unit}
    (h : Runs (functionSignature id scope c) t r t') : SignsOnly id c.parameters t t' ∧
      ∀ d, r = .error d → (t'.decl id).signature? = (t.decl id).signature? := by
  have held := leavesHeld_functionSignature id scope c h
  have notParameter {p : DeclId} {type : Ty} (parameter : (t.decl p).kind = .parameter type) : p ≠ id := by
    rintro rfl
    rw [kind] at parameter
    cases parameter
  -- Parameters and result are resolved first.
  have resolved {r : Except Diagnostic (List DeclId)} {t₁ : SymbolTable} (first : Runs (under scope do
        let made ← parametersFrom scope [] c.parameters
        forceSlot id .result
        return made) t r t₁) :
      t.Still t₁ ∧ ∀ p type, (t.decl p).kind = .parameter type → p ∉ c.parameters →
        (t₁.decl p).kind = .parameter type := by
    refine ⟨calm_signatureParts still_addTypeParameter id scope c.parameters first,
      fun p type parameter other => ?_⟩
    rw [(runs_signatureParts sound kind first).1.others p (lt_size_of_kind (by simp [parameter]))
      (isConstant_of_kind parameter) (by simp [notParameter parameter, other]), parameter]
  unfold functionSignature at h
  rcases runs_bind.mp h with ⟨fault, first, rfl⟩ | ⟨made, t₁, first, rest⟩
  · obtain ⟨still, rests⟩ := resolved first
    exact ⟨⟨still.known, held, still.declares, fun f _ => still.signature f, rests⟩,
      fun _ _ => still.signature id⟩
  obtain ⟨still, rests⟩ := resolved first
  obtain ⟨promotes, given⟩ := runs_signatureParts sound kind first
  have sound₁ := promotes.advances.sound sound
  have isMade := (given made rfl).isMade
  rcases runs_bind.mp rest with ⟨fault, second, rfl⟩ | ⟨_, t₂, second, last⟩
  · cases (runs_bindNames made sound₁ isMade second).2.2.2
  obtain ⟨-, decls, binds, -⟩ := runs_bindNames made sound₁ isMade second
  rw [runs_bind_modify] at last
  obtain ⟨rfl, rfl⟩ := runs_modify.mp last
  have same (other : DeclId) : t₂.decl other = t₁.decl other := by rw [decl, decls, decl]
  have others (other : DeclId) (ne : other ≠ id) : ((rebuildType t₂ id).modifyDecl id (·.mapCallable fun c =>
      { c with typeParameters := c.typeParameters ++ made })).decl other = t₁.decl other :=
    (decl_modifyDecl_of_ne ne _ _).trans ((decl_modifyDecl_of_ne ne _ _).trans (same other))
  refine ⟨⟨fun known => ?_, held, fun holder => ?_, fun f ne => ?_, fun p type parameter other => ?_⟩,
    fun _ fault => by cases fault⟩
  · have known₂ : t₂.NamesKnown := (still.known known).of_named (by rw [decls]) fun d named => by
      obtain ⟨s, name, b⟩ := named
      exact (binds.new b).imp (fun old => ⟨s, name, old⟩) fun isMade => isMade.lt
    exact known₂.of_named (by simp [rebuildType]) fun d name => .inl name
  · rw [declares_modifyCallable, rebuildType, declares_modifyCallable, same, still.declares] <;>
      exact fun _ => rfl
  · rw [others f ne, still.signature]
  · rw [others p (notParameter parameter)]
    exact rests p type parameter other

end Signature

end Deferral
