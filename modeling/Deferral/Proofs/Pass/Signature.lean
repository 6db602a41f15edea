import Deferral.Proofs.Pass.Overload

/-!
# Runs that resolve signatures

Parameters get their types, with type parameters in place of `auto`, and a function its type once
all its parameters and its result are known.
-/

namespace Deferral

open Resolution SymbolTable

/-- What resolving the parameters `ps` does: nothing else changes but declarations of constants, and
type parameters are added. -/
structure SymbolTable.Promotes (ps : List DeclId) (t t' : SymbolTable) : Prop where
  advances : t.Advances t'
  scopes : t'.scopes = t.scopes
  others : ∀ id, id.index < t.decls.size → (t.decl id).isConstant = false → id ∉ ps →
    t'.decl id = t.decl id

namespace SymbolTable.Promotes

variable {ps ps' : List DeclId} {t t' t'' : SymbolTable}

theorem refl (ps : List DeclId) (t : SymbolTable) : Promotes ps t t :=
  ⟨.refl t, rfl, fun _ _ _ _ => rfl⟩

theorem trans (h : Promotes ps t t') (h' : Promotes ps t' t'') : Promotes ps t t'' := by
  refine ⟨h.advances.trans h'.advances, h'.scopes.trans h.scopes,
    fun id lt other member => ?_⟩
  have same := h.others id lt other member
  have lt' := Nat.lt_of_lt_of_le lt h.advances.evolves.size
  rw [h'.others id lt' (same ▸ other) member, same]

theorem weaken (h : Promotes ps t t') (within : ∀ id ∈ ps, id ∈ ps') : Promotes ps' t t' :=
  ⟨h.advances, h.scopes,
    fun id lt other member => h.others id lt other fun m => member (within id m)⟩

theorem of_settles {id : DeclId} (h : Settles (some id) t t') (member : id ∈ ps) :
    Promotes ps t t' := by
  refine ⟨.of_settles h, h.scopes, fun other _ constant out => ?_⟩
  exact h.others other constant fun same => out (Option.some.inj same ▸ member)

theorem leave {scope : ScopeId} (h : Promotes ps (t.enter scope) t') : Promotes ps t t'.leave :=
  ⟨h.advances.leave, h.scopes, h.others⟩

theorem keeps (h : Promotes ps t t') (bare : ∀ id ∈ ps, (t.decl id).IsBare) : t.Keeps t' := by
  refine .of_same_or_bare fun id => ?_
  by_cases lt : id.index < t.decls.size
  · by_cases member : id ∈ ps
    · exact .inr ⟨bare id member, h.advances.evolves.isBare lt (bare id member)⟩
    · cases constant : (t.decl id).isConstant with
      | true =>
        have bare := Decl.isBare_of_isConstant constant
        exact .inr ⟨bare, h.advances.evolves.isBare lt bare⟩
      | false => exact .inl (h.others id lt constant member)
  · have outside : t.decls.size ≤ id.index := by omega
    exact .inr ⟨by simp [Decl.IsBare, kind_eq_typeParameter outside],
      by simp [Decl.IsBare, h.advances.added id outside]⟩

end SymbolTable.Promotes

namespace Signature

variable {t t' : SymbolTable}

theorem isConstant_of_kind {id : DeclId} {type : Ty} (kind : (t.decl id).kind = .parameter type) :
    (t.decl id).isConstant = false := by
  simp [Decl.isConstant, kind]

/-- A parameter gets its type, and `auto` at the end of it is replaced. -/
theorem runs_parameter (sound : t.Sound) {scope : ScopeId} {made : List DeclId} {id : DeclId}
    {type : Ty} (kind : (t.decl id).kind = .parameter type) {r : Except Diagnostic (List DeclId)}
    (h : Runs (parameter scope made id) t r t') :
    Promotes [id] t t' ∧ ∀ made', r = .ok made' → (t'.decl id).IsSettledParameter ∧
      ∀ p ∈ made', p ∈ made ∨ t'.IsMade scope p := by
  have notConstant := isConstant_of_kind kind
  have here : (t.decl id).isConstant = true → t.innermost = (t.decl id).scope := by
    simp [notConstant]
  unfold parameter at h
  rw [runs_bind_look] at h
  rcases runs_bind.mp h with ⟨fault, forced, rfl⟩ | ⟨_, t₁, forced, rest⟩
  · obtain ⟨r, run, -⟩ := runs_rethrow.mp forced
    exact ⟨.of_settles (runs_forceSlotWith binds_ensureConstant sound here run).1 (by simp),
      fun _ same => by cases same⟩
  obtain ⟨r₁, run, ok⟩ := runs_rethrow.mp forced
  obtain rfl : r₁ = .ok () := mapError_eq_ok_iff.mp ok.symm
  obtain ⟨settles, slotted⟩ := runs_forceSlotWith binds_ensureConstant sound here run
  obtain ⟨type', _, t₀, settles₀, normal, held, put⟩ := (slotted rfl).put
  have kind₁ : (t₁.decl id).kind = .parameter type' := by
    rw [put, settles₀.others id notConstant (by simp)]
    simp [Decl.withTypeIn, kind]
  have sound₁ := settles.sound sound
  have promotes₁ : Promotes [id] t t₁ := .of_settles settles (by simp)
  rw [runs_bind_look] at rest
  simp only [Decl.ownType?, Decl.typeIn?, kind₁] at rest
  rw [runs_bind_look] at rest
  -- The table in which the parameter gets its type, with a type parameter more or not.
  have put : ∀ {t₂ : SymbolTable}, Promotes [id] t₁ t₂ → (t₂.decl id).kind = .parameter type' →
      Promotes [id] t (t₂.modifyDecl id (·.withTypeIn .declared
          (replaceAuto (.named .typeParameter t₁.nextDecl ("T" ++ made.length.repr)) type'))) ∧
        ((t₂.modifyDecl id (·.withTypeIn .declared
          (replaceAuto (.named .typeParameter t₁.nextDecl ("T" ++ made.length.repr))
            type'))).decl id).IsSettledParameter := by
    intro t₂ promotes₂ kind₂
    have sound₂ := promotes₂.advances.sound sound₁
    have edit := Edit.promote t₁.nextDecl ("T" ++ made.length.repr) kind₂ normal
    have last : Promotes [id] t₂ _ := ⟨.of_modifyDecl sound₂ edit, rfl,
      fun other _ _ out => decl_modifyDecl_of_ne (by simpa using out) _ _⟩
    refine ⟨(promotes₁.trans promotes₂).trans last, ?_⟩
    rw [decl_modifyDecl_self (lt_size_of_kind (by simp [kind₂]))]
    have normal' : (Ty.named .typeParameter t₁.nextDecl ("T" ++ made.length.repr)).Normal := trivial
    have typed := isUntyped_replaceAuto (show isUntyped (Ty.named .typeParameter t₁.nextDecl
      ("T" ++ made.length.repr)) = false from rfl) type'
    exact ⟨_, by simp only [Decl.withTypeIn, kind₂], replaceAuto_normal normal' type' normal, typed⟩
  split at rest
  · rw [runs_bind_modify, runs_bind_modify] at rest
    obtain ⟨rfl, rfl⟩ := runs_pure.mp rest
    have added : Promotes [id] t₁ (addTypeParameter scope (t₁.decl id).span.start made.length t₁) :=
      ⟨.addTypeParameter sound₁ _ _ _, rfl,
        fun other lt _ _ => decl_addUnnamed_of_lt lt _⟩
    have lt : id.index < t₁.decls.size := lt_size_of_kind (by simp [kind₁])
    obtain ⟨promotes, settled⟩ := put added (by
      rw [addTypeParameter, decl_addUnnamed_of_lt lt]; exact kind₁)
    refine ⟨promotes, fun _ same => ⟨settled, fun p member => ?_⟩⟩
    obtain rfl := Except.ok.inj same
    rcases List.mem_append.mp member with member | fresh
    · exact .inl member
    · obtain rfl := List.mem_singleton.mp fresh
      have ne : t₁.nextDecl ≠ id := fun same => by
        rw [← same] at lt
        exact Nat.lt_irrefl _ lt
      have fresh : (addTypeParameter scope (t₁.decl id).span.start made.length t₁).decl
          t₁.nextDecl = _ := decl_addUnnamed_nextDecl ..
      refine .inr ⟨?_, ?_, ?_⟩
      · simp [addTypeParameter, addUnnamed, nextDecl]
      · rw [decl_modifyDecl_of_ne ne, fresh]
      · rw [decl_modifyDecl_of_ne ne, fresh]
  · rw [runs_bind_modify] at rest
    obtain ⟨rfl, rfl⟩ := runs_pure.mp rest
    obtain ⟨promotes, settled⟩ := put (.refl _ t₁) kind₁
    exact ⟨promotes, fun _ same => ⟨settled, fun p member => .inl (Except.ok.inj same ▸ member)⟩⟩

/-- A settled parameter stays as it is. -/
theorem settled_of_evolves (evolves : t.Evolves t') {id : DeclId}
    (settled : (t.decl id).IsSettledParameter) : (t'.decl id).IsSettledParameter := by
  have same := evolves.settledParameter settled
  obtain ⟨type, kind, known⟩ := settled
  exact ⟨type, same.trans kind, known⟩

theorem runs_parametersFrom {scope : ScopeId} : ∀ (ps : List DeclId) {made : List DeclId}
    {t t' : SymbolTable} {r : Except Diagnostic (List DeclId)}, t.Sound →
    (∀ id ∈ ps, ∃ type, (t.decl id).kind = .parameter type) →
    Runs (parametersFrom scope made ps) t r t' →
    Promotes ps t t' ∧ ∀ made', r = .ok made' → (∀ id ∈ ps, (t'.decl id).IsSettledParameter) ∧
      ∀ p ∈ made', p ∈ made ∨ t'.IsMade scope p
  | [], _, _, _, _, _, _, h => by
    obtain ⟨rfl, rfl⟩ := runs_pure.mp h
    exact ⟨.refl _ _, fun _ same => ⟨fun _ member => (by cases member),
      fun p member => .inl (Except.ok.inj same ▸ member)⟩⟩
  | id :: rest, _, _, _, _, sound, kinds, h => by
    obtain ⟨type, kind⟩ := kinds id (by simp)
    rcases runs_bind.mp h with ⟨fault, first, rfl⟩ | ⟨made', t₁, first, others⟩
    · obtain ⟨promotes, -⟩ := runs_parameter sound kind first
      exact ⟨promotes.weaken (by simp), fun _ same => by cases same⟩
    obtain ⟨promotes, parameter⟩ := runs_parameter sound kind first
    obtain ⟨settled, known⟩ := parameter made' rfl
    have evolves := promotes.advances.evolves
    obtain ⟨promotes', parameters'⟩ := runs_parametersFrom rest (promotes.advances.sound sound)
      (fun other member => by
        obtain ⟨type, kind⟩ := kinds other (by simp [member])
        exact evolves.parameter kind) others
    have evolves' := promotes'.advances.evolves
    refine ⟨(promotes.weaken (by simp)).trans (promotes'.weaken fun _ m => by simp [m]),
      fun made'' same => ?_⟩
    obtain ⟨settled', known'⟩ := parameters' made'' same
    refine ⟨fun other member => ?_, fun p member => ?_⟩
    · rcases List.mem_cons.mp member with rfl | member
      · exact settled_of_evolves evolves' settled
      · exact settled' other member
    · rcases known' p member with member | isMade
      · exact (known p member).imp_right fun isMade => isMade.of_evolves evolves'
      · exact .inr isMade

theorem runs_bindNames {scope : ScopeId} : ∀ (made : List DeclId) {t t' : SymbolTable}
    {r : Except Diagnostic PUnit}, t.Sound → (∀ p ∈ made, t.IsMade scope p) →
    Runs (made.forM fun p => modify fun t => t.bindName scope (t.decl p).name p) t r t' →
    t.Advances t' ∧ t'.decls = t.decls ∧ t.BindsMade t' ∧ r = .ok ⟨⟩
  | [], _, _, _, _, _, h => by
    obtain ⟨rfl, rfl⟩ := runs_pure.mp h
    exact ⟨.refl _, rfl, .of_scopes rfl, rfl⟩
  | p :: rest, t, _, _, sound, isMade, h => by
    have edit := Edit.bindName (t := t) scope (t.decl p).name p
    have first := BindsMade.bindName (isMade p (by simp)) (t.decl p).name
    have evolves := edit.evolves sound
    obtain ⟨advances, decls, binds, ok⟩ := runs_bindNames rest (edit.sound sound)
      (fun q member => (isMade q (by simp [member])).of_evolves evolves) (runs_bind_modify.mp h)
    exact ⟨(Advances.of_edit sound edit rfl rfl rfl rfl).trans advances, decls,
      first.trans advances.evolves binds, ok⟩

/-- What a run does that resolves the parameters and the result of a function. -/
structure Parts (id : DeclId) (sort : CallableSort) (c : Callable) (scope : ScopeId)
    (made : List DeclId) (t t' : SymbolTable) : Prop where
  keeps : t.Keeps t'
  scopes : t'.scopes = t.scopes
  parameters : ∀ p ∈ c.parameters, (t'.decl p).IsSettledParameter
  result : ∃ result, (t'.decl id).kind = .callable sort { c with result } ∧ result.Normal
  isMade : ∀ p ∈ made, t'.IsMade scope p
  resolved : ∃ t₁, Runs (parametersFrom scope [] c.parameters) (t.enter scope) (.ok made) t₁ ∧ t₁.Reaches t'

theorem runs_signatureParts (sound : t.Sound) {id : DeclId} {scope : ScopeId}
    {sort : CallableSort} {c : Callable} (kind : (t.decl id).kind = .callable sort c)
    {r : Except Diagnostic (List DeclId)}
    (h : Runs (under scope do
      let made ← parametersFrom scope [] c.parameters
      forceSlot id .result
      return made) t r t') :
    Promotes (id :: c.parameters) t t' ∧ ∀ made, r = .ok made → Parts id sort c scope made t t' := by
  have old := sound.decls id
  rw [kind] at old
  have outside : id ∉ c.parameters := fun member => by
    obtain ⟨type, parameter⟩ := old.parameters id member
    rw [kind] at parameter
    cases parameter
  have notConstant : (t.decl id).isConstant = false := by simp [Decl.isConstant, kind]
  have lt : id.index < t.decls.size := lt_size_of_kind (by simp [kind])
  have sound₀ := sound.enter scope
  have within : ∀ p ∈ c.parameters, p ∈ id :: c.parameters := fun _ => List.mem_cons_of_mem id
  obtain ⟨t₂, run, rfl⟩ := runs_under.mp h
  rcases runs_bind.mp run with ⟨fault, first, rfl⟩ | ⟨made, t₁, first, rest⟩
  · exact ⟨((runs_parametersFrom c.parameters sound₀ old.parameters first).1.weaken within).leave,
      fun _ same => by cases same⟩
  obtain ⟨promotes, parameters⟩ := runs_parametersFrom c.parameters sound₀ old.parameters first
  obtain ⟨settled, isMade⟩ := parameters made rfl
  have sound₁ := promotes.advances.sound sound₀
  have same₁ : t₁.decl id = t.decl id := promotes.others id lt notConstant outside
  have here : (t₁.decl id).isConstant = true → t₁.innermost = (t₁.decl id).scope := by
    simp [same₁, notConstant]
  rcases runs_bind.mp rest with ⟨fault, second, rfl⟩ | ⟨_, t₃, second, last⟩
  · have settles := (runs_forceSlotWith binds_ensureConstant sound₁ here second).1
    exact ⟨((promotes.weaken within).trans (.of_settles settles (by simp))).leave,
      fun _ same => by cases same⟩
  obtain ⟨settles, slotted⟩ := runs_forceSlotWith binds_ensureConstant sound₁ here second
  obtain ⟨result, _, t₄, settles₄, normal, held, put⟩ := (slotted rfl).put
  have keeps₁ : (t.enter scope).Keeps t₁ := promotes.keeps fun p member => by
    obtain ⟨type, kind⟩ := old.parameters p member
    simp [Decl.IsBare, show ((t.enter scope).decl p).kind = _ from kind]
  have keeps₂ := settles.keeps_of_slotted (slotted rfl)
  obtain ⟨rfl, rfl⟩ := runs_pure.mp last
  refine ⟨((promotes.weaken within).trans (.of_settles settles (by simp))).leave, fun made' same => ?_⟩
  obtain rfl := Except.ok.inj same
  refine ⟨⟨(keeps₁.trans keeps₂).body, (keeps₁.trans keeps₂).members⟩,
    settles.scopes.trans promotes.scopes, fun p member => ?_, ⟨result, ?_, normal⟩,
    fun p member => ?_, ⟨t₁, first, settles.edits.trans (Edit.reaches .leave)⟩⟩
  · exact settled_of_evolves settles.evolves (settled p member)
  · change (t₂.decl id).kind = _
    rw [put, settles₄.others id (by rw [same₁]; exact notConstant) (by simp), same₁]
    simp [Decl.withTypeIn, kind]
  · rcases isMade p member with none | isMade
    · cases none
    · obtain ⟨lt, kind, scope⟩ := isMade.of_evolves settles.evolves
      exact ⟨lt, kind, scope⟩

/-- What a run does that gives a function its signature. -/
structure Given (id : DeclId) (sort : CallableSort) (c : Callable) (scope : ScopeId) (t t' : SymbolTable) :
    Prop where
  idles : t.Idles t'
  kind : ∃ c', (t'.decl id).kind = .callable sort c' ∧ c'.Signed t' ∧ c'.body = c.body ∧
    c'.parameters = c.parameters
  /-- The type parameters that are made while the parameters are resolved come to those it has. -/
  made : ∃ made t₁, Runs (parametersFrom scope [] c.parameters) (t.enter scope) (.ok made) t₁ ∧
    t₁.Reaches t' ∧ (t'.decl id).callable?.map (·.typeParameters) = some (c.typeParameters ++ made)

/-- A function that ends well gets the type of its signature and keeps its body. -/
theorem runs_functionSignature (sound : t.Sound) {id : DeclId} {scope : ScopeId}
    {sort : CallableSort} {c : Callable} (kind : (t.decl id).kind = .callable sort c)
    {r : Except Diagnostic Unit} (h : Runs (functionSignature id scope c) t r t') :
    t.Advances t' ∧ (r = .ok () → Given id sort c scope t t') := by
  unfold functionSignature at h
  rcases runs_bind.mp h with ⟨fault, first, rfl⟩ | ⟨made, t₁, first, rest⟩
  · exact ⟨(runs_signatureParts sound kind first).1.advances, fun same => by cases same⟩
  obtain ⟨⟨advances₁, -, -⟩, given⟩ := runs_signatureParts sound kind first
  have parts := given made rfl
  obtain ⟨result, kind₁, normal⟩ := parts.result
  have sound₁ := advances₁.sound sound
  rcases runs_bind.mp rest with ⟨fault, second, rfl⟩ | ⟨_, t₂, second, last⟩
  · obtain ⟨-, -, -, ok⟩ := runs_bindNames made sound₁ parts.isMade second
    cases ok
  obtain ⟨advances₂, decls, binds, -⟩ := runs_bindNames made sound₁ parts.isMade second
  have sound₂ := advances₂.sound sound₁
  have same : ∀ other, t₂.decl other = t₁.decl other := fun other => by simp [decl, decls]
  rw [runs_bind_modify] at last
  obtain ⟨rfl, rfl⟩ := runs_modify.mp last
  have kind₂ : (t₂.decl id).kind = .callable sort { c with result } := by rw [same, kind₁]
  have rebuild := Edit.rebuild kind₂ (fun p member => by rw [same]; exact parts.parameters p member)
    normal
  have sound₃ := rebuild.sound sound₂
  have made' := Edit.addTypeParameters (t := rebuildType t₂ id) id made
  have lt : id.index < t₂.decls.size := lt_size_of_kind (by simp [kind₂])
  have last := (Advances.of_modifyDecl sound₂ rebuild).trans (.of_modifyDecl sound₃ made')
  have advances := (advances₁.trans advances₂).trans last
  have kind₃ : ((rebuildType t₂ id).decl id).kind =
      .callable sort { c with result, type := signatureType t₂ { c with result } } := by
    rw [rebuildType, decl_modifyDecl_self lt, Decl.kind_mapCallable kind₂]
  have kind₄ : (((rebuildType t₂ id).modifyDecl id (·.mapCallable fun c =>
      { c with typeParameters := c.typeParameters ++ made })).decl id).kind =
        .callable sort { c with
          result
          type := signatureType t₂ { c with result }
          typeParameters := c.typeParameters ++ made } := by
    rw [decl_modifyDecl_self (by simpa [rebuildType] using lt), Decl.kind_mapCallable kind₃]
  refine ⟨advances, fun _ => ⟨⟨advances, ?_, ?_⟩, ?_, ?_⟩⟩
  · exact ((parts.keeps.trans (.of_decls decls)).trans (.mapCallable t₂ id (by intro; rfl))).trans
      (.mapCallable _ id (by intro; rfl))
  · exact ((BindsMade.of_scopes parts.scopes).trans advances₂.evolves binds).trans last.evolves
      (.of_scopes rfl)
  · refine ⟨_, kind₄, last.evolves.signed ⟨fun p member => ?_, normal, rfl⟩, rfl, rfl⟩
    rw [same]
    exact parts.parameters p member
  · obtain ⟨t₃, run, reaches⟩ := parts.resolved
    refine ⟨made, t₃, run, reaches.trans (advances₂.edits.trans last.edits), ?_⟩
    simp only [Decl.callable?, kind₄, Option.map_some]

end Signature

end Deferral
