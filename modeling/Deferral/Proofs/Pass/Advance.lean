import Deferral.Proofs.Constant.Defining

/-!
# Steps of a pass

A pass is made of steps that edit the table and let everything that was active or in progress be so
again afterwards. Most steps leave the bodies of functions and the members of classes where they
are.
-/

namespace Deferral

namespace Decl

/-- The body of a function; nothing else has one. -/
def body (d : Decl) : Body := (d.callable?.map (·.body)).getD .absent

theorem body_of_kind {d : Decl} {sort : CallableSort} {c : Callable}
    (kind : d.kind = .callable sort c) : d.body = c.body := by
  simp [body, callable?, kind]

theorem declares_eq (d : Decl) :
    d.declares = d.body.declares ++ Stmt.declaresIn (d.members?.getD []) := by
  unfold declares body callable? members?
  cases d.kind <;> simp [Body.declares, Stmt.declaresIn]

/-- Neither a function nor a class. -/
def IsBare (d : Decl) : Prop :=
  match d.kind with
  | .callable _ _ | .classDecl _ _ _ => False
  | _ => True

theorem IsBare.body {d : Decl} (h : d.IsBare) : d.body = .absent := by
  unfold IsBare at h
  unfold Decl.body callable?
  split at h <;> simp_all

theorem IsBare.members {d : Decl} (h : d.IsBare) : d.members? = none := by
  unfold IsBare at h
  unfold members?
  split at h <;> simp_all

theorem IsBare.declares {d : Decl} (h : d.IsBare) : d.declares = [] := by
  rw [declares_eq, h.body, h.members]
  rfl

theorem Evolves.isBare {d d' : Decl} (h : d.Evolves d') (bare : d.IsBare) : d'.IsBare := by
  have evolves := h.kind
  unfold IsBare at bare ⊢
  generalize d.kind = k at evolves bare
  generalize d'.kind = k' at evolves
  cases evolves <;> simp_all

theorem isBare_of_isConstant {d : Decl} (constant : d.isConstant = true) : d.IsBare := by
  unfold isConstant at constant
  unfold IsBare
  split at constant <;> simp_all

@[simp] theorem body_withTypeIn (d : Decl) (slot : TypeSlot) (type : Ty) :
    (d.withTypeIn slot type).body = d.body := by
  unfold withTypeIn
  split <;> simp_all [body, callable?]

@[simp] theorem members?_withTypeIn (d : Decl) (slot : TypeSlot) (type : Ty) :
    (d.withTypeIn slot type).members? = d.members? := by
  unfold withTypeIn
  split <;> simp_all [members?]

@[simp] theorem members?_mapCallable (d : Decl) (f : Callable → Callable) :
    (d.mapCallable f).members? = d.members? := by
  unfold mapCallable
  split <;> simp_all [members?]

theorem body_mapCallable {f : Callable → Callable} (same : ∀ c, (f c).body = c.body) (d : Decl) :
    (d.mapCallable f).body = d.body := by
  unfold mapCallable
  split <;> simp_all [body, callable?]

@[simp] theorem body_mapMembers (d : Decl) (f : List Stmt → List Stmt) :
    (d.mapMembers f).body = d.body := by
  unfold mapMembers
  split <;> simp_all [body, callable?]

end Decl

namespace SymbolTable

variable {t t' t'' : SymbolTable}

/-! ## What is inside functions and classes -/

theorem declares_eq (t : SymbolTable) (id : DeclId) :
    (t.decl id).declares = (t.decl id).body.declares ++ Stmt.declaresIn (t.members id) :=
  (t.decl id).declares_eq

/-- Bodies and members stay as they are. -/
structure Keeps (t t' : SymbolTable) : Prop where
  body : ∀ id, (t'.decl id).body = (t.decl id).body
  members : ∀ id, t'.members id = t.members id

namespace Keeps

theorem refl (t : SymbolTable) : t.Keeps t := ⟨fun _ => rfl, fun _ => rfl⟩

theorem trans (h : t.Keeps t') (h' : t'.Keeps t'') : t.Keeps t'' :=
  ⟨fun id => (h'.body id).trans (h.body id), fun id => (h'.members id).trans (h.members id)⟩

theorem declares (h : t.Keeps t') (id : DeclId) :
    (t'.decl id).declares = (t.decl id).declares := by
  rw [declares_eq, declares_eq, h.body, h.members]

theorem of_decls (same : t'.decls = t.decls) : t.Keeps t' :=
  ⟨fun id => by simp [decl, same], fun id => by simp [SymbolTable.members, decl, same]⟩

/-- Declarations that are the same or neither functions nor classes. -/
theorem of_same_or_bare
    (h : ∀ id, t'.decl id = t.decl id ∨ (t.decl id).IsBare ∧ (t'.decl id).IsBare) : t.Keeps t' := by
  constructor
  · intro id
    rcases h id with same | ⟨bare, bare'⟩
    · rw [same]
    · rw [bare.body, bare'.body]
  · intro id
    unfold SymbolTable.members
    rcases h id with same | ⟨bare, bare'⟩
    · rw [same]
    · rw [bare.members, bare'.members]

theorem modifyDecl {id : DeclId} {f : Decl → Decl} (body : (f (t.decl id)).body = (t.decl id).body)
    (members : (f (t.decl id)).members? = (t.decl id).members?) :
    t.Keeps (t.modifyDecl id f) := by
  constructor
  · intro other
    rw [decl_modifyDecl]
    split
    · rename_i same
      rw [same.1, body]
    · rfl
  · intro other
    unfold SymbolTable.members
    rw [decl_modifyDecl]
    split
    · rename_i same
      rw [same.1, members]
    · rfl

/-- A function changes in parts other than its body. -/
theorem mapCallable (t : SymbolTable) (id : DeclId) {f : Callable → Callable}
    (body : ∀ c, (f c).body = c.body) : t.Keeps (t.modifyDecl id (·.mapCallable f)) :=
  .modifyDecl (Decl.body_mapCallable body _) (by simp)

theorem addTypeParameter (t : SymbolTable) (scope : ScopeId) (position : Position) (count : Nat) :
    t.Keeps (Signature.addTypeParameter scope position count t) := by
  refine .of_same_or_bare fun id => ?_
  unfold Signature.addTypeParameter
  by_cases lt : id.index < t.decls.size
  · exact .inl (decl_addUnnamed_of_lt lt _)
  · have outside : t.decls.size ≤ id.index := by omega
    refine .inr ⟨by simp [Decl.IsBare, kind_eq_typeParameter outside], ?_⟩
    by_cases next : id = t.nextDecl
    · rw [next, decl_addUnnamed_nextDecl]
      trivial
    · have beyond : (t.addUnnamed ⟨"T" ++ count.repr, .typeParameter, scope,
          .point position⟩).decls.size ≤ id.index := by
        have ne : id.index ≠ t.decls.size := fun same => next (congrArg DeclId.mk same)
        simp only [addUnnamed, Array.size_push]
        omega
      simp [Decl.IsBare, kind_eq_typeParameter beyond]

end Keeps

theorem Evolves.isBare (h : t.Evolves t') {id : DeclId} (lt : id.index < t.decls.size)
    (bare : (t.decl id).IsBare) : (t'.decl id).IsBare :=
  (h.decls id lt).isBare bare

/-- Settling keeps what is inside functions and classes, apart from the declaration settled. -/
theorem Settles.same_or_bare {own : Option DeclId} (h : Settles own t t') {id : DeclId}
    (other : some id ≠ own ∨ (t.decl id).IsBare) :
    t'.decl id = t.decl id ∨ (t.decl id).IsBare ∧ (t'.decl id).IsBare := by
  by_cases lt : id.index < t.decls.size
  · cases constant : (t.decl id).isConstant with
    | true =>
      have bare := Decl.isBare_of_isConstant constant
      exact .inr ⟨bare, h.evolves.isBare lt bare⟩
    | false =>
      rcases other with other | bare
      · exact .inl (h.others id constant other)
      · exact .inr ⟨bare, h.evolves.isBare lt bare⟩
  · have outside : t.decls.size ≤ id.index := by omega
    exact .inl (by rw [decl_eq_default outside, decl_eq_default (h.size ▸ outside)])

theorem Settles.keeps {own : Option DeclId} (h : Settles own t t')
    (bare : ∀ id, own = some id → (t.decl id).IsBare) : t.Keeps t' := by
  refine .of_same_or_bare fun id => h.same_or_bare ?_
  by_cases same : own = some id
  · exact .inr (bare id same)
  · exact .inl fun eq => same eq.symm

/-- Resolving a type keeps what is inside functions and classes. -/
theorem Settles.keeps_of_slotted {id : DeclId} {slot : TypeSlot} (h : Settles (some id) t t')
    (slotted : Resolution.Slotted id slot t t') : t.Keeps t' := by
  obtain ⟨type', type, t₁, settles, -, -, put⟩ := slotted.put
  have keeps := settles.keeps (by simp)
  have others : ∀ other, other ≠ id → t'.decl other = t.decl other ∨
      (t.decl other).IsBare ∧ (t'.decl other).IsBare :=
    fun other ne => h.same_or_bare (.inl (by simpa using ne))
  constructor
  · intro other
    by_cases same : other = id
    · rw [same, put, Decl.body_withTypeIn, keeps.body]
    · rcases others other same with same | ⟨bare, bare'⟩
      · rw [same]
      · rw [bare.body, bare'.body]
  · intro other
    have members := keeps.members other
    unfold SymbolTable.members at members ⊢
    by_cases same : other = id
    · subst same
      rw [put, Decl.members?_withTypeIn, members]
    · rcases others other same with same | ⟨bare, bare'⟩
      · rw [same]
      · rw [bare.members, bare'.members]

/-! ## Steps -/

/-- What a step of a pass does to a table: edits, after which the same scopes are saved and active
and the same constants are being computed. All that is declared on the way are type parameters. -/
structure Advances (t t' : SymbolTable) : Prop where
  edits : t.Reaches t'
  evolves : t.Evolves t'
  saved : t'.saved = t.saved
  active : t'.active = t.active
  binding : t'.binding = t.binding
  added : ∀ id, t.decls.size ≤ id.index → (t'.decl id).kind = .typeParameter

namespace Advances

theorem refl (t : SymbolTable) : t.Advances t :=
  ⟨.refl t, .refl t, rfl, rfl, rfl, fun _ => kind_eq_typeParameter⟩

theorem sound (h : t.Advances t') (sound : t.Sound) : t'.Sound := h.edits.sound sound

theorem trans (h : t.Advances t') (h' : t'.Advances t'') : t.Advances t'' where
  edits := h.edits.trans h'.edits
  evolves := h.evolves.trans h'.evolves
  saved := h'.saved.trans h.saved
  active := h'.active.trans h.active
  binding := h'.binding.trans h.binding
  added := fun id outside => by
    by_cases lt : id.index < t'.decls.size
    · have evolves := (h'.evolves.decls id lt).kind
      rw [h.added id outside] at evolves
      generalize (t''.decl id).kind = k at evolves ⊢
      cases evolves
      rfl
    · exact h'.added id (by omega)

theorem of_settles {own : Option DeclId} (h : Settles own t t') : t.Advances t' :=
  ⟨h.edits, h.evolves, h.saved, h.active, h.binding,
    fun _ outside => kind_eq_typeParameter (h.size ▸ outside)⟩

theorem of_edit (sound : t.Sound) (edit : t.Edit t') (size : t'.decls.size = t.decls.size)
    (saved : t'.saved = t.saved) (active : t'.active = t.active)
    (binding : t'.binding = t.binding) : t.Advances t' :=
  ⟨edit.reaches, edit.evolves sound, saved, active, binding,
    fun _ outside => kind_eq_typeParameter (size ▸ outside)⟩

/-- A change of one declaration. -/
theorem of_modifyDecl (sound : t.Sound) {id : DeclId} {f : Decl → Decl}
    (edit : t.Edit (t.modifyDecl id f)) : t.Advances (t.modifyDecl id f) :=
  .of_edit sound edit (by simp) rfl rfl rfl

theorem addTypeParameter (sound : t.Sound) (scope : ScopeId) (position : Position) (count : Nat) :
    t.Advances (Signature.addTypeParameter scope position count t) := by
  have edit := Edit.addTypeParameter (t := t) scope position count
  refine ⟨edit.reaches, edit.evolves sound, rfl, rfl, rfl, fun id outside => ?_⟩
  unfold Signature.addTypeParameter
  by_cases next : id = t.nextDecl
  · rw [next, decl_addUnnamed_nextDecl]
  · refine kind_eq_typeParameter ?_
    have ne : id.index ≠ t.decls.size := fun same => next (congrArg DeclId.mk same)
    simp only [addUnnamed, Array.size_push]
    omega

/-- What is done under a scope is done once the scope is left. -/
theorem leave {scope : ScopeId} (h : (t.enter scope).Advances t') : t.Advances t'.leave := by
  have entered : t.Evolves (t.enter scope) := .of_same rfl rfl
  exact ⟨(Edit.reaches (.enter scope)).trans (h.edits.trans (Edit.reaches .leave)),
    (entered.trans h.evolves).trans (.of_same rfl rfl), h.saved, congrArg List.tail h.active,
    h.binding, h.added⟩

theorem scopeOf? (h : t.Advances t') (owner : ScopeOwner) :
    t'.scopeOf? owner = t.scopeOf? owner := by
  simp only [SymbolTable.scopeOf?, h.saved]

/-- What is an extension stays one, and nothing becomes one. -/
theorem isExtension (h : t.Advances t') (id : DeclId) :
    (t'.decl id).isExtension = (t.decl id).isExtension := by
  by_cases lt : id.index < t.decls.size
  · have evolves := (h.evolves.decls id lt).kind
    unfold Decl.isExtension
    generalize (t.decl id).kind = k at evolves
    generalize (t'.decl id).kind = k' at evolves
    cases evolves with
    | @classDecl sort _ _ _ _ => cases sort <;> rfl
    | _ => rfl
  · have outside : t.decls.size ≤ id.index := by omega
    simp [Decl.isExtension, h.added id outside, kind_eq_typeParameter outside]

end Advances

end SymbolTable

end Deferral
