import Deferral.Proofs.Phrase.Outline
import Deferral.Proofs.Table.Contents
import Deferral.Proofs.Table.Edit

/-!
# Furnished tables

Whatever a pass asks of a table is there: scopes have been saved for all functions, classes and blocks,
the statements in them name declarations that statements can name, and the parameters of functions are
parameters. Reading and passing never take any of it away.
-/

namespace Deferral

/-! ## Expressions that have been read -/

mutual

/-- Nothing in a tree is still an excerpt. -/
def Outline.isRead : Outline → Bool
  | .excerpt _ => false
  | .literal _ | .name _ => true
  | .unary _ operand => operand.isRead
  | .binary _ left right => left.isRead && right.isRead
  | .assign target value => target.isRead && value.isRead
  | .call callee arguments => callee.isRead && allRead arguments

def Outline.allRead : List Outline → Bool
  | [] => true
  | o :: rest => o.isRead && allRead rest

end

/-- An expression that has been read, with everything in it. -/
def Expr.IsRead (e : Expr) : Prop := e.outline.isRead = true

/-- An expression that has been read, or not been looked into at all. -/
def Expr.IsWhole (e : Expr) : Prop := e.excerpt?.isSome = true ∨ e.IsRead

namespace Phrase

mutual

/-- What is read is read in full. -/
theorem isRead_of_outline? : ∀ {p : Phrase} {o : Outline}, p.outline? = some o → o.isRead = true
  | .number t, o, h => by
    obtain ⟨value, -, rfl⟩ := Option.map_eq_some_iff.mp h
    rfl
  | .truth value _, o, h => by
    obtain rfl := Option.some.inj h
    rfl
  | .name t, o, h => by
    obtain rfl := Option.some.inj h
    rfl
  | .unary op _ operand, o, h => by
    obtain ⟨e, read, same⟩ := Option.bind_eq_some_iff.mp h
    obtain rfl := Option.some.inj same
    have inner := isRead_of_outline? read
    exact inner
  | .binary op left right, o, h => by
    obtain ⟨l, readLeft, rest⟩ := Option.bind_eq_some_iff.mp h
    obtain ⟨r, readRight, same⟩ := Option.bind_eq_some_iff.mp rest
    obtain rfl := Option.some.inj same
    simp [Outline.isRead, isRead_of_outline? readLeft, isRead_of_outline? readRight]
  | .assign target value, o, h => by
    obtain ⟨t, readTarget, rest⟩ := Option.bind_eq_some_iff.mp h
    obtain ⟨v, readValue, same⟩ := Option.bind_eq_some_iff.mp rest
    obtain rfl := Option.some.inj same
    simp [Outline.isRead, isRead_of_outline? readTarget, isRead_of_outline? readValue]
  | .call callee arguments _, o, h => by
    obtain ⟨f, readCallee, rest⟩ := Option.bind_eq_some_iff.mp h
    obtain ⟨es, readArguments, same⟩ := Option.bind_eq_some_iff.mp rest
    obtain rfl := Option.some.inj same
    simp [Outline.isRead, isRead_of_outline? readCallee, allRead_of_outlines? readArguments]

theorem allRead_of_outlines? : ∀ {ps : List Phrase} {os : List Outline}, outlines? ps = some os →
    Outline.allRead os = true
  | [], os, h => by
    obtain rfl := Option.some.inj h
    rfl
  | p :: rest, os, h => by
    obtain ⟨o, read, more⟩ := Option.bind_eq_some_iff.mp h
    obtain ⟨others, readRest, same⟩ := Option.bind_eq_some_iff.mp more
    obtain rfl := Option.some.inj same
    simp [Outline.allRead, isRead_of_outline? read, allRead_of_outlines? readRest]

end

end Phrase

/-! ## What a table is furnished with -/

/-- A declaration that a statement may name. -/
def Decl.IsStated (d : Decl) : Prop := d.subject ≠ .parameter ∧ d.subject ≠ .typeParameter

namespace SymbolTable

/-- A scope has been saved for an owner. -/
def Saves (t : SymbolTable) (owner : ScopeOwner) : Prop := (t.scopeOf? owner).isSome = true

/-- What statements with some blocks and declarations in them take for granted. -/
structure Knows (t : SymbolTable) (blocks : List Nat) (ids : List DeclId) : Prop where
  blocks : ∀ b ∈ blocks, t.Saves (.block b)
  stated : ∀ id ∈ ids, (t.decl id).IsStated

@[simp] theorem knows_nil (t : SymbolTable) : t.Knows [] [] :=
  ⟨by simp, by simp⟩

theorem knows_append {t : SymbolTable} {blocks blocks' : List Nat} {ids ids' : List DeclId} :
    t.Knows (blocks ++ blocks') (ids ++ ids') ↔ t.Knows blocks ids ∧ t.Knows blocks' ids' := by
  constructor
  · rintro ⟨saved, stated⟩
    obtain ⟨left, right⟩ := List.forall_mem_append.mp saved
    obtain ⟨left', right'⟩ := List.forall_mem_append.mp stated
    exact ⟨⟨left, left'⟩, ⟨right, right'⟩⟩
  · rintro ⟨⟨left, left'⟩, ⟨right, right'⟩⟩
    exact ⟨List.forall_mem_append.mpr ⟨left, right⟩, List.forall_mem_append.mpr ⟨left', right'⟩⟩

end SymbolTable

/-- What the body of a function takes for granted. -/
def Body.Furnished (t : SymbolTable) (id : DeclId) : Body → Prop
  | .absent => True
  | .statement s => t.Knows s.blocks s.declares
  | .expression _ => t.Saves (.body id)

/-- What a declaration takes for granted. -/
def Declared.Furnished (t : SymbolTable) (id : DeclId) : Declared → Prop
  | .object _ _ initializer => ∀ e, initializer = some e → e.IsWhole
  | .callable _ c => t.Saves (.decl id) ∧ (∀ p ∈ c.parameters, (t.decl p).subject = .parameter) ∧
      c.body.Furnished t id
  | .classDecl _ _ body => t.Saves (.decl id) ∧
      t.Knows (Stmt.blocksIn body) (Stmt.declaresIn body)
  | .parameter _ | .super _ | .typeParameter => True

namespace SymbolTable

/-- Every declaration finds what it takes for granted. -/
def Furnished (t : SymbolTable) : Prop := ∀ id, (t.decl id).kind.Furnished t id

/-- What every change keeps: declarations stay what they are, and scopes that were saved can be
found. -/
structure Retains (t t' : SymbolTable) : Prop where
  size : t.decls.size ≤ t'.decls.size
  subject : ∀ id, id.index < t.decls.size → (t'.decl id).subject = (t.decl id).subject
  saves : ∀ owner, t.Saves owner → t'.Saves owner

variable {t t' t'' : SymbolTable} {id : DeclId}

namespace Retains

theorem refl (t : SymbolTable) : t.Retains t := ⟨Nat.le_refl _, fun _ _ => rfl, fun _ h => h⟩

theorem trans (h : t.Retains t') (h' : t'.Retains t'') : t.Retains t'' where
  size := Nat.le_trans h.size h'.size
  subject id lt := (h'.subject id (Nat.lt_of_lt_of_le lt h.size)).trans (h.subject id lt)
  saves owner saved := h'.saves owner (h.saves owner saved)

/-- A declaration that is no type parameter has been made, and stays what it is. -/
theorem subject_eq (h : t.Retains t') (made : (t.decl id).subject ≠ .typeParameter) :
    (t'.decl id).subject = (t.decl id).subject := by
  refine h.subject id (lt_size_of_kind fun absent => made ?_)
  simp [Decl.subject, absent]

theorem isStated (h : t.Retains t') (stated : (t.decl id).IsStated) : (t'.decl id).IsStated := by
  unfold Decl.IsStated at stated ⊢
  rwa [h.subject_eq stated.2]

theorem knows (h : t.Retains t') {blocks : List Nat} {ids : List DeclId} (known : t.Knows blocks ids) :
    t'.Knows blocks ids :=
  ⟨fun b member => h.saves _ (known.blocks b member),
    fun id member => h.isStated (known.stated id member)⟩

theorem bodyFurnished (h : t.Retains t') {body : Body} (furnished : body.Furnished t id) :
    body.Furnished t' id := by
  cases body with
  | absent => trivial
  | statement s => exact h.knows furnished
  | expression e => exact h.saves _ furnished

theorem furnished (h : t.Retains t') {k : Declared} (furnished : k.Furnished t id) :
    k.Furnished t' id := by
  cases k with
  | object sort type initializer => exact furnished
  | callable sort c =>
    obtain ⟨saved, parameters, body⟩ := furnished
    refine ⟨h.saves _ saved, fun p member => ?_, h.bodyFurnished body⟩
    have parameter := parameters p member
    rw [h.subject_eq (by rw [parameter]; decide), parameter]
  | classDecl sort kind body => exact ⟨h.saves _ furnished.1, h.knows furnished.2⟩
  | parameter | super | typeParameter => trivial

theorem of_same (decls : t'.decls = t.decls) (saved : t'.saved = t.saved) : t.Retains t' where
  size := Nat.le_of_eq (by rw [decls])
  subject id _ := by simp [decl, decls]
  saves owner known := by simpa [Saves, scopeOf?, saved] using known

theorem enter (h : t.Retains t') (scope : ScopeId) : t.Retains (t'.enter scope) :=
  h.trans (.of_same rfl rfl)

theorem leave (h : t.Retains t') : t.Retains t'.leave := h.trans (.of_same rfl rfl)

end Retains

theorem Knows.enter {blocks : List Nat} {ids : List DeclId} (known : t.Knows blocks ids)
    (scope : ScopeId) : (t.enter scope).Knows blocks ids := ((Retains.refl t).enter scope).knows known

theorem Knows.leave {blocks : List Nat} {ids : List DeclId} (known : t.Knows blocks ids) :
    t.leave.Knows blocks ids := (Retains.refl t).leave.knows known

/-- A table is furnished still when nothing but scopes, values and what is in progress has changed. -/
theorem Furnished.of_same (furnished : t.Furnished) (decls : t'.decls = t.decls)
    (saved : t'.saved = t.saved) : t'.Furnished := fun id => by
  simpa [decl, decls] using (Retains.of_same decls saved).furnished (furnished id)

/-- What every step of reading and passing does: it retains everything and leaves the table furnished,
and the same constants are being computed as before. -/
structure Upholds (t t' : SymbolTable) : Prop where
  retains : t.Retains t'
  furnished : t'.Furnished
  binding : t'.binding = t.binding

namespace Upholds

theorem refl (furnished : t.Furnished) : t.Upholds t := ⟨.refl t, furnished, rfl⟩

theorem trans (h : t.Upholds t') (h' : t'.Upholds t'') : t.Upholds t'' :=
  ⟨h.retains.trans h'.retains, h'.furnished, h'.binding.trans h.binding⟩

/-- A change of nothing but scopes, values and what is active. -/
theorem of_same (furnished : t.Furnished) (decls : t'.decls = t.decls) (saved : t'.saved = t.saved)
    (binding : t'.binding = t.binding) : t.Upholds t' :=
  ⟨.of_same decls saved, furnished.of_same decls saved, binding⟩

/-- A change of one declaration, which stays what it is. -/
theorem modifyDecl (furnished : t.Furnished) {f : Decl → Decl}
    (subject : (f (t.decl id)).subject = (t.decl id).subject)
    (new : (f (t.decl id)).kind.Furnished t id) : t.Upholds (t.modifyDecl id f) := by
  have retains : t.Retains (t.modifyDecl id f) := by
    refine ⟨Nat.le_of_eq (by simp), fun other _ => ?_, fun _ h => h⟩
    rw [decl_modifyDecl]
    split
    · rename_i same
      rw [same.1, subject]
    · rfl
  refine ⟨retains, fun other => retains.furnished ?_, rfl⟩
  rw [decl_modifyDecl]
  split
  · rename_i same
    exact same.1 ▸ new
  · exact furnished other

theorem addUnnamed (furnished : t.Furnished) {d : Decl} (new : d.kind.Furnished t t.nextDecl) :
    t.Upholds (t.addUnnamed d) := by
  have retains : t.Retains (t.addUnnamed d) := by
    refine ⟨by simp [SymbolTable.addUnnamed], fun other lt => ?_, fun _ h => h⟩
    rw [decl_addUnnamed_of_lt lt]
  refine ⟨retains, fun other => retains.furnished ?_, rfl⟩
  by_cases lt : other.index < t.decls.size
  · rw [decl_addUnnamed_of_lt lt]
    exact furnished other
  · by_cases next : other = t.nextDecl
    · rw [next, decl_addUnnamed_nextDecl]
      exact new
    · have ne : other.index ≠ t.decls.size := fun same => next (congrArg DeclId.mk same)
      rw [kind_eq_typeParameter (by simp only [SymbolTable.addUnnamed, Array.size_push]; omega)]
      trivial

theorem assignScope (furnished : t.Furnished) (owner : ScopeOwner) (scope : ScopeId) :
    t.Upholds (t.assignScope owner scope) := by
  have retains : t.Retains (t.assignScope owner scope) := by
    refine ⟨Nat.le_refl _, fun _ _ => rfl, fun other saved => ?_⟩
    by_cases same : other = owner
    · simp [Saves, same]
    · rw [Saves, scopeOf?_assignScope_of_ne same]
      exact saved
  exact ⟨retains, fun id => retains.furnished (furnished id), rfl⟩

end Upholds

/-! ## Changes of what declarations are made of -/

theorem subject_withTypeIn (d : Decl) (slot : TypeSlot) (type : Ty) :
    (d.withTypeIn slot type).subject = d.subject := by
  obtain ⟨_, ⟨_ | _, _, _ | _⟩ | _ | _ | ⟨_ | _, _⟩ | ⟨_ | _, _, _⟩ | _, _, _⟩ := d <;> cases slot <;> rfl

theorem subject_mapCallable (d : Decl) (f : Callable → Callable) :
    (d.mapCallable f).subject = d.subject := by
  obtain ⟨_, ⟨_ | _, _, _ | _⟩ | _ | _ | ⟨_ | _, _⟩ | ⟨_ | _, _, _⟩ | _, _, _⟩ := d <;> rfl

theorem subject_mapMembers (d : Decl) (f : List Stmt → List Stmt) :
    (d.mapMembers f).subject = d.subject := by
  obtain ⟨_, ⟨_ | _, _, _ | _⟩ | _ | _ | ⟨_ | _, _⟩ | ⟨_ | _, _, _⟩ | _, _, _⟩ := d <;> rfl

theorem subject_withInitializer (d : Decl) (e : Expr) : (d.withInitializer e).subject = d.subject := by
  obtain ⟨_, ⟨_ | _, _, _ | _⟩ | _ | _ | ⟨_ | _, _⟩ | ⟨_ | _, _, _⟩ | _, _, _⟩ := d <;> rfl

theorem Upholds.withTypeIn (furnished : t.Furnished) (id : DeclId) (slot : TypeSlot) (type : Ty) :
    t.Upholds (t.modifyDecl id (·.withTypeIn slot type)) := by
  refine .modifyDecl furnished (subject_withTypeIn ..) ?_
  have old := furnished id
  unfold Decl.withTypeIn
  split <;> simp_all [Declared.Furnished]

/-- A function changes in parts other than its parameters and its body. -/
theorem Upholds.mapCallable (furnished : t.Furnished) (id : DeclId) {f : Callable → Callable}
    (parameters : ∀ c, (f c).parameters = c.parameters) (body : ∀ c, (f c).body = c.body) :
    t.Upholds (t.modifyDecl id (·.mapCallable f)) := by
  refine .modifyDecl furnished (subject_mapCallable ..) ?_
  have old := furnished id
  unfold Decl.mapCallable
  split <;> simp_all [Declared.Furnished]

theorem Upholds.withBody (furnished : t.Furnished) {body : Body} (new : body.Furnished t id) :
    t.Upholds (Signature.withBody t id body) := by
  refine .modifyDecl furnished (subject_mapCallable ..) ?_
  have old := furnished id
  unfold Decl.mapCallable
  split <;> simp_all [Declared.Furnished]

theorem Upholds.withoutBody (furnished : t.Furnished) (id : DeclId) :
    t.Upholds (Signature.withoutBody t id) := Upholds.withBody furnished trivial

theorem Furnished.members (furnished : t.Furnished) (id : DeclId) :
    t.Knows (Stmt.blocksIn (t.members id)) (Stmt.declaresIn (t.members id)) := by
  have old := furnished id
  unfold SymbolTable.members Decl.members?
  split
  · rename_i kind
    rw [kind] at old
    exact old.2
  · exact knows_nil t

theorem Upholds.mapMembers (furnished : t.Furnished) {f : List Stmt → List Stmt}
    (new : t.Knows (Stmt.blocksIn (f (t.members id))) (Stmt.declaresIn (f (t.members id)))) :
    t.Upholds (t.modifyDecl id (·.mapMembers f)) := by
  refine .modifyDecl furnished (subject_mapMembers ..) ?_
  have old := furnished id
  rcases (t.decl id).mapMembers_cases f with ⟨sort, kind, body, before, after⟩ | same
  · rw [after]
    rw [before] at old
    refine ⟨old.1, ?_⟩
    simpa [SymbolTable.members, Decl.members?, before] using new
  · rw [same]
    exact old

theorem Upholds.withInitializer (furnished : t.Furnished) (id : DeclId) {e : Expr} (read : e.IsRead) :
    t.Upholds (t.modifyDecl id (·.withInitializer e)) := by
  refine .modifyDecl furnished (subject_withInitializer ..) ?_
  have old := furnished id
  unfold Decl.withInitializer
  split
  · exact fun _ same => Option.some.inj same ▸ .inr read
  · exact old

end SymbolTable

end Deferral
