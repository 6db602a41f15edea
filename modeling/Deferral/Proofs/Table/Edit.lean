import Mathlib.Logic.Relation
import Deferral.Proofs.Table.Sound
import Deferral.Unit.Extension

/-!
# Edits of the symbol table

Everything that reading and resolving do to a symbol table is a sequence of edits, each of which is
made only where it may be. Edits keep tables sound and let declarations only become known.
-/

namespace Deferral

/-- What is declared when a declaration has been read: its types and expressions are set aside. -/
def Declared.IsUnread : Declared → Prop
  | .object sort type initializer =>
    type.isDeferred = true ∧ (∀ e, initializer = some e → e.excerpt?.isSome = true) ∧
      (sort = .constant → initializer.isSome = true)
  | .parameter type | .super type => type.isDeferred = true
  | .callable _ c => c = .announced
  | .classDecl _ kind body => (kind.isDeferred = true ∨ kind = .metatype) ∧ body = []
  | .typeParameter => False

/-- A parameter has not been resolved: its type is still an excerpt. -/
def Decl.IsUnreadParameter (d : Decl) : Prop := ∃ excerpt, d.kind = .parameter (.deferred excerpt)

theorem Decl.isUnreadParameter_of_kind {d : Decl} {type : Ty} (kind : d.kind = .parameter type)
    (deferred : type.isDeferred = true) : d.IsUnreadParameter := by
  cases type with
  | deferred excerpt => exact ⟨excerpt, kind⟩
  | _ => cases deferred

/-- A function whose parts have been read, and set aside. -/
structure Callable.IsUnread (t : SymbolTable) (c : Callable) : Prop where
  parameters : ∀ id ∈ c.parameters, (t.decl id).IsUnreadParameter
  result : c.result.isDeferred = true ∨ c.result = .auto ∨ c.result = .void
  type : c.type = .auto
  body : ∀ e ∈ c.body.expressions, e.excerpt?.isSome = true
  typeParameters : c.typeParameters = []

theorem Declared.IsUnread.sound {t : SymbolTable} {k : Declared} (h : k.IsUnread) : k.Sound t := by
  cases k with
  | object sort type initializer =>
    obtain ⟨deferred, unread, initialized⟩ := h
    refine ⟨.inl deferred, initialized, fun e same read => ?_⟩
    have deferred := unread e same
    rw [read] at deferred
    cases deferred
  | parameter type => exact .inl h
  | super type => exact .inl h
  | callable sort c =>
    obtain rfl : c = .announced := h
    exact ⟨by simp [Callable.announced], .inr trivial, .inl rfl,
      by simp [Callable.announced, Body.expressions]⟩
  | classDecl sort kind body =>
    obtain ⟨kind, rfl⟩ := h
    refine ⟨?_, by simp [Stmt.expressionsIn]⟩
    rcases kind with deferred | rfl
    · exact .inl deferred
    · exact .inr trivial
  | typeParameter => exact h.elim

/-- One change of a symbol table. -/
inductive SymbolTable.Edit (t : SymbolTable) : SymbolTable → Prop
  | enter (id : ScopeId) : Edit t (t.enter id)
  | leave : Edit t t.leave
  | openScope : Edit t (t.addScope t.innermost)
  | saveScope (owner : ScopeOwner) :
      Edit t ((t.addScope t.innermost).assignScope owner t.nextScope)
  | takeBlock : Edit t t.takeBlock
  | startBinding {id : DeclId} : id ∉ t.binding → t.constant? id = none →
      Edit t { t with binding := id :: t.binding }
  | finishBinding (id : DeclId) : Edit t (t.finishBinding id)
  | bindName (scope : ScopeId) (name : String) (id : DeclId) : Edit t (t.bindName scope name id)
  | keepOnly (scope : ScopeId) (name : String) :
      Edit t (t.keepOnly scope name fun d => !d.isExtension)
  | declare {d : Decl} : d.kind.IsUnread → d.scope = t.innermost → Edit t (t.declare d)
  | addTypeParameter (scope : ScopeId) (position : Position) (count : Nat) :
      Edit t (Signature.addTypeParameter scope position count t)
  | completeCallable {id : DeclId} {sort : CallableSort} {c : Callable} (span : Span) :
      (t.decl id).kind = .callable sort .announced → c.IsUnread t →
      Edit t (t.modifyDecl id fun d => { d.mapCallable (fun _ => c) with span })
  | completeClass {id : DeclId} {body : List Stmt} (span : Span) :
      t.members id = [] → (∀ e ∈ Stmt.expressionsIn body, e.excerpt?.isSome = true) →
      Edit t (t.modifyDecl id fun d => { d.mapMembers (fun _ => body) with span })
  | resolve {id : DeclId} {slot : TypeSlot} {type type' : Ty} :
      (t.decl id).typeIn? slot = some type → type.isDeferred = true → type'.Normal →
      Edit t (t.modifyDecl id (·.withTypeIn slot type'))
  | deduce {id : DeclId} {sort : ObjectSort} {type type' : Ty} {e : Expr} :
      (t.decl id).kind = .object sort type (some e) → type.isPlaceholder = true →
      (e.excerpt? = none → type' = type) → type'.Normal →
      Edit t (t.modifyDecl id (·.withTypeIn .declared type'))
  | define {id : DeclId} {type : Ty} {e e' : Expr} :
      (t.decl id).kind = .object .var type (some e) → e'.Initializes t type →
      Edit t (t.modifyDecl id (·.withInitializer e'))
  | store {id : DeclId} {type : Ty} {e e' : Expr} {v : Constant} :
      (t.decl id).kind = .object .constant type (some e) → t.constant? id = none →
      e'.Initializes t type → e'.value? t.constant? = some v →
      Edit t ((t.setConstant id v).modifyDecl id (·.withInitializer e'))
  | promote {id : DeclId} {type : Ty} (parameter : DeclId) (name : String) :
      (t.decl id).kind = .parameter type → type.Normal →
      Edit t (t.modifyDecl id
        (·.withTypeIn .declared
          (Signature.replaceAuto (.named .typeParameter parameter name) type)))
  | rebuild {id : DeclId} {sort : CallableSort} {c : Callable} :
      (t.decl id).kind = .callable sort c → (∀ p ∈ c.parameters, (t.decl p).IsSettledParameter) →
      c.result.Normal → Edit t (Signature.rebuildType t id)
  | addTypeParameters (id : DeclId) (made : List DeclId) :
      Edit t (t.modifyDecl id
        (·.mapCallable fun c => { c with typeParameters := c.typeParameters ++ made }))
  | setBody (id : DeclId) {body : Body} : (∀ e ∈ body.expressions, e.Sound t) →
      Edit t (Signature.withBody t id body)
  | setMembers (id : DeclId) {body : List Stmt} : (∀ e ∈ Stmt.expressionsIn body, e.Sound t) →
      Edit t (t.modifyDecl id (·.mapMembers fun _ => body))
  | deduceResult {id : DeclId} {sort : CallableSort} {c : Callable} {result : Ty} :
      (t.decl id).kind = .callable sort c → c.Signed t → c.result.isPlaceholder = true →
      result.Normal →
      Edit t (t.modifyDecl id (·.mapCallable fun c =>
        { c with result, type := Signature.signatureType t { c with result } }))
  | absorb (cls extension : DeclId) (inner outer : ScopeId) :
      Edit t (t.absorb cls extension inner outer)

/-! ## Type parameters in place of `auto` -/

namespace Signature

@[simp] theorem isUntyped_toReference (t : Ty) : isUntyped t.toReference = isUntyped t := by
  cases t <;> rfl

@[simp] theorem isUntyped_addQualifiers (t : Ty) (q : Qualifiers) :
    isUntyped (t.addQualifiers q) = isUntyped t := by
  unfold Ty.addQualifiers
  split
  · rfl
  · split <;> simp_all [isUntyped]

theorem replaceAuto_normal {replacement : Ty} (normal : replacement.Normal) :
    ∀ t : Ty, t.Normal → (replaceAuto replacement t).Normal := by
  intro t h
  fun_induction replaceAuto replacement t with
  | case1 => exact normal
  | case2 t ih => exact (ih h.1).toReference
  | case3 t q ih => exact (ih h.1).addQualifiers q
  | case4 => exact h

theorem isUntyped_replaceAuto {replacement : Ty} (typed : isUntyped replacement = false) (t : Ty) :
    isUntyped (replaceAuto replacement t) = false := by
  fun_induction replaceAuto replacement t with
  | case1 => exact typed
  | case2 t ih => simpa using ih
  | case3 t q ih => simpa using ih
  | case4 t other reference qualified => unfold isUntyped; split <;> simp_all

theorem replaceAuto_eq_self {replacement : Ty} :
    ∀ t : Ty, t.Normal → isUntyped t = false → replaceAuto replacement t = t := by
  intro t h typed
  fun_induction replaceAuto replacement t with
  | case1 => cases typed
  | case2 t ih =>
    rw [ih h.1 typed]
    have bare := h.2
    cases t <;> simp_all [Ty.toReference, Ty.isReference]
  | case3 t q ih =>
    rw [ih h.1 typed]
    obtain ⟨-, ⟨reference, qualified⟩, some⟩ := h
    unfold Ty.addQualifiers
    rw [if_neg some]
    cases t <;> simp_all [Ty.isReference, Ty.isQualified]
  | case4 => rfl

end Signature

/-! ## Declarations after one change -/

namespace Decl

@[simp] theorem name_withTypeIn (d : Decl) (slot : TypeSlot) (type : Ty) :
    (d.withTypeIn slot type).name = d.name := by
  unfold withTypeIn
  split <;> rfl

@[simp] theorem scope_withTypeIn (d : Decl) (slot : TypeSlot) (type : Ty) :
    (d.withTypeIn slot type).scope = d.scope := by
  unfold withTypeIn
  split <;> rfl

@[simp] theorem initializer?_withTypeIn (d : Decl) (slot : TypeSlot) (type : Ty) :
    (d.withTypeIn slot type).initializer? = d.initializer? := by
  unfold withTypeIn
  split <;> simp_all [initializer?]

@[simp] theorem name_mapCallable (d : Decl) (f : Callable → Callable) :
    (d.mapCallable f).name = d.name := by
  unfold mapCallable
  split <;> rfl

@[simp] theorem scope_mapCallable (d : Decl) (f : Callable → Callable) :
    (d.mapCallable f).scope = d.scope := by
  unfold mapCallable
  split <;> rfl

@[simp] theorem initializer?_mapCallable (d : Decl) (f : Callable → Callable) :
    (d.mapCallable f).initializer? = d.initializer? := by
  unfold mapCallable
  split <;> simp_all [initializer?]

@[simp] theorem name_mapMembers (d : Decl) (f : List Stmt → List Stmt) :
    (d.mapMembers f).name = d.name := by
  unfold mapMembers
  split <;> rfl

@[simp] theorem scope_mapMembers (d : Decl) (f : List Stmt → List Stmt) :
    (d.mapMembers f).scope = d.scope := by
  unfold mapMembers
  split <;> rfl

@[simp] theorem initializer?_mapMembers (d : Decl) (f : List Stmt → List Stmt) :
    (d.mapMembers f).initializer? = d.initializer? := by
  unfold mapMembers
  split <;> simp_all [initializer?]

@[simp] theorem name_withInitializer (d : Decl) (e : Expr) :
    (d.withInitializer e).name = d.name := by
  unfold withInitializer
  split <;> rfl

@[simp] theorem scope_withInitializer (d : Decl) (e : Expr) :
    (d.withInitializer e).scope = d.scope := by
  unfold withInitializer
  split <;> rfl

variable {d : Decl}

theorem kind_of_callable? {c : Callable} (h : d.callable? = some c) :
    ∃ sort, d.kind = .callable sort c := by
  unfold callable? at h
  split at h
  · rename_i sort _ kind
    exact ⟨sort, Option.some.inj h ▸ kind⟩
  · cases h

theorem kind_mapCallable {sort : CallableSort} {c : Callable} (h : d.kind = .callable sort c)
    (f : Callable → Callable) : (d.mapCallable f).kind = .callable sort (f c) := by
  simp [mapCallable, h]

theorem kind_mapMembers {sort : ClassSort} {kind : Ty} {body : List Stmt}
    (h : d.kind = .classDecl sort kind body) (f : List Stmt → List Stmt) :
    (d.mapMembers f).kind = .classDecl sort kind (f body) := by
  simp [mapMembers, h]

theorem kind_withInitializer {sort : ObjectSort} {type : Ty} {e : Expr}
    (h : d.kind = .object sort type (some e)) (e' : Expr) :
    (d.withInitializer e').kind = .object sort type (some e') := by
  simp [withInitializer, h]

/-- Changes of functions leave every other declaration alone. -/
theorem mapCallable_cases (d : Decl) (f : Callable → Callable) :
    (∃ sort c, d.kind = .callable sort c ∧ (d.mapCallable f).kind = .callable sort (f c)) ∨
      d.mapCallable f = d := by
  cases h : d.kind with
  | callable sort c => exact .inl ⟨sort, c, rfl, kind_mapCallable h f⟩
  | _ => exact .inr (by simp [mapCallable, h])

/-- Changes of members leave every other declaration alone. -/
theorem mapMembers_cases (d : Decl) (f : List Stmt → List Stmt) :
    (∃ sort kind body, d.kind = .classDecl sort kind body ∧
      (d.mapMembers f).kind = .classDecl sort kind (f body)) ∨ d.mapMembers f = d := by
  cases h : d.kind with
  | classDecl sort kind body => exact .inl ⟨sort, kind, body, rfl, kind_mapMembers h f⟩
  | _ => exact .inr (by simp [mapMembers, h])

theorem kind_evolves_mapMembers (d : Decl) (f : List Stmt → List Stmt) :
    d.kind.Evolves (d.mapMembers f).kind := by
  rcases d.mapMembers_cases f with ⟨sort, kind, body, old, new⟩ | same
  · rw [old, new]
    exact .classDecl (.inl rfl) fun known => known
  · rw [same]
    exact .refl _

/-- A type goes into the slot it was found in. -/
theorem withTypeIn_cases {slot : TypeSlot} {type : Ty} (held : d.typeIn? slot = some type)
    (type' : Ty) :
    (∃ sort e, d.kind = .object sort type e ∧
        (d.withTypeIn slot type').kind = .object sort type' e) ∨
      (d.kind = .parameter type ∧ (d.withTypeIn slot type').kind = .parameter type') ∨
      (d.kind = .super type ∧ (d.withTypeIn slot type').kind = .super type') ∨
      (∃ sort c, d.kind = .callable sort c ∧ c.result = type ∧
        (d.withTypeIn slot type').kind = .callable sort { c with result := type' }) ∨
      ∃ sort body, d.kind = .classDecl sort type body ∧
        (d.withTypeIn slot type').kind = .classDecl sort type' body := by
  cases slot <;> cases h : d.kind <;> simp_all [typeIn?, withTypeIn]

end Decl

namespace SymbolTable

variable {t t' : SymbolTable}

/-! ## Tables after one change -/

@[simp] theorem size_modifyDecl (t : SymbolTable) (id : DeclId) (f : Decl → Decl) :
    (t.modifyDecl id f).decls.size = t.decls.size := by
  simp [modifyDecl]

theorem decl_modifyDecl (t : SymbolTable) (id other : DeclId) (f : Decl → Decl) :
    (t.modifyDecl id f).decl other =
      if other = id ∧ id.index < t.decls.size then f (t.decl id) else t.decl other := by
  by_cases same : other = id
  · subst same
    by_cases lt : other.index < t.decls.size
    · rw [decl_modifyDecl_self lt, if_pos ⟨rfl, lt⟩]
    · have outside : t.decls.size ≤ other.index := by omega
      rw [if_neg (fun h => lt h.2), decl_eq_default outside,
        decl_eq_default (by rw [size_modifyDecl]; exact outside)]
  · rw [decl_modifyDecl_of_ne same, if_neg (fun h => same h.1)]

@[simp] theorem constants_modifyDecl (t : SymbolTable) (id : DeclId) (f : Decl → Decl) :
    (t.modifyDecl id f).constants = t.constants := rfl

@[simp] theorem constant?_modifyDecl (t : SymbolTable) (id other : DeclId) (f : Decl → Decl) :
    (t.modifyDecl id f).constant? other = t.constant? other := rfl

@[simp] theorem decl_setConstant (t : SymbolTable) (id other : DeclId) (v : Constant) :
    (t.setConstant id v).decl other = t.decl other := rfl

/-- A change of one declaration in which it only becomes known. -/
theorem Evolves.modifyDecl {id : DeclId} {f : Decl → Decl}
    (evolves : id.index < t.decls.size → (t.decl id).Evolves (f (t.decl id)))
    (initializer : ∀ v, t.constant? id = some v →
      (f (t.decl id)).initializer? = (t.decl id).initializer?) :
    t.Evolves (t.modifyDecl id f) := by
  refine ⟨by simp, fun other lt => ?_, fun other v known => ⟨known, ?_⟩⟩
  · rw [decl_modifyDecl]
    split
    · rename_i same
      obtain ⟨rfl, lt⟩ := same
      exact evolves lt
    · exact .refl _
  · rw [decl_modifyDecl]
    split
    · rename_i same
      obtain ⟨rfl, -⟩ := same
      exact initializer v known
    · rfl

/-- A change of nothing but scopes and of what is in progress. -/
theorem Evolves.of_same (decls : t'.decls = t.decls) (constants : t'.constants = t.constants) :
    t.Evolves t' := by
  have same : ∀ id, t'.decl id = t.decl id := fun id => by simp [decl, decls]
  refine ⟨Nat.le_of_eq (by rw [decls]), fun id _ => ?_, fun id v known => ?_⟩
  · rw [same]
    exact .refl _
  · rw [same]
    exact ⟨by simpa [constant?, constants] using known, rfl⟩

/-- Declarations are added behind those that are there. -/
theorem Sound.evolves_addUnnamed (h : t.Sound) (d : Decl) : t.Evolves (t.addUnnamed d) := by
  refine ⟨by simp [addUnnamed], fun id lt => ?_, fun id v known => ⟨known, ?_⟩⟩
  · rw [decl_addUnnamed_of_lt lt]
    exact .refl _
  · rw [decl_addUnnamed_of_lt (h.lt_size known)]

/-! ## Edits let declarations become known -/

/-- A change of one declaration that leaves its name, its scope and its initializer alone. -/
theorem Evolves.of_kind {id : DeclId} {f : Decl → Decl} (name : (f (t.decl id)).name = (t.decl id).name)
    (scope : (f (t.decl id)).scope = (t.decl id).scope)
    (initializer : (f (t.decl id)).initializer? = (t.decl id).initializer?)
    (kind : (t.decl id).kind.Evolves (f (t.decl id)).kind) : t.Evolves (t.modifyDecl id f) :=
  .modifyDecl (fun _ => ⟨name, scope, kind⟩) fun _ _ => initializer

/-- A type is put into the place of one that was deferred. -/
theorem Evolves.withTypeIn (h : t.Sound) {id : DeclId} {slot : TypeSlot} {type type' : Ty}
    (held : (t.decl id).typeIn? slot = some type) (deferred : type.isDeferred = true)
    (normal : type'.Normal) : t.Evolves (t.modifyDecl id (·.withTypeIn slot type')) := by
  have read := normal.not_deferred
  have sound := h.decls id
  refine .of_kind (by simp) (by simp) (by simp) ?_
  rcases Decl.withTypeIn_cases held type' with
    ⟨sort, e, kind, kind'⟩ | ⟨kind, kind'⟩ | ⟨kind, kind'⟩ | ⟨sort, c, kind, result, kind'⟩ |
      ⟨sort, body, kind, kind'⟩ <;> rw [kind, kind']
  · exact .object (.inr (.inl deferred)) (fun _ => read) rfl fun e same known => ⟨e, same, known⟩
  · exact .parameter (.inr (.inl deferred)) fun _ => read
  · exact .super (.inr deferred) fun _ => read
  · refine .callable (.inl rfl) fun known => ?_
    rw [kind] at sound
    have signed := sound.type.resolve_left known
    rw [← result, signed.result.not_deferred] at deferred
    cases deferred
  · exact .classDecl (.inr deferred) fun _ => read

theorem Evolves.mapMembers (t : SymbolTable) (id : DeclId) (f : List Stmt → List Stmt) :
    t.Evolves (t.modifyDecl id (·.mapMembers f)) :=
  .of_kind (by simp) (by simp) (by simp) (Decl.kind_evolves_mapMembers _ f)

/-- A function changes in parts that its type does not hang on. -/
theorem Evolves.mapCallable (t : SymbolTable) (id : DeclId) {f : Callable → Callable}
    (type : ∀ c, (f c).type = c.type) (parameters : ∀ c, (f c).parameters = c.parameters)
    (result : ∀ c, (f c).result = c.result) :
    t.Evolves (t.modifyDecl id (·.mapCallable f)) := by
  refine .of_kind (by simp) (by simp) (by simp) ?_
  rcases (t.decl id).mapCallable_cases f with ⟨sort, c, old, new⟩ | same
  · rw [old, new]
    exact .callable (.inl (type c)) fun known =>
      ⟨by rw [type]; exact known, parameters c, .inl (result c)⟩
  · rw [same]
    exact .refl _

/-- A parameter whose type is `auto` at its end gets a type parameter in its place. -/
theorem Evolves.promote {id : DeclId} {type : Ty} (parameter : DeclId) (name : String)
    (kind : (t.decl id).kind = .parameter type) (normal : type.Normal) :
    t.Evolves (t.modifyDecl id
      (·.withTypeIn .declared
        (Signature.replaceAuto (.named .typeParameter parameter name) type))) := by
  refine .of_kind (by simp) (by simp) (by simp) ?_
  have new : ((t.decl id).withTypeIn .declared
      (Signature.replaceAuto (.named .typeParameter parameter name) type)).kind =
        .parameter (Signature.replaceAuto (.named .typeParameter parameter name) type) := by
    simp [Decl.withTypeIn, kind]
  rw [kind, new]
  have parameterNormal : (Ty.named .typeParameter parameter name).Normal := trivial
  have read := (Signature.replaceAuto_normal parameterNormal type normal).not_deferred
  refine .parameter ?_ fun _ => read
  cases untyped : Signature.isUntyped type with
  | true => exact .inr (.inr rfl)
  | false => exact .inl (Signature.replaceAuto_eq_self type normal untyped)

/-- An edit of a sound table lets its declarations become known. -/
theorem Edit.evolves (h : t.Sound) (edit : t.Edit t') : t.Evolves t' := by
  cases edit with
  | enter _ => exact .of_same rfl rfl
  | leave => exact .of_same rfl rfl
  | openScope => exact .of_same rfl rfl
  | saveScope _ => exact .of_same rfl rfl
  | takeBlock => exact .of_same rfl rfl
  | startBinding _ _ => exact .of_same rfl rfl
  | finishBinding _ => exact .of_same rfl rfl
  | bindName _ _ _ => exact .of_same rfl rfl
  | keepOnly scope name =>
    unfold SymbolTable.keepOnly
    split <;> exact .of_same rfl rfl
  | @declare d unread _ => exact (h.evolves_addUnnamed d).trans (.of_same rfl rfl)
  | addTypeParameter _ _ _ => exact h.evolves_addUnnamed _
  | @completeCallable id sort c span announced unread =>
    refine .of_kind (by simp) (by simp) (by simp [Decl.initializer?, Decl.mapCallable, announced]) ?_
    rw [announced]
    rw [show _ = _ from Decl.kind_mapCallable announced _]
    exact .callable (.inr rfl) (fun known => absurd rfl known)
  | @completeClass id body span empty unread =>
    have initializer := (t.decl id).initializer?_mapMembers fun _ => body
    exact .of_kind (by simp) (by simp) initializer (Decl.kind_evolves_mapMembers _ _)
  | resolve held deferred normal => exact .withTypeIn h held deferred normal
  | @deduce id sort type type' e kind placeholder kept normal =>
    have new : ((t.decl id).withTypeIn .declared type').kind = .object sort type' (some e) := by
      simp [Decl.withTypeIn, kind]
    refine .of_kind (by simp) (by simp) (by simp) ?_
    rw [kind, new]
    exact .object (.inr (.inr placeholder)) (fun _ => normal.not_deferred) rfl
      fun e same known => ⟨e, same, known⟩
  | @define id type e e' kind initializes =>
    refine .modifyDecl (fun _ => ⟨by simp, by simp, ?_⟩) fun v known => ?_
    · rw [kind, Decl.kind_withInitializer kind]
      exact .object (.inl rfl) (fun read => read) rfl
        fun _ _ _ => ⟨e', rfl, initializes.well.excerpt?_eq_none⟩
    · have constant := h.isConstant known
      simp [Decl.isConstant, kind] at constant
  | @store id type e e' v kind unknown initializes value =>
    refine ⟨by simp [setConstant], fun other lt => ?_, fun other w known => ?_⟩
    · rw [decl_modifyDecl]
      split
      · rename_i same
        obtain ⟨rfl, -⟩ := same
        refine ⟨by simp [decl_setConstant], by simp [decl_setConstant], ?_⟩
        rw [decl_setConstant, kind, Decl.kind_withInitializer kind]
        exact .object (.inl rfl) (fun read => read) rfl
          fun _ _ _ => ⟨e', rfl, initializes.well.excerpt?_eq_none⟩
      · exact .refl _
    · have ne : other ≠ id := by
        rintro rfl
        rw [unknown] at known
        cases known
      rw [constant?_modifyDecl, constant?_setConstant_of_ne ne, decl_modifyDecl_of_ne ne]
      exact ⟨known, rfl⟩
  | promote parameter name kind normal => exact .promote parameter name kind normal
  | @rebuild id sort c kind settled result =>
    refine .of_kind (by simp) (by simp) (by simp) ?_
    rw [kind, Decl.kind_mapCallable kind]
    have sound := h.decls id
    rw [kind] at sound
    rcases sound.type with unknown | signed
    · exact .callable (.inr (by rw [unknown]; rfl)) fun known => absurd unknown known
    · exact .callable (.inl signed.type.symm) fun known =>
        ⟨by simp [Signature.signatureType], rfl, .inl rfl⟩
  | addTypeParameters id made =>
    exact .mapCallable t id (fun _ => rfl) (fun _ => rfl) fun _ => rfl
  | setBody id sound => exact .mapCallable t id (fun _ => rfl) (fun _ => rfl) fun _ => rfl
  | setMembers id sound => exact .mapMembers t id _
  | @deduceResult id sort c result kind signed placeholder normal =>
    refine .of_kind (by simp) (by simp) (by simp) ?_
    rw [kind, Decl.kind_mapCallable kind]
    have dependent := Ty.isDependent_of_isPlaceholder placeholder
    refine .callable (.inr ?_) fun _ => ⟨by simp [Signature.signatureType], rfl, .inr placeholder⟩
    rw [signed.type]
    simp [Signature.signatureType, Ty.isDependent, dependent]
  | absorb cls extension inner outer =>
    have moved : t.Evolves ((t.modifyScope outer (·.extendAll (t.scope inner).names)).reparent
      inner outer) := .of_same rfl rfl
    exact (moved.trans (.mapMembers _ extension fun _ => [])).trans (.mapMembers _ cls _)

/-! ## Edits keep tables sound -/

theorem Sound.of_evolves (h : t.Sound) (evolves : t.Evolves t')
    (constants : t'.constants = t.constants)
    (decls : ∀ id, (t'.decl id).kind = (t.decl id).kind ∨ (t'.decl id).kind.Sound t') :
    t'.Sound := by
  refine ⟨fun id => ?_, ?_⟩
  · rcases decls id with same | sound
    · rw [same]
      exact evolves.declaredSound (h.decls id)
    · exact sound
  · rw [constants]
    exact h.determined evolves

/-- A table stays sound when a declaration that becomes known is sound afterwards. -/
theorem Sound.modifyDecl (h : t.Sound) {id : DeclId} {f : Decl → Decl}
    (evolves : t.Evolves (t.modifyDecl id f)) (sound : (f (t.decl id)).kind.Sound t) :
    (t.modifyDecl id f).Sound := by
  refine h.of_evolves evolves rfl fun other => ?_
  by_cases same : other = id ∧ id.index < t.decls.size
  · refine .inr (evolves.declaredSound ?_)
    rw [decl_modifyDecl, if_pos same]
    exact sound
  · refine .inl ?_
    rw [decl_modifyDecl, if_neg same]

/-- A change of nothing but scopes and of what is in progress. -/
theorem Sound.of_same (h : t.Sound) (decls : t'.decls = t.decls)
    (constants : t'.constants = t.constants) : t'.Sound :=
  h.of_evolves (.of_same decls constants) constants fun id => .inl (by simp [decl, decls])

theorem Sound.addUnnamed (h : t.Sound) {d : Decl} (sound : d.kind.Sound t) :
    (t.addUnnamed d).Sound := by
  have evolves := h.evolves_addUnnamed d
  refine h.of_evolves evolves rfl fun id => ?_
  by_cases lt : id.index < t.decls.size
  · exact .inl (by rw [decl_addUnnamed_of_lt lt])
  · by_cases next : id = t.nextDecl
    · refine .inr (evolves.declaredSound ?_)
      rw [next, decl_addUnnamed_nextDecl]
      exact sound
    · have beyond : (t.addUnnamed d).decls.size ≤ id.index := by
        have ne : id.index ≠ t.decls.size := fun same => next (congrArg DeclId.mk same)
        simp only [SymbolTable.addUnnamed, Array.size_push]
        omega
      refine .inr ?_
      rw [kind_eq_typeParameter beyond]
      trivial

theorem Sound.mapMembers (h : t.Sound) (id : DeclId) {f : List Stmt → List Stmt}
    (sound : ∀ e ∈ Stmt.expressionsIn (f (t.members id)), e.Sound t) :
    (t.modifyDecl id (·.mapMembers f)).Sound := by
  refine h.modifyDecl (.mapMembers t id f) ?_
  have old := h.decls id
  rcases (t.decl id).mapMembers_cases f with ⟨sort, kind, body, before, after⟩ | same
  · rw [after]
    rw [before] at old
    refine ⟨old.1, ?_⟩
    simpa [members, Decl.members?, before] using sound
  · rw [same]
    exact old

theorem Sound.members (h : t.Sound) (id : DeclId) :
    ∀ e ∈ Stmt.expressionsIn (t.members id), e.Sound t := by
  intro e member
  have sound := h.decls id
  unfold SymbolTable.members Decl.members? at member
  split at member
  · rename_i kind
    rw [kind] at sound
    exact sound.2 e member
  · cases member

/-- A function stays sound when its body changes to one that is. -/
theorem Sound.withBody (h : t.Sound) (id : DeclId) {body : Body}
    (sound : ∀ e ∈ body.expressions, e.Sound t) : (Signature.withBody t id body).Sound := by
  refine h.modifyDecl (.mapCallable t id (fun _ => rfl) (fun _ => rfl) fun _ => rfl) ?_
  have old := h.decls id
  rcases (t.decl id).mapCallable_cases fun c => { c with body } with ⟨sort, c, before, after⟩ | same
  · rw [after]
    rw [before] at old
    refine ⟨old.parameters, old.result, ?_, sound⟩
    rcases old.type with unknown | signed
    · exact .inl unknown
    · exact .inr ⟨signed.parameters, signed.result, signed.type⟩
  · rw [same]
    exact old

/-- Every edit keeps a table sound. -/
theorem Edit.sound (h : t.Sound) (edit : t.Edit t') : t'.Sound := by
  have evolves := edit.evolves h
  cases edit with
  | enter _ => exact h.of_same rfl rfl
  | leave => exact h.of_same rfl rfl
  | openScope => exact h.of_same rfl rfl
  | saveScope _ => exact h.of_same rfl rfl
  | takeBlock => exact h.of_same rfl rfl
  | startBinding _ _ => exact h.of_same rfl rfl
  | finishBinding _ => exact h.of_same rfl rfl
  | bindName _ _ _ => exact h.of_same rfl rfl
  | keepOnly scope name =>
    unfold SymbolTable.keepOnly
    split <;> exact h.of_same rfl rfl
  | @declare d unread _ => exact (h.addUnnamed unread.sound).of_same rfl rfl
  | addTypeParameter _ _ _ => exact h.addUnnamed trivial
  | @completeCallable id sort c span announced unread =>
    refine h.modifyDecl evolves ?_
    rw [show _ = _ from Decl.kind_mapCallable announced _]
    refine ⟨fun p member => (unread.parameters p member).elim fun excerpt kind => ⟨_, kind⟩, ?_,
      .inl unread.type, fun e member read => ?_⟩
    · rcases unread.result with deferred | auto | void
      · exact .inl deferred
      · exact .inr (by rw [auto]; trivial)
      · exact .inr (by rw [void]; trivial)
    · have deferred := unread.body e member
      rw [read] at deferred
      cases deferred
  | @completeClass id body span empty unread =>
    refine h.modifyDecl evolves ?_
    have old := h.decls id
    rcases (t.decl id).mapMembers_cases fun _ => body with ⟨sort, kind, b, before, after⟩ | same
    · rw [show _ = _ from after]
      rw [before] at old
      refine ⟨old.1, fun e member read => ?_⟩
      have deferred := unread e member
      rw [read] at deferred
      cases deferred
    · rw [show _ = _ from congrArg Decl.kind same]
      exact old
  | @resolve id slot type type' held deferred normal =>
    refine h.modifyDecl evolves ?_
    have old := h.decls id
    rcases Decl.withTypeIn_cases held type' with
      ⟨sort, e, kind, kind'⟩ | ⟨kind, kind'⟩ | ⟨kind, kind'⟩ | ⟨sort, c, kind, result, kind'⟩ |
        ⟨sort, body, kind, kind'⟩ <;> rw [kind] at old <;> rw [kind']
    · refine ⟨.inr normal, old.initialized, fun e same read => ?_⟩
      have known := (old.initializes e same read).normal.not_deferred
      rw [deferred] at known
      cases known
    · exact .inr normal
    · exact .inr normal
    · refine ⟨old.parameters, .inr normal, ?_, old.body⟩
      rcases old.type with unknown | signed
      · exact .inl unknown
      · have known := signed.result.not_deferred
        rw [result, deferred] at known
        cases known
    · exact ⟨.inr normal, old.2⟩
  | @deduce id sort type type' e kind placeholder kept normal =>
    have new : ((t.decl id).withTypeIn .declared type').kind = .object sort type' (some e) := by
      simp [Decl.withTypeIn, kind]
    refine h.modifyDecl evolves ?_
    have old := h.decls id
    rw [kind] at old
    rw [new]
    refine ⟨.inr normal, fun _ => rfl, fun _ same read => ?_⟩
    rw [kept (Option.some.inj same ▸ read)]
    exact old.initializes _ same read
  | @define id type e e' kind initializes =>
    refine h.modifyDecl evolves ?_
    rw [Decl.kind_withInitializer kind]
    refine ⟨.inr initializes.normal, fun _ => rfl, fun _ same _ => ?_⟩
    exact Option.some.inj same ▸ initializes
  | @store id type e e' v kind unknown initializes value =>
    have lt : id.index < t.decls.size := lt_size_of_kind (by simp [kind])
    have new : (((t.setConstant id v).modifyDecl id (·.withInitializer e')).decl id).kind =
        .object .constant type (some e') := by
      rw [decl_modifyDecl_self (t := t.setConstant id v) lt]
      exact Decl.kind_withInitializer kind e'
    refine ⟨fun other => ?_, ⟨⟨by simp [Decl.isConstant, new], e', by simp [Decl.initializer?, new],
      value⟩, unknown, h.determined evolves⟩⟩
    by_cases same : other = id
    · rw [same, new]
      refine ⟨.inr initializes.normal, fun _ => rfl, fun _ same _ => ?_⟩
      exact Option.some.inj same ▸ evolves.initializes initializes
    · rw [decl_modifyDecl_of_ne same]
      exact evolves.declaredSound (h.decls other)
  | @promote id type parameter name kind normal =>
    refine h.modifyDecl evolves ?_
    have parameterNormal : (Ty.named .typeParameter parameter name).Normal := trivial
    simp only [Decl.withTypeIn, kind]
    exact .inr (Signature.replaceAuto_normal parameterNormal type normal)
  | @rebuild id sort c kind settled result =>
    refine h.modifyDecl evolves ?_
    have old := h.decls id
    rw [kind] at old
    rw [Decl.kind_mapCallable kind]
    exact ⟨old.parameters, old.result, .inr ⟨settled, result, rfl⟩, old.body⟩
  | addTypeParameters id made =>
    refine h.modifyDecl evolves ?_
    have old := h.decls id
    rcases (t.decl id).mapCallable_cases fun c =>
      { c with typeParameters := c.typeParameters ++ made } with ⟨sort, c, before, after⟩ | same
    · rw [after]
      rw [before] at old
      refine ⟨old.parameters, old.result, ?_, old.body⟩
      rcases old.type with unknown | signed
      · exact .inl unknown
      · exact .inr ⟨signed.parameters, signed.result, signed.type⟩
    · rw [same]
      exact old
  | setBody id sound => exact h.withBody id sound
  | setMembers id sound => exact h.mapMembers id sound
  | @deduceResult id sort c result kind signed placeholder normal =>
    refine h.modifyDecl evolves ?_
    have old := h.decls id
    rw [kind] at old
    rw [Decl.kind_mapCallable kind]
    exact ⟨old.parameters, .inr normal, .inr ⟨signed.parameters, normal, rfl⟩, old.body⟩
  | absorb cls extension inner outer =>
    have moved : ((t.modifyScope outer (·.extendAll (t.scope inner).names)).reparent
      inner outer).Sound := h.of_same rfl rfl
    have emptied := moved.mapMembers extension (f := fun _ => []) (by simp [Stmt.expressionsIn])
    refine emptied.mapMembers cls fun e member => ?_
    simp only [Stmt.expressionsIn_append, List.mem_append] at member
    rcases member with own | absorbed
    · exact emptied.members cls e own
    · have evolves : t.Evolves ((t.modifyScope outer (·.extendAll (t.scope inner).names)).reparent
        inner outer) := .of_same rfl rfl
      have evolves := evolves.trans (.mapMembers _ extension fun _ => [])
      exact evolves.exprSound (h.members extension e absorbed)

/-! ## Sequences of edits -/

/-- One table becomes another by edits. -/
def Reaches (t t' : SymbolTable) : Prop := Relation.ReflTransGen Edit t t'

theorem Reaches.refl (t : SymbolTable) : t.Reaches t := Relation.ReflTransGen.refl

theorem Reaches.trans {t'' : SymbolTable} (h : t.Reaches t') (h' : t'.Reaches t'') :
    t.Reaches t'' :=
  Relation.ReflTransGen.trans h h'

theorem Edit.reaches (edit : t.Edit t') : t.Reaches t' := Relation.ReflTransGen.single edit

theorem Reaches.sound_evolves (h : t.Reaches t') (sound : t.Sound) :
    t'.Sound ∧ t.Evolves t' := by
  induction h with
  | refl => exact ⟨sound, .refl t⟩
  | tail _ edit ih =>
    obtain ⟨sound, evolves⟩ := ih
    exact ⟨edit.sound sound, evolves.trans (edit.evolves sound)⟩

theorem Reaches.sound (h : t.Reaches t') (sound : t.Sound) : t'.Sound :=
  (h.sound_evolves sound).1

theorem Reaches.evolves (h : t.Reaches t') (sound : t.Sound) : t.Evolves t' :=
  (h.sound_evolves sound).2

end SymbolTable

end Deferral
