import Deferral.Proofs.Constant.Value
import Deferral.Proofs.Table.Contents
import Deferral.Proofs.Typing.Phrase
import Deferral.Unit.Signature

/-!
# Sound symbol tables

What holds of a table between any two changes. Types that have been read are in normal form, and
expressions that have been read are well typed. An object whose initializer has been read fits it,
a function has no type or the one its signature gives, and the value of every constant is that of
its initializer.
-/

namespace Deferral

/-- A type that is in normal form once it has been read. -/
def Ty.Sound (type : Ty) : Prop := type.isDeferred = true ∨ type.Normal

/-- An expression that is well typed once it has been read. -/
def Expr.Sound (t : SymbolTable) (e : Expr) : Prop := e.excerpt? = none → e.WellTyped t

/-- An expression that has been read initializes an object of a type that has been read. An object
whose type is still a placeholder has been given the type of its initializer. -/
structure Expr.Initializes (t : SymbolTable) (type : Ty) (e : Expr) : Prop where
  well : e.WellTyped t
  normal : type.Normal
  fits : e.type.Fits type
  deduced : type.isPlaceholder = true → e.type = type

/-- A parameter whose type is known but for type parameters. -/
def Decl.IsSettledParameter (d : Decl) : Prop :=
  ∃ type, d.kind = .parameter type ∧ type.Normal ∧ Signature.isUntyped type = false

/-- A function has the type that its parameters and its result give it. -/
structure Callable.Signed (t : SymbolTable) (c : Callable) : Prop where
  parameters : ∀ id ∈ c.parameters, (t.decl id).IsSettledParameter
  result : c.result.Normal
  type : c.type = Signature.signatureType t c

structure Callable.Sound (t : SymbolTable) (c : Callable) : Prop where
  parameters : ∀ id ∈ c.parameters, ∃ type, (t.decl id).kind = .parameter type
  result : c.result.Sound
  type : c.type = .auto ∨ c.Signed t
  body : ∀ e ∈ c.body.expressions, e.Sound t

structure ObjectSound (t : SymbolTable) (sort : ObjectSort) (type : Ty)
    (initializer : Option Expr) : Prop where
  declared : type.Sound
  initialized : sort = .constant → initializer.isSome = true
  initializes : ∀ e, initializer = some e → e.excerpt? = none → e.Initializes t type

def Declared.Sound (t : SymbolTable) : Declared → Prop
  | .object sort type initializer => ObjectSound t sort type initializer
  | .parameter type | .super type => type.Sound
  | .callable _ c => c.Sound t
  | .classDecl _ kind body => kind.Sound ∧ ∀ e ∈ Stmt.expressionsIn body, e.Sound t
  | .typeParameter => True

namespace SymbolTable

/-- A constant whose initializer has the value `v` when other constants have theirs in `store`. -/
def Determines (t : SymbolTable) (store : DeclId → Option Constant) (id : DeclId) (v : Constant) :
    Prop :=
  (t.decl id).isConstant = true ∧
    ∃ e, (t.decl id).initializer? = some e ∧ e.value? store = some v

/-- Every value is determined by the values that were there before it, the newest first. -/
def Determined (t : SymbolTable) : List (DeclId × Constant) → Prop
  | [] => True
  | (id, v) :: older =>
    t.Determines (older.lookup ·) id v ∧ older.lookup id = none ∧ t.Determined older

structure Sound (t : SymbolTable) : Prop where
  decls : ∀ id, (t.decl id).kind.Sound t
  constants : t.Determined t.constants

end SymbolTable

/-! ## Becoming known -/

/-- How what a declaration declares may change: types as long as they are deferred or placeholders,
the type of a function as long as it is dependent. -/
inductive Declared.Evolves : Declared → Declared → Prop
  | object {sort : ObjectSort} {type type' : Ty} {initializer initializer' : Option Expr} :
      (type' = type ∨ type.isDeferred = true ∨ type.isPlaceholder = true) →
      (type.isDeferred = false → type'.isDeferred = false) →
      initializer'.isSome = initializer.isSome →
      (∀ e, initializer = some e → e.excerpt? = none →
        ∃ e', initializer' = some e' ∧ e'.excerpt? = none) →
      Evolves (.object sort type initializer) (.object sort type' initializer')
  | parameter {type type' : Ty} :
      (type' = type ∨ type.isDeferred = true ∨ Signature.isUntyped type = true) →
      (type.isDeferred = false → type'.isDeferred = false) →
      Evolves (.parameter type) (.parameter type')
  | super {type type' : Ty} : (type' = type ∨ type.isDeferred = true) →
      (type.isDeferred = false → type'.isDeferred = false) → Evolves (.super type) (.super type')
  | callable {sort : CallableSort} {c c' : Callable} :
      (c'.type = c.type ∨ c.type.isDependent = true) →
      (c.type ≠ .auto → c'.type ≠ .auto ∧ c'.parameters = c.parameters ∧
        (c'.result = c.result ∨ c.result.isPlaceholder = true)) →
      Evolves (.callable sort c) (.callable sort c')
  | classDecl {sort : ClassSort} {kind kind' : Ty} {body body' : List Stmt} :
      (kind' = kind ∨ kind.isDeferred = true) →
      (kind.isDeferred = false → kind'.isDeferred = false) →
      Evolves (.classDecl sort kind body) (.classDecl sort kind' body')
  | typeParameter : Evolves .typeParameter .typeParameter

/-- A declaration stays where it is, keeps its name and becomes known. -/
structure Decl.Evolves (d d' : Decl) : Prop where
  name : d'.name = d.name
  scope : d'.scope = d.scope
  kind : d.kind.Evolves d'.kind

/-- Declarations become known and none is lost; constants that have a value keep it together with
the initializer it comes from. -/
structure SymbolTable.Evolves (t t' : SymbolTable) : Prop where
  size : t.decls.size ≤ t'.decls.size
  decls : ∀ id, id.index < t.decls.size → (t.decl id).Evolves (t'.decl id)
  constants : ∀ id v, t.constant? id = some v →
    t'.constant? id = some v ∧ (t'.decl id).initializer? = (t.decl id).initializer?

theorem Declared.Evolves.refl (k : Declared) : k.Evolves k := by
  cases k with
  | object sort type initializer =>
    exact .object (.inl rfl) id rfl fun e same read => ⟨e, same, read⟩
  | parameter type => exact .parameter (.inl rfl) id
  | super type => exact .super (.inl rfl) id
  | callable sort c => exact .callable (.inl rfl) fun known => ⟨known, rfl, .inl rfl⟩
  | classDecl sort kind body => exact .classDecl (.inl rfl) id
  | typeParameter => exact .typeParameter

theorem Declared.Evolves.trans {k k' k'' : Declared} (h : k.Evolves k') (h' : k'.Evolves k'') :
    k.Evolves k'' := by
  cases h with
  | object kept read some reads =>
    cases h' with
    | object kept' read' some' reads' =>
      refine .object ?_ (fun h => read' (read h)) (some'.trans some) ?_
      · rcases kept with rfl | unknown
        · exact kept'
        · exact .inr unknown
      · intro e same known
        obtain ⟨e', same', known'⟩ := reads e same known
        exact reads' e' same' known'
  | parameter kept read =>
    cases h' with
    | parameter kept' read' =>
      refine .parameter ?_ fun h => read' (read h)
      rcases kept with rfl | unknown
      · exact kept'
      · exact .inr unknown
  | super kept read =>
    cases h' with
    | super kept' read' =>
      refine .super ?_ fun h => read' (read h)
      rcases kept with rfl | unknown
      · exact kept'
      · exact .inr unknown
  | callable kept known =>
    cases h' with
    | callable kept' known' =>
      refine .callable ?_ fun h => ?_
      · rcases kept with same | dependent
        · rw [← same]
          exact kept'
        · exact .inr dependent
      · obtain ⟨h', parameters, result⟩ := known h
        obtain ⟨h'', parameters', result'⟩ := known' h'
        refine ⟨h'', parameters'.trans parameters, ?_⟩
        rcases result with same | placeholder
        · rw [← same]
          exact result'
        · exact .inr placeholder
  | classDecl kept read =>
    cases h' with
    | classDecl kept' read' =>
      refine .classDecl ?_ fun h => read' (read h)
      rcases kept with rfl | unknown
      · exact kept'
      · exact .inr unknown
  | typeParameter => exact h'

theorem Decl.Evolves.refl (d : Decl) : d.Evolves d := ⟨rfl, rfl, .refl _⟩

theorem Decl.Evolves.trans {d d' d'' : Decl} (h : d.Evolves d') (h' : d'.Evolves d'') :
    d.Evolves d'' :=
  ⟨h'.name.trans h.name, h'.scope.trans h.scope, h.kind.trans h'.kind⟩

theorem Ty.isDependent_of_isUntyped : ∀ {t : Ty}, Signature.isUntyped t = true →
    t.isDependent = true := by
  intro t h
  fun_induction Signature.isUntyped t with
  | case1 => rfl
  | case2 t ih => simpa using ih h
  | case3 t q ih => simpa using ih h
  | case4 => cases h

/-- A use keeps its type once that is not dependent. -/
theorem Decl.Evolves.typeOfUse? {d d' : Decl} (h : d.Evolves d') {type : Ty}
    (use : SymbolTable.typeOfUse? d = some type) :
    ∃ type', SymbolTable.typeOfUse? d' = some type' ∧
      (type.isDependent = true ∨ type' = type) := by
  obtain ⟨name, kind, scope, span⟩ := d
  obtain ⟨name', kind', scope', span'⟩ := d'
  have evolves : kind.Evolves kind' := h.kind
  cases evolves with
  | object kept read _ _ =>
    obtain rfl := Option.some.inj use
    refine ⟨_, rfl, ?_⟩
    rcases kept with rfl | deferred | placeholder
    · exact .inr rfl
    · exact .inl (by simp [SymbolTable.useType, deferred, Ty.isDependent])
    · have dependent := Ty.isDependent_of_isPlaceholder placeholder
      refine .inl ?_
      unfold SymbolTable.useType
      split
      · rfl
      · exact dependent
  | parameter kept read =>
    obtain rfl := Option.some.inj use
    refine ⟨_, rfl, ?_⟩
    rcases kept with rfl | deferred | untyped
    · exact .inr rfl
    · exact .inl (by simp [SymbolTable.useType, deferred, Ty.isDependent])
    · have dependent := Ty.isDependent_of_isUntyped untyped
      refine .inl ?_
      unfold SymbolTable.useType
      split
      · rfl
      · exact dependent
  | callable kept _ =>
    obtain rfl := Option.some.inj use
    refine ⟨_, rfl, ?_⟩
    rcases kept with same | dependent
    · exact .inr same
    · exact .inl dependent
  | super _ _ => cases use
  | classDecl _ _ => cases use
  | typeParameter => cases use

theorem Decl.Evolves.isSettledParameter {d d' : Decl} (h : d.Evolves d')
    (settled : d.IsSettledParameter) : d'.kind = d.kind := by
  obtain ⟨type, kind, normal, typed⟩ := settled
  have evolves := h.kind
  rw [kind] at evolves ⊢
  generalize d'.kind = k at evolves
  cases evolves with
  | parameter kept _ =>
    rcases kept with rfl | deferred | untyped
    · rfl
    · rw [normal.not_deferred] at deferred
      cases deferred
    · rw [typed] at untyped
      cases untyped

namespace SymbolTable

/-- Where no declaration has been made stands a type parameter without a name. -/
theorem decl_eq_default {t : SymbolTable} {id : DeclId} (h : t.decls.size ≤ id.index) :
    t.decl id = default := by
  simp [decl, Array.getD_eq_getD_getElem?, Array.getElem?_eq_none h]

theorem kind_eq_typeParameter {t : SymbolTable} {id : DeclId} (h : t.decls.size ≤ id.index) :
    (t.decl id).kind = .typeParameter := by
  rw [decl_eq_default h]
  rfl

theorem lt_size_of_kind {t : SymbolTable} {id : DeclId}
    (h : (t.decl id).kind ≠ .typeParameter) : id.index < t.decls.size := by
  by_contra notIn
  exact h (kind_eq_typeParameter (by omega))

namespace Evolves

variable {t t' t'' : SymbolTable}

theorem refl (t : SymbolTable) : t.Evolves t :=
  ⟨Nat.le_refl _, fun _ _ => .refl _, fun _ _ known => ⟨known, rfl⟩⟩

theorem trans (h : t.Evolves t') (h' : t'.Evolves t'') : t.Evolves t'' := by
  refine ⟨Nat.le_trans h.size h'.size, fun id lt => ?_, fun id v known => ?_⟩
  · exact (h.decls id lt).trans (h'.decls id (Nat.lt_of_lt_of_le lt h.size))
  · obtain ⟨known', same⟩ := h.constants id v known
    obtain ⟨known'', same'⟩ := h'.constants id v known'
    exact ⟨known'', same'.trans same⟩

theorem keepsUses (h : t.Evolves t') : t.KeepsUses t' := by
  intro id type use
  have present : (t.decl id).kind ≠ .typeParameter := by
    intro absent
    simp [typeOfUse?, absent] at use
  exact (h.decls id (lt_size_of_kind present)).typeOfUse? use

theorem wellTyped (h : t.Evolves t') {e : Expr} (well : e.WellTyped t) : e.WellTyped t' :=
  well.transfer h.keepsUses

theorem exprSound (h : t.Evolves t') {e : Expr} (sound : e.Sound t) : e.Sound t' :=
  fun read => h.wellTyped (sound read)

theorem initializes (h : t.Evolves t') {type : Ty} {e : Expr} (i : e.Initializes t type) :
    e.Initializes t' type :=
  ⟨h.wellTyped i.well, i.normal, i.fits, i.deduced⟩

/-- A parameter stays one, and once it is settled it stays as it is. -/
theorem parameter (h : t.Evolves t') {id : DeclId} {type : Ty}
    (parameter : (t.decl id).kind = .parameter type) :
    ∃ type', (t'.decl id).kind = .parameter type' := by
  have evolves := (h.decls id (lt_size_of_kind (by simp [parameter]))).kind
  rw [parameter] at evolves
  generalize (t'.decl id).kind = k at evolves
  cases evolves with
  | parameter _ _ => exact ⟨_, rfl⟩

theorem settledParameter (h : t.Evolves t') {id : DeclId}
    (settled : (t.decl id).IsSettledParameter) :
    (t'.decl id).kind = (t.decl id).kind := by
  have present : (t.decl id).kind ≠ .typeParameter := by
    obtain ⟨type, kind, -⟩ := settled
    simp [kind]
  exact (h.decls id (lt_size_of_kind present)).isSettledParameter settled

theorem signed (h : t.Evolves t') {c : Callable} (signed : c.Signed t) : c.Signed t' := by
  have same : ∀ id ∈ c.parameters, (t'.decl id).kind = (t.decl id).kind :=
    fun id member => h.settledParameter (signed.parameters id member)
  refine ⟨fun id member => ?_, signed.result, ?_⟩
  · obtain ⟨type, kind, known⟩ := signed.parameters id member
    exact ⟨type, (same id member).trans kind, known⟩
  · rw [signed.type]
    unfold Signature.signatureType
    congr 1
    refine List.map_congr_left fun id member => ?_
    simp [Decl.ownType?, Decl.typeIn?, same id member]

theorem callableSound (h : t.Evolves t') {c : Callable} (sound : c.Sound t) : c.Sound t' := by
  refine ⟨fun id member => ?_, sound.result, ?_, fun e member => h.exprSound (sound.body e member)⟩
  · obtain ⟨type, parameter⟩ := sound.parameters id member
    exact h.parameter parameter
  · rcases sound.type with unknown | signed
    · exact .inl unknown
    · exact .inr (h.signed signed)

theorem declaredSound (h : t.Evolves t') {k : Declared} (sound : k.Sound t) : k.Sound t' := by
  cases k with
  | object sort type initializer =>
    have object : ObjectSound t sort type initializer := sound
    exact ⟨object.declared, object.initialized,
      fun e same read => h.initializes (object.initializes e same read)⟩
  | parameter type => exact sound
  | super type => exact sound
  | callable sort c => exact h.callableSound sound
  | classDecl sort kind body => exact ⟨sound.1, fun e member => h.exprSound (sound.2 e member)⟩
  | typeParameter => trivial

theorem isConstant (h : t.Evolves t') {id : DeclId} (constant : (t.decl id).isConstant = true) :
    (t'.decl id).isConstant = true := by
  have present : (t.decl id).kind ≠ .typeParameter := by
    intro absent
    simp [Decl.isConstant, absent] at constant
  have evolves := (h.decls id (lt_size_of_kind present)).kind
  unfold Decl.isConstant at constant ⊢
  generalize (t.decl id).kind = k at evolves constant
  generalize (t'.decl id).kind = k' at evolves
  cases evolves with
  | @object sort _ _ _ _ =>
    cases sort with
    | var => cases constant
    | constant => rfl
  | _ => cases constant

theorem determines (h : t.Evolves t') {store : DeclId → Option Constant} {id : DeclId}
    {v known : Constant} (stored : t.constant? id = some known) (d : t.Determines store id v) :
    t'.Determines store id v := by
  obtain ⟨constant, e, initializer, value⟩ := d
  exact ⟨h.isConstant constant, e, (h.constants id known stored).2.trans initializer, value⟩

theorem determined (h : t.Evolves t') {entries : List (DeclId × Constant)}
    (stored : ∀ entry ∈ entries, (t.constant? entry.1).isSome = true)
    (d : t.Determined entries) : t'.Determined entries := by
  induction entries with
  | nil => trivial
  | cons entry older ih =>
    obtain ⟨id, v⟩ := entry
    obtain ⟨determines, fresh, rest⟩ := d
    obtain ⟨known, stored'⟩ := Option.isSome_iff_exists.mp (stored (id, v) (by simp))
    exact ⟨h.determines stored' determines, fresh,
      ih (fun entry member => stored entry (by simp [member])) rest⟩

end Evolves

theorem isSome_lookup_of_mem {entries : List (DeclId × Constant)} {entry : DeclId × Constant}
    (member : entry ∈ entries) : (entries.lookup entry.1).isSome = true := by
  obtain ⟨id, v⟩ := entry
  induction entries with
  | nil => cases member
  | cons first rest ih =>
    rw [List.lookup_cons]
    split
    · rfl
    · rename_i other
      rcases List.mem_cons.mp member with rfl | member
      · simp at other
      · exact ih member

/-- A value in a determined list is determined by the values behind it. -/
theorem Determined.of_lookup {t : SymbolTable} {entries : List (DeclId × Constant)} {id : DeclId}
    {v : Constant} (d : t.Determined entries) (known : entries.lookup id = some v) :
    ∃ older, t.Determined older ∧ t.Determines (older.lookup ·) id v ∧
      ∃ newer, entries = newer ++ (id, v) :: older := by
  induction entries with
  | nil => cases known
  | cons entry rest ih =>
    obtain ⟨other, w⟩ := entry
    obtain ⟨determines, fresh, rest'⟩ := d
    rw [List.lookup_cons] at known
    split at known
    · rename_i same
      obtain rfl := eq_of_beq same
      obtain rfl := Option.some.inj known
      exact ⟨rest, rest', determines, [], rfl⟩
    · obtain ⟨older, d, determines, newer, split⟩ := ih rest' known
      exact ⟨older, d, determines, (other, w) :: newer, by simp [split]⟩

namespace Sound

variable {t t' : SymbolTable}

theorem isConstant (h : t.Sound) {id : DeclId} {v : Constant} (known : t.constant? id = some v) :
    (t.decl id).isConstant = true := by
  obtain ⟨older, -, determines, -⟩ := h.constants.of_lookup known
  exact determines.1

theorem lt_size (h : t.Sound) {id : DeclId} {v : Constant} (known : t.constant? id = some v) :
    id.index < t.decls.size := by
  have constant := h.isConstant known
  refine lt_size_of_kind fun absent => ?_
  simp [Decl.isConstant, absent] at constant

/-- Declarations that only become known leave the values determined that are there. -/
theorem determined (h : t.Sound) (evolves : t.Evolves t') : t'.Determined t.constants :=
  evolves.determined (fun _ member => isSome_lookup_of_mem member) h.constants

/-- Every constant has an initializer. -/
theorem initialized (h : t.Sound) {id : DeclId} (constant : (t.decl id).isConstant = true) :
    ∃ type e, (t.decl id).kind = .object .constant type (some e) := by
  have sound := h.decls id
  unfold Decl.isConstant at constant
  split at constant
  · rename_i type initializer kind
    rw [kind] at sound
    obtain ⟨e, some⟩ := Option.isSome_iff_exists.mp (sound.initialized rfl)
    exact ⟨type, e, some ▸ kind⟩
  · cases constant

theorem typeIn? (h : t.Sound) {id : DeclId} {slot : TypeSlot} {type : Ty}
    (held : (t.decl id).typeIn? slot = some type) : type.Sound := by
  have sound := h.decls id
  cases kind : (t.decl id).kind <;> rw [kind] at sound <;>
    cases slot <;> simp only [Decl.typeIn?, kind, reduceCtorEq, Option.some.injEq] at held <;>
    subst held
  · exact sound.declared
  · exact sound
  · exact sound
  · exact sound.result
  · exact sound.1

theorem normalUses (h : t.Sound) : t.NormalUses := by
  intro id type use
  have sound := h.decls id
  unfold typeOfUse? at use
  unfold Declared.Sound at sound
  split at use
  · rename_i kind
    rw [kind] at sound
    obtain rfl := Option.some.inj use
    unfold useType
    split
    · trivial
    · rename_i read
      exact sound.declared.resolve_left read
  · rename_i kind
    rw [kind] at sound
    obtain rfl := Option.some.inj use
    unfold useType
    split
    · trivial
    · rename_i read
      exact sound.resolve_left read
  · rename_i kind
    rw [kind] at sound
    obtain rfl := Option.some.inj use
    rcases sound.type with unknown | signed
    · rw [unknown]
      trivial
    · rw [signed.type]
      refine ⟨Ty.normalAll_iff.mpr fun type member => ?_, signed.result⟩
      obtain ⟨id, parameter, rfl⟩ := List.mem_map.mp member
      obtain ⟨type, kind, normal, -⟩ := signed.parameters id parameter
      simpa [Decl.ownType?, Decl.typeIn?, kind] using normal
  · cases use

end Sound

end SymbolTable

end Deferral
