import Deferral.Proofs.Layout.Layout
import Deferral.Proofs.Table.Layered

/-!
# Tables that are laid out

In a table that is laid out every declaration lies in its own stretch of the source, names stand for
declarations that are known, and a function has its type only once its parameters and its result have
been read. What resolving changes of a table keeps it laid out, and what has been read stays read.
-/

namespace Deferral

/-- The type in a slot has been read. -/
def Decl.HasRead (d : Decl) (slot : TypeSlot) : Prop :=
  ∃ type, d.typeIn? slot = some type ∧ type.isDeferred = false

/-- The type that goes into a slot is the type in it, if there is such a slot. -/
theorem Decl.hasRead_withTypeIn {d : Decl} {slot : TypeSlot} {type : Ty}
    (there : (d.typeIn? slot).isSome = true) (read : type.isDeferred = false) :
    (d.withTypeIn slot type).HasRead slot := by
  refine ⟨type, ?_, read⟩
  cases slot <;> cases h : d.kind <;> simp_all [Decl.typeIn?, Decl.withTypeIn]

namespace SymbolTable

/-- A function that has its type has read parameters and a read result. -/
def Signs (t : SymbolTable) (d : Decl) : Prop :=
  ∀ c, d.callable? = some c →
    c.type = .auto ∨ d.HasRead .result ∧ ∀ p ∈ c.parameters, (t.decl p).HasRead .declared

/-- The declarations of a table lie where a layout says. -/
structure LaidOut (t : SymbolTable) (L : Layout) : Prop where
  decls : ∀ id, (t.decl id).LiesIn L t.decls.size id
  bound : ∀ {s name d}, t.Binds s name d → L.known t.decls.size d
  signed : ∀ id, t.Signs (t.decl id)

/-- What resolving does to a table that is laid out: declarations keep their slots and their
parameters, and what has been read stays read. -/
structure StaysLaid (t : SymbolTable) (L : Layout) (t' : SymbolTable) : Prop where
  size : t.decls.size ≤ t'.decls.size
  laid : t'.LaidOut L
  slots : ∀ id slot, ((t'.decl id).typeIn? slot).isSome = ((t.decl id).typeIn? slot).isSome
  parameters : ∀ id, (t'.decl id).callable?.map (·.parameters) = (t.decl id).callable?.map (·.parameters)
  reads : ∀ id slot, (t.decl id).HasRead slot → (t'.decl id).HasRead slot

variable {t t' t'' : SymbolTable} {L : Layout} {id : DeclId}

theorem lt_size_of_isSome_typeIn? {slot : TypeSlot} (there : ((t.decl id).typeIn? slot).isSome = true) :
    id.index < t.decls.size :=
  lt_size_of_kind fun absent => by cases slot <;> simp [Decl.typeIn?, absent] at there

theorem lt_size_of_callable? {c : Callable} (held : (t.decl id).callable? = some c) :
    id.index < t.decls.size :=
  lt_size_of_kind fun absent => by simp [Decl.callable?, absent] at held

theorem Signs.of_reads {d : Decl} (h : t.Signs d)
    (reads : ∀ id slot, (t.decl id).HasRead slot → (t'.decl id).HasRead slot) : t'.Signs d :=
  fun c held => (h c held).imp_right fun read =>
    ⟨read.1, fun p member => reads p .declared (read.2 p member)⟩

/-- A function that has its type signs with the types of its parameters and of its result. -/
theorem Signs.parts {d : Decl} {c : Callable} (h : t.Signs d) (held : d.callable? = some c)
    (typed : c.type ≠ .auto) : d.HasRead .result ∧ ∀ p ∈ c.parameters, (t.decl p).HasRead .declared :=
  (h c held).resolve_left typed

namespace LaidOut

/-- Names are found among what is known, and have types that are. -/
theorem offers (h : t.LaidOut L) : t.Offers (L.known t.decls.size) where
  found name set found id member := by
    obtain ⟨a, -, held⟩ := around_of_findWithin found
    exact h.bound (Names.binds_of_find? held member)
  types id type used := by
    have lies := (h.decls id).kind
    have named {declared : Ty} {lo hi : Nat} (inside : declared.LiesIn L t.decls.size lo hi) :
        (useType declared).IsMade (L.known t.decls.size) := by
      unfold useType
      split
      · trivial
      · rename_i read
        exact inside.isMade (Bool.eq_false_iff.mpr read)
    unfold typeOfUse? at used
    split at used
    · rename_i kind
      rw [kind] at lies
      exact Option.some.inj used ▸ named lies.1
    · rename_i kind
      rw [kind] at lies
      exact Option.some.inj used ▸ named lies
    · rename_i kind
      rw [kind] at lies
      exact Option.some.inj used ▸ lies.type
    · cases used

/-- The type in a slot lies where its declaration does. -/
theorem typeIn (h : t.LaidOut L) {slot : TypeSlot} {type : Ty} (held : (t.decl id).typeIn? slot = some type) :
    type.LiesIn L t.decls.size (L.low id) (L.high id) := by
  have lies := (h.decls id).kind
  rcases Decl.withTypeIn_cases held type with ⟨sort, e, kind, -⟩ | ⟨kind, -⟩ | ⟨kind, -⟩ |
    ⟨sort, c, kind, rfl, -⟩ | ⟨sort, body, kind, -⟩ <;> rw [kind] at lies
  · exact lies.1
  · exact lies
  · exact lies
  · exact lies.result
  · exact lies.1

theorem initializer (h : t.LaidOut L) {e : Expr} (held : (t.decl id).initializer? = some e) :
    e.LiesIn L t.decls.size (L.low id) (L.high id) := by
  have lies := (h.decls id).kind
  obtain ⟨sort, type, kind⟩ := Decl.kind_of_initializer? held
  rw [kind] at lies
  exact lies.2 e rfl

theorem callable (h : t.LaidOut L) {c : Callable} (held : (t.decl id).callable? = some c) :
    c.LiesIn L t.decls.size (L.low id) (L.high id) := by
  have lies := (h.decls id).kind
  obtain ⟨sort, kind⟩ := Decl.kind_of_callable? held
  rwa [kind] at lies

theorem members (h : t.LaidOut L) (id : DeclId) :
    Stmt.AllLieIn L t.decls.size (L.low id) (L.high id) (t.members id) := by
  have lies := (h.decls id).kind
  unfold SymbolTable.members Decl.members?
  split
  · rename_i kind
    rw [kind] at lies
    exact lies.2
  · trivial

/-- A type that has been read is made of what is known. -/
theorem isMade_of_hasRead (h : t.LaidOut L) {slot : TypeSlot} {type : Ty}
    (read : (t.decl id).HasRead slot) (held : (t.decl id).typeIn? slot = some type) :
    type.IsMade (L.known t.decls.size) := by
  obtain ⟨type', held', plain⟩ := read
  obtain rfl := Option.some.inj (held'.symm.trans held)
  exact (h.typeIn held).isMade plain

end LaidOut

namespace StaysLaid

theorem refl (laid : t.LaidOut L) : t.StaysLaid L t :=
  ⟨Nat.le_refl _, laid, fun _ _ => rfl, fun _ => rfl, fun _ _ read => read⟩

theorem trans (h : t.StaysLaid L t') (h' : t'.StaysLaid L t'') : t.StaysLaid L t'' :=
  ⟨Nat.le_trans h.size h'.size, h'.laid, fun id slot => (h'.slots id slot).trans (h.slots id slot),
    fun id => (h'.parameters id).trans (h.parameters id),
    fun id slot read => h'.reads id slot (h.reads id slot read)⟩

/-! ## Changes of scopes -/

/-- The declarations stay as they are. -/
theorem of_decls (laid : t.LaidOut L) (decls : t'.decls = t.decls)
    (bound : ∀ {s name d}, t'.Binds s name d → L.known t.decls.size d) : t.StaysLaid L t' := by
  have same : ∀ id, t'.decl id = t.decl id := fun id => by simp [decl, decls]
  have reads : ∀ id slot, (t.decl id).HasRead slot → (t'.decl id).HasRead slot :=
    fun id slot read => by rwa [same]
  refine ⟨Nat.le_of_eq (by rw [decls]), ⟨fun id => ?_, fun b => ?_, fun id => ?_⟩,
    fun id slot => by rw [same], fun id => by rw [same], reads⟩
  · rw [same, decls]
    exact laid.decls id
  · rw [decls]
    exact bound b
  · rw [same]
    exact (laid.signed id).of_reads reads

/-- Nothing changes but values and what is active or in progress. -/
theorem of_same (laid : t.LaidOut L) (decls : t'.decls = t.decls) (scopes : t'.scopes = t.scopes) :
    t.StaysLaid L t' := by
  refine .of_decls laid decls fun {s name d} b => @LaidOut.bound _ _ laid s name d ?_
  unfold Binds at b ⊢
  rwa [scope_congr scopes] at b

theorem enter (laid : t.LaidOut L) (scope : ScopeId) : t.StaysLaid L (t.enter scope) :=
  .of_same laid rfl rfl

theorem leave (laid : t.LaidOut L) : t.StaysLaid L t.leave := .of_same laid rfl rfl

theorem addScope (laid : t.LaidOut L) (parent : ScopeId) : t.StaysLaid L (t.addScope parent) := by
  refine .of_decls laid rfl fun {s name d} b => @LaidOut.bound _ _ laid s name d ?_
  unfold Binds Scope.Binds at b ⊢
  rwa [names_addScope] at b

/-- The names of one scope change. -/
theorem modifyScope (laid : t.LaidOut L) (scope : ScopeId) {f : Scope → Scope}
    (bound : ∀ {name d}, (f (t.scope scope)).Binds name d → L.known t.decls.size d) :
    t.StaysLaid L (t.modifyScope scope f) := by
  refine .of_decls laid rfl fun {s name d} b => ?_
  unfold Binds at b
  rw [scope_modifyScope] at b
  split at b
  · exact bound b
  · exact laid.bound b

theorem bindName (laid : t.LaidOut L) (scope : ScopeId) (name : String) {d : DeclId}
    (known : L.known t.decls.size d) : t.StaysLaid L (t.bindName scope name d) := by
  refine .modifyScope laid scope fun b => ?_
  rcases Names.binds_extend.mp b with old | ⟨-, member⟩
  · exact laid.bound (s := scope) old
  · exact List.mem_singleton.mp member ▸ known

theorem keepOnly (laid : t.LaidOut L) (scope : ScopeId) (name : String) (keep : Decl → Bool) :
    t.StaysLaid L (t.keepOnly scope name keep) := by
  unfold SymbolTable.keepOnly
  split
  · exact .refl laid
  · refine .modifyScope laid scope fun {other d} ⟨set, found, member⟩ => ?_
    rcases Names.mem_alter_cases found with old | ⟨rfl, rfl | ⟨old, before, rfl⟩⟩
    · exact laid.bound (s := scope) ⟨set, old, member⟩
    · cases member
    · exact laid.bound (s := scope) ⟨old, before, List.mem_of_mem_filter member⟩

/-! ## Changes of declarations -/

/-- A type parameter comes to be. -/
theorem addTypeParameter (laid : t.LaidOut L) {d : Decl} (kind : d.kind = .typeParameter) :
    t.StaysLaid L (t.addUnnamed d) := by
  have size : (t.addUnnamed d).decls.size = t.decls.size + 1 := by simp [SymbolTable.addUnnamed]
  have cases' (id : DeclId) : (t.addUnnamed d).decl id = t.decl id ∨
      (t.decl id).kind = .typeParameter ∧ ((t.addUnnamed d).decl id).kind = .typeParameter := by
    by_cases made : id.index < t.decls.size
    · exact .inl (decl_addUnnamed_of_lt made d)
    · refine .inr ⟨kind_eq_typeParameter (by omega), ?_⟩
      by_cases next : id = t.nextDecl
      · rw [next, decl_addUnnamed_nextDecl, kind]
      · have ne : id.index ≠ t.decls.size := fun same => next (congrArg DeclId.mk same)
        exact kind_eq_typeParameter (by rw [size]; omega)
  have slots (id : DeclId) (slot : TypeSlot) :
      ((t.addUnnamed d).decl id).typeIn? slot = (t.decl id).typeIn? slot := by
    rcases cases' id with old | ⟨before, new⟩
    · rw [old]
    · cases slot <;> simp [Decl.typeIn?, before, new]
  have reads : ∀ id slot, (t.decl id).HasRead slot → ((t.addUnnamed d).decl id).HasRead slot :=
    fun id slot read => by
      obtain ⟨type, held, plain⟩ := read
      exact ⟨type, (slots id slot).trans held, plain⟩
  refine ⟨by omega, ⟨fun id => ?_, fun b => ?_, fun id => ?_⟩, fun id slot => by rw [slots],
    fun id => ?_, reads⟩
  · rcases cases' id with old | ⟨-, new⟩
    · rw [old, size]
      exact (laid.decls id).mono (Nat.le_succ _)
    · refine ⟨by rw [new]; trivial, ?_, ?_⟩ <;> simp [Decl.subject, new]
  · rw [size]
    exact L.known_mono (Nat.le_succ _) (laid.bound b)
  · rcases cases' id with old | ⟨-, new⟩
    · rw [old]
      exact (laid.signed id).of_reads reads
    · intro c held
      simp [Decl.callable?, new] at held
  · rcases cases' id with old | ⟨before, new⟩
    · rw [old]
    · simp [Decl.callable?, before, new]

/-- One declaration changes, but not what it is nor where. -/
theorem modifyDecl (laid : t.LaidOut L) {f : Decl → Decl}
    (subject : (f (t.decl id)).subject = (t.decl id).subject)
    (span : (f (t.decl id)).span = (t.decl id).span)
    (lies : (f (t.decl id)).kind.LiesIn L t.decls.size (L.low id) (L.high id))
    (parameters : (f (t.decl id)).callable?.map (·.parameters) = (t.decl id).callable?.map (·.parameters))
    (keeps : ∀ slot, (t.decl id).HasRead slot → (f (t.decl id)).HasRead slot)
    (signs : t.Signs (f (t.decl id))) : t.StaysLaid L (t.modifyDecl id f) := by
  have reads : ∀ other slot, (t.decl other).HasRead slot → ((t.modifyDecl id f).decl other).HasRead slot := by
    intro other slot read
    rw [decl_modifyDecl]
    split
    · rename_i same
      exact keeps slot (same.1 ▸ read)
    · exact read
  refine ⟨Nat.le_of_eq (by simp), ⟨fun other => ?_, fun b => ?_, fun other => ?_⟩, fun other slot => ?_,
    fun other => ?_, reads⟩
  · rw [decl_modifyDecl, size_modifyDecl]
    split
    · rename_i same
      rw [same.1]
      have old := laid.decls id
      exact ⟨lies, by rw [subject, span]; exact old.constant, by rw [subject]; exact old.extension⟩
    · exact laid.decls other
  · rw [size_modifyDecl]
    exact laid.bound b
  · rw [decl_modifyDecl]
    split
    · exact signs.of_reads reads
    · exact (laid.signed other).of_reads reads
  · rw [decl_modifyDecl]
    split
    · rename_i same
      rw [same.1, Decl.isSome_typeIn?, Decl.isSome_typeIn?, subject]
    · rfl
  · rw [decl_modifyDecl]
    split
    · rename_i same
      rw [same.1, parameters]
    · rfl

/-- A declaration is replaced by itself. -/
theorem modifyDecl_of_same (laid : t.LaidOut L) {f : Decl → Decl} (same : f (t.decl id) = t.decl id) :
    t.StaysLaid L (t.modifyDecl id f) :=
  .modifyDecl laid (by rw [same]) (by rw [same]) (by rw [same]; exact (laid.decls id).kind) (by rw [same])
    (fun _ read => by rwa [same]) (by rw [same]; exact laid.signed id)

/-- A type that has been read goes into a slot. -/
theorem withTypeIn (laid : t.LaidOut L) (id : DeclId) (slot : TypeSlot) {type : Ty}
    (made : type.IsMade (L.known t.decls.size)) :
    t.StaysLaid L (t.modifyDecl id (·.withTypeIn slot type)) := by
  cases held : (t.decl id).typeIn? slot with
  | none =>
    have same : (t.decl id).withTypeIn slot type = t.decl id := by
      cases slot <;> cases kind : (t.decl id).kind <;> simp_all [Decl.typeIn?, Decl.withTypeIn]
    exact .modifyDecl_of_same laid same
  | some old =>
    have span : ((t.decl id).withTypeIn slot type).span = (t.decl id).span := by
      unfold Decl.withTypeIn
      split <;> rfl
    have new : type.LiesIn L t.decls.size (L.low id) (L.high id) := made.liesIn ..
    have plain := made.not_deferred
    have lies := (laid.decls id).kind
    rcases Decl.withTypeIn_cases held type with ⟨sort, e, kind, kind'⟩ | ⟨kind, kind'⟩ | ⟨kind, kind'⟩ |
      ⟨sort, c, kind, -, kind'⟩ | ⟨sort, body, kind, kind'⟩ <;> rw [kind] at lies
    · refine .modifyDecl laid (subject_withTypeIn ..) span (by rw [kind']; exact ⟨new, lies.2⟩)
        (by simp [Decl.callable?, kind, kind']) (fun slot' => ?_) fun c => ?_
      · cases slot' <;> simp_all [Decl.HasRead, Decl.typeIn?]
      · simp [Decl.callable?, kind']
    · refine .modifyDecl laid (subject_withTypeIn ..) span (by rw [kind']; exact new)
        (by simp [Decl.callable?, kind, kind']) (fun slot' => ?_) fun c => ?_
      · cases slot' <;> simp_all [Decl.HasRead, Decl.typeIn?]
      · simp [Decl.callable?, kind']
    · refine .modifyDecl laid (subject_withTypeIn ..) span (by rw [kind']; exact new)
        (by simp [Decl.callable?, kind, kind']) (fun slot' => ?_) fun c => ?_
      · cases slot' <;> simp_all [Decl.HasRead, Decl.typeIn?]
      · simp [Decl.callable?, kind']
    · refine .modifyDecl laid (subject_withTypeIn ..) span (by rw [kind']; exact { lies with result := new })
        (by simp [Decl.callable?, kind, kind']) (fun slot' => ?_) fun c' held' => ?_
      · cases slot' <;> simp_all [Decl.HasRead, Decl.typeIn?]
      · have signs := laid.signed id c (by simp [Decl.callable?, kind])
        simp only [Decl.callable?, kind', Option.some.injEq] at held'
        subst held'
        exact signs.imp_right fun read => ⟨⟨type, by simp [Decl.typeIn?, kind'], plain⟩, read.2⟩
    · refine .modifyDecl laid (subject_withTypeIn ..) span (by rw [kind']; exact ⟨new, lies.2⟩)
        (by simp [Decl.callable?, kind, kind']) (fun slot' => ?_) fun c => ?_
      · cases slot' <;> simp_all [Decl.HasRead, Decl.typeIn?]
      · simp [Decl.callable?, kind']

/-- An initializer that has been read takes the place of another one. -/
theorem withInitializer (laid : t.LaidOut L) {e : Expr}
    (made : e.IsMade (L.known t.decls.size) (L.Within (L.low id) (L.high id))) :
    t.StaysLaid L (t.modifyDecl id (·.withInitializer e)) := by
  have lies := (laid.decls id).kind
  have same : (t.decl id).withInitializer e = t.decl id ∨ ∃ sort type e', (t.decl id).kind =
      .object sort type (some e') ∧ ((t.decl id).withInitializer e).kind = .object sort type (some e) := by
    unfold Decl.withInitializer
    split
    · rename_i kind
      exact .inr ⟨_, _, _, kind, rfl⟩
    · exact .inl rfl
  have span : ((t.decl id).withInitializer e).span = (t.decl id).span := by
    unfold Decl.withInitializer
    split <;> rfl
  rcases same with same | ⟨sort, type, e', kind, kind'⟩
  · exact .modifyDecl_of_same laid same
  · rw [kind] at lies
    refine .modifyDecl laid (subject_withInitializer ..) span
      (by rw [kind']; exact ⟨lies.1, fun _ same => Option.some.inj same ▸ made.liesIn⟩)
      (by simp [Decl.callable?, kind, kind']) (fun slot => ?_) fun c held => ?_
    · cases slot <;> simp [Decl.HasRead, Decl.typeIn?, kind, kind']
    · simp [Decl.callable?, kind'] at held

/-- The parts of a function change. -/
theorem mapCallable (laid : t.LaidOut L) {f : Callable → Callable}
    (parameters : ∀ c, (f c).parameters = c.parameters)
    (new : ∀ c, (t.decl id).callable? = some c → (f c).LiesIn L t.decls.size (L.low id) (L.high id))
    (keeps : ∀ c, (t.decl id).callable? = some c → c.result.isDeferred = false →
      (f c).result.isDeferred = false)
    (signs : ∀ c, (t.decl id).callable? = some c → (f c).type = .auto ∨
      (f c).result.isDeferred = false ∧ ∀ p ∈ (f c).parameters, (t.decl p).HasRead .declared) :
    t.StaysLaid L (t.modifyDecl id (·.mapCallable f)) := by
  have span : ((t.decl id).mapCallable f).span = (t.decl id).span := by
    unfold Decl.mapCallable
    split <;> rfl
  rcases (t.decl id).mapCallable_cases f with ⟨sort, c, kind, kind'⟩ | same
  · have held : (t.decl id).callable? = some c := by simp [Decl.callable?, kind]
    refine .modifyDecl laid (subject_mapCallable ..) span (by rw [kind']; exact new c held)
      (by simp [Decl.callable?, kind, kind', parameters]) (fun slot => ?_) fun c' held' => ?_
    · rintro ⟨type, inside, plain⟩
      cases slot <;> simp [Decl.typeIn?, kind] at inside
      subst inside
      exact ⟨(f c).result, by simp [Decl.typeIn?, kind'], keeps c held plain⟩
    · simp only [Decl.callable?, kind', Option.some.injEq] at held'
      subst held'
      exact (signs c held).imp_right fun read =>
        ⟨⟨(f c).result, by simp [Decl.typeIn?, kind'], read.1⟩, read.2⟩
  · exact .modifyDecl_of_same laid same

/-- A change of a function that concerns neither its type nor what that is made of. -/
theorem mapCallable_of_same (laid : t.LaidOut L) {f : Callable → Callable}
    (new : ∀ c, (t.decl id).callable? = some c → (f c).LiesIn L t.decls.size (L.low id) (L.high id))
    (type : ∀ c, (f c).type = c.type) (result : ∀ c, (f c).result = c.result)
    (parameters : ∀ c, (f c).parameters = c.parameters) :
    t.StaysLaid L (t.modifyDecl id (·.mapCallable f)) := by
  refine .mapCallable laid parameters new (fun c _ plain => by rwa [result]) fun c held => ?_
  rw [type, result, parameters]
  refine (laid.signed id c held).imp_right fun ⟨⟨type, inside, plain⟩, read⟩ => ⟨?_, read⟩
  obtain ⟨sort, kind⟩ := Decl.kind_of_callable? held
  simp only [Decl.typeIn?, kind, Option.some.injEq] at inside
  rwa [inside]

theorem withBody (laid : t.LaidOut L) {body : Body}
    (lies : body.LiesIn L t.decls.size (L.low id) (L.high id)) :
    t.StaysLaid L (Signature.withBody t id body) :=
  .mapCallable_of_same laid (fun _ held => { laid.callable held with body := lies })
    (fun _ => rfl) (fun _ => rfl) fun _ => rfl

theorem withoutBody (laid : t.LaidOut L) (id : DeclId) : t.StaysLaid L (Signature.withoutBody t id) :=
  .withBody laid trivial

/-- The type of a function is put together from types that have been read. -/
theorem rebuildType (laid : t.LaidOut L)
    (read : ∀ c, (t.decl id).callable? = some c → c.result.isDeferred = false ∧
      ∀ p ∈ c.parameters, (t.decl p).HasRead .declared) :
    t.StaysLaid L (Signature.rebuildType t id) := by
  refine .mapCallable laid (fun _ => rfl) (fun c held => ?_) (fun _ _ plain => plain)
    fun c held => .inr (read c held)
  obtain ⟨result, parameters⟩ := read c held
  have lies := laid.callable held
  refine { lies with type := ⟨Ty.allMade_iff.mpr fun type member => ?_, lies.result.isMade result⟩ }
  obtain ⟨p, inside, rfl⟩ := List.mem_map.mp member
  obtain ⟨type, declared, -⟩ := parameters p inside
  rw [Decl.ownType?, declared]
  exact laid.isMade_of_hasRead (parameters p inside) declared

/-- The members of a class change. -/
theorem mapMembers (laid : t.LaidOut L) {f : List Stmt → List Stmt}
    (new : Stmt.AllLieIn L t.decls.size (L.low id) (L.high id) (f (t.members id))) :
    t.StaysLaid L (t.modifyDecl id (·.mapMembers f)) := by
  have span : ((t.decl id).mapMembers f).span = (t.decl id).span := by
    unfold Decl.mapMembers
    split <;> rfl
  rcases (t.decl id).mapMembers_cases f with ⟨sort, type, body, kind, kind'⟩ | same
  · have lies := (laid.decls id).kind
    rw [kind] at lies
    rw [show t.members id = body by simp [SymbolTable.members, Decl.members?, kind]] at new
    refine .modifyDecl laid (subject_mapMembers ..) span (by rw [kind']; exact ⟨lies.1, new⟩)
      (by simp [Decl.callable?, kind, kind']) (fun slot => ?_) fun c held => ?_
    · cases slot <;> simp [Decl.HasRead, Decl.typeIn?, kind, kind']
    · simp [Decl.callable?, kind'] at held
  · exact .modifyDecl_of_same laid same

/-- A class takes in an extension, which lies apart. -/
theorem absorb (laid : t.LaidOut L) (cls : DeclId) {e : DeclId} (extension : (t.decl e).isExtension = true)
    (inner outer : ScopeId) : t.StaysLaid L (t.absorb cls e inner outer) := by
  have apart : L.Apart (L.low e) (L.high e) := (laid.decls e).extension (by
    unfold Decl.isExtension at extension
    split at extension
    · rename_i kind
      simp [Decl.subject, kind]
    · cases extension)
  have imported : t.StaysLaid L (t.modifyScope outer (·.extendAll (t.scope inner).names)) := by
    refine .modifyScope laid outer fun b => ?_
    rcases Scope.binds_extendAll.mp b with own | absorbed
    · exact laid.bound (s := outer) own
    · exact laid.bound (s := inner) absorbed
  have moved : t.StaysLaid L
      ((t.modifyScope outer (·.extendAll (t.scope inner).names)).reparent inner outer) :=
    imported.trans (.modifyScope imported.laid inner fun b => imported.laid.bound (s := inner) b)
  have emptied : t.StaysLaid L
      (((t.modifyScope outer (·.extendAll (t.scope inner).names)).reparent inner outer).modifyDecl e
        (·.mapMembers fun _ => [])) :=
    moved.trans (.mapMembers moved.laid trivial)
  refine emptied.trans (.mapMembers emptied.laid ?_)
  exact .append (L.ordered cls) (emptied.laid.members cls)
    (Stmt.AllLieIn.mono emptied.size (Layout.Inside.refl L _ _) (L.ordered e) (laid.members e)) apart

end StaysLaid

end SymbolTable

end Deferral
