import Deferral.Proofs.Constant.Evaluation

/-!
# Runs that define objects

Resolving the declared type and the initializer of an object, checking the one against the other and
giving a constant its value. Binding a constant is what evaluation asks of it, at every level.
-/

namespace Deferral

open Resolution SymbolTable

/-- Every type fits itself. -/
theorem Ty.fits_self {type : Ty} (normal : type.Normal) : type.Fits type := by
  cases dependent : type.isDependent with
  | true => exact .inl dependent
  | false => exact .inr (.inr (.inl (normal.equivalent_self type dependent)))

namespace Decl

theorem kind_of_initializer? {d : Decl} {e : Expr} (h : d.initializer? = some e) :
    ∃ sort type, d.kind = .object sort type (some e) := by
  unfold initializer? at h
  split at h
  · rename_i sort type _ kind
    exact ⟨sort, type, h ▸ kind⟩
  · cases h

theorem withTypeIn_self {d : Decl} {slot : TypeSlot} {type : Ty}
    (held : d.typeIn? slot = some type) : d.withTypeIn slot type = d := by
  obtain ⟨name, kind, scope, span⟩ := d
  cases slot <;> cases kind <;> simp_all [typeIn?, withTypeIn]
  subst held
  rfl

theorem typeIn?_withTypeIn {d : Decl} {slot : TypeSlot} {type : Ty}
    (held : d.typeIn? slot = some type) (type' : Ty) :
    (d.withTypeIn slot type').typeIn? slot = some type' := by
  cases slot <;> cases h : d.kind <;> simp_all [typeIn?, withTypeIn]

/-- A constant has a declared type and no other. -/
theorem slot_of_isConstant {d : Decl} (constant : d.isConstant = true) {slot : TypeSlot} {type : Ty}
    (held : d.typeIn? slot = some type) : slot = .declared := by
  cases slot with
  | declared => rfl
  | result => cases h : d.kind <;> simp_all [typeIn?, isConstant]
  | kind => cases h : d.kind <;> simp_all [typeIn?, isConstant]

end Decl

namespace SymbolTable

variable {t t' : SymbolTable} {own : Option DeclId}

theorem Awaits.of_same {id c : DeclId} (h : t.Awaits id c) (decls : t'.decls = t.decls)
    (scopes : t'.scopes = t.scopes) : t'.Awaits id c := by
  have same : ∀ other, t'.decl other = t.decl other := fun other => by simp [decl, decls]
  obtain ⟨constant, f, phrase, deferred, read, member⟩ := h
  refine ⟨by rw [same]; exact constant, f, phrase, by rw [same]; exact deferred, read, ?_⟩
  have named : ∀ name, (t'.enter (t.decl id).scope).named? name =
      (t.enter (t.decl id).scope).named? name := by
    refine named?_congr scopes rfl fun other => ?_
    exact congrArg Decl.isExtension (same other)
  rw [same, TypePhrase.constantNames_congr named]
  exact member

/-- What is settled under a scope is settled once the scope is left. -/
theorem Settles.leave {scope : ScopeId} (h : Settles own (t.enter scope) t') :
    Settles own t t'.leave where
  edits := (Edit.reaches (.enter scope)).trans (h.edits.trans (Edit.reaches .leave))
  evolves := by
    have entered : t.Evolves (t.enter scope) := .of_same rfl rfl
    exact (entered.trans h.evolves).trans (.of_same rfl rfl)
  scopes := h.scopes
  saved := h.saved
  active := congrArg List.tail h.active
  binding := h.binding
  nextBlock := h.nextBlock
  size := h.size
  others := h.others
  pending := h.pending
  held := h.held
  shielded := fun id c pending awaits => h.shielded id c pending (awaits.of_same rfl rfl)

/-- An edit of the object `id` itself, whose declared type changes only if it waits for nothing. -/
theorem Settles.of_edit {id : DeclId} {f : Decl → Decl} (sound : t.Sound)
    (edit : t.Edit (t.modifyDecl id f))
    (kept : ∀ c, t.Pending c → t.Awaits id c → (f (t.decl id)).ownType? = (t.decl id).ownType?) :
    Settles (some id) t (t.modifyDecl id f) where
  edits := edit.reaches
  evolves := edit.evolves sound
  scopes := rfl
  saved := rfl
  active := rfl
  binding := rfl
  nextBlock := rfl
  size := by simp
  others := fun other _ ne => decl_modifyDecl_of_ne (fun same => ne (congrArg some same)) t f
  pending := fun c pending => pending.2
  held := fun c _ ne => decl_modifyDecl_of_ne (fun same => ne (congrArg some same)) t f
  shielded := fun other c pending awaits => by
    rw [decl_modifyDecl]
    split
    · rename_i same
      obtain ⟨rfl, -⟩ := same
      exact kept c pending awaits
    · rfl

theorem Sound.enter (h : t.Sound) (scope : ScopeId) : (t.enter scope).Sound :=
  (Edit.enter scope).sound h

end SymbolTable

namespace Resolution

variable {bind : DeclId → Resolution Unit} {t t' : SymbolTable}

/-- What a run does that reads a type if it is deferred. -/
structure Forced (type : Ty) (t : SymbolTable) (r : Except Diagnostic Ty) (t' : SymbolTable) :
    Prop where
  settles : Settles none t t'
  normal : type.Sound → ∀ type', r = .ok type' → type'.Normal
  shields : ∀ f, type = .deferred f → ∀ phrase, TypePhrase.ofTokens f.tokens = .ok phrase →
    Shields (phrase.constantNames t) t t'
  known : ∀ f, type = .deferred f → ∀ type', r = .ok type' →
    ∃ phrase, TypePhrase.ofTokens f.tokens = .ok phrase ∧
      ∀ c, t.Pending c → c ∉ phrase.constantNames t
  kept : type.isDeferred = false → r = .ok type ∧ t' = t

theorem runs_forceTypeWith (binds : Binds bind) (sound : t.Sound) {type : Ty}
    {r : Except Diagnostic Ty} (h : Runs (forceTypeWith bind type) t r t') :
    Forced type t r t' := by
  unfold forceTypeWith at h
  split at h
  · rename_i f
    obtain ⟨r, run, rfl⟩ := runs_rethrow.mp h
    obtain ⟨settles, shields, normal, known⟩ := TypePhrase.runs_typeOf binds sound run
    refine ⟨settles, fun _ type' same => normal type' (mapError_eq_ok_iff.mp same),
      fun f' same => ?_, fun f' same type' ok => ?_, fun deferred => by cases deferred⟩
    · obtain rfl := Ty.deferred.inj same
      exact shields
    · obtain rfl := Ty.deferred.inj same
      exact known type' (mapError_eq_ok_iff.mp ok)
  · rename_i read
    obtain ⟨rfl, rfl⟩ := runs_pure.mp h
    refine ⟨.refl none t', fun sound type' same => ?_, fun f same => absurd same (read f),
      fun f same => absurd same (read f), fun _ => ⟨rfl, rfl⟩⟩
    obtain rfl := Except.ok.inj same
    refine sound.resolve_left fun deferred => ?_
    cases type with
    | deferred f => exact read f rfl
    | _ => cases deferred

/-- A type that has been read is put into its slot. -/
structure Slotted (id : DeclId) (slot : TypeSlot) (t t' : SymbolTable) : Prop where
  put : ∃ type' type t₁, Settles none t t₁ ∧ type'.Normal ∧
    (t₁.decl id).typeIn? slot = some type ∧ t'.decl id = (t₁.decl id).withTypeIn slot type'

/-- The slot is still deferred when its type has been read: a constant waits for all that its type
reads, and no other declaration changes. -/
theorem runs_forceSlotWith (binds : Binds bind) (sound : t.Sound) {id : DeclId} {slot : TypeSlot}
    (here : (t.decl id).isConstant = true → t.innermost = (t.decl id).scope)
    {r : Except Diagnostic Unit} (h : Runs (forceSlotWith bind id slot) t r t') :
    Settles (some id) t t' ∧ (r = .ok () → Slotted id slot t t') := by
  unfold forceSlotWith at h
  rw [runs_bind_look] at h
  split at h
  · obtain ⟨rfl, rfl⟩ := runs_fail.mp h
    exact ⟨.refl _ _, fun ok => by cases ok⟩
  rename_i type held
  have typeSound : type.Sound := sound.typeIn? held
  split at h
  · rename_i deferred
    rcases runs_bind.mp h with ⟨fault, forced, rfl⟩ | ⟨type', t₁, forced, put⟩
    · exact ⟨(runs_forceTypeWith binds sound forced).settles.weaken _, fun ok => by cases ok⟩
    have run := runs_forceTypeWith binds sound forced
    have normal := run.normal typeSound type' rfl
    obtain ⟨f, rfl⟩ : ∃ f, type = .deferred f := by
      cases type with
      | deferred f => exact ⟨f, rfl⟩
      | _ => cases deferred
    obtain ⟨phrase, read, known⟩ := run.known f rfl type' rfl
    have waits : (t.decl id).isConstant = true → slot = .declared ∧
        ∀ c ∈ phrase.constantNames t, t.Awaits id c := by
      intro constant
      obtain rfl := Decl.slot_of_isConstant constant held
      refine ⟨rfl, fun c member => ⟨constant, f, phrase, held, read, ?_⟩⟩
      have named : ∀ name, (t.enter (t.decl id).scope).named? name = t.named? name :=
        named?_congr rfl (here constant).symm fun _ => rfl
      rw [TypePhrase.constantNames_congr named]
      exact member
    have held₁ : (t₁.decl id).typeIn? slot = some (.deferred f) := by
      cases constant : (t.decl id).isConstant with
      | false => rw [run.settles.others id constant (by simp), held]
      | true =>
        obtain ⟨rfl, awaits⟩ := waits constant
        exact (run.shields f rfl phrase read id awaits).trans held
    have edit := Edit.resolve held₁ rfl normal
    have settles₁ := run.settles
    have step : Settles (some id) t₁ (t₁.modifyDecl id (·.withTypeIn slot type')) := by
      refine .of_edit (settles₁.sound sound) edit fun c pending awaits => absurd pending ?_
      -- The type has been read, so it reads nothing that is being computed.
      obtain ⟨constant₁, f', phrase', held', read', member⟩ := awaits
      have constant : (t.decl id).isConstant = true := by
        cases constant : (t.decl id).isConstant with
        | true => rfl
        | false =>
          rw [settles₁.others id constant (by simp), constant] at constant₁
          cases constant₁
      obtain ⟨rfl, -⟩ := waits constant
      obtain rfl := Ty.deferred.inj (Option.some.inj (held₁.symm.trans held'))
      obtain rfl := Except.ok.inj (read.symm.trans read')
      refine fun pending => known c (settles₁.pending_back pending) ?_
      have named : ∀ name, (t₁.enter (t₁.decl id).scope).named? name = t.named? name := by
        refine named?_congr settles₁.scopes ?_ settles₁.isExtension
        rw [here constant]
        exact settles₁.scope id
      rw [TypePhrase.constantNames_congr named] at member
      exact member
    obtain ⟨rfl, rfl⟩ := runs_modify.mp put
    refine ⟨(settles₁.weaken _).trans step, fun _ => ⟨type', .deferred f, t₁, settles₁, normal, held₁, ?_⟩⟩
    have present : (t₁.decl id).kind ≠ .typeParameter := by
      intro absent
      cases slot <;> simp [Decl.typeIn?, absent] at held₁
    exact decl_modifyDecl_self (lt_size_of_kind present) _
  · rename_i read
    obtain ⟨rfl, rfl⟩ := runs_pure.mp h
    have read : type.isDeferred = false := by simpa using read
    have normal : type.Normal := typeSound.resolve_left (by simp [read])
    exact ⟨.refl _ _, fun _ =>
      ⟨type, type, t', .refl none t', normal, held, (Decl.withTypeIn_self held).symm⟩⟩

theorem runs_forceExpression {e : Expr} {r : Except Diagnostic Expr} :
    Runs (forceExpression e) t r t' ↔ r = t.forceExpression e ∧ t' = t := by
  unfold forceExpression
  rw [runs_bind_get, runs_ofExcept]

/-- What a run does that reads the declared type of an object and the expression `init`. -/
structure ObjectForced (id : DeclId) (init e : Expr) (t t' : SymbolTable) : Prop where
  slotted : Slotted id .declared t t'
  read : init.excerpt? = none → e = init
  well : (init.excerpt? = none → init.WellTyped t') → e.WellTyped t'

theorem runs_forceObjectWith (binds : Binds bind) (sound : t.Sound) {id : DeclId} {init : Expr}
    {r : Except Diagnostic Expr}
    (h : Runs (forceObjectWith bind id (t.decl id).scope init) t r t') :
    Settles (some id) t t' ∧ ∀ e, r = .ok e → ObjectForced id init e t t' := by
  obtain ⟨t₂, run, rfl⟩ := runs_under.mp h
  have sound' := sound.enter (t.decl id).scope
  rcases runs_bind.mp run with ⟨fault, forced, rfl⟩ | ⟨_, t₁, forced, rest⟩
  · exact ⟨(runs_forceSlotWith binds sound' (fun _ => rfl) forced).1.leave,
      fun e same => by cases same⟩
  obtain ⟨settles, slotted⟩ := runs_forceSlotWith binds sound' (fun _ => rfl) forced
  obtain ⟨rfl, rfl⟩ := runs_forceExpression.mp rest
  refine ⟨settles.leave, fun e read => ⟨?_, fun known => ?_, fun well => ?_⟩⟩
  · obtain ⟨type', type, t₁, settles₁, normal, held, put⟩ := (slotted rfl).put
    exact ⟨type', type, t₁.leave, settles₁.leave, normal, held, put⟩
  · simp only [SymbolTable.forceExpression, known] at read
    exact (Except.ok.inj read).symm
  · have uses := (settles.sound sound').normalUses
    have entered : t₂.leave.Evolves t₂ := .of_same rfl rfl
    have left : t₂.Evolves t₂.leave := .of_same rfl rfl
    exact left.wellTyped
      (wellTyped_of_forceExpression uses (fun known => entered.wellTyped (well known)) read)

/-- A deduced type is that of the expression it is taken from. -/
theorem deduce?_cases {placeholder : Ty} {e e' : Expr} (h : deduce? placeholder e = some e') :
    placeholder.isPlaceholder = true ∧ (e' = e.asValue ∨ e' = e) := by
  unfold deduce? at h
  split at h
  · exact ⟨rfl, .inl (Option.some.inj h).symm⟩
  · exact ⟨rfl, .inr (Option.some.inj h).symm⟩
  · cases h

theorem deduce?_eq_none {type : Ty} {e : Expr} (h : deduce? type e = none) :
    type.isPlaceholder = false := by
  cases type <;> first
    | rfl
    | cases h

/-- The type of an object is settled: it may be deduced, and the initializer fits it. -/
theorem runs_settleType (sound : t.Sound) {id : DeclId} {sort : ObjectSort} {declared : Ty}
    {init e : Expr} (kind : (t.decl id).kind = .object sort declared (some init))
    (normal : declared.Normal) (well : e.WellTyped t) (read : init.excerpt? = none → e = init)
    {r : Except Diagnostic Expr} (h : Runs (settleType id declared e) t r t') :
    Settles (some id) t t' ∧ ∀ e', r = .ok e' → ∃ type,
      (t'.decl id).kind = .object sort type (some init) ∧ e'.Initializes t' type := by
  unfold settleType at h
  split at h
  · rename_i e' deduced
    obtain ⟨placeholder, taken⟩ := deduce?_cases deduced
    have well' : e'.WellTyped t := by
      rcases taken with rfl | rfl
      · exact well.asValue
      · exact well
    rw [runs_bind_modify] at h
    obtain ⟨rfl, rfl⟩ := runs_pure.mp h
    have old := sound.decls id
    rw [kind] at old
    have edit : t.Edit (t.modifyDecl id (·.withTypeIn .declared e'.type)) := by
      refine .deduce kind placeholder (fun known => ?_) well'.normal_type
      obtain rfl := read known
      have same := (old.initializes _ rfl known).deduced placeholder
      rcases taken with rfl | rfl
      · rw [Expr.type_asValue, same]
        cases declared <;> first
          | rfl
          | cases placeholder
      · exact same
    have step : Settles (some id) t (t.modifyDecl id (·.withTypeIn .declared e'.type)) := by
      refine .of_edit sound edit fun c _ awaits => ?_
      obtain ⟨-, f, -, deferred, -⟩ := awaits
      simp only [Decl.ownType?, Decl.typeIn?, kind, Option.some.injEq] at deferred
      rw [deferred] at placeholder
      cases placeholder
    refine ⟨step, fun e'' same => ?_⟩
    obtain rfl := Except.ok.inj same
    refine ⟨e'.type, ?_, step.evolves.wellTyped well', well'.normal_type,
      Ty.fits_self well'.normal_type, fun _ => rfl⟩
    rw [decl_modifyDecl_self (lt_size_of_kind (by simp [kind]))]
    simp [Decl.withTypeIn, kind]
  · rename_i noDeduction
    have known := deduce?_eq_none noDeduction
    obtain ⟨rfl, rfl⟩ := runs_ofExcept.mp h
    refine ⟨.refl _ _, fun e' initialized => ?_⟩
    obtain ⟨well', fits⟩ := well.definingInitializer normal initialized
    exact ⟨declared, kind, well', normal, fits, fun placeholder => by
      rw [known] at placeholder; cases placeholder⟩

end Resolution

/-! ## Objects -/

/-- The last step of defining an object: its initializer is put in place, and a constant gets its
value. -/
inductive SymbolTable.Finishes (id : DeclId) (t : SymbolTable) : SymbolTable → Prop
  | defined {type : Ty} {e e' : Expr} :
      (t.decl id).kind = .object .var type (some e) → e'.Initializes t type →
      Finishes id t (t.modifyDecl id (·.withInitializer e'))
  | valued {type : Ty} {e e' : Expr} {v : Constant} :
      (t.decl id).kind = .object .constant type (some e) → t.constant? id = none →
      e'.Initializes t type → e'.value? t.constant? = some v →
      Finishes id t ((t.setConstant id v).modifyDecl id (·.withInitializer e'))

theorem SymbolTable.Finishes.edit {id : DeclId} {t t' : SymbolTable} (h : Finishes id t t') :
    t.Edit t' := by
  cases h with
  | defined kind initializes => exact .define kind initializes
  | valued kind unknown initializes value => exact .store kind unknown initializes value

/-- What finishing the object `id` leaves alone. -/
structure SymbolTable.FinishedOnly (id : DeclId) (t t' : SymbolTable) : Prop where
  scopes : t'.scopes = t.scopes
  saved : t'.saved = t.saved
  active : t'.active = t.active
  binding : t'.binding = t.binding
  nextBlock : t'.nextBlock = t.nextBlock
  size : t'.decls.size = t.decls.size
  decls : ∀ other, other ≠ id → t'.decl other = t.decl other
  constants : ∀ other, other ≠ id → t'.constant? other = t.constant? other
  types : ∀ other, (t'.decl other).ownType? = (t.decl other).ownType?

theorem SymbolTable.FinishedOnly.refl (id : DeclId) (t : SymbolTable) : FinishedOnly id t t :=
  ⟨rfl, rfl, rfl, rfl, rfl, rfl, fun _ _ => rfl, fun _ _ => rfl, fun _ => rfl⟩

theorem SymbolTable.Finishes.only {id : DeclId} {t t' : SymbolTable} (h : t.Finishes id t') :
    FinishedOnly id t t' := by
  cases h with
  | @defined type e e' kind _ =>
    refine ⟨rfl, rfl, rfl, rfl, rfl, by simp, fun other ne => decl_modifyDecl_of_ne ne _ _,
      fun _ _ => rfl, fun other => ?_⟩
    rw [decl_modifyDecl]
    split
    · rename_i same
      simp [same.1, Decl.ownType?, Decl.typeIn?, kind, Decl.kind_withInitializer kind]
    · rfl
  | @valued type e e' v kind _ _ _ =>
    refine ⟨rfl, rfl, rfl, rfl, rfl, by simp [setConstant],
      fun other ne => decl_modifyDecl_of_ne ne _ _,
      fun other ne => constant?_setConstant_of_ne ne t v, fun other => ?_⟩
    rw [decl_modifyDecl]
    split
    · rename_i same
      simp [same.1, Decl.ownType?, Decl.typeIn?, kind, Decl.kind_withInitializer kind]
    · rfl

/-- A constant is entered, settled and left. -/
theorem SymbolTable.Settles.of_entered {id : DeclId} {t t₁ t₂ : SymbolTable} (sound : t.Sound)
    (constant : (t.decl id).isConstant = true) (free : id ∉ t.binding)
    (unknown : t.constant? id = none)
    (settles : Settles (some id) { t with binding := id :: t.binding } t₁)
    (edits : t₁.Reaches t₂) (only : FinishedOnly id t₁ t₂) :
    Settles none t (t₂.finishBinding id) where
  edits := ((Edit.reaches (.startBinding free unknown)).trans settles.edits).trans
    (edits.trans (Edit.reaches (.finishBinding id)))
  evolves := by
    have reaches := ((Edit.reaches (.startBinding free unknown)).trans settles.edits).trans
      (edits.trans (Edit.reaches (.finishBinding id)))
    exact reaches.evolves sound
  scopes := only.scopes.trans settles.scopes
  saved := only.saved.trans settles.saved
  active := only.active.trans settles.active
  binding := by
    simp only [finishBinding, only.binding, settles.binding]
    rw [List.filter_cons_of_neg (by simp), List.filter_eq_self]
    intro other member
    simpa using fun same : other = id => free (same ▸ member)
  nextBlock := only.nextBlock.trans settles.nextBlock
  size := only.size.trans settles.size
  others := fun other notConstant _ => by
    have ne : other ≠ id := by
      rintro rfl
      rw [constant] at notConstant
      cases notConstant
    exact (only.decls other ne).trans
      (settles.others other notConstant fun same => ne (Option.some.inj same))
  pending := fun c pending => by
    have ne : c ≠ id := fun same => free (same ▸ pending.1)
    have pending' : Pending { t with binding := id :: t.binding } c :=
      ⟨List.mem_cons_of_mem _ pending.1, pending.2⟩
    exact (only.constants c ne).trans (settles.pending c pending')
  held := fun c pending _ => by
    have ne : c ≠ id := fun same => free (same ▸ pending.1)
    have pending' : Pending { t with binding := id :: t.binding } c :=
      ⟨List.mem_cons_of_mem _ pending.1, pending.2⟩
    exact (only.decls c ne).trans (settles.held c pending' fun same => ne (Option.some.inj same))
  shielded := fun other c pending awaits => by
    have pending' : Pending { t with binding := id :: t.binding } c :=
      ⟨List.mem_cons_of_mem _ pending.1, pending.2⟩
    exact (only.types other).trans (settles.shielded other c pending' (awaits.of_same rfl rfl))

namespace Resolution

variable {bind : DeclId → Resolution Unit} {t t' : SymbolTable}

/-- What a run does that defines an object: it settles the object, and then either ends in a fault
or without an initializer to define, or finishes the object. -/
inductive ObjectSettled (id : DeclId) (t : SymbolTable) (r : Except Diagnostic Unit)
    (t' : SymbolTable) : Prop
  | stopped : Settles (some id) t t' → (r = .ok () → (t.decl id).initializer? = none) →
      ObjectSettled id t r t'
  | finished {t₁ : SymbolTable} : Settles (some id) t t₁ → t₁.Finishes id t' → r = .ok () →
      ObjectSettled id t r t'

/-- Nothing else changes the object meanwhile: it is a variable, or a constant being computed. -/
theorem runs_settleObjectWith (binds : Binds bind) (sound : t.Sound) {id : DeclId}
    (own : (t.decl id).isConstant = false ∨ t.Pending id) {r : Except Diagnostic Unit}
    (h : Runs (settleObjectWith bind id) t r t') : ObjectSettled id t r t' := by
  have kept : ∀ {s s' : SymbolTable}, (s.decl id).isConstant = false ∨ s.Pending id →
      Settles none s s' → s'.decl id = s.decl id := by
    intro s s' own settles
    rcases own with other | pending
    · exact settles.others id other (by simp)
    · exact settles.held id pending (by simp)
  unfold settleObjectWith at h
  rw [runs_bind_look] at h
  split at h
  · rename_i noInitializer
    obtain ⟨rfl, rfl⟩ := runs_pure.mp h
    exact .stopped (.refl _ _) fun _ => noInitializer
  rename_i init initializer
  obtain ⟨sort, type, kind⟩ := Decl.kind_of_initializer? initializer
  rcases runs_bind.mp h with ⟨fault, forced, rfl⟩ | ⟨e, t₁, forced, rest⟩
  · exact .stopped (runs_forceObjectWith binds sound forced).1 fun ok => by cases ok
  obtain ⟨settles₁, forced⟩ := runs_forceObjectWith binds sound forced
  obtain ⟨⟨type', _, t₀, settles₀, normal, held, put⟩, read, well⟩ := forced e rfl
  have kind₁ : (t₁.decl id).kind = .object sort type' (some init) := by
    rw [put, kept own settles₀]
    simp [Decl.withTypeIn, kind]
  have sound₁ := settles₁.sound sound
  have well₁ : e.WellTyped t₁ := by
    refine well fun known => settles₁.evolves.wellTyped ?_
    have old := sound.decls id
    rw [kind] at old
    exact (old.initializes init rfl known).well
  rw [runs_bind_look] at rest
  simp only [Decl.ownType?, Decl.typeIn?, kind₁] at rest
  rcases runs_bind.mp rest with ⟨fault, typed, rfl⟩ | ⟨e', t₂, typed, rest⟩
  · exact .stopped (settles₁.trans (runs_settleType sound₁ kind₁ normal well₁ read typed).1)
      fun ok => by cases ok
  obtain ⟨settles₂, typed⟩ := runs_settleType sound₁ kind₁ normal well₁ read typed
  obtain ⟨type₂, kind₂, initializes⟩ := typed e' rfl
  have settles := settles₁.trans settles₂
  have sound₂ := settles.sound sound
  cases sort with
  | var =>
    have other : (t.decl id).isConstant = false := by simp [Decl.isConstant, kind]
    simp only [other] at rest
    obtain ⟨rfl, rfl⟩ := runs_modify.mp rest
    exact .finished settles (.defined kind₂ initializes) rfl
  | constant =>
    have constant : (t.decl id).isConstant = true := by simp [Decl.isConstant, kind]
    have pending : t.Pending id := own.resolve_left (by simp [constant])
    have pending₂ := settles.pending_of pending
    simp only [constant, if_true] at rest
    rcases runs_bind.mp rest with ⟨fault, evaluated, rfl⟩ | ⟨v, t₃, evaluated, rest⟩
    · have evaluated := Expr.runs_evaluateWith binds e' sound₂ evaluated
      exact .stopped (settles.trans (evaluated.settles.weaken _)) fun ok => by cases ok
    obtain ⟨settles₃, -, value⟩ := Expr.runs_evaluateWith binds e' sound₂ evaluated
    have kind₃ := kept (.inr pending₂) settles₃
    rw [runs_bind_modify] at rest
    obtain ⟨rfl, rfl⟩ := runs_modify.mp rest
    have last := Finishes.valued ((congrArg Decl.kind kind₃).trans kind₂)
      (settles₃.pending id pending₂) (settles₃.evolves.initializes initializes) (value v rfl)
    exact .finished (settles.trans (settles₃.weaken _)) last rfl

/-! ## Constants -/

/-- The ways in which a run ends that makes sure that a constant has its value: it has it, it cannot
be entered, or it is entered and settled. -/
inductive Ensured (level : Nat) (id : DeclId) (t : SymbolTable) (r : Except Diagnostic Unit)
    (t' : SymbolTable) : Prop
  | known : (t.constant? id).isSome = true → r = .ok () → t' = t → Ensured level id t r t'
  | refused {d : Diagnostic} : t.constant? id = none → (level = 0 ∨ id ∈ t.binding) →
      r = .error d → t' = t → Ensured level id t r t'
  | entered {level' : Nat} {t₁ : SymbolTable} : t.constant? id = none → id ∉ t.binding →
      level = level' + 1 →
      Runs (settleObjectWith (ensureConstantWithin level') id)
        { t with binding := id :: t.binding } r t₁ →
      t' = t₁.finishBinding id → Ensured level id t r t'

theorem runs_selfDependent {id : DeclId} {r : Except Diagnostic Unit} :
    Runs (selfDependent id) t r t' ↔
      r = .error { cause := .notEvaluable (.selfDependent (t.decl id).name)
                   position := (t.decl id).span.start } ∧ t' = t := by
  unfold selfDependent
  rw [runs_bind_look, runs_fail]

/-- A constant that had been entered is left, and the others are being computed still. -/
theorem binding_finishBinding {id : DeclId} {b : List DeclId} (entered : t.binding = id :: b)
    (free : id ∉ b) : (t.finishBinding id).binding = b := by
  have kept : b.filter (· ≠ id) = b :=
    List.filter_eq_self.mpr fun other member => decide_eq_true fun same => free (same ▸ member)
  rw [finishBinding, entered, List.filter_cons_of_neg (by simp), kept]

/-- A constant that is being computed is refused, any other one is marked while it is settled. -/
theorem runs_enterConstant {settle : DeclId → Resolution Unit} {id : DeclId}
    {r : Except Diagnostic Unit} :
    Runs (enterConstant settle id) t r t' ↔
      (id ∈ t.binding ∧ Runs (selfDependent id) t r t') ∨
        (id ∉ t.binding ∧ ∃ t₁, Runs (settle id) { t with binding := id :: t.binding } r t₁ ∧
          t' = t₁.finishBinding id) := by
  unfold enterConstant
  rw [runs_bind_get]
  unfold startBinding?
  by_cases inside : id ∈ t.binding
  · simp [inside]
  · simp only [List.contains_eq_mem, inside, decide_false, Bool.false_eq_true, if_false, false_and,
      not_false_eq_true, true_and, false_or]
    rw [runs_bind_set, runs_ending]

theorem runs_ensureConstantWithin {level : Nat} {id : DeclId} {r : Except Diagnostic Unit}
    (h : Runs (ensureConstantWithin level id) t r t') : Ensured level id t r t' := by
  cases level with
  | zero =>
    unfold ensureConstantWithin at h
    rw [runs_bind_look] at h
    split at h
    · rename_i known
      obtain ⟨rfl, rfl⟩ := runs_pure.mp h
      exact .known known rfl rfl
    · rename_i unknown
      obtain ⟨rfl, rfl⟩ := runs_selfDependent.mp h
      exact .refused (by simpa using unknown) (.inl rfl) rfl rfl
  | succ level =>
    unfold ensureConstantWithin at h
    rw [runs_bind_look] at h
    split at h
    · rename_i known
      obtain ⟨rfl, rfl⟩ := runs_pure.mp h
      exact .known known rfl rfl
    rename_i unknown
    have unknown : t.constant? id = none := by simpa using unknown
    unfold enterConstant at h
    rw [runs_bind_get] at h
    split at h
    · rename_i blocked
      obtain ⟨rfl, rfl⟩ := runs_selfDependent.mp h
      refine .refused unknown (.inr ?_) rfl rfl
      by_contra free
      simp [startBinding?, free] at blocked
    · rename_i table started
      rw [runs_bind_set] at h
      obtain ⟨t₁, run, rfl⟩ := runs_ending.mp h
      unfold startBinding? at started
      split at started
      · cases started
      · rename_i free
        obtain rfl := Option.some.inj started
        exact .entered unknown (by simpa using free) rfl run rfl

/-- What a run does that makes sure that a constant has its value, where nested constants are
bound as evaluation asks. -/
theorem ensured_entered {level : Nat} (binds : Binds (ensureConstantWithin level)) {id : DeclId}
    {t t₁ : SymbolTable} {r : Except Diagnostic Unit} (sound : t.Sound)
    (constant : (t.decl id).isConstant = true) (unknown : t.constant? id = none)
    (free : id ∉ t.binding)
    (run : Runs (settleObjectWith (ensureConstantWithin level) id)
      { t with binding := id :: t.binding } r t₁) :
    Settles none t (t₁.finishBinding id) ∧ Shields [id] t (t₁.finishBinding id) ∧
      (r = .ok () → (t₁.constant? id).isSome = true) := by
  have sound' := (Edit.startBinding free unknown).sound sound
  have pending : Pending { t with binding := id :: t.binding } id :=
    ⟨List.mem_cons_self, unknown⟩
  -- Declared types that wait for this constant keep waiting while it is being computed.
  have shields : ∀ {t₂ : SymbolTable}, Settles (some id) { t with binding := id :: t.binding } t₂ →
      FinishedOnly id t₂ t₁ → Shields [id] t (t₁.finishBinding id) := by
    intro t₂ settles only other awaits
    exact (only.types other).trans
      (settles.shielded other id pending
        ((awaits id (List.mem_singleton_self id)).of_same rfl rfl))
  cases runs_settleObjectWith binds sound' (.inr pending) run with
  | stopped settles undefined =>
    refine ⟨.of_entered sound constant free unknown settles (.refl _) (.refl id _),
      shields settles (.refl id _), fun ok => ?_⟩
    obtain ⟨type, e, kind⟩ := sound.initialized constant
    have absent : (t.decl id).initializer? = none := undefined ok
    simp [Decl.initializer?, kind] at absent
  | finished settles finishes ok =>
    refine ⟨.of_entered sound constant free unknown settles finishes.edit.reaches finishes.only,
      shields settles finishes.only, fun _ => ?_⟩
    cases finishes with
    | defined kind _ =>
      have constant₁ := settles.evolves.isConstant constant
      simp [Decl.isConstant, kind] at constant₁
    | valued _ _ _ _ => simp

theorem binds_ensureConstantWithin (level : Nat) : Binds (ensureConstantWithin level) := by
  induction level with
  | zero =>
    refine ⟨fun sound constant h => ?_, fun sound constant h => ?_, fun sound constant h => ?_⟩
    · cases runs_ensureConstantWithin h with
      | known _ _ same => exact same ▸ .refl none _
      | refused _ _ _ same => exact same ▸ .refl none _
      | entered _ _ level _ _ => cases level
    · cases runs_ensureConstantWithin h with
      | known _ _ same => exact same ▸ .refl _ _
      | refused _ _ _ same => exact same ▸ .refl _ _
      | entered _ _ level _ _ => cases level
    · cases runs_ensureConstantWithin h with
      | known known _ same => exact same ▸ known
      | refused _ _ fault _ => cases fault
      | entered _ _ level _ _ => cases level
  | succ level ih =>
    refine ⟨fun sound constant h => ?_, fun sound constant h => ?_, fun sound constant h => ?_⟩
    · cases runs_ensureConstantWithin h with
      | known _ _ same => exact same ▸ .refl none _
      | refused _ _ _ same => exact same ▸ .refl none _
      | entered unknown free level run same =>
        obtain rfl := Nat.succ.inj level
        exact same ▸ (ensured_entered ih sound constant unknown free run).1
    · cases runs_ensureConstantWithin h with
      | known _ _ same => exact same ▸ .refl _ _
      | refused _ _ _ same => exact same ▸ .refl _ _
      | entered unknown free level run same =>
        obtain rfl := Nat.succ.inj level
        exact same ▸ (ensured_entered ih sound constant unknown free run).2.1
    · cases runs_ensureConstantWithin h with
      | known known _ same => exact same ▸ known
      | refused _ _ fault _ => cases fault
      | entered unknown free level run same =>
        obtain rfl := Nat.succ.inj level
        exact same ▸ (ensured_entered ih sound constant unknown free run).2.2 rfl

theorem binds_ensureConstant : Binds ensureConstant where
  settles := fun sound constant h =>
    (binds_ensureConstantWithin _).settles sound constant (runs_bind_look.mp h)
  shields := fun sound constant h =>
    (binds_ensureConstantWithin _).shields sound constant (runs_bind_look.mp h)
  known := fun sound constant h =>
    (binds_ensureConstantWithin _).known sound constant (runs_bind_look.mp h)

end Resolution

end Deferral
