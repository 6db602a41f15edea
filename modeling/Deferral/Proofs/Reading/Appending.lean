import Deferral.Proofs.Reading.Invariant

/-!
# Reading appends to a table

However reading ends, it leaves alone what had been declared before it: declarations and the values of
constants are as they were, the same scopes are active and the same constants are being computed. What
it adds keeps the table sound.
-/

namespace Deferral

open SymbolTable

variable {α β : Type} {t t' t'' : SymbolTable} {own : Option DeclId}

/-! ## Additions to tables -/

namespace SymbolTable

/-- What has been set aside stays as it is: the types of parameters, and functions as they were read. -/
structure LeavesUnread (t t' : SymbolTable) : Prop where
  parameters : ∀ p, (t.decl p).IsUnreadParameter → (t'.decl p).IsUnreadParameter
  callables : ∀ f, (∀ c, (t.decl f).callable? = some c → c.IsUnread t) →
    ∀ c, (t'.decl f).callable? = some c → c.IsUnread t'

namespace LeavesUnread

theorem refl (t : SymbolTable) : t.LeavesUnread t := ⟨fun _ => id, fun _ => id⟩

theorem trans (h : t.LeavesUnread t') (h' : t'.LeavesUnread t'') : t.LeavesUnread t'' :=
  ⟨fun p unread => h'.parameters p (h.parameters p unread),
    fun f unread => h'.callables f (h.callables f unread)⟩

theorem isUnread {c : Callable} (h : c.IsUnread t)
    (kept : ∀ p, (t.decl p).IsUnreadParameter → (t'.decl p).IsUnreadParameter) : c.IsUnread t' :=
  { h with parameters := fun p member => kept p (h.parameters p member) }

/-- One declaration changes, or a new one is made: what is then a function is as it was read. -/
theorem of_changed {id : DeclId} (others : ∀ other ≠ id, t'.decl other = t.decl other)
    (parameter : (t.decl id).IsUnreadParameter → (t'.decl id).IsUnreadParameter)
    (callable : (∀ c, (t.decl id).callable? = some c → c.IsUnread t) →
      ∀ c, (t'.decl id).callable? = some c → c.IsUnread t) : t.LeavesUnread t' := by
  have kept (p : DeclId) (unread : (t.decl p).IsUnreadParameter) : (t'.decl p).IsUnreadParameter := by
    by_cases same : p = id
    · subst same
      exact parameter unread
    · rwa [others p same]
  refine ⟨kept, fun f unread c held => ?_⟩
  by_cases same : f = id
  · subst same
    exact isUnread (callable unread c held) kept
  · rw [others f same] at held
    exact isUnread (unread c held) kept

theorem of_decls (same : t'.decls = t.decls) : t.LeavesUnread t' := by
  have decls (id : DeclId) : t'.decl id = t.decl id := by rw [decl, same, decl]
  exact of_changed (fun other (_ : other ≠ ⟨0⟩) => decls other) (by rw [decls]; exact id)
    (by rw [decls]; exact id)

/-- What is declared is no function yet, or one without parts. -/
theorem declare {d : Decl} (unread : d.kind.IsUnread) : t.LeavesUnread (t.declare d) := by
  have here := decl_declare_nextDecl t d
  have new : t.decl t.nextDecl = default := decl_eq_default (Nat.le_refl _)
  have others (other : DeclId) (ne : other ≠ t.nextDecl) : (t.declare d).decl other = t.decl other := by
    by_cases lt : other.index < t.decls.size
    · exact decl_declare_of_lt lt d
    · have beyond : other.index ≠ t.decls.size := fun same => ne (congrArg DeclId.mk same)
      rw [decl_eq_default (Nat.not_lt.mp lt), decl_eq_default (by rw [size_declare]; omega)]
  refine of_changed others (fun ⟨excerpt, kind⟩ => ?_) fun _ c held => ?_
  · rw [new] at kind
    cases kind
  · rw [here] at held
    obtain ⟨sort, kind⟩ := Decl.kind_of_callable? held
    rw [kind] at unread
    obtain rfl : c = .announced := unread
    exact ⟨nofun, .inr (.inl rfl), rfl, nofun, rfl⟩

/-- A function is filled in with what has been read of it. -/
theorem completeCallable {id : DeclId} {sort : CallableSort} {c : Callable}
    (announced : (t.decl id).kind = .callable sort .announced) (unread : c.IsUnread t) (span : Span) :
    t.LeavesUnread (t.modifyDecl id fun d => { d.mapCallable (fun _ => c) with span }) := by
  have lt : id.index < t.decls.size := lt_size_of_kind (by simp [announced])
  refine of_changed (fun other ne => decl_modifyDecl_of_ne ne ..) (fun ⟨excerpt, kind⟩ => ?_)
    fun _ c' held => ?_
  · cases announced.symm.trans kind
  · rw [decl_modifyDecl_self lt] at held
    have same : c = c' := by simpa [Decl.callable?, Decl.mapCallable, announced] using held
    exact same ▸ unread

theorem completeClass (t : SymbolTable) (id : DeclId) (body : List Stmt) (span : Span) :
    t.LeavesUnread (t.modifyDecl id fun d => { d.mapMembers (fun _ => body) with span }) := by
  have read (d : Decl) : ({ d.mapMembers (fun _ => body) with span } : Decl).callable? = d.callable? := by
    cases kind : d.kind <;> simp [Decl.callable?, Decl.mapMembers, kind]
  refine of_changed (fun other ne => decl_modifyDecl_of_ne ne ..) (fun parameter => ?_)
    fun unread c held => ?_
  · obtain ⟨excerpt, kind⟩ := parameter
    have lt : id.index < t.decls.size := lt_size_of_kind (by simp [kind])
    rw [decl_modifyDecl_self lt]
    exact ⟨excerpt, by simp [Decl.mapMembers, kind]⟩
  · rw [decl_modifyDecl] at held
    split at held
    · exact unread c ((read _).symm.trans held)
    · exact unread c held

end LeavesUnread

/-- A sound table to which declarations have been added. Of the old ones none but `own` has
changed. -/
structure Appends (own : Option DeclId) (t t' : SymbolTable) : Prop extends LeavesUnread t t' where
  sound : t'.Sound
  size : t.decls.size ≤ t'.decls.size
  decls : ∀ id, id.index < t.decls.size → some id ≠ own → t'.decl id = t.decl id
  constants : t'.constants = t.constants
  active : t'.active = t.active
  binding : t'.binding = t.binding

namespace Appends

theorem refl (sound : t.Sound) : Appends own t t :=
  ⟨.refl t, sound, Nat.le_refl _, fun _ _ _ => rfl, rfl, rfl, rfl⟩

theorem trans (h : Appends own t t') (h' : Appends own t' t'') : Appends own t t'' where
  toLeavesUnread := h.toLeavesUnread.trans h'.toLeavesUnread
  sound := h'.sound
  size := Nat.le_trans h.size h'.size
  decls id lt ne := (h'.decls id (Nat.lt_of_lt_of_le lt h.size) ne).trans (h.decls id lt ne)
  constants := h'.constants.trans h.constants
  active := h'.active.trans h.active
  binding := h'.binding.trans h.binding

theorem weaken (h : Appends none t t') : Appends own t t' :=
  { h with decls := fun id lt _ => h.decls id lt nofun }

theorem leave {scope : ScopeId} (h : Appends own (t.enter scope) t') : Appends own t t'.leave where
  toLeavesUnread :=
    (LeavesUnread.of_decls rfl : t.LeavesUnread (t.enter scope)).trans (h.toLeavesUnread.trans (.of_decls rfl))
  sound := (Edit.leave).sound h.sound
  size := h.size
  decls := h.decls
  constants := h.constants
  active := congrArg List.tail h.active
  binding := h.binding

/-- Nothing but scopes and the number of the next block has changed. -/
theorem of_same (sound : t.Sound) (decls : t'.decls = t.decls) (constants : t'.constants = t.constants)
    (active : t'.active = t.active) (binding : t'.binding = t.binding) : Appends own t t' :=
  ⟨.of_decls decls, sound.of_same decls constants, by rw [decls], fun id _ _ => by simp [decl, decls],
    constants, active, binding⟩

/-- A declaration that has just been read is added. -/
theorem declare (sound : t.Sound) {d : Decl} (unread : d.kind.IsUnread) (lies : d.scope = t.innermost) :
    Appends own t (t.declare d) where
  toLeavesUnread := .declare unread
  sound := (Edit.declare unread lies).sound sound
  size := by rw [size_declare]; omega
  decls id lt _ := decl_declare_of_lt lt d
  constants := rfl
  active := rfl
  binding := rfl

/-- The declaration `id` itself changes. -/
theorem of_edit (sound : t.Sound) {id : DeclId} {f : Decl → Decl} (edit : t.Edit (t.modifyDecl id f))
    (leaves : t.LeavesUnread (t.modifyDecl id f)) : Appends (some id) t (t.modifyDecl id f) where
  toLeavesUnread := leaves
  sound := edit.sound sound
  size := by simp
  decls other _ ne := decl_modifyDecl_of_ne (fun same => ne (congrArg some same)) t f
  constants := rfl
  active := rfl
  binding := rfl

/-- What has become of the declaration that was added first is no change of an old one. -/
theorem of_added (h : Appends none t t') {id : DeclId} (added : t.decls.size ≤ id.index)
    (h' : Appends (some id) t' t'') : Appends none t t'' where
  toLeavesUnread := h.toLeavesUnread.trans h'.toLeavesUnread
  sound := h'.sound
  size := Nat.le_trans h.size h'.size
  decls other lt ne := by
    have other' : some other ≠ some id := by
      rintro ⟨⟩
      omega
    exact (h'.decls other (Nat.lt_of_lt_of_le lt h.size) other').trans (h.decls other lt ne)
  constants := h'.constants.trans h.constants
  active := h'.active.trans h.active
  binding := h'.binding.trans h.binding

theorem evolves (h : Appends none t t') (sound : t.Sound) : t.Evolves t' where
  size := h.size
  decls id lt := by
    rw [h.decls id lt nofun]
    exact .refl _
  constants id v known := by
    have constant := sound.isConstant known
    have present : (t.decl id).kind ≠ .typeParameter := by
      intro absent
      simp [Decl.isConstant, absent] at constant
    refine ⟨by simpa [constant?, h.constants] using known, ?_⟩
    rw [h.decls id (lt_size_of_kind present) nofun]

end Appends

end SymbolTable

/-! ## Readers that append to tables -/

/-- The table is sound, and what is read is appended to it. -/
abbrev SymbolTable.appending (own : Option DeclId) : Invariant SymbolTable where
  table t := t
  Holds := Sound
  Leads := Appends own
  refl := .refl
  holds appends := appends.sound
  trans _ first second := first.trans second

namespace Reader

variable {Q : α → SymbolTable → Prop} {Q' : β → SymbolTable → Prop}

/-- On a sound table a reader only appends to the table, wherever it starts and however it ends, and what
it yields is of a kind. -/
abbrev Adds (own : Option DeclId) (x : Reader α) (t : SymbolTable) (Q : α → SymbolTable → Prop) : Prop :=
  Maintains (appending own) x t Q

/-- A reader that leaves all old declarations alone leaves any one of them alone. -/
theorem Adds.keeping {x : Reader α} (h : Adds none x t Q) {id : DeclId}
    (old : id.index < t.decls.size) :
    Adds (some id) x t fun a t' => Q a t' ∧ t'.decl id = t.decl id := by
  intro c r t' sound run
  obtain ⟨t', rfl, appends, kind⟩ := h sound run
  exact ⟨t', rfl, appends.weaken, kind.mono fun out holds => ⟨holds, appends.decls id old nofun⟩⟩

/-- A scope is entered and left again. -/
theorem adds_under {scope : ScopeId} {x : Reader α} (h : Adds own x (t.enter scope) Q)
    (leaves : ∀ a t', Q a t' → Q a t'.leave) : Adds own (under scope x) t Q :=
  maintains_under h rfl (fun sound => sound.enter scope)
    fun t' _ appends => ⟨t'.leave, rfl, appends.leave, fun a => leaves a t'⟩

/-! ## Declarations and scopes -/

theorem adds_takeBlock (t : SymbolTable) : Adds own takeBlock t fun _ _ => True :=
  maintains_takeBlock rfl (fun sound => .of_same sound rfl rfl rfl rfl) trivial

theorem adds_newScope (owner : ScopeOwner) (t : SymbolTable) :
    Adds own (newScope owner) t fun _ t' => t'.decls = t.decls :=
  maintains_newScope rfl (fun sound => .of_same sound rfl rfl rfl rfl) rfl

theorem adds_declare {name : String} {kind : Declared} (unread : kind.IsUnread) (span : Span)
    (t : SymbolTable) :
    Adds own (declare name kind span) t fun id t' => (t'.decl id).kind = kind :=
  maintains_declare rfl (fun sound => .declare sound unread rfl) (congrArg Decl.kind (decl_declare_nextDecl ..))

/-- A name is declared, and what it declares may change by what is read next. -/
theorem adds_bind_declare {name : String} {kind : Declared} (unread : kind.IsUnread) {span : Span}
    {rest : DeclId → Reader β}
    (rests : ∀ id t', id.index < t'.decls.size → (SymbolTable.decl t' id).kind = kind →
      Adds (some id) (rest id) t' Q') :
    Adds none (declare name kind span >>= rest) t Q' := by
  intro c r t' sound run
  rw [StateT.run_bind] at run
  rcases Resolution.runs_bind.mp run with ⟨d, declared, -⟩ | ⟨⟨id, c₁⟩, t₁, declared, run₁⟩
  · cases (runs_declare declared).1
  obtain ⟨same, rfl⟩ := runs_declare declared
  obtain ⟨rfl, rfl⟩ := Prod.mk.inj (Except.ok.inj same)
  have added : Appends none t (t.declare ⟨name, kind, t.innermost, span⟩) := .declare sound unread rfl
  have present : t.nextDecl.index < (t.declare ⟨name, kind, t.innermost, span⟩).decls.size := by
    rw [size_declare]
    exact Nat.lt_succ_self _
  have here : ((t.declare ⟨name, kind, t.innermost, span⟩).decl t.nextDecl).kind = kind :=
    congrArg Decl.kind (decl_declare_nextDecl ..)
  obtain ⟨t', rfl, appends, holds⟩ := rests _ _ present here added.sound run₁
  exact ⟨t', rfl, added.of_added (Nat.le_refl _) appends, holds⟩

end Reader

/-! ## Statements -/

/-- Expressions that have all been set aside. -/
def AllUnread (es : List Expr) : Prop := ∀ e ∈ es, e.excerpt?.isSome = true

theorem allUnread_nil : AllUnread [] := nofun

theorem allUnread_append {es es' : List Expr} (h : AllUnread es) (h' : AllUnread es') :
    AllUnread (es ++ es') :=
  List.forall_mem_append.mpr ⟨h, h'⟩

theorem allUnread_singleton {e : Expr} (deferred : ∃ f, e = .deferred f) : AllUnread [e] := by
  obtain ⟨f, rfl⟩ := deferred
  exact List.forall_mem_singleton.mpr rfl

theorem allUnread_expressionsIn {body : List Stmt} (h : ∀ s ∈ body, AllUnread s.expressions) :
    AllUnread (Stmt.expressionsIn body) := by
  intro e member
  obtain ⟨s, inside, member⟩ := Stmt.mem_expressionsIn.mp member
  exact h s inside e member

theorem Ty.isDeferred_of_deferred {type : Ty} (deferred : ∃ f, type = .deferred f) : type.isDeferred = true := by
  obtain ⟨f, rfl⟩ := deferred
  rfl

theorem Expr.isSome_excerpt?_of_deferred {e : Expr} (deferred : ∃ f, e = .deferred f) :
    e.excerpt?.isSome = true := by
  obtain ⟨f, rfl⟩ := deferred
  rfl

namespace Grammar

open Reader

/-- A reader of statements that leaves all old declarations alone, and every expression unread. -/
abbrev AddsStatement (x : Reader Stmt) : Prop :=
  ∀ t, Adds none x t fun s _ => AllUnread s.expressions

theorem adds_declaring {name : String} (kind : Declared) (unread : kind.IsUnread) (span span' : Span)
    (t : SymbolTable) :
    Adds own (do
      let id ← Reader.declare name kind span
      return Stmt.declaration id span') t fun s _ => AllUnread s.expressions :=
  (adds_declare unread span t).bind fun _ _ _ _ => maintains_pure allUnread_nil

theorem isUnread_of_object {sort : ObjectSort} {type : Ty} {init : Option Expr}
    (deferred : ∃ f, type = .deferred f) (unread : ∀ e, init = some e → ∃ f, e = .deferred f)
    (constant : sort = .constant → init.isSome = true) : (Declared.object sort type init).IsUnread :=
  ⟨Ty.isDeferred_of_deferred deferred, fun e same => Expr.isSome_excerpt?_of_deferred (unread e same), constant⟩

theorem adds_variableStatement : AddsStatement variableStatement := by
  have finish (start : Position) (name : String) {type : Ty} {init : Option Expr}
      (deferred : ∃ f, type = .deferred f) (unread : ∀ e, init = some e → ∃ f, e = .deferred f)
      (t : SymbolTable) :
      Adds none (do
        let span ← endStatement start
        let id ← Reader.declare name (.object .var type init) span
        return Stmt.declaration id span) t fun s _ => AllUnread s.expressions :=
    (still_endStatement start).before fun _ _ =>
      adds_declaring (.object .var type init) (isUnread_of_object deferred unread nofun) _ _ t
  intro t
  refine still_advance.before fun _ _ => (still_identifierFor _).before fun _ _ =>
    (still_expect _).before fun _ _ => (still_typeUpTo _).before fun type deferred =>
      (still_accept _).before fun accepted _ => ?_
  split
  · exact (still_someExpressionUpTo _).before fun init unread => finish _ _ deferred unread t
  · exact still_noExpression.before fun init unread => finish _ _ deferred unread t

theorem adds_constantStatement (start : Position) (name : String) :
    AddsStatement (constantStatement start name) := by
  intro t
  refine (still_expect _).before fun _ _ => (still_typeUpTo _).before fun type deferred =>
    (still_expect _).before fun _ _ => (still_expressionUpTo _).before fun init unread =>
      (still_endStatement start).before fun _ _ =>
        adds_declaring (.object .constant type (some init)) (isUnread_of_object deferred ?_ fun _ => rfl) _ _ t
  exact fun e same => Option.some.inj same ▸ unread

theorem adds_superStatement : AddsStatement superStatement := fun t =>
  still_advance.before fun _ _ => (still_identifierFor _).before fun _ _ =>
    (still_expect _).before fun _ _ => (still_typeUpTo _).before fun type deferred =>
      (still_endStatement _).before fun _ _ =>
        adds_declaring (.super type) (Ty.isDeferred_of_deferred deferred) _ _ t

/-! ### Parameters -/

theorem adds_parameter (t : SymbolTable) : Adds none parameter t fun id t' => (t'.decl id).IsUnreadParameter :=
  (still_identifierFor _).before fun _ _ => (still_expect _).before fun _ _ =>
    (still_typeUpTo _).before fun type deferred => still_endOfLast.before fun _ _ =>
      (adds_declare (show (Declared.parameter type).IsUnread from Ty.isDeferred_of_deferred deferred) _ t).mono
        fun _ _ _ kind => Decl.isUnreadParameter_of_kind kind (Ty.isDeferred_of_deferred deferred)

theorem adds_parameterList (t : SymbolTable) :
    Adds none parameterList t fun ids t' => ∀ id ∈ ids, (t'.decl id).IsUnreadParameter := by
  refine (adds_parameter t).bind fun first t₁ _ one => ?_
  have others : Adds none (many (· ≠ closeParen) do
      let _ ← expect comma
      parameter) t₁ fun ids t' => ∀ id ∈ first :: ids, (t'.decl id).IsUnreadParameter :=
    maintains_many (Q := fun ids t' => ∀ id ∈ first :: ids, (SymbolTable.decl t' id).IsUnreadParameter)
      (fun ids t all => (still_expect _).before fun _ _ => (adds_parameter t).mono fun p t' appends last =>
        show ∀ id ∈ (first :: ids) ++ [p], (SymbolTable.decl t' id).IsUnreadParameter from
          List.forall_mem_append.mpr ⟨fun p member => appends.parameters p (all p member),
            List.forall_mem_singleton.mpr last⟩) _ (List.forall_mem_singleton.mpr one)
  exact others.bind fun _ _ _ all => maintains_pure all

theorem adds_parameters (t : SymbolTable) :
    Adds none parameters t fun ids t' => ∀ id ∈ ids, (t'.decl id).IsUnreadParameter := by
  have finish (all : List DeclId) (t : SymbolTable) (h : ∀ id ∈ all, (t.decl id).IsUnreadParameter) :
      Adds none (do
        let _ ← expect closeParen
        return all) t fun ids t' => ∀ id ∈ ids, (t'.decl id).IsUnreadParameter :=
    (still_expect _).before fun _ _ => maintains_pure h
  refine (still_expect _).before fun _ _ => still_kind.before fun kind _ => ?_
  split
  · exact finish [] t nofun
  · exact (adds_parameterList t).bind fun all t₁ _ h => finish all t₁ h

/-! ### Statements with others inside -/

section Nested

variable {statement : Reader Stmt} (statements : AddsStatement statement)

include statements

theorem adds_many (more : TokenKind → Bool) (t : SymbolTable) :
    Adds none (many more statement) t fun body _ => ∀ s ∈ body, AllUnread s.expressions :=
  maintains_many (Q := fun body _ => ∀ s ∈ body, AllUnread (Stmt.expressions s))
    (fun _ t all => (statements t).mono fun _ _ _ unread =>
      List.forall_mem_append.mpr ⟨all, List.forall_mem_singleton.mpr unread⟩) more nofun

theorem adds_blockBody (t : SymbolTable) :
    Adds none (blockBody statement) t fun body _ => AllUnread (Stmt.expressionsIn body) :=
  (still_expect _).before fun _ _ => (adds_many statements _ t).bind fun _ _ _ unread =>
    (still_expect _).before fun _ _ => maintains_pure (allUnread_expressionsIn unread)

theorem adds_blockStatement : AddsStatement (blockStatement statement) := by
  intro t
  refine still_position.before fun _ _ => (adds_takeBlock t).bind fun _ t₁ _ _ =>
    (adds_newScope _ t₁).bind fun scope t₂ _ _ => ?_
  exact (adds_under (adds_blockBody statements _) fun _ _ unread => unread).bind fun body t₃ _ unread =>
    still_endOfLast.before fun _ _ => maintains_pure unread

theorem adds_functionBody (id : DeclId) (t : SymbolTable) :
    Adds none (functionBody statement id) t fun body _ => AllUnread body.expressions := by
  refine still_get.before fun c _ => ?_
  split
  · exact (adds_blockStatement statements t).map fun _ _ _ unread => unread
  split
  · exact still_advance.before fun _ _ => (adds_newScope _ t).bind fun _ t₁ _ _ =>
      (still_expressionUpTo _).before fun e deferred => (still_expect _).before fun _ _ =>
        maintains_pure (allUnread_singleton deferred)
  split
  · exact still_advance.before fun _ _ => maintains_pure allUnread_nil
  · exact maintains_throw rfl

theorem adds_functionParts (id : DeclId) (t : SymbolTable) :
    Adds none (functionParts statement id) t fun c t' => c.IsUnread t' := by
  refine (adds_parameters t).bind fun ids t₁ _ all => still_resultType.before fun result deferred =>
    (adds_functionBody statements id t₁).bind fun body t₂ appends unread => maintains_pure ?_
  refine ⟨fun p member => appends.parameters p (all p member), ?_, rfl, unread, rfl⟩
  cases result with
  | some type => exact .inl (Ty.isDeferred_of_deferred (deferred type rfl))
  | none => cases body <;> simp [impliedResult]

theorem adds_functionStatement (sort : CallableSort) (start : Position) (name : String) :
    AddsStatement (functionStatement statement sort start name) := by
  intro t
  refine adds_bind_declare (show (Declared.callable sort .announced).IsUnread from rfl)
    fun id t₁ present kind => (adds_newScope _ t₁).bind fun scope t₂ appends same => ?_
  have decl : ∀ other, t₂.decl other = t₁.decl other := fun other => by
    simp only [SymbolTable.decl, same]
  have present₂ : id.index < (t₂.enter scope).decls.size :=
    Nat.lt_of_lt_of_le present appends.size
  have parts := adds_under ((adds_functionParts statements id (t₂.enter scope)).keeping present₂)
    fun c t' read =>
      ⟨⟨read.1.parameters, read.1.result, read.1.type, read.1.body, read.1.typeParameters⟩, read.2⟩
  refine parts.bind fun c t₃ _ holds => still_endOfLast.before fun stop _ => ?_
  obtain ⟨unread, kept⟩ := holds
  have announced : (t₃.decl id).kind = .callable sort .announced := by
    rw [kept]
    exact (congrArg Decl.kind (decl id)).trans kind
  exact maintains_bind_change rfl (fun sound =>
    .of_edit sound (.completeCallable _ announced unread) (.completeCallable announced unread _))
    fun _ => maintains_pure allUnread_nil

theorem adds_definitionStatement : AddsStatement (definitionStatement statement) := by
  intro t
  refine still_advance.before fun _ _ => (still_identifierFor _).before fun _ _ =>
    still_get.before fun c _ => ?_
  split
  · exact adds_constantStatement _ _ t
  split
  · exact adds_functionStatement statements _ _ _ t
  · exact maintains_throw rfl

theorem adds_coroutineStatement : AddsStatement (coroutineStatement statement) := fun t =>
  still_advance.before fun _ _ => (still_identifierFor _).before fun _ _ =>
    adds_functionStatement statements _ _ _ t

theorem adds_classStatement (sort : ClassSort) : AddsStatement (classStatement statement sort) := by
  intro t
  refine still_advance.before fun keyword _ => (still_identifierFor _).before fun _ _ =>
    (still_classKind sort).before fun kind known => ?_
  replace known := known.imp_left Ty.isDeferred_of_deferred
  refine adds_bind_declare (show (Declared.classDecl sort kind []).IsUnread from ⟨known, rfl⟩)
    fun id t₁ present classDecl => (adds_newScope _ t₁).bind fun scope t₂ appends same => ?_
  have decl : ∀ other, t₂.decl other = t₁.decl other := fun other => by
    simp only [SymbolTable.decl, same]
  have present₂ : id.index < (t₂.enter scope).decls.size :=
    Nat.lt_of_lt_of_le present appends.size
  have members := adds_under ((adds_blockBody statements (t₂.enter scope)).keeping present₂)
    fun _ _ read => read
  refine members.bind fun body t₃ _ holds => still_endOfLast.before fun stop _ => ?_
  obtain ⟨unread, kept⟩ := holds
  have empty : t₃.members id = [] := by
    have kind₃ : (t₃.decl id).kind = .classDecl sort kind [] := by
      rw [kept]
      exact (congrArg Decl.kind (decl id)).trans classDecl
    simp [SymbolTable.members, Decl.members?, kind₃]
  exact maintains_bind_change rfl (fun sound =>
    .of_edit sound (.completeClass _ empty unread) (.completeClass ..))
    fun _ => maintains_pure allUnread_nil

/-! ### Other statements -/

omit statements in
theorem adds_returnStatement : AddsStatement returnStatement := by
  have finish (start : Position) (value : Option Expr) (unread : AllUnread value.toList) (t : SymbolTable) :
      Adds none (do return Stmt.returning value (← endStatement start)) t
        fun s _ => AllUnread s.expressions :=
    (still_endStatement start).before fun _ _ => maintains_pure unread
  intro t
  refine still_advance.before fun _ _ => still_kind.before fun kind _ => ?_
  split
  · exact finish _ none allUnread_nil t
  · refine (still_someExpressionUpTo _).before fun value deferred => finish _ value ?_ t
    cases value with
    | none => exact allUnread_nil
    | some e => exact allUnread_singleton (deferred e rfl)

omit statements in
theorem adds_yieldStatement : AddsStatement yieldStatement := fun _ =>
  still_advance.before fun _ _ => (still_expressionUpTo _).before fun _ deferred =>
    (still_endStatement _).before fun _ _ => maintains_pure (allUnread_singleton deferred)

omit statements in
theorem adds_jumpStatement {form : Span → Stmt} (none : ∀ span, (form span).expressions = []) :
    AddsStatement (jumpStatement form) := fun _ =>
  still_advance.before fun _ _ => (still_endStatement _).before fun span _ =>
    maintains_pure (by rw [none]; exact allUnread_nil)

omit statements in
theorem adds_expressionStatement : AddsStatement expressionStatement := fun _ =>
  (still_expressionUpTo _).before fun _ deferred => (still_expect _).before fun _ _ =>
    maintains_pure (allUnread_singleton deferred)

theorem adds_ifStatement : AddsStatement (ifStatement statement) := by
  have finish (start : Position) {e : Expr} {onTrue : Stmt} (onFalse : Option Stmt)
      (unread : AllUnread [e]) (onTrueUnread : AllUnread onTrue.expressions)
      (onFalseUnread : AllUnread (Stmt.expressionsBehindElse onFalse)) (t : SymbolTable) :
      Adds none (do return Stmt.conditional e onTrue onFalse ⟨start, ← Reader.endOfLast⟩) t
        fun s _ => AllUnread s.expressions :=
    still_endOfLast.before fun _ _ => maintains_pure
      (allUnread_append unread (allUnread_append onTrueUnread onFalseUnread))
  intro t
  refine still_advance.before fun _ _ => still_condition.before fun e deferred =>
    (statements t).bind fun onTrue t₁ _ unread => (still_accept _).before fun accepted _ => ?_
  replace deferred := allUnread_singleton deferred
  split
  · have onFalse : Adds none (some <$> statement) t₁ fun onFalse _ =>
        AllUnread (Stmt.expressionsBehindElse onFalse) :=
      (statements t₁).map fun _ _ _ unread => unread
    exact onFalse.bind fun onFalse t₂ _ unread' => finish _ onFalse deferred unread unread' t₂
  · exact finish _ none deferred unread allUnread_nil t₁

theorem adds_whileStatement : AddsStatement (whileStatement statement) := fun t =>
  still_advance.before fun _ _ => still_condition.before fun _ deferred =>
    (statements t).bind fun _ _ _ unread => still_endOfLast.before fun _ _ =>
      maintains_pure (allUnread_append (allUnread_singleton deferred) unread)

theorem adds_statementOf (kind : TokenKind) : AddsStatement (statementOf statement kind) := by
  unfold statementOf
  split
  · exact adds_variableStatement
  · exact adds_definitionStatement statements
  · exact adds_coroutineStatement statements
  · exact adds_classStatement statements .primary
  · exact adds_classStatement statements .extension
  · exact adds_superStatement
  · exact adds_blockStatement statements
  · exact adds_returnStatement
  · exact adds_yieldStatement
  · exact adds_ifStatement statements
  · exact adds_whileStatement statements
  · exact adds_jumpStatement fun _ => rfl
  · exact adds_jumpStatement fun _ => rfl
  · exact adds_expressionStatement

end Nested

theorem adds_statementWithin (depth : Nat) : AddsStatement (statementWithin depth) := by
  induction depth with
  | zero => exact fun t => still_get.before fun _ _ => maintains_throw rfl
  | succ depth ih => exact fun t => still_kind.before fun kind _ => adds_statementOf ih kind t

theorem adds_statement : AddsStatement statement := fun t =>
  still_get.before fun _ _ => adds_statementWithin _ t

end Grammar

/-- Reading a unit leaves all old declarations alone, and every expression of the unit unread. -/
theorem SourceUnit.appends_read {tokens : List Token} (sound : t.Sound)
    {r : Except Diagnostic SourceUnit} (h : Resolution.Runs (SourceUnit.read tokens) t r t') :
    Appends none t t' ∧ ∀ u, r = .ok u → AllUnread (Stmt.expressionsIn u.body) := by
  obtain ⟨t₁, rfl, appends, unread⟩ := SourceUnit.maintains_read (I := appending none)
    (sound.enter .global) (Grammar.adds_many Grammar.adds_statement _ _) rfl h
  refine ⟨appends.leave, fun u same => ?_⟩
  subst same
  exact allUnread_expressionsIn unread

end Deferral
