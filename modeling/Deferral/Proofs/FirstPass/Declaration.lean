import Deferral.Proofs.FirstPass.Absorbing

/-!
# The first pass over declarations

The first pass over a declaration edits the table and reports only more, whatever it comes to. Each
way in which it ends without a fault is a case of `Done`.
-/

namespace Deferral

open Reporting SymbolTable

/-- What every pass does. -/
def Passing : PassRelation := fun _ ρ t ρ' t' => Passes ρ t ρ' t'

theorem passing_lifts : Passing.Lifts where
  passes h := h
  idle ρ _ idles := .of_advances idles.advances ρ
  trans h h' := h.trans h'
  report d h := h.report d
  leave h := h.leave

namespace Signature

variable {R : PassRelation} {declare : DeclId → Reporting Unit} {ρ ρ' : List Diagnostic}
  {t t' : SymbolTable}

/-! ## Functions -/

/-- What becomes of a body: a statement is walked in a fresh scope inside that of the parameters. -/
inductive BodyWalked (walk : Stmt → Reporting Stmt) (scope : ScopeId) (ρ : List Diagnostic)
    (t : SymbolTable) : Body → Body → List Diagnostic → SymbolTable → Prop
  | kept {body : Body} : (∀ s, body ≠ .statement s) → BodyWalked walk scope ρ t body body ρ t
  | walked {s s' : Stmt} {ρ' : List Diagnostic} {t' : SymbolTable} :
      Ends (walk s) ρ (((t.enter scope).addScope scope).enter t.nextScope) s' ρ' t' →
      BodyWalked walk scope ρ t (.statement s) (.statement s') ρ' t'.leave.leave

/-- How the first pass over a function ends that is given its signature. -/
inductive FunctionWalked (walk : Stmt → Reporting Stmt) (id : DeclId) (ρ : List Diagnostic)
    (t : SymbolTable) (ρ' : List Diagnostic) : SymbolTable → Prop
  | walked {scope : ScopeId} {sort : CallableSort} {c : Callable} {body : Body}
      {t₁ t₂ : SymbolTable} :
      t.scopeOf? (.decl id) = some scope → (t.decl id).kind = .callable sort c →
      Resolution.Runs (functionSignature id scope c) t (.ok ()) t₁ → Given id sort c scope t t₁ →
      BodyWalked walk scope ρ (withoutBody t₁ id) c.body body ρ' t₂ →
      FunctionWalked walk id ρ t ρ' (withBody t₂ id body)

/-- A function that cannot be walked: it has no scope or is none, or its signature does not resolve. -/
inductive FunctionRefused (id : DeclId) (t : SymbolTable) (d : Diagnostic) : SymbolTable → Prop
  | idle : FunctionRefused id t d t
  | unsigned {scope : ScopeId} {sort : CallableSort} {c : Callable} {t' : SymbolTable} :
      t.scopeOf? (.decl id) = some scope → (t.decl id).kind = .callable sort c →
      Resolution.Runs (functionSignature id scope c) t (.error d) t' → FunctionRefused id t d t'

theorem ends_function {walk : Stmt → Reporting Stmt} {id : DeclId} {r : Except Diagnostic Unit}
    (sound : t.Sound) (h : Faulting.Ends (function walk id) ρ t r ρ' t') :
    (∃ d, r = .error d ∧ ρ' = ρ ∧ FunctionRefused id t d t') ∨
      r = .ok () ∧ FunctionWalked walk id ρ t ρ' t' := by
  unfold function at h
  rcases Faulting.ends_bind.mp h with ⟨fault, looked, rfl⟩ | ⟨scope, ρ₁, t₁, looked, rest⟩
  · obtain ⟨run, rfl⟩ := Faulting.ends_resolve.mp looked
    obtain ⟨rfl, -⟩ := Resolution.runs_scopeOf run
    exact .inl ⟨fault, rfl, rfl, .idle⟩
  obtain ⟨run, rfl⟩ := Faulting.ends_resolve.mp looked
  obtain ⟨rfl, known⟩ := Resolution.runs_scopeOf run
  rw [Faulting.ends_bind_look] at rest
  split at rest
  · obtain ⟨run, rfl⟩ := Faulting.ends_resolve.mp rest
    obtain ⟨rfl, wrong⟩ := Resolution.runs_unexpectedDecl run
    cases r with
    | error d => exact .inl ⟨d, rfl, rfl, .idle⟩
    | ok u => exact absurd rfl (wrong u)
  rename_i c callable
  obtain ⟨sort, kind⟩ := Decl.kind_of_callable? callable
  rcases Faulting.ends_bind.mp rest with ⟨fault, signed, rfl⟩ | ⟨_, ρ₂, t₂, signed, rest₂⟩
  · obtain ⟨run₂, rfl⟩ := Faulting.ends_resolve.mp signed
    exact .inl ⟨fault, rfl, rfl, .unsigned (known scope rfl) kind run₂⟩
  obtain ⟨run₂, rfl⟩ := Faulting.ends_resolve.mp signed
  obtain ⟨-, given⟩ := runs_functionSignature sound kind run₂
  rw [Faulting.ends_bind_change] at rest₂
  split at rest₂
  · rename_i s same
    rcases Faulting.ends_bind.mp rest₂ with ⟨fault, walk₃, -⟩ | ⟨body, ρ₃, t₃, walk₃, last⟩
    · obtain ⟨r₁, lifted, wrong⟩ := Faulting.ends_map.mp walk₃
      obtain ⟨s', -, rfl⟩ := Faulting.ends_lift.mp lifted
      cases wrong
    obtain ⟨rfl, rfl, rfl⟩ := Faulting.ends_change.mp last
    obtain ⟨r₁, lifted, ok⟩ := Faulting.ends_map.mp walk₃
    obtain ⟨s', run₄, rfl⟩ := Faulting.ends_lift.mp lifted
    obtain rfl := Except.ok.inj ok
    obtain ⟨t₅, run₅, rfl⟩ := ends_under.mp run₄
    obtain ⟨t₆, run₆, rfl⟩ := ends_underFresh.mp run₅
    exact .inr ⟨rfl, .walked (known scope rfl) kind run₂ (given rfl) (same ▸ .walked run₆)⟩
  · rename_i other
    rcases Faulting.ends_bind.mp rest₂ with ⟨fault, walk₃, -⟩ | ⟨body, ρ₃, t₃, walk₃, last⟩
    · obtain ⟨wrong, -⟩ := Faulting.ends_pure.mp walk₃
      cases wrong
    obtain ⟨rfl, rfl, rfl⟩ := Faulting.ends_change.mp last
    obtain ⟨ok, rfl, rfl⟩ := Faulting.ends_pure.mp walk₃
    obtain rfl := Except.ok.inj ok
    exact .inr ⟨rfl, .walked (known scope rfl) kind run₂ (given rfl) (.kept other)⟩

theorem FunctionRefused.passes {id : DeclId} {d : Diagnostic} (h : FunctionRefused id t d t')
    (sound : t.Sound) (ρ : List Diagnostic) : Passes ρ t ρ t' := by
  cases h with
  | idle => exact .refl _ _
  | unsigned _ kind run => exact .of_advances (runs_functionSignature sound kind run).1 _

/-- A body keeps its expressions, and where nothing is reported it only loses extensions. -/
theorem BodyWalked.relation {scope : ScopeId} {owner : ScopeOwner} {body body' : Body}
    (walks : R.Walks) (holds : R.Holds declare body.declares) (sound : t.Sound)
    (owns : t.scopeOf? owner = some scope)
    (h : BodyWalked (statement declare) scope ρ t body body' ρ' t') :
    R body.declares ρ t ρ' t' ∧ body'.expressions = body.expressions ∧
      (ρ' = ρ → ∀ s', body' = .statement s' →
        ∃ s, body = .statement s ∧ s' = s.merged t ∧ t.HasBlocks s.blocks) := by
  cases h with
  | kept other =>
    refine ⟨?_, rfl, fun _ s same => absurd same (other s)⟩
    have none : body.declares = [] := by
      cases body with
      | statement s => exact absurd rfl (other s)
      | _ => rfl
    rw [none]
    exact walks.refl sound
  | @walked s s' _ t₁ walk =>
    have opened : R [] ρ (t.enter scope) ρ ((t.enter scope).addScope scope) :=
      walks.openScope sound owns
    have sound' := (walks.sound opened (sound.enter scope)).enter t.nextScope
    obtain ⟨relation, walked⟩ := ends_statement walks s holds sound' walk
    refine ⟨?_, walked.expressions, fun quiet s₁ same => ?_⟩
    · have fresh := walks.trans opened (walks.leave relation)
      exact walks.leave fresh
    · obtain ⟨merged, blocks⟩ := walked.quiet quiet
      obtain rfl := Body.statement.inj same
      refine ⟨s, rfl, merged.trans ?_, blocks⟩
      apply Stmt.merged_congr
      intro other
      rfl

theorem Advances.withoutBody (sound : t.Sound) (id : DeclId) : t.Advances (withoutBody t id) :=
  .of_modifyDecl sound (.setBody id (by simp [Body.expressions]))

/-- Expressions that were in a body may be put into it again. -/
theorem Advances.withBody (sound : t.Sound) (id : DeclId) {body : Body}
    (bodySound : ∀ e ∈ body.expressions, e.Sound t) : t.Advances (withBody t id body) :=
  .of_modifyDecl sound (.setBody id bodySound)

theorem FunctionWalked.passes {id : DeclId}
    (h : FunctionWalked (statement declare) id ρ t ρ' t') (sound : t.Sound)
    (holds : Passing.Holds declare (t.decl id).declares) : Passes ρ t ρ' t' := by
  obtain ⟨owns, kind, -, given, walk⟩ := h
  rename_i scope sort c body t₁ t₂
  have old := sound.decls id
  rw [kind] at old
  have sound₁ := given.idles.advances.sound sound
  have out := Advances.withoutBody sound₁ id
  obtain ⟨passes, same, -⟩ := walk.relation passing_lifts.walks
    (holds.mono fun w member => by simpa [Decl.declares, kind] using member) (out.sound sound₁)
    (((given.idles.advances.trans out).scopeOf? _).trans owns)
  have before := (Passes.of_advances (given.idles.advances.trans out) ρ).trans passes
  refine before.trans (.of_advances (Advances.withBody (before.sound sound) id fun e member => ?_) _)
  rw [same] at member
  exact before.advances.evolves.exprSound (old.body e member)

/-! ## Objects and classes -/

open Resolution in
/-- A slot is resolved in the scope in which a declaration lies. -/
theorem runs_slotUnder (sound : t.Sound) {id : DeclId} {slot : TypeSlot} {r : Except Diagnostic Unit}
    (h : Runs (under (t.decl id).scope (forceSlot id slot)) t r t') :
    Settles (some id) t t' ∧ (r = .ok () → Slotted id slot t t') := by
  obtain ⟨t₁, run, rfl⟩ := runs_under.mp h
  obtain ⟨settles, slotted⟩ :=
    runs_forceSlotWith binds_ensureConstant (sound.enter _) (fun _ => rfl) run
  refine ⟨settles.leave, fun ok => ?_⟩
  obtain ⟨type', type, t₂, settled, normal, held, put⟩ := (slotted ok).put
  exact ⟨type', type, t₂.leave, settled.leave, normal, held, put⟩

theorem ends_members {walk : List Stmt → Reporting (List Stmt)} {id : DeclId} {scope : ScopeId}
    {u : Unit} (h : Ends (members walk id scope) ρ t u ρ' t') :
    ∃ body t₁, Ends (walk (t.members id)) ρ
        ((t.modifyDecl id (·.mapMembers fun _ => [])).enter scope) body ρ' t₁ ∧
      t' = t₁.leave.modifyDecl id (·.mapMembers fun _ => body) := by
  unfold members at h
  rw [ends_bind_look, ends_bind_change] at h
  obtain ⟨body, ρ₁, t₁, under, last⟩ := ends_bind.mp h
  obtain ⟨rfl, rfl⟩ := ends_change.mp last
  obtain ⟨t₂, walk, rfl⟩ := ends_under.mp under
  exact ⟨body, t₂, walk, rfl⟩

/-- How the first pass over a class ends whose kind has been resolved. -/
inductive ClassWalked (walk : List Stmt → Reporting (List Stmt)) (id : DeclId)
    (ρ : List Diagnostic) (t : SymbolTable) (ρ' : List Diagnostic) (t' : SymbolTable) : Prop
  | walked {scope : ScopeId} {t₁ : SymbolTable} :
      t.scopeOf? (.decl id) = some scope →
      Resolution.Runs (Resolution.under (t.decl id).scope (Resolution.forceSlot id .kind)) t (.ok ())
        t₁ →
      Settles (some id) t t₁ → Resolution.Slotted id .kind t t₁ →
      Faulting.Extended (t.decl id).scope id (members walk id scope) ρ t₁ () ρ' t' →
      ClassWalked walk id ρ t ρ' t'

theorem ends_classMembers {walk : List Stmt → Reporting (List Stmt)} {id : DeclId}
    {r : Except Diagnostic Unit} (sound : t.Sound)
    (h : Faulting.Ends (classMembers walk id) ρ t r ρ' t') :
    (∃ d, r = .error d ∧ Passes ρ t ρ' t') ∨ r = .ok () ∧ ClassWalked walk id ρ t ρ' t' := by
  unfold classMembers at h
  rw [Faulting.ends_bind_look] at h
  rcases Faulting.ends_bind.mp h with ⟨fault, forced, rfl⟩ | ⟨_, ρ₁, t₁, forced, rest⟩
  · obtain ⟨run, rfl⟩ := Faulting.ends_resolve.mp forced
    exact .inl ⟨fault, rfl, .of_advances (.of_settles (runs_slotUnder sound run).1) _⟩
  obtain ⟨run, rfl⟩ := Faulting.ends_resolve.mp forced
  obtain ⟨settles, slotted⟩ := runs_slotUnder sound run
  rcases Faulting.ends_bind.mp rest with ⟨fault, looked, rfl⟩ | ⟨scope, ρ₄, t₄, looked, rest₄⟩
  · obtain ⟨run₄, rfl⟩ := Faulting.ends_resolve.mp looked
    obtain ⟨rfl, -⟩ := Resolution.runs_scopeOf run₄
    exact .inl ⟨fault, rfl, .of_advances (.of_settles settles) _⟩
  obtain ⟨run₄, rfl⟩ := Faulting.ends_resolve.mp looked
  obtain ⟨rfl, known⟩ := Resolution.runs_scopeOf run₄
  have advances := Advances.of_settles settles
  have sound₁ := advances.sound sound
  rcases Faulting.ends_withExtensions sound₁ rest₄ with
    ⟨d, t₅, rfl, rfl, advances₅, rfl⟩ | ⟨u, rfl, extended⟩
  · refine .inl ⟨d, rfl, .of_advances ((advances.trans advances₅).trans ?_) _⟩
    exact .keepOnly (advances₅.sound sound₁) _ _
  · refine .inr ⟨rfl, .walked ?_ run settles (slotted rfl) extended⟩
    rw [← known scope rfl, advances.scopeOf?]

/-- A class without what is in it. -/
abbrev withoutMembers (t : SymbolTable) (id : DeclId) : SymbolTable :=
  t.modifyDecl id (·.mapMembers fun _ => [])

theorem advances_withoutMembers (sound : t.Sound) (id : DeclId) :
    t.Advances (withoutMembers t id) :=
  .of_modifyDecl sound (.setMembers id (by simp [Stmt.expressionsIn]))

theorem passes_members {id : DeclId} {scope : ScopeId} {u : Unit} (sound : t.Sound)
    (holds : Passing.Holds declare (Stmt.declaresIn (t.members id)))
    (h : Ends (members (sequence declare) id scope) ρ t u ρ' t') : Passes ρ t ρ' t' := by
  obtain ⟨body, t₁, walk, rfl⟩ := ends_members h
  have out := advances_withoutMembers sound id
  obtain ⟨passes, same, -⟩ :=
    ends_sequence passing_lifts.walks holds ((out.sound sound).enter scope) walk
  have before := (Passes.of_advances out ρ).trans passes.leave
  refine before.trans (.of_advances (.of_modifyDecl (before.sound sound) (.setMembers id ?_)) _)
  intro e member
  rw [same] at member
  exact before.advances.evolves.exprSound (sound.members id e member)

theorem ClassWalked.passes {id : DeclId}
    (h : ClassWalked (sequence declare) id ρ t ρ' t') (sound : t.Sound)
    (holds : ∀ ids, Passing.Holds declare ids) : Passes ρ t ρ' t' := by
  obtain ⟨-, -, settles, -, extended⟩ := h
  have sound₁ := settles.sound sound
  refine (Passes.of_advances (.of_settles settles) ρ).trans ?_
  cases extended with
  | alone _ walk => exact passes_members sound₁ (holds _) walk
  | absorbed _ absorbs walk =>
    have advances := absorbs.advances sound₁
    have walked := passes_members (advances.sound sound₁) (holds _) walk
    have before := (Passes.of_advances advances ρ).trans walked
    exact before.trans (.of_advances (.keepOnly (before.sound sound₁) _ _) _)

/-! ## Declarations -/

/-- How the first pass over a declaration ends without a fault. -/
inductive Done (declare : DeclId → Reporting Unit) (id : DeclId) (ρ : List Diagnostic)
    (t : SymbolTable) (ρ' : List Diagnostic) (t' : SymbolTable) : Prop
  | object : (∃ sort type init, (t.decl id).kind = .object sort type init) ∨
        (∃ type, (t.decl id).kind = .super type) →
      Resolution.Runs (object id) t (.ok ()) t' → Settles (some id) t t' →
      Resolution.Slotted id .declared t t' → ρ' = ρ → Done declare id ρ t ρ' t'
  | function : FunctionWalked (statement declare) id ρ t ρ' t' → Done declare id ρ t ρ' t'
  | primary : (t.decl id).isPrimaryClass = true →
      ClassWalked (sequence declare) id ρ t ρ' t' → Done declare id ρ t ρ' t'
  | extension : (t.decl id).isExtension = true → ρ' = ρ → t' = t → Done declare id ρ t ρ' t'

theorem ends_declaration {id : DeclId} {r : Except Diagnostic Unit} (sound : t.Sound)
    (h : Faulting.Ends (declaration declare id) ρ t r ρ' t') :
    (∃ d, r = .error d ∧ Passes ρ t ρ' t') ∨ r = .ok () ∧ Done declare id ρ t ρ' t' := by
  have settled (kind : (∃ sort type init, (t.decl id).kind = .object sort type init) ∨
      (∃ type, (t.decl id).kind = .super type))
      (h : Faulting.Ends (Faulting.resolve (object id)) ρ t r ρ' t') :
      (∃ d, r = .error d ∧ Passes ρ t ρ' t') ∨ r = .ok () ∧ Done declare id ρ t ρ' t' := by
    obtain ⟨run, rfl⟩ := Faulting.ends_resolve.mp h
    obtain ⟨settles, slotted⟩ := runs_slotUnder sound (Resolution.runs_bind_look.mp run)
    cases r with
    | error d => exact .inl ⟨d, rfl, .of_advances (.of_settles settles) _⟩
    | ok u => exact .inr ⟨rfl, .object kind run settles (slotted rfl) rfl⟩
  have unexpected (h : Faulting.Ends (Faulting.resolve (Resolution.unexpectedDecl (t.decl id))) ρ t r
      ρ' t') : ∃ d, r = .error d ∧ Passes ρ t ρ' t' := by
    obtain ⟨run, rfl⟩ := Faulting.ends_resolve.mp h
    obtain ⟨rfl, wrong⟩ := Resolution.runs_unexpectedDecl run
    cases r with
    | error d => exact ⟨d, rfl, .refl _ _⟩
    | ok u => exact absurd rfl (wrong u)
  unfold declaration at h
  rw [Faulting.ends_bind_look] at h
  split at h
  · rename_i sort type init kind
    exact settled (.inl ⟨sort, type, init, kind⟩) h
  · rename_i type kind
    exact settled (.inr ⟨type, kind⟩) h
  · rcases ends_function sound h with ⟨d, fault, rfl, refused⟩ | ⟨ok, walked⟩
    · exact .inl ⟨d, fault, refused.passes sound ρ'⟩
    · exact .inr ⟨ok, .function walked⟩
  · rename_i kind
    exact (ends_classMembers sound h).imp_right
      fun ⟨ok, walked⟩ => ⟨ok, .primary (by simp [Decl.isPrimaryClass, kind]) walked⟩
  · rename_i kind
    obtain ⟨rfl, rfl, rfl⟩ := Faulting.ends_pure.mp h
    exact .inr ⟨rfl, .extension (by simp [Decl.isExtension, kind]) rfl rfl⟩
  · exact .inl (unexpected h)
  · exact .inl (unexpected h)

theorem Done.passes {id : DeclId} (h : Done declare id ρ t ρ' t') (sound : t.Sound)
    (holds : ∀ ids, Passing.Holds declare ids) : Passes ρ t ρ' t' := by
  cases h with
  | object _ _ settles _ quiet => exact quiet ▸ .of_advances (.of_settles settles) ρ
  | function walked => exact walked.passes sound (holds _)
  | primary _ walked => exact walked.passes sound holds
  | extension _ quiet same =>
    obtain ⟨rfl, rfl⟩ : ρ' = ρ ∧ t' = t := ⟨quiet, same⟩
    exact .refl _ _

theorem passing_declareWithin (level : Nat) (ids : List DeclId) :
    Passing.Holds (declareWithin level) ids := by
  induction level generalizing ids with
  | zero =>
    intro id _ ρ ρ' t t' u _ h
    obtain ⟨-, rfl, rfl⟩ := ends_pure.mp h
    exact .refl _ _
  | succ level ih =>
    intro id _ ρ ρ' t t' u sound h
    obtain ⟨fault?, ρ₁, t₁, declared, rest⟩ := ends_bind.mp h
    rw [ends_bind_look] at rest
    obtain ⟨rfl, rfl⟩ := ends_reportWithin.mp rest
    rcases Faulting.ends_fault?.mp declared with ⟨rfl, run⟩ | ⟨d, rfl, run⟩
    · rcases ends_declaration sound run with ⟨d, wrong, -⟩ | ⟨-, done⟩
      · cases wrong
      · simpa [Passing] using done.passes sound ih
    · rcases ends_declaration sound run with ⟨d, -, passes⟩ | ⟨wrong, -⟩
      · exact passes.report _
      · cases wrong

theorem passing_declare (ids : List DeclId) : Passing.Holds Signature.declare ids := by
  intro id member ρ ρ' t t' u sound h
  unfold Signature.declare at h
  exact passing_declareWithin _ ids id member sound (ends_bind_look.mp h)

end Signature

/-! ## Units -/

/-- The first pass over a unit. -/
theorem SourceUnit.passes_resolveSignatures {u u' : SourceUnit} {t t' : SymbolTable}
    {reported : List Diagnostic} (sound : t.Sound)
    (h : u.resolveSignatures.run t = ((u', reported), t')) :
    Passes [] t reported t' ∧ u'.scope = u.scope ∧
      Stmt.expressionsIn u'.body = Stmt.expressionsIn u.body := by
  unfold resolveSignatures at h
  rw [run_collect] at h
  obtain ⟨body, ρ₁, t₁, walk, rest⟩ := ends_bind.mp h
  obtain ⟨same, rfl, rfl⟩ := ends_pure.mp rest
  subst same
  obtain ⟨t₂, walk₂, rfl⟩ := ends_under.mp walk
  obtain ⟨passes, expressions, -⟩ := Signature.ends_sequence passing_lifts.walks
    (Signature.passing_declare _) (sound.enter _) walk₂
  exact ⟨Passes.leave passes, rfl, expressions⟩

end Deferral
