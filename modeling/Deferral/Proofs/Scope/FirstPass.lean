import Deferral.Proofs.FirstPass.Announcing
import Deferral.Proofs.Reading.Building
import Deferral.Proofs.Scope.QuietFirstPass

/-!
# The first pass binds lexically

A first pass that reports nothing opens what it passes over from outside in. In the end every
initializer is lexical in the scope of its object.
-/

namespace Deferral

open Reporting SymbolTable

/-! ## Statements -/

/-- A quiet pass goes on opening functions and classes. -/
def Opening : PassRelation := fun ids ρ t ρ' t' =>
  Passes ρ t ρ' t' ∧ (ρ' = ρ → ∀ rank S D, t.Opened rank S D →
    (∀ id ∈ ids, t.Stands rank S D id) → ∃ D', Widens D t D' t' ∧ t'.Opened rank S D')

theorem opening_walks : Opening.Walks where
  passes h := h.1
  refl {ρ t} _ := ⟨.refl ρ t, fun _ rank S D opened _ => ⟨D, .refl D t, opened⟩⟩
  openScope {ρ t owner scope} sound owns := by
    have idles : (t.enter scope).Idles ((t.enter scope).addScope scope) :=
      .openScope (sound.enter scope)
    refine ⟨.of_advances idles.advances ρ, fun _ rank S D opened _ => ?_⟩
    have owned : t.scopeOf? owner = some scope := owns
    obtain ⟨after, widens⟩ := opened.addScope idles (opened.nested.owned owned)
    exact ⟨D, widens, after⟩
  trans {ids ids' ρ ρ' ρ'' t t' t''} h h' := by
    refine ⟨h.1.trans h'.1, fun quiet rank S D opened stands => ?_⟩
    obtain ⟨quiet₁, quiet₂⟩ := h.1.quiet h'.1 quiet
    obtain ⟨D₁, widens₁, opened₁⟩ :=
      h.2 quiet₁ rank S D opened fun id member => stands id (by simp [member])
    obtain ⟨D₂, widens₂, opened₂⟩ := h'.2 quiet₂ rank S D₁ opened₁ fun id member =>
      (stands id (by simp [member])).of_widens h.1.advances opened.present widens₁
    exact ⟨D₂, widens₁.trans widens₂, opened₂⟩
  report d _ h := ⟨h.1.report d, fun quiet => absurd quiet (reported_ne h.1.grows d)⟩
  leave {ids ρ ρ' t t' scope} h := by
    refine ⟨h.1.leave, fun quiet rank S D opened stands => ?_⟩
    obtain ⟨D', widens, opened'⟩ := h.2 quiet rank S D (opened.of_active _) fun id member =>
      ⟨(stands id member).lt, ⟨(stands id member).outer.lt, (stands id member).outer.owners⟩,
        (stands id member).deeper⟩
    refine ⟨D', ⟨widens.within, fun {s} open' => ?_, fun encloses => widens.encloses encloses⟩,
      opened'.of_active _⟩
    have open' := widens.opened (s := s) ⟨open'.lt, open'.owners⟩
    exact ⟨open'.lt, open'.owners⟩

namespace Signature

variable {declare : DeclId → Reporting Unit} {ρ ρ' : List Diagnostic} {t t' : SymbolTable}
  {rank : ScopeId → Nat} {S D : Set DeclId} {id : DeclId}

/-! ## Functions -/

/-- A function is opened, and then what is in its body. -/
theorem FunctionWalked.opens (h : FunctionWalked (statement declare) id ρ t ρ' t')
    (quiet : ρ' = ρ) (holds : ∀ ids, Opening.Holds declare ids) (opened : t.Opened rank S D)
    (stands : t.Stands rank S D id) : ∃ D', Widens D t D' t' ∧ t'.Opened rank S D' := by
  obtain ⟨owns, kind, run, given, walk⟩ := h
  rename_i scope sort c body t₁ t₂
  obtain ⟨opened₁, widens₁⟩ := opened.sign owns kind stands.outer run given
  obtain ⟨c₁, kind₁, -, sameBody, -⟩ := given.kind
  have advances₁ := given.idles.advances
  have declares₁ : (t₁.decl id).declares = c.body.declares := by
    simp [Decl.declares, kind₁, sameBody]
  have out := Advances.withoutBody opened₁.sound id
  have opened₂ : (withoutBody t₁ id).Opened rank S (insert id D) :=
    opened₁.takeOut out rfl (initializer?_mapCallable t₁ id · _)
      (fun v => by
        by_cases same : v = id
        · exact .inr (same ▸ body_withoutBody t₁ id)
        · exact .inl (by rw [withoutBody, decl_modifyDecl_of_ne same]))
      fun v => .inl (members_mapCallable ..)
  have widens₂ : Widens (insert id D) t₁ (insert id D) (withoutBody t₁ id) :=
    (Stays.of_scopes out rfl).widens opened₁.nested
  obtain ⟨relation, expressions, merged⟩ := walk.relation opening_walks (holds _) opened₂.sound
    (((advances₁.trans out).scopeOf? _).trans owns)
  have deeper : ∀ d ∈ S, rank (t₁.decl d).scope ≤ rank (t₁.decl id).scope := by
    intro d held
    rw [advances₁.scope stands.lt, advances₁.scope (opened.present d held)]
    exact (stands.deeper d held).le
  obtain ⟨D', widens₃, opened₃⟩ := relation.2 quiet rank S (insert id D) opened₂ fun w member =>
    (opened₁.stands_of_declares (.inl rfl) deeper (by rw [declares₁]; exact member)).of_widens out
      opened₁.present widens₂
  have advances₃ := out.trans relation.1.advances
  have widens := widens₂.trans widens₃
  have lt₁ : id.index < t₁.decls.size := opened₁.lt_of_mem (.inl rfl)
  have lt₂ : id.index < t₂.decls.size := Nat.lt_of_lt_of_le lt₁ advances₃.evolves.size
  obtain ⟨c₂, kind₂, -⟩ := callable_of_evolves advances₃.evolves kind₁
  have unread : ∀ e ∈ body.expressions, e.excerpt?.isSome = true := by
    intro e member
    rw [expressions] at member
    exact opened.unread.body id e (by rw [Decl.body_of_kind kind]; exact member)
  have put : t₂.Advances (withBody t₂ id body) := Advances.withBody opened₃.sound id
    fun e member none => absurd (unread e member) (by simp [none])
  -- What is in the body that is put back was in the one taken out.
  have lies : ∀ w ∈ ((withBody t₂ id body).decl id).declares,
      t₂.Houses rank id w ∧ t₂.LiesWithin D' id w := by
    intro w member
    rw [declares_eq, body_withBody kind₂, withBody, members_mapCallable, members_of_kind kind₂]
      at member
    have member : w ∈ c.body.declares := by
      have member : w ∈ body.declares := by simpa [Stmt.declaresIn] using member
      cases body with
      | statement s' =>
        obtain ⟨s, same, rfl, -⟩ := merged quiet s' rfl
        rw [same]
        exact Stmt.mem_declares_of_merged _ s member
      | absent => cases member
      | expression e => cases member
    have inside : w ∈ (t₁.decl id).declares := by rw [declares₁]; exact member
    exact ⟨(opened₁.placed.inside id w inside).of_advances lt₁ advances₃,
      widens.liesWithin advances₃ (opened₁.nested.liesWithin opened₁.placed inside)⟩
  refine ⟨D', (widens₁.trans widens).trans ((Stays.of_scopes put rfl).widens opened₃.nested),
    opened₃.fill put rfl (initializer?_mapCallable t₂ id · _) lt₂
      (fun other ne => decl_modifyDecl_of_ne ne _ _) lies ?_ ?_⟩
  · rw [body_withBody kind₂]
    exact unread
  · rw [withBody, members_mapCallable, members_of_kind kind₂]
    exact fun e none => by cases none

/-! ## Classes -/

/-- What is in an open class is opened and put back without extensions. -/
theorem opens_members {scope : ScopeId} {u : Unit}
    (h : Ends (members (sequence declare) id scope) ρ t u ρ' t') (quiet : ρ' = ρ)
    (holds : ∀ ids, Opening.Holds declare ids) (opened : t.Opened rank S D)
    (primary : (t.decl id).isPrimaryClass = true) (member : id ∈ D)
    (deeper : ∀ c ∈ S, rank (t.decl c).scope ≤ rank (t.decl id).scope) :
    ∃ D', Widens D t D' t' ∧ t'.Opened rank S D' ∧ t.Advances t' := by
  obtain ⟨body, t₂, walk, rfl⟩ := ends_members h
  have lt := lt_size_of_isPrimaryClass primary
  have isClass := members?_isSome_of_isPrimaryClass primary
  have bodyless := body_of_isPrimaryClass primary
  have declares : (t.decl id).declares = Stmt.declaresIn (t.members id) := by
    rw [declares_eq, bodyless]
    rfl
  have out := advances_withoutMembers opened.sound id
  have opened₁ : (withoutMembers t id).Opened rank S D :=
    opened.takeOut out rfl (initializer?_mapMembers t id · _) (fun v => .inl (body_mapMembers ..))
      fun v => by
        by_cases same : v = id
        · subst same
          exact .inr (members_mapMembers_self isClass _)
        · exact .inl (members_modifyDecl_of_ne same _)
  have widens₁ := (Stays.of_scopes out rfl).widens opened.nested
  obtain ⟨relation, expressions, merged⟩ :=
    ends_sequence opening_walks (holds _) (opened₁.sound.enter scope) walk
  obtain ⟨D', widens₂, opened₂⟩ := (opening_walks.leave relation).2 quiet rank S D opened₁
    fun w inside => (opened.stands_of_declares member deeper (by rw [declares]; exact inside)).of_widens
      out opened.present widens₁
  have walked : t.Advances t₂.leave := out.trans relation.1.advances.leave
  have widens := widens₁.trans widens₂
  obtain ⟨rfl, -⟩ := merged quiet
  have unread : ∀ e ∈ Stmt.expressionsIn (Stmt.mergedIn ((withoutMembers t id).enter scope)
      (t.members id)), e.excerpt?.isSome = true := by
    intro e inside
    rw [expressions] at inside
    exact opened.unread.members id e inside
  have put := Advances.of_modifyDecl opened₂.sound (.setMembers (t := t₂.leave) id
    fun e inside none => absurd (unread e inside) (by simp [none]))
  have primary' : (t₂.leave.decl id).isPrimaryClass = true := by
    rw [walked.isPrimaryClass]
    exact primary
  have filled := members_mapMembers_self (members?_isSome_of_isPrimaryClass primary') fun _ =>
    Stmt.mergedIn ((withoutMembers t id).enter scope) (t.members id)
  refine ⟨D', widens.trans ((Stays.of_scopes put rfl).widens opened₂.nested),
    opened₂.fill put rfl (initializer?_mapMembers t₂.leave id · _)
      (Nat.lt_of_lt_of_le lt walked.evolves.size) (fun other ne => decl_modifyDecl_of_ne ne _ _)
      (fun w inside => ?_) ?_ ?_, walked.trans put⟩
  · rw [declares_eq, body_mapMembers, body_of_isPrimaryClass primary', filled] at inside
    have inside : w ∈ (t.decl id).declares := by
      rw [declares]
      exact Stmt.mem_declaresIn_of_merged _ _ inside
    exact ⟨(opened.placed.inside id w inside).of_advances lt walked,
      widens.liesWithin walked (opened.nested.liesWithin opened.placed inside)⟩
  · rw [body_mapMembers, body_of_isPrimaryClass primary']
    exact fun e none => by cases none
  · rw [filled]
    exact unread

open Resolution in
theorem names_under {P : ScopeId → Prop} (legible : t.Legible P) {scope : ScopeId} (inside : P scope)
    {slot : TypeSlot} {r : Except Diagnostic Unit}
    (h : Runs (under scope (forceSlot id slot)) t r t') : t.Names P t' := by
  obtain ⟨t₁, run, rfl⟩ := runs_under.mp h
  have legible' : (t.enter scope).Legible P := legible.of_same rfl rfl
  have sees : (t.enter scope).Sees P scope := (legible.closed scope inside).of_same rfl rfl
  exact (names_forceSlotWith namesIn_ensureConstant legible' sees run).leave

/-- A class is opened together with its extensions, and then what is in it. -/
theorem ClassWalked.opens (h : ClassWalked (sequence declare) id ρ t ρ' t')
    (primary : (t.decl id).isPrimaryClass = true) (quiet : ρ' = ρ)
    (holds : ∀ ids, Opening.Holds declare ids) (opened : t.Opened rank S D)
    (stands : t.Stands rank S D id) : ∃ D', Widens D t D' t' ∧ t'.Opened rank S D' := by
  obtain ⟨owns, run, settles, slotted, extended⟩ := h
  rename_i scope t₁
  have idles := Idles.of_slotted settles slotted
  have names := names_under opened.legible stands.outer run
  have opened₁ := opened.settle idles names
  have widens₁ := (Stays.of_scopes idles.advances names.scopes).widens opened.nested
  have stands₁ := stands.of_widens idles.advances opened.present widens₁
  have primary₁ : (t₁.decl id).isPrimaryClass = true := by
    rw [idles.advances.isPrimaryClass]; exact primary
  have owns₁ : t₁.scopeOf? (.decl id) = some scope := by rw [idles.advances.scopeOf?]; exact owns
  have outside : id ∉ S := fun held => Nat.lt_irrefl _ (stands₁.deeper id held)
  rw [← idles.advances.scope stands.lt] at extended
  cases extended with
  | alone single walk =>
    have drained : ∀ d, t₁.Binds (t₁.decl id).scope (t₁.decl id).name d →
        (t₁.decl d).isExtension = false := fun d b => by
      obtain rfl := opened₁.placed.alone primary₁ single b
      exact not_isExtension_of_isPrimaryClass primary₁
    have opened₂ : t₁.Opened rank S (insert id D) := opened₁.insert owns₁
      (not_isExtension_of_isPrimaryClass primary₁) stands₁.outer (fun _ => .inr drained)
      fun sort c kind => by simp [Decl.isPrimaryClass, kind] at primary₁
    obtain ⟨D', widens, opened₃, -⟩ := opens_members walk quiet holds opened₂ primary₁ (.inl rfl)
      fun c held => (stands₁.deeper c held).le
    exact ⟨D', (widens₁.trans (.insert D t₁ id)).trans widens, opened₃⟩
  | @absorbed outer t₂ t₃ owns₂ absorbs walk =>
    obtain rfl := Option.some.inj (owns₁.symm.trans owns₂)
    have bound : ∀ e ∈ ((t₁.scope (t₁.decl id).scope).find? (t₁.decl id).name).getD [],
        t₁.Binds (t₁.decl id).scope (t₁.decl id).name e := by
      intro e member
      cases found : (t₁.scope (t₁.decl id).scope).find? (t₁.decl id).name with
      | none => simp [found] at member
      | some set => exact Names.binds_of_find? found (by simpa [found] using member)
    have advances₂ := absorbs.advances opened₁.sound
    have absorbed : ∃ D₂, id ∈ D₂ ∧ Widens D t₁ D₂ t₂ ∧ t₂.Opened rank (insert id S) D₂ := by
      by_cases member : id ∈ D
      · -- A class that is open has no extension left.
        obtain rfl := absorbs.eq_of_none fun e listed =>
          (opened₁.drained id member primary₁).resolve_left outside e (bound e listed)
        exact ⟨D, member, .refl D _, opened₁.descend stands₁.lt⟩
      · exact opened₁.absorb member primary₁ owns₁ stands₁.outer absorbs bound
    obtain ⟨D₂, member, widens₂, opened₂⟩ := absorbed
    have primary₂ : (t₂.decl id).isPrimaryClass = true := by
      rw [advances₂.isPrimaryClass]; exact primary₁
    obtain ⟨D₃, widens₃, opened₃, advances₃⟩ := opens_members walk quiet holds opened₂ primary₂ member
      (by
        rintro c (rfl | held)
        · exact Nat.le_refl _
        · rw [advances₂.scope (opened₁.present c held), advances₂.scope stands₁.lt]
          exact (stands₁.deeper c held).le)
    obtain ⟨opened₄, widens₄⟩ := opened₃.keepOnly (t₁.decl id).scope (t₁.decl id).name
    refine ⟨D₃, ((widens₁.trans widens₂).trans widens₃).trans widens₄,
      opened₄.ascend fun d b => ?_⟩
    have advances := advances₂.trans advances₃
    rw [decl_keepOnly] at b ⊢
    rw [advances.scope stands₁.lt, advances.name stands₁.lt] at b
    exact ((binds_keepOnly opened₃.placed.ordered).mp b).2 rfl rfl

/-! ## Declarations -/

theorem Done.opens (h : Done declare id ρ t ρ' t') (quiet : ρ' = ρ)
    (holds : ∀ ids, Opening.Holds declare ids) (opened : t.Opened rank S D)
    (stands : t.Stands rank S D id) : ∃ D', Widens D t D' t' ∧ t'.Opened rank S D' := by
  cases h with
  | object _ run settles slotted _ =>
    have idles := Idles.of_slotted settles slotted
    have names := names_under opened.legible stands.outer (Resolution.runs_bind_look.mp run)
    exact ⟨D, (Stays.of_scopes idles.advances names.scopes).widens opened.nested,
      opened.settle idles names⟩
  | function walked => exact walked.opens quiet holds opened stands
  | primary primary walked => exact walked.opens primary quiet holds opened stands
  | extension _ _ same =>
    obtain rfl := same
    exact ⟨D, .refl D _, opened⟩

theorem opening_declareWithin (level : Nat) (ids : List DeclId) :
    Opening.Holds (declareWithin level) ids := by
  induction level generalizing ids with
  | zero =>
    intro id _ ρ ρ' t t' u _ h
    obtain ⟨-, rfl, rfl⟩ := ends_pure.mp h
    exact ⟨.refl _ _, fun _ rank S D opened _ => ⟨D, .refl D _, opened⟩⟩
  | succ level ih =>
    intro id _ ρ ρ' t t' u sound h
    refine ⟨passing_declareWithin (level + 1) [id] id (by simp) sound h,
      fun quiet rank S D opened stands => ?_⟩
    obtain ⟨fault?, ρ₁, t₁, declared, rest⟩ := ends_bind.mp h
    rw [ends_bind_look] at rest
    obtain ⟨rfl, rfl⟩ := ends_reportWithin.mp rest
    rcases Faulting.ends_fault?.mp declared with ⟨rfl, run⟩ | ⟨d, rfl, run⟩
    · rcases ends_declaration sound run with ⟨d, wrong, -⟩ | ⟨-, done⟩
      · cases wrong
      · exact done.opens (by simpa using quiet) ih opened (stands id (by simp))
    · rcases ends_declaration sound run with ⟨d, -, passes⟩ | ⟨wrong, -⟩
      · exact absurd quiet (reported_ne passes.grows _)
      · cases wrong

theorem opening_declare (ids : List DeclId) : Opening.Holds Signature.declare ids := by
  intro id member ρ ρ' t t' u sound h
  unfold Signature.declare at h
  exact opening_declareWithin _ ids id member sound (ends_bind_look.mp h)

end Signature

/-! ## Units -/

/-- At the beginning nothing is open and nothing has been read. -/
theorem SymbolTable.Built.beginning {t : SymbolTable} {rank : ScopeId → Nat} (h : t.Built rank)
    (unique : t.UniqueClasses) : t.Opened rank ∅ ∅ where
  sound := h.sound
  placed := h.placed
  nested := h.nested
  present _ none := by cases none
  initializers id e init refers := by
    obtain ⟨sort, type, kind⟩ := Decl.kind_of_initializer? init
    have unread := h.laid.unread id e (by simp [Decl.expressions, kind])
    exact absurd (Expr.references_of_excerpt? unread) refers
  drained _ none := by cases none
  merged _ none := by cases none
  signed _ none := by cases none
  unique := unique
  unread := by
    constructor
    · intro id e member
      refine h.laid.unread id e ?_
      unfold Decl.body Decl.callable? at member
      unfold Decl.expressions
      cases kind : (t.decl id).kind <;> simp_all [Body.expressions]
    · intro id e member
      refine h.laid.unread id e ?_
      unfold SymbolTable.members Decl.members? at member
      unfold Decl.expressions
      cases kind : (t.decl id).kind <;> simp_all [Stmt.expressionsIn]

/-- The global scope has nothing around it. -/
theorem SourceUnit.IsRead.open_global {u : SourceUnit} {t : SymbolTable} {rank : ScopeId → Nat}
    (read : u.IsRead rank t) : t.Open ∅ .global := by
  refine ⟨read.built.global, fun a id around owns => ?_⟩
  rcases Relation.ReflTransGen.cases_head around with rfl | ⟨p, inside, -⟩
  · exact absurd rfl (read.built.owned owns).2.2
  · unfold IsInside at inside
    rw [read.outermost] at inside
    cases inside

/-- After a first pass that reports nothing, initializers are lexical in the scopes of their objects,
and nothing else has been read. -/
theorem SourceUnit.lexicalIn_resolveSignatures {u u' : SourceUnit} {t t' : SymbolTable}
    {rank : ScopeId → Nat} (read : u.IsRead rank t) (unique : t.UniqueClasses)
    (h : u.resolveSignatures.run t = ((u', []), t')) :
    t'.LexicalIn (fun _ => True) ∧ t'.Unread ∧
      ∀ e ∈ Stmt.expressionsIn u'.body, e.excerpt?.isSome = true := by
  obtain ⟨-, -, expressions⟩ := passes_resolveSignatures read.built.sound h
  unfold resolveSignatures at h
  rw [run_collect] at h
  obtain ⟨body, ρ₁, t₁, walk, rest⟩ := ends_bind.mp h
  obtain ⟨same, rfl, rfl⟩ := ends_pure.mp rest
  subst same
  obtain ⟨t₂, walk₂, rfl⟩ := ends_under.mp walk
  obtain ⟨relation, -⟩ := Signature.ends_sequence opening_walks (Signature.opening_declare _)
    (read.built.sound.enter _) walk₂
  obtain ⟨D, -, opened⟩ := (opening_walks.leave relation).2 rfl rank ∅ ∅ (read.built.beginning unique)
    fun w member => ⟨read.placed.lt w member,
      read.built.nested.open_of_encloses read.open_global (read.encloses w member),
      fun _ none => by cases none⟩
  refine ⟨opened.initializers.mono fun _ _ => trivial, opened.unread, fun e member => ?_⟩
  exact read.unread e (expressions ▸ member)

end Deferral
