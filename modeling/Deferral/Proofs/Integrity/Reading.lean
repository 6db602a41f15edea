import Deferral.Proofs.Integrity.Mentioned
import Deferral.Proofs.Integrity.Tidy
import Deferral.Proofs.Reading.Appending

/-!
# Reading keeps a table tidy

Whatever is read, and however reading ends, names lead to the declarations they should. What is declared
lies in the scope that was innermost at first or deeper, and what a statement mentions has been declared
while it was read.
-/

namespace Deferral

open SymbolTable

variable {α β : Type} {t t' t'' : SymbolTable} {rank rank' rank'' : ScopeId → Nat}
  {took : DeclId → DeclId → Prop} {n m : Nat}

/-! ## Statements that have been read -/

/-- Statements that mention declarations of a table with `m` of them, and state none of its first `n`. -/
structure Stmt.ReadIn (n m : Nat) (s : Stmt) : Prop where
  lies : s.LiesIn .present m 0 0
  new : ∀ w ∈ s.declares, n ≤ w.index

theorem Stmt.ReadIn.mono {s : Stmt} {m' : Nat} (h : s.ReadIn n m) (le : m ≤ m') : s.ReadIn n m' :=
  ⟨h.lies.mono le (.refl _ _ _) (Nat.le_refl 0), h.new⟩

theorem Stmt.allLieIn_present {body : List Stmt} (h : ∀ s ∈ body, s.ReadIn n m) :
    AllLieIn .present m 0 0 body := by
  induction body with
  | nil => trivial
  | cons s rest ih =>
    obtain ⟨first, others⟩ := List.forall_mem_cons.mp h
    exact ⟨0, Nat.le_refl 0, Nat.le_refl 0, first.lies, ih others⟩

theorem Stmt.new_declaresIn {body : List Stmt} (h : ∀ s ∈ body, s.ReadIn n m) :
    ∀ w ∈ declaresIn body, n ≤ w.index := by
  intro w member
  obtain ⟨s, inside, member⟩ := mem_declaresIn.mp member
  exact (h s inside).new w member

theorem Stmt.readIn_declaration {id : DeclId} (le : n ≤ id.index) (lt : id.index < m) (span : Span) :
    (Stmt.declaration id span).ReadIn n m :=
  ⟨⟨lt, Layout.inside_present _ _ _ _⟩, List.forall_mem_singleton.mpr le⟩

/-- An expression or nothing, of a statement that states no declaration. -/
theorem Stmt.readIn_of_declares {s : Stmt} (lies : s.LiesIn .present m 0 0) (none : s.declares = []) :
    s.ReadIn n m :=
  ⟨lies, by rw [none]; exact List.forall_mem_nil _⟩

/-- The body of a function that has been read. -/
structure Body.ReadIn (n m : Nat) (body : Body) : Prop where
  lies : body.LiesIn .present m 0 0
  new : ∀ w ∈ body.declares, n ≤ w.index

namespace SymbolTable

/-! ## Tables before and after -/

/-- A tidy table in which nothing is mentioned that has not been declared. -/
structure Orderly (rank : ScopeId → Nat) (took : DeclId → DeclId → Prop) (t : SymbolTable) : Prop where
  tidy : t.Tidy rank took ∅
  lies : ∀ id, (t.decl id).kind.LiesIn .present t.decls.size 0 0
  inner : t.innermost.index < t.scopes.size

/-- Declarations have been added, none of them outside the innermost scope. -/
structure Enlarges (rank : ScopeId → Nat) (t : SymbolTable) (rank' : ScopeId → Nat) (t' : SymbolTable) :
    Prop where
  decls : t.decls.size ≤ t'.decls.size
  scopes : t.scopes.size ≤ t'.scopes.size
  agrees : ∀ s, s.index < t.scopes.size → rank' s = rank s
  active : t'.active = t.active
  stays : ∀ id, id.index < t.decls.size → (t'.decl id).scope = (t.decl id).scope
  inside : ∀ id, t.decls.size ≤ id.index → id.index < t'.decls.size →
    rank t.innermost ≤ rank' (t'.decl id).scope

namespace Enlarges

theorem refl (rank : ScopeId → Nat) (t : SymbolTable) : Enlarges rank t rank t :=
  ⟨Nat.le_refl _, Nat.le_refl _, fun _ _ => rfl, rfl, fun _ _ => rfl, fun _ le lt => by omega⟩

theorem innermost (h : Enlarges rank t rank' t') : t'.innermost = t.innermost := by
  simp only [SymbolTable.innermost, h.active]

theorem trans (h : Enlarges rank t rank' t') (orderly : t.Orderly rank took) (orderly' : t'.Orderly rank' took)
    (h' : Enlarges rank' t' rank'' t'') : Enlarges rank t rank'' t'' where
  decls := Nat.le_trans h.decls h'.decls
  scopes := Nat.le_trans h.scopes h'.scopes
  agrees s lt := (h'.agrees s (Nat.lt_of_lt_of_le lt h.scopes)).trans (h.agrees s lt)
  active := h'.active.trans h.active
  stays id lt := (h'.stays id (Nat.lt_of_lt_of_le lt h.decls)).trans (h.stays id lt)
  inside id le lt := by
    by_cases before : id.index < t'.decls.size
    · rw [h'.stays id before, h'.agrees _ (orderly'.tidy.lies id)]
      exact h.inside id le before
    · have deep := h'.inside id (Nat.not_lt.mp before) lt
      rwa [h.innermost, h.agrees _ orderly.inner] at deep

/-- Something is read under a scope that lies as deep as the innermost one, or deeper. -/
theorem leave {scope : ScopeId} (h : Enlarges rank (t.enter scope) rank' t')
    (deep : rank t.innermost ≤ rank scope) : Enlarges rank t rank' t'.leave where
  decls := h.decls
  scopes := h.scopes
  agrees := h.agrees
  active := congrArg List.tail h.active
  stays := h.stays
  inside id le lt := Nat.le_trans deep (h.inside id le lt)

end Enlarges

namespace Orderly

theorem enter (h : t.Orderly rank took) {scope : ScopeId} (lt : scope.index < t.scopes.size) :
    (t.enter scope).Orderly rank took :=
  ⟨h.tidy.enter scope, h.lies, lt⟩

/-- The scope is left under which something has been read. -/
theorem leave {scope : ScopeId} (h : t'.Orderly rank' took) (grows : Enlarges rank (t.enter scope) rank' t')
    (before : t.Orderly rank took) : t'.leave.Orderly rank' took := by
  refine ⟨h.tidy.leave, h.lies, ?_⟩
  have same : t'.leave.innermost = t.innermost := by
    simp [SymbolTable.innermost, SymbolTable.leave, grows.active, SymbolTable.enter]
  rw [same]
  exact Nat.lt_of_lt_of_le before.inner grows.scopes

/-- A declaration is added of which no more than its name has been read. -/
theorem declare (h : t.Orderly rank took) {d : Decl} (aside : d.kind.IsSetAside)
    (lies : d.scope = t.innermost) :
    (t.declare d).Orderly rank took ∧ Enlarges rank t rank (t.declare d) := by
  have inRange : d.scope.index < t.scopes.size := lies ▸ h.inner
  refine ⟨⟨h.tidy.declare aside.unread inRange, fun id => ?_, ?_⟩, ?_⟩
  · rw [size_declare]
    by_cases before : id.index < t.decls.size
    · rw [decl_declare_of_lt before]
      exact (h.lies id).mono (Nat.le_succ _) (.refl _ _ _) (Nat.le_refl 0)
    by_cases next : id = t.nextDecl
    · rw [next, decl_declare_nextDecl]
      exact aside.liesIn_present
    · have ne : id.index ≠ t.decls.size := fun same => next (congrArg DeclId.mk same)
      rw [kind_eq_typeParameter (by rw [size_declare]; omega)]
      trivial
  · rw [size_scopes_declare]
    exact h.inner
  · refine ⟨by rw [size_declare]; omega, (size_scopes_declare t d).ge, fun _ _ => rfl, rfl,
      fun id lt => by rw [decl_declare_of_lt lt], fun id le lt => ?_⟩
    rw [size_declare] at lt
    obtain rfl : id = t.nextDecl := congrArg DeclId.mk (show id.index = t.decls.size by omega)
    rw [decl_declare_nextDecl, lies]

theorem openFor (h : t.Orderly rank took) {owner : ScopeOwner} (opens : t.MayOpen owner) :
    (t.openFor owner).Orderly (rankOpen rank t) took ∧
      Enlarges rank t (rankOpen rank t) (t.openFor owner) := by
  have size := size_scopes_openFor t owner
  refine ⟨⟨h.tidy.openFor h.inner opens, h.lies, ?_⟩, Nat.le_refl _, by omega,
    fun s lt => rankOpen_of_lt rank lt, rfl, fun _ _ => rfl, fun id le lt => absurd lt (Nat.not_lt.mpr le)⟩
  rw [size]
  exact Nat.lt_succ_of_lt h.inner

/-- The parts of a declaration are filled in. What is inside it lies deeper. -/
theorem fill (h : t.Orderly rank took) {id : DeclId} {f : Decl → Decl}
    (leaves : t.LeavesScopes (t.modifyDecl id f)) (name : (f (t.decl id)).name = (t.decl id).name)
    (subject : (f (t.decl id)).subject = (t.decl id).subject)
    (typeParameters : ∀ p ∈ (f (t.decl id)).typeParameters, p ∈ (t.decl id).typeParameters)
    (deeper : ∀ w ∈ (f (t.decl id)).declares, w ∈ (t.decl id).declares ∨
      w.index < t.decls.size ∧ rank (t.decl id).scope < rank (t.decl w).scope)
    (lies : (f (t.decl id)).kind.LiesIn .present t.decls.size 0 0) :
    (t.modifyDecl id f).Orderly rank took ∧ Enlarges rank t rank (t.modifyDecl id f) := by
  refine ⟨⟨h.tidy.modifyDecl leaves name subject (fun p member => .inl (typeParameters p member)) deeper,
    fun other => ?_, h.inner⟩, ?_⟩
  · rw [size_modifyDecl, decl_modifyDecl]
    split
    · exact lies
    · exact h.lies other
  · exact ⟨leaves.size.ge, Nat.le_refl _, fun _ _ => rfl, rfl, fun other _ => leaves.scope other,
      fun other le lt => absurd lt (by rw [leaves.size]; exact Nat.not_lt.mpr le)⟩

end Orderly

end SymbolTable

/-! ## Readers that keep tables tidy -/

/-- A table, and how deep its scopes lie. -/
structure SymbolTable.Ranked where
  rank : ScopeId → Nat
  table : SymbolTable

namespace SymbolTable.Ranked

def enter (s : Ranked) (scope : ScopeId) : Ranked := ⟨s.rank, s.table.enter scope⟩

def leave (s : Ranked) : Ranked := ⟨s.rank, s.table.leave⟩

def openFor (s : Ranked) (owner : ScopeOwner) : Ranked := ⟨rankOpen s.rank s.table, s.table.openFor owner⟩

def declare (s : Ranked) (d : Decl) : Ranked := ⟨s.rank, s.table.declare d⟩

end SymbolTable.Ranked

/-- The table is orderly, and what is read enlarges it. -/
abbrev SymbolTable.tidying (took : DeclId → DeclId → Prop) : Invariant Ranked where
  table s := s.table
  Holds s := s.table.Orderly s.rank took
  Leads s s' := s'.table.Orderly s'.rank took ∧ Enlarges s.rank s.table s'.rank s'.table
  refl orderly := ⟨orderly, .refl _ _⟩
  holds leads := leads.1
  trans orderly first second := ⟨second.1, first.2.trans orderly first.1 second.2⟩

namespace Reader

variable {s : Ranked} {Q : α → Ranked → Prop} {Q' : β → Ranked → Prop}

/-- On a tidy table a reader keeps the table tidy, wherever it starts and however it ends, and what it
yields is of a kind. -/
abbrev Tidies (took : DeclId → DeclId → Prop) (x : Reader α) (s : Ranked) (Q : α → Ranked → Prop) : Prop :=
  Maintains (tidying took) x s Q

theorem tidies_takeBlock (s : Ranked) : Tidies took takeBlock s fun _ s' => s'.table.decls = s.table.decls := by
  refine maintains_takeBlock (u := ⟨s.rank, s.table.takeBlock⟩) rfl (fun orderly => ⟨?_, ?_⟩) rfl
  · exact ⟨orderly.tidy.of_names rfl rfl (fun _ => rfl) (Nat.le_refl _), orderly.lies, orderly.inner⟩
  · exact ⟨Nat.le_refl _, Nat.le_refl _, fun _ _ => rfl, rfl, fun _ _ => rfl, fun id le lt =>
      absurd lt (Nat.not_lt.mpr le)⟩

theorem tidies_newScope {owner : ScopeOwner} (opens : s.table.MayOpen owner) :
    Tidies took (newScope owner) s fun scope s' => scope = s.table.nextScope ∧ s' = s.openFor owner :=
  maintains_newScope (u := s.openFor owner) rfl (fun orderly => orderly.openFor opens) ⟨rfl, rfl⟩

/-- A scope is opened inside the innermost one, and something is read in it. -/
theorem tidies_inside {owner : ScopeOwner} {action : Reader α} {rest : α → Reader β}
    (opens : s.table.MayOpen owner)
    (acts : Tidies took action ((s.openFor owner).enter s.table.nextScope) Q)
    (rests : ∀ a s', (tidying took).Leads ((s.openFor owner).enter s.table.nextScope) s' → Q a s' →
      Tidies took (rest a) s'.leave Q') :
    Tidies took (newScope owner >>= fun scope => under scope action >>= rest) s Q' := by
  refine Maintains.of_holds fun orderly => (tidies_newScope opens).bind ?_
  rintro _ _ ⟨orderly₁, -⟩ ⟨rfl, rfl⟩
  have lt : s.table.nextScope.index < (s.table.openFor owner).scopes.size := by
    rw [size_scopes_openFor]
    exact Nat.lt_succ_self _
  have deep : rankOpen s.rank s.table (s.table.openFor owner).innermost ≤
      rankOpen s.rank s.table s.table.nextScope := by
    rw [rankOpen_nextScope, rankOpen_of_lt s.rank
      (show (s.table.openFor owner).innermost.index < _ from orderly.inner)]
    exact Nat.le_succ _
  have inside : Tidies took (under s.table.nextScope action) (s.openFor owner) fun a left =>
      ∃ s', left = s'.leave ∧ (tidying took).Leads ((s.openFor owner).enter s.table.nextScope) s' ∧ Q a s' :=
    maintains_under acts rfl (fun orderly => orderly.enter lt) fun s' _ leads =>
      ⟨s'.leave, rfl, ⟨leads.1.leave leads.2 orderly₁, leads.2.leave deep⟩,
        fun a kind => ⟨s', rfl, leads, kind⟩⟩
  refine inside.bind ?_
  rintro a _ - ⟨s', rfl, leads, kind⟩
  exact rests a s' leads kind

theorem tidies_declare {name : String} {kind : Declared} (aside : kind.IsSetAside) (span : Span) (s : Ranked) :
    Tidies took (declare name kind span) s fun id s' =>
      s.table.decls.size ≤ id.index ∧ id.index < s'.table.decls.size := by
  refine maintains_declare (u := s.declare ⟨name, kind, s.table.innermost, span⟩) rfl
    (fun orderly => orderly.declare aside rfl) ⟨Nat.le_refl _, ?_⟩
  exact Nat.lt_of_lt_of_eq (Nat.lt_succ_self _) (size_declare ..).symm

/-- A name is declared, and what it declares is read in a scope of its own. What is declared there lies
deeper. -/
theorem tidies_declare_inside {name : String} {kind : Declared} (aside : kind.IsSetAside) (span : Span)
    {action : DeclId → Reader α} {rest : DeclId → α → Reader β} {P : Nat → Nat → α → Prop}
    (acts : ∀ id s, id.index < s.table.decls.size →
      Tidies took (action id) s fun a s' => P s.table.decls.size s'.table.decls.size a)
    (rests : ∀ id a s' m, s.table.decls.size ≤ id.index → id.index < s'.table.decls.size →
      P m s'.table.decls.size a → (∀ w : DeclId, m ≤ w.index → w.index < s'.table.decls.size →
        s'.rank (s'.table.decl id).scope < s'.rank (s'.table.decl w).scope) →
      Tidies took (rest id a) s' Q') :
    Tidies took (declare name kind span >>= fun id =>
      newScope (.decl id) >>= fun scope => under scope (action id) >>= rest id) s Q' := by
  have declared : Tidies took (declare name kind span) s fun id s' =>
      id = s.table.nextDecl ∧ s' = s.declare ⟨name, kind, s.table.innermost, span⟩ :=
    maintains_declare rfl (fun orderly => orderly.declare aside rfl) ⟨rfl, rfl⟩
  refine Maintains.of_holds fun orderly => declared.bind ?_
  rintro _ s₁ ⟨orderly₁, grows₁⟩ ⟨rfl, made⟩
  have scope : (s₁.table.decl s.table.nextDecl).scope = s.table.innermost := by
    rw [made]
    exact congrArg Decl.scope (decl_declare_nextDecl ..)
  have lt : s.table.nextDecl.index < s₁.table.decls.size := by
    rw [made]
    exact Nat.lt_of_lt_of_eq (Nat.lt_succ_self _) (size_declare ..).symm
  have unowned : s₁.table.scopeOf? (.decl s.table.nextDecl) = none := by
    by_contra owns
    obtain ⟨scope, owns⟩ := Option.ne_none_iff_exists'.mp owns
    rw [made] at owns
    exact Nat.lt_irrefl _
      (orderly.tidy.opened (show s.table.scopeOf? (.decl s.table.nextDecl) = some scope from owns)).1
  have here : (s₁.table.decl s.table.nextDecl).scope = s₁.table.innermost := scope.trans grows₁.innermost.symm
  refine tidies_inside ⟨lt, here, unowned⟩ (acts s.table.nextDecl _ lt) fun a s₂ leads holds => ?_
  obtain ⟨-, grows⟩ := leads
  refine rests s.table.nextDecl a s₂.leave _ (Nat.le_refl _) (Nat.lt_of_lt_of_le lt grows.decls) holds
    fun w le lt' => ?_
  -- The scope that has been opened lies one deeper than the declaration.
  have deep := grows.inside w le lt'
  have own : (s₂.leave.table.decl s.table.nextDecl).scope = s₁.table.innermost := (grows.stays _ lt).trans here
  have same : s₂.rank s₁.table.innermost = s₁.rank s₁.table.innermost :=
    (grows.agrees _ (by
      rw [show ((s₁.openFor (.decl s.table.nextDecl)).enter s₁.table.nextScope).table.scopes.size =
        s₁.table.scopes.size + 1 from size_scopes_openFor s₁.table (.decl s.table.nextDecl)]
      exact Nat.lt_succ_of_lt orderly₁.inner)).trans (rankOpen_of_lt s₁.rank orderly₁.inner)
  rw [own]
  refine same.trans_lt ?_
  exact Nat.lt_of_lt_of_le (Nat.lt_succ_self _) ((rankOpen_nextScope s₁.rank s₁.table).symm.trans_le deep)

end Reader

/-! ## Statements -/

namespace Grammar

open Reader

variable {s : Ranked}

/-- A reader of statements that keeps tables tidy. -/
abbrev TidiesStatement (took : DeclId → DeclId → Prop) (x : Reader Stmt) : Prop :=
  ∀ n s, n ≤ s.table.decls.size → Tidies took x s fun stmt s' => stmt.ReadIn n s'.table.decls.size

theorem tidies_declaring {name : String} {kind : Declared} (aside : kind.IsSetAside) (span span' : Span)
    (le : n ≤ s.table.decls.size) :
    Tidies took (do
      let id ← Reader.declare name kind span
      return Stmt.declaration id span') s fun stmt s' => stmt.ReadIn n s'.table.decls.size :=
  (tidies_declare aside span s).bind fun _ _ _ made =>
    maintains_pure (Stmt.readIn_declaration (Nat.le_trans le made.1) made.2 span')

theorem tidies_variableStatement : TidiesStatement took variableStatement := by
  have finish {n : Nat} (start : Position) (name : String) {type : Ty} {init : Option Expr}
      (deferred : ∃ f, type = .deferred f) (unread : ∀ e, init = some e → ∃ f, e = .deferred f)
      (s : Ranked) (le : n ≤ s.table.decls.size) :
      Tidies took (do
        let span ← endStatement start
        let id ← Reader.declare name (.object .var type init) span
        return Stmt.declaration id span) s fun stmt s' => stmt.ReadIn n s'.table.decls.size :=
    (still_endStatement start).before fun _ _ =>
      tidies_declaring (.object (Ty.isDeferred_of_deferred deferred) unread fun wrong => by cases wrong) _ _ le
  intro n s le
  refine still_advance.before fun _ _ => (still_identifierFor _).before fun _ _ =>
    (still_expect _).before fun _ _ => (still_typeUpTo _).before fun type deferred =>
      (still_accept _).before fun accepted _ => ?_
  split
  · exact (still_someExpressionUpTo _).before fun init unread => finish _ _ deferred unread s le
  · exact still_noExpression.before fun init unread => finish _ _ deferred unread s le

theorem tidies_constantStatement (start : Position) (name : String) :
    TidiesStatement took (constantStatement start name) := by
  intro n s le
  refine (still_expect _).before fun _ _ => (still_typeUpTo _).before fun type deferred =>
    (still_expect _).before fun _ _ => (still_expressionUpTo _).before fun init unread =>
      (still_endStatement start).before fun _ _ =>
        tidies_declaring (.object (Ty.isDeferred_of_deferred deferred) ?_ fun _ => rfl) _ _ le
  exact fun e same => Option.some.inj same ▸ unread

theorem tidies_superStatement : TidiesStatement took superStatement := fun _ _ le =>
  still_advance.before fun _ _ => (still_identifierFor _).before fun _ _ =>
    (still_expect _).before fun _ _ => (still_typeUpTo _).before fun _ deferred =>
      (still_endStatement _).before fun _ _ =>
        tidies_declaring (.super (Ty.isDeferred_of_deferred deferred)) _ _ le

/-! ### Parameters -/

theorem tidies_parameter (s : Ranked) :
    Tidies took parameter s fun id s' => id.index < s'.table.decls.size :=
  (still_identifierFor _).before fun _ _ => (still_expect _).before fun _ _ =>
    (still_typeUpTo _).before fun _ deferred => still_endOfLast.before fun _ _ =>
      (tidies_declare (.parameter (Ty.isDeferred_of_deferred deferred)) _ s).mono fun _ _ _ made => made.2

theorem tidies_parameterList (s : Ranked) :
    Tidies took parameterList s fun ids s' => ∀ id ∈ ids, id.index < s'.table.decls.size := by
  refine (tidies_parameter s).bind fun first s₁ _ one => ?_
  have others : Tidies took (many (· ≠ closeParen) do
      let _ ← expect comma
      parameter) s₁ fun ids s' => ∀ id ∈ first :: ids, id.index < s'.table.decls.size :=
    maintains_many (Q := fun ids s' => ∀ id ∈ first :: ids, id.index < (Ranked.table s').decls.size)
      (fun ids s all => (still_expect _).before fun _ _ => (tidies_parameter s).mono fun p s' leads last =>
        show ∀ id ∈ (first :: ids) ++ [p], id.index < s'.table.decls.size from List.forall_mem_append.mpr
          ⟨fun p member => Nat.lt_of_lt_of_le (all p member) leads.2.decls, List.forall_mem_singleton.mpr last⟩)
      _ (List.forall_mem_singleton.mpr one)
  exact others.bind fun _ _ _ all => maintains_pure all

theorem tidies_parameters (s : Ranked) :
    Tidies took parameters s fun ids s' => ∀ id ∈ ids, id.index < s'.table.decls.size := by
  have finish (all : List DeclId) (s : Ranked) (h : ∀ id ∈ all, id.index < s.table.decls.size) :
      Tidies took (do
        let _ ← expect closeParen
        return all) s fun ids s' => ∀ id ∈ ids, id.index < s'.table.decls.size :=
    (still_expect _).before fun _ _ => maintains_pure h
  refine (still_expect _).before fun _ _ => still_kind.before fun kind _ => ?_
  split
  · exact finish [] s nofun
  · exact (tidies_parameterList s).bind fun all s₁ _ h => finish all s₁ h

/-! ### Statements with others inside -/

section Nested

variable {statement : Reader Stmt} (statements : TidiesStatement took statement)

include statements

theorem tidies_many (more : TokenKind → Bool) (n : Nat) (s : Ranked) (le : n ≤ s.table.decls.size) :
    Tidies took (many more statement) s fun body s' => ∀ stmt ∈ body, stmt.ReadIn n s'.table.decls.size := by
  have all : Tidies took (many more statement) s fun body s' =>
      n ≤ s'.table.decls.size ∧ ∀ stmt ∈ body, stmt.ReadIn n s'.table.decls.size := by
    refine maintains_many (fun body s so => (statements n s so.1).mono fun stmt s' leads read => ?_) more
      ⟨le, nofun⟩
    exact ⟨Nat.le_trans so.1 leads.2.decls, List.forall_mem_append.mpr
      ⟨fun stmt member => (so.2 stmt member).mono leads.2.decls, List.forall_mem_singleton.mpr read⟩⟩
  exact all.mono fun _ _ _ so => so.2

theorem tidies_blockBody (n : Nat) (s : Ranked) (le : n ≤ s.table.decls.size) :
    Tidies took (blockBody statement) s fun body s' => ∀ stmt ∈ body, stmt.ReadIn n s'.table.decls.size :=
  (still_expect _).before fun _ _ => (tidies_many statements _ n s le).bind fun _ _ _ all =>
    (still_expect _).before fun _ _ => maintains_pure all

theorem tidies_blockStatement : TidiesStatement took (blockStatement statement) := by
  intro n s le
  refine still_position.before fun start _ => (tidies_takeBlock s).bind fun b s₁ leads₁ _ => ?_
  have le₁ := Nat.le_trans le leads₁.2.decls
  refine tidies_inside trivial (tidies_blockBody statements n _ le₁) fun body s₂ _ all =>
    still_endOfLast.before fun _ _ => maintains_pure ?_
  exact ⟨Stmt.allLieIn_present all, Stmt.new_declaresIn all⟩

theorem tidies_functionBody (id : DeclId) (n : Nat) (s : Ranked) (le : n ≤ s.table.decls.size)
    (lt : id.index < s.table.decls.size) :
    Tidies took (functionBody statement id) s fun body s' => body.ReadIn n s'.table.decls.size := by
  refine still_get.before fun c _ => ?_
  split
  · exact (tidies_blockStatement statements n s le).map fun _ _ _ read => ⟨read.lies, read.new⟩
  split
  · exact still_advance.before fun _ _ =>
      (tidies_newScope (show s.table.MayOpen (.body id) from lt)).bind fun _ _ _ _ =>
        (still_expressionUpTo _).before fun e deferred => (still_expect _).before fun _ _ =>
          maintains_pure ⟨Expr.liesIn_present deferred, List.forall_mem_nil _⟩
  split
  · exact still_advance.before fun _ _ => maintains_pure ⟨trivial, List.forall_mem_nil _⟩
  · exact maintains_throw rfl

theorem tidies_functionParts (id : DeclId) (n : Nat) (s : Ranked) (le : n ≤ s.table.decls.size)
    (lt : id.index < s.table.decls.size) : Tidies took (functionParts statement id) s fun c s' =>
      c.LiesIn .present s'.table.decls.size 0 0 ∧ c.typeParameters = [] ∧ ∀ w ∈ c.body.declares, n ≤ w.index := by
  refine (tidies_parameters s).bind fun ids s₁ leads₁ all => still_resultType.before fun result deferred => ?_
  refine (tidies_functionBody statements id n s₁ (Nat.le_trans le leads₁.2.decls)
    (Nat.lt_of_lt_of_le lt leads₁.2.decls)).bind fun body s₂ leads₂ read => maintains_pure ⟨?_, rfl, read.new⟩
  refine ⟨fun p member => ⟨?_, Layout.inside_present _ _ _ _⟩, List.forall_mem_nil _, ?_, trivial, read.lies⟩
  · exact Nat.lt_of_lt_of_le (all p member) leads₂.2.decls
  · cases result with
    | some type => exact Ty.liesIn_present_of_isDeferred (Ty.isDeferred_of_deferred (deferred type rfl))
    | none => cases body <;> trivial

theorem tidies_functionStatement (sort : CallableSort) (start : Position) (name : String) :
    TidiesStatement took (functionStatement statement sort start name) := by
  intro n s le
  refine tidies_declare_inside (.announced sort) _
    (P := fun m m' c => c.LiesIn .present m' 0 0 ∧ c.typeParameters = [] ∧ ∀ w ∈ c.body.declares, m ≤ w.index)
    (fun id s lt => tidies_functionParts statements id _ s (Nat.le_refl _) lt)
    fun id c s' m le' lt read deeper => still_endOfLast.before fun stop _ => ?_
  obtain ⟨lies, none, new⟩ := read
  refine maintains_bind_change (u := ⟨s'.rank, _⟩) rfl (fun orderly => orderly.fill ?_ (Decl.name_mapCallable ..)
    (subject_mapCallable _ fun _ => c) (fun p member => ?_) (fun w member => ?_) ?_)
    fun _ => maintains_pure (Stmt.readIn_declaration (Nat.le_trans le le') (by simpa using lt) _)
  · exact .modifyDecl s'.table id (fun d => d.scope_mapCallable _) fun d => d.isExtension_mapCallable _
  all_goals
    rcases (s'.table.decl id).mapCallable_cases (fun _ => c) with ⟨sort', c', kind, kind'⟩ | same
  · simp [Decl.typeParameters, Decl.callable?, kind', none] at member
  · rwa [same] at member
  · refine .inr ?_
    replace member : w ∈ c.body.declares := by simpa [Decl.declares, kind'] using member
    have inRange := lies.body.declares w member
    exact ⟨inRange, deeper w (new w member) inRange⟩
  · rw [same] at member
    exact .inl member
  · exact kind' ▸ lies
  · simpa [same] using orderly.lies id

theorem tidies_definitionStatement : TidiesStatement took (definitionStatement statement) := by
  intro n s le
  refine still_advance.before fun _ _ => (still_identifierFor _).before fun _ _ =>
    still_get.before fun c _ => ?_
  split
  · exact tidies_constantStatement _ _ n s le
  split
  · exact tidies_functionStatement statements _ _ _ n s le
  · exact maintains_throw rfl

theorem tidies_coroutineStatement : TidiesStatement took (coroutineStatement statement) := fun n s le =>
  still_advance.before fun _ _ => (still_identifierFor _).before fun _ _ =>
    tidies_functionStatement statements _ _ _ n s le

theorem tidies_classStatement (sort : ClassSort) : TidiesStatement took (classStatement statement sort) := by
  intro n s le
  refine still_advance.before fun keyword _ => (still_identifierFor _).before fun _ _ =>
    (still_classKind sort).before fun kind known => ?_
  refine tidies_declare_inside (.classDecl sort (known.imp_left Ty.isDeferred_of_deferred)) _
    (P := fun m m' body => ∀ stmt ∈ body, stmt.ReadIn m m')
    (fun id s _ => tidies_blockBody statements _ s (Nat.le_refl _))
    fun id body s' m le' lt read deeper => still_endOfLast.before fun stop _ => ?_
  refine maintains_bind_change (u := ⟨s'.rank, _⟩) rfl (fun orderly => orderly.fill ?_ (Decl.name_mapMembers ..)
    (subject_mapMembers ..) (fun p member => ?_) (fun w member => ?_) ?_)
    fun _ => maintains_pure (Stmt.readIn_declaration (Nat.le_trans le le') (by simpa using lt) _)
  · exact .modifyDecl s'.table id (fun d => d.scope_mapMembers _) fun d => d.isExtension_mapMembers _
  · exact (Decl.typeParameters_mapMembers (s'.table.decl id) _) ▸ member
  all_goals
    rcases (s'.table.decl id).mapMembers_cases (fun _ => body) with ⟨sort', kind', body', old, new⟩ | same
  · refine .inr ?_
    replace member : w ∈ Stmt.declaresIn body := by simpa [Decl.declares, new] using member
    have inRange := (Stmt.allLieIn_present read).declares w member
    exact ⟨inRange, deeper w (Stmt.new_declaresIn read w member) inRange⟩
  · rw [same] at member
    exact .inl member
  · have lies := orderly.lies id
    rw [old] at lies
    simpa [new] using ⟨lies.1, Stmt.allLieIn_present read⟩
  · simpa [same] using orderly.lies id

/-! ### Other statements -/

omit statements in
theorem tidies_returnStatement : TidiesStatement took returnStatement := by
  have finish {n : Nat} (start : Position) (value : Option Expr)
      (unread : ∀ e, value = some e → ∃ f, e = .deferred f) (s : Ranked) :
      Tidies took (do return Stmt.returning value (← endStatement start)) s
        fun stmt s' => stmt.ReadIn n s'.table.decls.size :=
    (still_endStatement start).before fun _ _ => maintains_pure
      (Stmt.readIn_of_declares ⟨Layout.within_present .., fun e same =>
        Expr.liesIn_present (unread e same)⟩ rfl)
  intro n s le
  refine still_advance.before fun _ _ => still_kind.before fun kind _ => ?_
  split
  · exact finish _ none nofun s
  · exact (still_someExpressionUpTo _).before fun value unread => finish _ value unread s

omit statements in
theorem tidies_yieldStatement : TidiesStatement took yieldStatement := fun _ _ _ =>
  still_advance.before fun _ _ => (still_expressionUpTo _).before fun _ unread =>
    (still_endStatement _).before fun _ _ =>
      maintains_pure (Stmt.readIn_of_declares (Expr.liesIn_present unread) rfl)

omit statements in
theorem tidies_jumpStatement {form : Span → Stmt} (lies : ∀ span m, (form span).LiesIn .present m 0 0)
    (none : ∀ span, (form span).declares = []) : TidiesStatement took (jumpStatement form) := fun _ _ _ =>
  still_advance.before fun _ _ => (still_endStatement _).before fun span _ =>
    maintains_pure (Stmt.readIn_of_declares (lies span _) (none span))

omit statements in
theorem tidies_expressionStatement : TidiesStatement took expressionStatement := fun _ _ _ =>
  (still_expressionUpTo _).before fun _ unread => (still_expect _).before fun _ _ =>
    maintains_pure (Stmt.readIn_of_declares (Expr.liesIn_present unread) rfl)

theorem tidies_ifStatement : TidiesStatement took (ifStatement statement) := by
  have finish {n : Nat} (start : Position) {e : Expr} {onTrue : Stmt} (onFalse : Option Stmt)
      (unread : ∃ f, e = .deferred f) (s : Ranked) (read : onTrue.ReadIn n s.table.decls.size)
      (read' : ∀ stmt, onFalse = some stmt → stmt.ReadIn n s.table.decls.size) :
      Tidies took (do return Stmt.conditional e onTrue onFalse ⟨start, ← Reader.endOfLast⟩) s
        fun stmt s' => stmt.ReadIn n s'.table.decls.size := by
    refine still_endOfLast.before fun _ _ => maintains_pure ?_
    cases onFalse with
    | none =>
      exact ⟨⟨0, 0, Nat.le_refl 0, Nat.le_refl 0, Nat.le_refl 0, Expr.liesIn_present unread,
        read.lies, trivial⟩, by simpa [Stmt.declares, Stmt.declaresBehindElse] using read.new⟩
    | some other =>
      obtain ⟨lies, new⟩ := read' other rfl
      exact ⟨⟨0, 0, Nat.le_refl 0, Nat.le_refl 0, Nat.le_refl 0, Expr.liesIn_present unread,
        read.lies, lies⟩, List.forall_mem_append.mpr ⟨read.new, new⟩⟩
  intro n s le
  refine still_advance.before fun _ _ => still_condition.before fun e unread =>
    (statements n s le).bind fun onTrue s₁ leads₁ read => (still_accept _).before fun accepted _ => ?_
  split
  · have onFalse : Tidies took (some <$> statement) s₁ fun onFalse s' =>
        ∀ stmt, onFalse = some stmt → stmt.ReadIn n s'.table.decls.size :=
      (statements n s₁ (Nat.le_trans le leads₁.2.decls)).map fun _ _ _ read _ same =>
        Option.some.inj same ▸ read
    exact onFalse.bind fun onFalse s₂ leads₂ read' =>
      finish _ onFalse unread s₂ (read.mono leads₂.2.decls) read'
  · exact finish _ none unread s₁ read fun _ absent => by cases absent

theorem tidies_whileStatement : TidiesStatement took (whileStatement statement) := fun n s le =>
  still_advance.before fun _ _ => still_condition.before fun _ unread =>
    (statements n s le).bind fun _ _ _ read => still_endOfLast.before fun _ _ => maintains_pure
      ⟨⟨0, Nat.le_refl 0, Nat.le_refl 0, Expr.liesIn_present unread, read.lies⟩, read.new⟩

theorem tidies_statementOf (kind : TokenKind) : TidiesStatement took (statementOf statement kind) := by
  unfold statementOf
  split
  · exact tidies_variableStatement
  · exact tidies_definitionStatement statements
  · exact tidies_coroutineStatement statements
  · exact tidies_classStatement statements .primary
  · exact tidies_classStatement statements .extension
  · exact tidies_superStatement
  · exact tidies_blockStatement statements
  · exact tidies_returnStatement
  · exact tidies_yieldStatement
  · exact tidies_ifStatement statements
  · exact tidies_whileStatement statements
  · exact tidies_jumpStatement (fun _ _ => trivial) fun _ => rfl
  · exact tidies_jumpStatement (fun _ _ => trivial) fun _ => rfl
  · exact tidies_expressionStatement

end Nested

theorem tidies_statementWithin (depth : Nat) : TidiesStatement took (statementWithin depth) := by
  induction depth with
  | zero => exact fun _ _ _ => still_get.before fun _ _ => maintains_throw rfl
  | succ depth ih => exact fun n s le => still_kind.before fun kind _ => tidies_statementOf ih kind n s le

theorem tidies_statement : TidiesStatement took statement := fun n s le =>
  still_get.before fun _ _ => tidies_statementWithin _ n s le

end Grammar

/-- Reading a unit keeps the table tidy, and what the unit mentions has been declared. -/
theorem SourceUnit.tidies_read {tokens : List Token} (tidy : t.Tidy rank took ∅)
    (lies : ∀ id, (t.decl id).kind.LiesIn .present t.decls.size 0 0)
    (global : ScopeId.global.index < t.scopes.size) {r : Except Diagnostic SourceUnit}
    (h : Resolution.Runs (SourceUnit.read tokens) t r t') :
    ∃ rank', t'.Tidy rank' took ∅ ∧ (∀ id, (t'.decl id).kind.LiesIn .present t'.decls.size 0 0) ∧
      t.decls.size ≤ t'.decls.size ∧
      ∀ u, r = .ok u → Stmt.AllLieIn .present t'.decls.size 0 0 u.body := by
  have entered : (t.enter .global).Orderly rank took := ⟨tidy.enter _, lies, global⟩
  obtain ⟨s, rfl, ⟨orderly, grows⟩, read⟩ := SourceUnit.maintains_read (I := tidying took)
    (i := ⟨rank, t.enter .global⟩) entered (Grammar.tidies_many Grammar.tidies_statement _ 0 _ (Nat.zero_le _))
    rfl h
  refine ⟨s.rank, orderly.tidy.leave, orderly.lies, grows.decls, fun u same => ?_⟩
  subst same
  exact Stmt.allLieIn_present read

end Deferral
