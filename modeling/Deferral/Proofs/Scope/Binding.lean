import Deferral.Proofs.Constant.Defining
import Deferral.Proofs.Scope.Visible

/-!
# Runs that bind names

Evaluating an expression may read the initializers of constants, each in the scope of its constant,
wherever the expression stands. With `P` a set of scopes from which only constants in scopes of `P` are
seen, every run that starts from there leaves initializers that refer to what their names stand for.
-/

namespace Deferral

open Resolution SymbolTable

namespace Decl

variable (d : Decl) (slot : TypeSlot) (type : Ty)

theorem isExtension_withTypeIn : (d.withTypeIn slot type).isExtension = d.isExtension := by
  unfold withTypeIn
  split <;> simp_all [isExtension]
  rename_i sort _ _ _
  cases sort <;> rfl

theorem isConstant_withTypeIn : (d.withTypeIn slot type).isConstant = d.isConstant := by
  unfold withTypeIn
  split <;> simp_all [isConstant]
  rename_i sort _ _ _
  cases sort <;> rfl

theorem kind_withTypeIn_eq_typeParameter :
    (d.withTypeIn slot type).kind = .typeParameter ↔ d.kind = .typeParameter := by
  unfold withTypeIn
  split <;> simp_all

end Decl

namespace SymbolTable

variable {P : ScopeId → Prop} {t t' t'' : SymbolTable} {s : ScopeId} {id : DeclId}

/-- The constants seen from a scope lie in scopes of `P`. -/
def Sees (P : ScopeId → Prop) (t : SymbolTable) (s : ScopeId) : Prop :=
  ∀ name d, t.Denotes s name d → (t.decl d).isConstant = true → P (t.decl d).scope

/-- Initializers are lexical in the scopes of their objects, and those that refer to anything are of
objects in scopes of `P`. -/
def LexicalIn (P : ScopeId → Prop) (t : SymbolTable) : Prop :=
  ∀ id e, (t.decl id).initializer? = some e → e.references ≠ [] →
    P (t.decl id).scope ∧ t.Lexical (t.decl id).scope e

/-- Initializers are lexical in scopes of `P`, from which only constants in scopes of `P` are seen. -/
structure Legible (P : ScopeId → Prop) (t : SymbolTable) : Prop where
  closed : ∀ s, P s → t.Sees P s
  initializers : t.LexicalIn P

/-- What binding names changes: declarations, but neither where they lie nor of which sort they are nor
what is inside them, and initializers stay legible. -/
structure Names (P : ScopeId → Prop) (t t' : SymbolTable) : Prop where
  scopes : t'.scopes = t.scopes
  saved : t'.saved = t.saved
  active : t'.active = t.active
  keeps : t.Keeps t'
  extensions : ∀ id, (t'.decl id).isExtension = (t.decl id).isExtension
  constants : ∀ id, (t'.decl id).isConstant = (t.decl id).isConstant
  declared : ∀ id, (t.decl id).kind ≠ .typeParameter → (t'.decl id).scope = (t.decl id).scope ∧
    (t'.decl id).kind ≠ .typeParameter
  legible : t.Legible P → t'.Legible P

theorem kind_of_isConstant {d : Decl} (h : d.isConstant = true) : d.kind ≠ .typeParameter := by
  intro kind
  simp [Decl.isConstant, kind] at h

theorem Lexical.of_nil {e : Expr} (h : e.references = []) (t : SymbolTable) (s : ScopeId) :
    t.Lexical s e := by
  unfold Lexical
  rw [h]
  exact fun _ none => by cases none

/-- What is initialized is lexical, whether it refers to anything or not. -/
theorem Legible.lexical (h : t.Legible P) {e : Expr} (init : (t.decl id).initializer? = some e) :
    t.Lexical (t.decl id).scope e := by
  by_cases none : e.references = []
  · exact .of_nil none t _
  · exact (h.initializers id e init none).2

/-- The constants that a lexical expression refers to lie in scopes of `P`. -/
theorem Sees.references (h : t.Sees P s) {e : Expr} (lexical : t.Lexical s e) :
    ∀ ref ∈ e.references, (t.decl ref.1).isConstant = true → P (t.decl ref.1).scope :=
  fun ref member => h ref.2 ref.1 (lexical ref member)

theorem Sees.of_same (h : t.Sees P s) (decls : t'.decls = t.decls) (scopes : t'.scopes = t.scopes) :
    t'.Sees P s := by
  have same : ∀ id, t'.decl id = t.decl id := fun id => by simp [decl, decls]
  intro name d denotes constant
  rw [same] at constant ⊢
  exact h name d (denotes.of_scopes scopes.symm fun id => by rw [same]) constant

theorem Legible.of_same (h : t.Legible P) (decls : t'.decls = t.decls)
    (scopes : t'.scopes = t.scopes) : t'.Legible P := by
  have same : ∀ id, t'.decl id = t.decl id := fun id => by simp [decl, decls]
  refine ⟨fun s inside => (h.closed s inside).of_same decls scopes, fun id e init refers => ?_⟩
  rw [same] at init ⊢
  obtain ⟨inside, lexical⟩ := h.initializers id e init refers
  exact ⟨inside, lexical.of_scopes scopes fun id => by rw [same]⟩

namespace Names

theorem refl (P : ScopeId → Prop) (t : SymbolTable) : Names P t t :=
  ⟨rfl, rfl, rfl, .refl t, fun _ => rfl, fun _ => rfl, fun _ known => ⟨rfl, known⟩, id⟩

theorem trans (h : Names P t t') (h' : Names P t' t'') : Names P t t'' where
  scopes := h'.scopes.trans h.scopes
  saved := h'.saved.trans h.saved
  active := h'.active.trans h.active
  keeps := h.keeps.trans h'.keeps
  extensions id := (h'.extensions id).trans (h.extensions id)
  constants id := (h'.constants id).trans (h.constants id)
  declared id known := by
    obtain ⟨scope, known'⟩ := h.declared id known
    obtain ⟨scope', known''⟩ := h'.declared id known'
    exact ⟨scope'.trans scope, known''⟩
  legible := h'.legible ∘ h.legible

theorem innermost (h : Names P t t') : t'.innermost = t.innermost := by
  simp only [SymbolTable.innermost, h.active]

theorem denotes (h : Names P t t') {name : String} {d : DeclId} (denotes : t.Denotes s name d) :
    t'.Denotes s name d :=
  denotes.of_scopes h.scopes h.extensions

theorem lexical (h : Names P t t') {e : Expr} (lexical : t.Lexical s e) : t'.Lexical s e :=
  lexical.of_scopes h.scopes h.extensions

theorem scope_of_isConstant (h : Names P t t') (constant : (t.decl id).isConstant = true) :
    (t'.decl id).scope = (t.decl id).scope :=
  (h.declared id (kind_of_isConstant constant)).1

theorem sees (h : Names P t t') (sees : t.Sees P s) : t'.Sees P s := by
  intro name d denotes constant
  rw [h.constants] at constant
  rw [h.scope_of_isConstant constant]
  exact sees name d (denotes.of_scopes h.scopes.symm fun id => (h.extensions id).symm) constant

theorem references (h : Names P t t') {e : Expr}
    (known : ∀ ref ∈ e.references, (t.decl ref.1).isConstant = true → P (t.decl ref.1).scope) :
    ∀ ref ∈ e.references, (t'.decl ref.1).isConstant = true → P (t'.decl ref.1).scope := by
  intro ref member constant
  rw [h.constants] at constant
  rw [h.scope_of_isConstant constant]
  exact known ref member constant

theorem leave {scope : ScopeId} (h : Names P (t.enter scope) t') : Names P t t'.leave :=
  ⟨h.scopes, h.saved, congrArg List.tail h.active, ⟨h.keeps.body, h.keeps.members⟩, h.extensions,
    h.constants, h.declared, fun legible => (h.legible (legible.of_same rfl rfl)).of_same rfl rfl⟩

/-- One declaration changes, and is initialized lexically if it is initialized anew. -/
theorem modifyDecl {f : Decl → Decl} (extension : (f (t.decl id)).isExtension = (t.decl id).isExtension)
    (constant : (f (t.decl id)).isConstant = (t.decl id).isConstant)
    (scope : (f (t.decl id)).scope = (t.decl id).scope) (keeps : t.Keeps (t.modifyDecl id f))
    (sort : (t.decl id).kind ≠ .typeParameter → (f (t.decl id)).kind ≠ .typeParameter)
    (initializer : ∀ e, (f (t.decl id)).initializer? = some e →
      (t.decl id).initializer? = some e ∨ P (t.decl id).scope ∧ t.Lexical (t.decl id).scope e) :
    Names P t (t.modifyDecl id f) := by
  -- The changed declaration agrees with the old one on all but its kind.
  have same {α : Type} (pick : Decl → α) (known : pick (f (t.decl id)) = pick (t.decl id))
      (other : DeclId) : pick ((t.modifyDecl id f).decl other) = pick (t.decl other) := by
    rw [decl_modifyDecl]
    split
    · rename_i eq
      rw [eq.1, known]
    · rfl
  have extensions := same Decl.isExtension extension
  have scopes := same Decl.scope scope
  have constants := same Decl.isConstant constant
  refine ⟨rfl, rfl, rfl, keeps, extensions, constants, fun other known => ⟨scopes other, ?_⟩,
    fun legible =>
      ⟨fun s inside name d denotes isConstant => ?_, fun other e init refers => ?_⟩⟩
  · rw [decl_modifyDecl]
    split
    · rename_i eq
      exact sort (eq.1 ▸ known)
    · exact known
  · rw [constants] at isConstant
    rw [scopes]
    exact legible.closed s inside name d
      (denotes.of_scopes rfl fun id => (extensions id).symm) isConstant
  · have lexical : P (t.decl other).scope ∧ t.Lexical (t.decl other).scope e := by
      rw [decl_modifyDecl] at init
      split at init
      · rename_i eq
        rw [eq.1]
        exact (initializer e init).elim (fun old => legible.initializers id e old refers) fun h => h
      · exact legible.initializers other e init refers
    rw [scopes]
    exact ⟨lexical.1, lexical.2.of_scopes rfl extensions⟩

/-- Changing what no name hangs on. -/
theorem of_decls (decls : t'.decls = t.decls) (scopes : t'.scopes = t.scopes)
    (saved : t'.saved = t.saved) (active : t'.active = t.active) : Names P t t' := by
  have same : ∀ id, t'.decl id = t.decl id := fun id => by simp [decl, decls]
  exact ⟨scopes, saved, active, .of_decls decls, fun id => by rw [same], fun id => by rw [same],
    fun id known => by rw [same]; exact ⟨rfl, known⟩, fun legible => legible.of_same decls scopes⟩

theorem withTypeIn (id : DeclId) (slot : TypeSlot) (type : Ty) :
    Names P t (t.modifyDecl id (·.withTypeIn slot type)) := by
  refine .modifyDecl (Decl.isExtension_withTypeIn ..) (Decl.isConstant_withTypeIn ..)
    (Decl.scope_withTypeIn ..)
    (.modifyDecl (Decl.body_withTypeIn ..) (Decl.members?_withTypeIn ..)) (fun known => ?_)
    fun e init => .inl ?_
  · exact fun absent => known ((Decl.kind_withTypeIn_eq_typeParameter ..).mp absent)
  · rwa [Decl.initializer?_withTypeIn] at init

theorem withInitializer {e : Expr} (inside : P (t.decl id).scope)
    (lexical : t.Lexical (t.decl id).scope e) :
    Names P t (t.modifyDecl id (·.withInitializer e)) := by
  by_cases initialized : ∃ sort type init, (t.decl id).kind = .object sort type (some init)
  · obtain ⟨sort, type, init, kind⟩ := initialized
    have put : (t.decl id).withInitializer e =
        { t.decl id with kind := .object sort type (some e) } := by
      simp only [Decl.withInitializer, kind]
    refine .modifyDecl ?_ ?_ ?_ (.modifyDecl ?_ ?_) ?_ fun e' init => ?_
    · rw [put]
      simp [Decl.isExtension, kind]
    · rw [put]
      cases sort <;> simp [Decl.isConstant, kind]
    · rw [put]
    · rw [put]
      simp [Decl.body, Decl.callable?, kind]
    · rw [put]
      simp [Decl.members?, kind]
    · rw [put]
      simp
    · rw [put] at init
      obtain rfl : e = e' := by simpa [Decl.initializer?] using init
      exact .inr ⟨inside, lexical⟩
  · have same : (t.decl id).withInitializer e = t.decl id := by
      unfold Decl.withInitializer
      split
      · rename_i sort type init kind
        exact absurd ⟨sort, type, init, kind⟩ initialized
      · rfl
    exact .modifyDecl (congrArg Decl.isExtension same) (congrArg Decl.isConstant same)
      (congrArg Decl.scope same)
      (.modifyDecl (congrArg Decl.body same) (congrArg Decl.members? same))
      (fun known => (congrArg Decl.kind same).symm ▸ known)
      fun e' init => .inl ((congrArg Decl.initializer? same).symm.trans init)

end Names

end SymbolTable

/-! ## Evaluation -/

/-- What evaluation asks of the way constants are bound: it names nothing but in scopes of `P`. -/
def NamesIn (P : ScopeId → Prop) (bind : DeclId → Resolution Unit) : Prop :=
  ∀ {id : DeclId} {t t' : SymbolTable} {r : Except Diagnostic Unit}, t.Legible P →
    P (t.decl id).scope → Runs (bind id) t r t' → t.Names P t'

variable {P : ScopeId → Prop} {bind : DeclId → Resolution Unit} {t t' : SymbolTable} {id : DeclId}

namespace Expr

theorem names_evaluateName (binds : NamesIn P bind) (legible : t.Legible P) {d : DeclId}
    {name : String} {span : Span} (inside : (t.decl d).isConstant = true → P (t.decl d).scope)
    {r : Except Diagnostic Constant} (h : Runs (evaluateName bind d name span) t r t') :
    t.Names P t' := by
  -- Looking up the value changes nothing more.
  have look : ∀ {s s' : SymbolTable} {r : Except Diagnostic Constant}
      {valueOf : Option Constant → Resolution Constant},
      Runs (Resolution.look (·.constant? d) >>= valueOf) s r s' →
      (∀ c, valueOf (some c) = pure c) →
      valueOf none = notEvaluable (.notConstant name) span → s' = s := by
    intro s s' r valueOf run known unknown
    rw [runs_bind_look] at run
    cases stored : s.constant? d with
    | some c =>
      rw [stored, known] at run
      exact (runs_pure.mp run).2
    | none =>
      rw [stored, unknown] at run
      exact (runs_fail.mp run).2
  unfold evaluateName at h
  rw [runs_bind_look] at h
  split at h
  · rename_i constant
    rcases runs_bind.mp h with ⟨fault, bound, rfl⟩ | ⟨_, t₁, bound, h⟩
    · exact binds legible (inside constant) bound
    · obtain rfl := look h (fun _ => rfl) rfl
      exact binds legible (inside constant) bound
  · rcases runs_bind.mp h with ⟨_, done, -⟩ | ⟨_, _, done, h⟩
    · cases (runs_pure.mp done).1
    obtain ⟨-, rfl⟩ := runs_pure.mp done
    obtain rfl := look h (fun _ => rfl) rfl
    exact .refl P _

/-- Evaluating an expression binds the constants it refers to, and those these refer to. -/
theorem names_evaluateWith (binds : NamesIn P bind) : ∀ (e : Expr) {t t' : SymbolTable}
    {r : Except Diagnostic Constant}, t.Legible P →
    (∀ ref ∈ e.references, (t.decl ref.1).isConstant = true → P (t.decl ref.1).scope) →
    Runs (e.evaluateWith bind) t r t' → t.Names P t'
  | ⟨.deferred _, _, _⟩, _, _, _, _, _, h | ⟨.call _ _, _, _⟩, _, _, _, _, _, h
  | ⟨.assign _ _, _, _⟩, _, _, _, _, _, h => by
    obtain ⟨-, rfl⟩ := runs_fail.mp h
    exact .refl P _
  | ⟨.boolean _, _, _⟩, _, _, _, _, _, h | ⟨.integer _, _, _⟩, _, _, _, _, _, h
  | ⟨.float _, _, _⟩, _, _, _, _, _, h => by
    obtain ⟨-, rfl⟩ := runs_pure.mp h
    exact .refl P _
  | ⟨.name d name, _, _⟩, _, _, _, legible, inside, h =>
    names_evaluateName binds legible (inside (d, name) (List.mem_singleton_self _)) h
  | ⟨.unary _ e, _, _⟩, _, _, _, legible, inside, h
  | ⟨.converted _ e, _, _⟩, _, _, _, legible, inside, h => by
    rcases runs_bind.mp h with ⟨fault, operand, rfl⟩ | ⟨c, t₁, operand, h⟩
    · exact names_evaluateWith binds e legible inside operand
    · obtain ⟨rfl, -⟩ := runs_computed h
      exact names_evaluateWith binds e legible inside operand
  | ⟨.binary (.arithmetic _) left right, _, _⟩, t, _, _, legible, inside, h
  | ⟨.binary (.comparison _) left right, _, _⟩, t, _, _, legible, inside, h => by
    have insideLeft : ∀ ref ∈ left.references, _ := fun ref m => inside ref (List.mem_append_left _ m)
    have insideRight : ∀ ref ∈ right.references, (t.decl ref.1).isConstant = true →
        P (t.decl ref.1).scope := fun ref m => inside ref (List.mem_append_right _ m)
    rcases runs_bind.mp h with ⟨fault, first, rfl⟩ | ⟨l, t₁, first, h⟩
    · exact names_evaluateWith binds left legible insideLeft first
    have names := names_evaluateWith binds left legible insideLeft first
    rcases runs_bind.mp h with ⟨fault, second, rfl⟩ | ⟨r, t₂, second, h⟩
    · exact names.trans (names_evaluateWith binds right (names.legible legible)
        (names.references insideRight) second)
    obtain ⟨rfl, -⟩ := runs_computed h
    exact names.trans (names_evaluateWith binds right (names.legible legible)
      (names.references insideRight) second)
  | ⟨.binary (.connective op) left right, _, _⟩, t, _, _, legible, inside, h => by
    have insideLeft : ∀ ref ∈ left.references, _ := fun ref m => inside ref (List.mem_append_left _ m)
    have insideRight : ∀ ref ∈ right.references, (t.decl ref.1).isConstant = true →
        P (t.decl ref.1).scope := fun ref m => inside ref (List.mem_append_right _ m)
    rcases runs_bind.mp h with ⟨fault, first, rfl⟩ | ⟨c, t₁, first, h⟩
    · exact names_evaluateWith binds left legible insideLeft first
    have names := names_evaluateWith binds left legible insideLeft first
    rcases runs_bind.mp h with ⟨fault, truth, rfl⟩ | ⟨l, t₂, truth, rest⟩
    · obtain ⟨rfl, -⟩ := runs_truth truth
      exact names
    obtain ⟨rfl, -⟩ := runs_truth truth
    split at rest
    · obtain ⟨-, rfl⟩ := runs_pure.mp rest
      exact names
    have names' : ∀ {t₃ : SymbolTable} {r : Except Diagnostic Constant},
        Runs (right.evaluateWith bind) t₂ r t₃ → t.Names P t₃ := fun second =>
      names.trans (names_evaluateWith binds right (names.legible legible)
        (names.references insideRight) second)
    rcases runs_bind.mp rest with ⟨fault, second, rfl⟩ | ⟨c', t₃, second, rest⟩
    · exact names' second
    rcases runs_bind.mp rest with ⟨fault, truth, rfl⟩ | ⟨r, t₄, truth, last⟩
    · obtain ⟨rfl, -⟩ := runs_truth truth
      exact names' second
    obtain ⟨rfl, -⟩ := runs_truth truth
    obtain ⟨-, rfl⟩ := runs_pure.mp last
    exact names' second

end Expr

/-! ## Types -/

namespace TypePhrase

/-- Resolving a type evaluates its extents, seen from the innermost scope. -/
theorem names_resolved (binds : NamesIn P bind) : ∀ (phrase : TypePhrase) {t t' : SymbolTable}
    {r : Except Diagnostic Ty}, t.Legible P → t.Sees P t.innermost →
    Runs (phrase.resolved bind) t r t' → t.Names P t'
  | .name _, _, _, _, _, _, h => by
    obtain ⟨-, rfl⟩ := runs_ofExcept.mp (runs_bind_get.mp h)
    exact .refl P _
  | .auto, _, _, _, _, _, h | .decltypeAuto, _, _, _, _, _, h => by
    obtain ⟨-, rfl⟩ := runs_pure.mp h
    exact .refl P _
  | .decltype _, _, _, _, _, _, h => by
    obtain ⟨_, run, -⟩ := runs_map.mp h
    obtain ⟨-, rfl⟩ := runs_typedIn.mp run
    exact .refl P _
  | .qualified inner _, _, _, _, legible, sees, h | .pointer inner, _, _, _, legible, sees, h
  | .reference inner, _, _, _, legible, sees, h | .sequence inner, _, _, _, legible, sees, h => by
    obtain ⟨_, run, -⟩ := runs_map.mp h
    exact names_resolved binds inner legible sees run
  | .array element extent, _, _, _, legible, sees, h => by
    rcases runs_bind.mp h with ⟨fault, first, rfl⟩ | ⟨type, t₁, first, rest⟩
    · exact names_resolved binds element legible sees first
    have names := names_resolved binds element legible sees first
    rcases runs_bind.mp rest with ⟨fault, second, rfl⟩ | ⟨e, t₂, second, evaluate⟩
    · obtain ⟨-, rfl⟩ := runs_typedIn.mp second
      exact names
    obtain ⟨typed, rfl⟩ := runs_typedIn.mp second
    have sees' : t₂.Sees P t₂.innermost := names.innermost ▸ names.sees sees
    have inside := sees'.references (Phrase.lexical_typed extent typed.symm)
    rcases runs_bind.mp evaluate with ⟨fault, third, rfl⟩ | ⟨v, t₃, third, last⟩
    · exact names.trans (Expr.names_evaluateWith binds e (names.legible legible) inside third)
    · obtain ⟨rfl, -⟩ := runs_arrayOf last
      exact names.trans (Expr.names_evaluateWith binds e (names.legible legible) inside third)

theorem names_checks (binds : NamesIn P bind) : ∀ (parts : List TypePart) {t t' : SymbolTable}
    {r : Except Diagnostic PUnit}, t.Legible P → t.Sees P t.innermost →
    Runs (parts.forM (check bind)) t r t' → t.Names P t'
  | [], _, _, _, _, _, h => by
    obtain ⟨-, rfl⟩ := runs_pure.mp h
    exact .refl P _
  | part :: rest, t, _, _, legible, sees, h => by
    have checked : ∀ {t₁ : SymbolTable} {r : Except Diagnostic Unit},
        Runs (check bind part) t r t₁ → t.Names P t₁ := by
      intro t₁ r run
      cases part with
      | type phrase =>
        obtain ⟨_, run, -⟩ := runs_map.mp run
        exact names_resolved binds phrase legible sees run
      | expression e =>
        obtain ⟨_, run, -⟩ := runs_map.mp run
        obtain ⟨-, rfl⟩ := runs_typedIn.mp run
        exact .refl P _
    rcases runs_bind.mp h with ⟨fault, first, -⟩ | ⟨_, t₁, first, h⟩
    · exact checked first
    have names := checked first
    exact names.trans (names_checks binds rest (names.legible legible)
      (names.innermost ▸ names.sees sees) h)

theorem names_typeOf (binds : NamesIn P bind) (legible : t.Legible P) (sees : t.Sees P t.innermost)
    {tokens : List Token} {r : Except Diagnostic Ty} (h : Runs (typeOf bind tokens) t r t') :
    t.Names P t' := by
  unfold typeOf at h
  split at h
  · exact names_resolved binds _ legible sees h
  · rcases runs_bind.mp h with ⟨fault, checked, -⟩ | ⟨_, t₁, checked, h⟩
    · exact names_checks binds _ legible sees checked
    · obtain ⟨-, rfl⟩ := runs_throw.mp h
      exact names_checks binds _ legible sees checked

end TypePhrase

/-! ## Objects -/

namespace Resolution

theorem names_forceSlotWith (binds : NamesIn P bind) (legible : t.Legible P)
    (sees : t.Sees P t.innermost) {slot : TypeSlot} {r : Except Diagnostic Unit}
    (h : Runs (forceSlotWith bind id slot) t r t') : t.Names P t' := by
  unfold forceSlotWith at h
  rw [runs_bind_look] at h
  split at h
  · obtain ⟨-, rfl⟩ := runs_fail.mp h
    exact .refl P _
  rename_i type held
  have forced : ∀ {t₁ : SymbolTable} {r : Except Diagnostic Ty},
      Runs (forceTypeWith bind type) t r t₁ → t.Names P t₁ := by
    intro t₁ r run
    unfold forceTypeWith at run
    split at run
    · obtain ⟨_, run, -⟩ := runs_rethrow.mp run
      exact TypePhrase.names_typeOf binds legible sees run
    · obtain ⟨-, rfl⟩ := runs_pure.mp run
      exact .refl P _
  split at h
  · rcases runs_bind.mp h with ⟨fault, run, -⟩ | ⟨type', t₁, run, put⟩
    · exact forced run
    · obtain ⟨-, rfl⟩ := runs_modify.mp put
      exact (forced run).trans (.withTypeIn id slot type')
  · obtain ⟨-, rfl⟩ := runs_pure.mp h
    exact .refl P _

/-- The type and the initializer of an object are read in the object's own scope. -/
theorem names_forceObjectWith (binds : NamesIn P bind) (legible : t.Legible P) {scope : ScopeId}
    (inside : P scope) {init : Expr} (lexical : t.Lexical scope init) {r : Except Diagnostic Expr}
    (h : Runs (forceObjectWith bind id scope init) t r t') :
    t.Names P t' ∧ ∀ e, r = .ok e → t'.Lexical scope e := by
  obtain ⟨t₂, run, rfl⟩ := runs_under.mp h
  have legible' : (t.enter scope).Legible P := legible.of_same rfl rfl
  have sees : (t.enter scope).Sees P (t.enter scope).innermost :=
    (legible.closed scope inside).of_same rfl rfl
  rcases runs_bind.mp run with ⟨fault, forced, rfl⟩ | ⟨_, t₁, forced, rest⟩
  · exact ⟨(names_forceSlotWith binds legible' sees forced).leave, fun _ same => by cases same⟩
  have names := names_forceSlotWith binds legible' sees forced
  obtain ⟨rfl, rfl⟩ := runs_forceExpression.mp rest
  refine ⟨names.leave, fun e read => ?_⟩
  rcases lexical_forceExpression read with rfl | typed
  · exact names.leave.lexical lexical
  · rw [names.innermost] at typed
    exact typed.of_scopes rfl fun _ => rfl

theorem references_deduce? {placeholder : Ty} {e e' : Expr} (h : deduce? placeholder e = some e') :
    e'.references = e.references := by
  obtain ⟨-, rfl | rfl⟩ := deduce?_cases h
  · simp
  · rfl

theorem names_settleType {declared : Ty} {e : Expr} {r : Except Diagnostic Expr}
    (h : Runs (settleType id declared e) t r t') :
    t.Names P t' ∧ ∀ e', r = .ok e' → e'.references = e.references := by
  unfold settleType at h
  split at h
  · rename_i e' deduced
    rw [runs_bind_modify] at h
    obtain ⟨rfl, rfl⟩ := runs_pure.mp h
    refine ⟨.withTypeIn id .declared e'.type, fun e'' same => ?_⟩
    obtain rfl := Except.ok.inj same
    exact references_deduce? deduced
  · obtain ⟨rfl, rfl⟩ := runs_ofExcept.mp h
    exact ⟨.refl P _, fun _ converted => Expr.references_definingInitializer converted⟩

/-- Defining an object binds the names in its initializer. -/
theorem names_settleObjectWith (binds : NamesIn P bind) (legible : t.Legible P)
    (inside : P (t.decl id).scope) {r : Except Diagnostic Unit}
    (h : Runs (settleObjectWith bind id) t r t') : t.Names P t' := by
  unfold settleObjectWith at h
  rw [runs_bind_look] at h
  split at h
  · obtain ⟨-, rfl⟩ := runs_pure.mp h
    exact .refl P _
  rename_i init initializer
  obtain ⟨sort, type, kind⟩ := Decl.kind_of_initializer? initializer
  have present : (t.decl id).kind ≠ .typeParameter := by simp [kind]
  rcases runs_bind.mp h with ⟨fault, forced, rfl⟩ | ⟨e, t₁, forced, rest⟩
  · exact (names_forceObjectWith binds legible inside (legible.lexical initializer) forced).1
  obtain ⟨names₁, lexical⟩ :=
    names_forceObjectWith binds legible inside (legible.lexical initializer) forced
  have lexical₁ := lexical e rfl
  rw [runs_bind_look] at rest
  split at rest
  · rw [runs_bind_look] at rest
    obtain ⟨rfl, -⟩ := runs_unexpectedDecl rest
    exact names₁
  rename_i declared _
  rcases runs_bind.mp rest with ⟨fault, typed, rfl⟩ | ⟨e', t₂, typed, rest⟩
  · exact names₁.trans (names_settleType typed).1
  obtain ⟨names₂, kept⟩ := names_settleType (P := P) typed
  have names := names₁.trans names₂
  have lexical₂ : t₂.Lexical (t.decl id).scope e' := by
    unfold Lexical
    rw [kept e' rfl]
    exact names₂.lexical lexical₁
  -- The initializer is put in place, whatever has been settled meanwhile.
  have last : ∀ {t₃ : SymbolTable}, t.Names P t₃ → t₂.Names P t₃ →
      t.Names P (t₃.modifyDecl id (·.withInitializer e')) := by
    intro t₃ names₃ since
    have scope := (names₃.declared id present).1
    exact names₃.trans (.withInitializer (scope ▸ inside) (scope ▸ since.lexical lexical₂))
  split at rest
  · rcases runs_bind.mp rest with ⟨fault, evaluated, rfl⟩ | ⟨v, t₃, evaluated, rest⟩
    · exact names.trans (Expr.names_evaluateWith binds e' (names.legible legible)
        ((names.sees (legible.closed _ inside)).references lexical₂) evaluated)
    have names₃ := Expr.names_evaluateWith binds e' (names.legible legible)
      ((names.sees (legible.closed _ inside)).references lexical₂) evaluated
    rw [runs_bind_modify] at rest
    obtain ⟨-, rfl⟩ := runs_modify.mp rest
    have stored : t₃.Names P (t₃.setConstant id v) := .of_decls rfl rfl rfl rfl
    exact last ((names.trans names₃).trans stored) (names₃.trans stored)
  · obtain ⟨-, rfl⟩ := runs_modify.mp rest
    exact last names (.refl P _)

theorem namesIn_ensureConstantWithin (level : Nat) : NamesIn P (ensureConstantWithin level) := by
  induction level with
  | zero =>
    intro id t t' r legible inside h
    cases runs_ensureConstantWithin h with
    | known _ _ same => exact same ▸ .refl P t
    | refused _ _ _ same => exact same ▸ .refl P t
    | entered _ _ level _ _ => cases level
  | succ level ih =>
    intro id t t' r legible inside h
    cases runs_ensureConstantWithin h with
    | known _ _ same => exact same ▸ .refl P t
    | refused _ _ _ same => exact same ▸ .refl P t
    | @entered level' t₁ unknown free level run same =>
      obtain rfl := Nat.succ.inj level
      have begun : t.Names P { t with binding := id :: t.binding } := .of_decls rfl rfl rfl rfl
      have settled := names_settleObjectWith ih (begun.legible legible) inside run
      exact same ▸ (begun.trans settled).trans (.of_decls rfl rfl rfl rfl)

theorem namesIn_ensureConstant : NamesIn P ensureConstant :=
  fun legible inside h => namesIn_ensureConstantWithin _ legible inside (runs_bind_look.mp h)

end Resolution

end Deferral
