import Deferral.Proofs.Table.SameScopes

/-!
# Tidy tables

In a tidy table every overload set holds declarations of its name, at least one and none of them twice,
and whatever has a name is found by it where it was declared. A class copies the names of its extensions,
so that a set stays free of repetitions only as long as no class takes in an extension twice. Which
classes have taken in which extensions is kept track of for that: an extension that has been taken in is
no longer bound where its class is, unless the class is still being worked on.
-/

namespace Deferral

namespace Decl

variable {d : Decl}

theorem isExtension_iff : d.isExtension = true ↔ d.subject = .extension := by
  obtain ⟨_, ⟨_ | _, _, _⟩ | _ | _ | ⟨_ | _, _⟩ | ⟨_ | _, _, _⟩ | _, _, _⟩ := d <;>
    simp [isExtension, subject]

theorem isPrimaryClass_iff : d.isPrimaryClass = true ↔ d.subject = .classDecl := by
  obtain ⟨_, ⟨_ | _, _, _⟩ | _ | _ | ⟨_ | _, _⟩ | ⟨_ | _, _, _⟩ | _, _, _⟩ := d <;>
    simp [isPrimaryClass, subject]

theorem typeParameters_eq_nil (none : d.callable? = none) : d.typeParameters = [] := by
  simp [typeParameters, none]

theorem mem_typeParameters_record {made : List DeclId} {p : DeclId}
    (member : p ∈ (d.mapCallable fun c =>
      { c with typeParameters := c.typeParameters ++ made }).typeParameters) :
    p ∈ d.typeParameters ∨ p ∈ made := by
  unfold mapCallable at member
  split at member <;> simp_all [typeParameters, callable?]

theorem declares_mapCallable (d : Decl) {f : Callable → Callable} (same : ∀ c, (f c).body = c.body) :
    (d.mapCallable f).declares = d.declares := by
  unfold mapCallable
  split <;> simp_all [declares]

end Decl

theorem Names.binds_of_getD {names : Names} {name : String} {d : DeclId}
    (member : d ∈ (names.find? name).getD []) : names.Binds name d := by
  cases found : names.find? name with
  | none => simp [found] at member
  | some set => exact binds_of_find? found (by simpa [found] using member)

/-- The overload set of a name after others have been appended to those that are there. -/
theorem Scope.find?_extendAll {s : Scope} {names : Names} (own : s.names.Increasing)
    (increasing : names.Increasing) (name : String) :
    (s.extendAll names).find? name =
      (names.find? name).elim (s.find? name) fun added => some ((s.find? name).getD [] ++ added) := by
  unfold extendAll
  induction names generalizing s with
  | nil => rfl
  | cons entry rest ih =>
    obtain ⟨other, set⟩ := entry
    obtain ⟨first, later⟩ := List.pairwise_cons.mp increasing
    rw [List.foldl_cons, ih (Names.increasing_alter own ..) later, Names.find?_cons]
    by_cases same : name = other
    · subst same
      rw [Names.find?_eq_none_of_lt first, if_pos rfl]
      exact find?_extend_self own ..
    · rw [find?_extend_of_ne s same, if_neg same]

namespace SymbolTable

variable {t t' : SymbolTable} {rank rank' : ScopeId → Nat} {took : DeclId → DeclId → Prop}
  {begun : Set DeclId} {s scope : ScopeId} {id : DeclId}

/-- The names of the scope `s'` have been taken into the scope `s`. -/
def Merges (took : DeclId → DeclId → Prop) (t : SymbolTable) (s s' : ScopeId) : Prop :=
  ∃ c e, took c e ∧ t.scopeOf? (.decl c) = some s ∧ t.scopeOf? (.decl e) = some s'

theorem Merges.mono {took' : DeclId → DeclId → Prop} (more : ∀ {c e}, took c e → took' c e) {s' : ScopeId}
    (h : t.Merges took s s') : t.Merges took' s s' :=
  h.imp fun _ => Exists.imp fun _ => And.imp_left more

/-- What a name in a scope leads to: a declaration of that name that lies there, or in an extension of the
class whose scope it is. -/
structure Leads (rank : ScopeId → Nat) (took : DeclId → DeclId → Prop) (t : SymbolTable) (s : ScopeId)
    (name : String) (d : DeclId) : Prop where
  lt : d.index < t.decls.size
  named : (t.decl d).name = name
  level : rank (t.decl d).scope = rank s
  origin : (t.decl d).scope = s ∨ t.Merges took s (t.decl d).scope

/-- Names lead to the declarations they should, and classes in `begun` have begun to take in extensions:
`rank` tells how deep scopes lie, and `took` which classes have taken in which extensions. -/
structure Tidy (rank : ScopeId → Nat) (took : DeclId → DeclId → Prop) (begun : Set DeclId)
    (t : SymbolTable) : Prop where
  ordered : t.Ordered
  leads : ∀ {s name d}, t.Binds s name d → t.Leads rank took s name d
  filled : ∀ {s name set}, (t.scope s).find? name = some set → set ≠ [] ∧ set.Nodup
  listed : ∀ d, d.index < t.decls.size → (t.decl d).subject ≠ .extension →
    (t.decl d).subject ≠ .typeParameter → t.Binds (t.decl d).scope (t.decl d).name d
  recorded : ∀ f, ∀ p ∈ (t.decl f).typeParameters, (t.decl p).subject = .typeParameter ∧
    ∃ s, t.scopeOf? (.decl f) = some s ∧ t.Binds s (t.decl p).name p
  lies : ∀ id, (t.decl id).scope.index < t.scopes.size
  saved : ∀ {owner s}, t.scopeOf? owner = some s → s.index < t.scopes.size
  distinct : ∀ {a b s}, t.scopeOf? (.decl a) = some s → t.scopeOf? (.decl b) = some s → a = b
  opened : ∀ {id s}, t.scopeOf? (.decl id) = some s →
    id.index < t.decls.size ∧ rank s = rank (t.decl id).scope + 1
  deeper : ∀ h, ∀ w ∈ (t.decl h).declares,
    w.index < t.decls.size ∧ rank (t.decl h).scope < rank (t.decl w).scope
  bodies : ∀ {id s}, t.scopeOf? (.body id) = some s → id.index < t.decls.size
  begun_lt : ∀ c ∈ begun, c.index < t.decls.size
  sorts : ∀ {c e}, took c e → (t.decl c).subject = .classDecl ∧ (t.decl e).subject = .extension
  /-- An extension is taken in where its class was declared, or with another one around it. -/
  traced : ∀ {c e}, took c e →
    (t.decl e).scope = (t.decl c).scope ∨ t.Merges took (t.decl c).scope (t.decl e).scope
  /-- An extension that has been taken in has lost its name to the class. -/
  once : ∀ {c e}, took c e → t.Binds (t.decl c).scope (t.decl c).name e → c ∈ begun

namespace Tidy

theorem lt_of_subject {subject : Subject} (same : (t.decl id).subject = subject)
    (other : subject ≠ .typeParameter) : id.index < t.decls.size :=
  lt_size_of_kind fun absent => other (by rw [← same]; simp [Decl.subject, absent])

/-- Only what has been declared takes part in taking in. -/
theorem took_lt (h : t.Tidy rank took begun) {c e : DeclId} (taken : took c e) :
    c.index < t.decls.size ∧ e.index < t.decls.size :=
  ⟨lt_of_subject (h.sorts taken).1 (by decide), lt_of_subject (h.sorts taken).2 (by decide)⟩

/-- A class begins to take in extensions. -/
theorem begin (h : t.Tidy rank took begun) (lt : id.index < t.decls.size) :
    t.Tidy rank took (insert id begun) :=
  { h with
    begun_lt := fun c member => member.elim (fun same => same ▸ lt) (h.begun_lt c)
    once := fun taken b => .inr (h.once taken b) }

/-! ## What does not concern names -/

/-- Declarations may change what is inside them, as long as it lies deeper, and get type parameters that
are bound. -/
theorem of_decls (h : t.Tidy rank took begun) (leaves : t.LeavesScopes t')
    (name : ∀ id, (t'.decl id).name = (t.decl id).name)
    (subject : ∀ id, (t'.decl id).subject = (t.decl id).subject)
    (recorded : ∀ f, ∀ p ∈ (t'.decl f).typeParameters, (t.decl p).subject = .typeParameter ∧
      ∃ s, t.scopeOf? (.decl f) = some s ∧ t.Binds s (t.decl p).name p)
    (deeper : ∀ h, ∀ w ∈ (t'.decl h).declares,
      w.index < t.decls.size ∧ rank (t.decl h).scope < rank (t.decl w).scope) :
    t'.Tidy rank took begun := by
  have binds {s name d} : t'.Binds s name d ↔ t.Binds s name d := by
    unfold Binds
    rw [scope_congr leaves.scopes]
  have owner (o : ScopeOwner) : t'.scopeOf? o = t.scopeOf? o := by rw [scopeOf?, leaves.saved]; rfl
  exact
    { ordered := h.ordered.of_scopes leaves.scopes
      leads := fun b => by
        obtain ⟨lt, named, level, origin⟩ := h.leads (binds.mp b)
        exact ⟨leaves.size ▸ lt, (name _).trans named, by rw [leaves.scope, level],
          by simpa only [Merges, leaves.scope, owner] using origin⟩
      filled := fun {s} => by rw [scope_congr leaves.scopes]; exact h.filled
      listed := fun d lt other other' => by
        rw [subject] at other other'
        rw [leaves.scope, name, binds]
        exact h.listed d (leaves.size ▸ lt) other other'
      recorded := fun f p member => by
        rw [owner, name, subject]
        exact (recorded f p member).imp_right fun bound => bound.imp fun _ => .imp_right binds.mpr
      lies := fun id => by rw [leaves.scope, leaves.scopes]; exact h.lies id
      saved := fun {o s} => by rw [owner, leaves.scopes]; exact h.saved
      distinct := fun {a b s} => by rw [owner, owner]; exact h.distinct
      opened := fun {id s} => by rw [owner, leaves.size, leaves.scope]; exact h.opened
      deeper := fun holder w member => by
        rw [leaves.size, leaves.scope, leaves.scope]
        exact deeper holder w member
      bodies := fun {id s} => by rw [owner, leaves.size]; exact h.bodies
      begun_lt := fun c member => leaves.size ▸ h.begun_lt c member
      sorts := fun {c e} => by rw [subject, subject]; exact h.sorts
      traced := fun taken => by simpa only [Merges, leaves.scope, owner] using h.traced taken
      once := fun taken b => by
        rw [leaves.scope, name, binds] at b
        exact h.once taken b }

theorem of_leaves (h : t.Tidy rank took begun) (leaves : t.LeavesNames t')
    (deeper : ∀ h, ∀ w ∈ (t'.decl h).declares,
      w.index < t.decls.size ∧ rank (t.decl h).scope < rank (t.decl w).scope) :
    t'.Tidy rank took begun :=
  h.of_decls leaves.toLeavesScopes leaves.name leaves.subject
    (fun f p member => h.recorded f p (leaves.typeParameters f ▸ member)) deeper

theorem of_contents (h : t.Tidy rank took begun) (leaves : t.LeavesContents t') :
    t'.Tidy rank took begun := by
  refine h.of_leaves leaves.toLeavesNames fun holder w member => ?_
  rw [leaves.declares] at member
  exact h.deeper holder w member

/-- One declaration changes what is inside it. -/
theorem modifyDecl (h : t.Tidy rank took begun) {f : Decl → Decl}
    (leaves : t.LeavesScopes (t.modifyDecl id f)) (name : (f (t.decl id)).name = (t.decl id).name)
    (subject : (f (t.decl id)).subject = (t.decl id).subject)
    (recorded : ∀ p ∈ (f (t.decl id)).typeParameters, p ∈ (t.decl id).typeParameters ∨
      (t.decl p).subject = .typeParameter ∧
        ∃ s, t.scopeOf? (.decl id) = some s ∧ t.Binds s (t.decl p).name p)
    (deeper : ∀ w ∈ (f (t.decl id)).declares, w ∈ (t.decl id).declares ∨
      w.index < t.decls.size ∧ rank (t.decl id).scope < rank (t.decl w).scope) :
    (t.modifyDecl id f).Tidy rank took begun := by
  refine h.of_decls leaves (fun other => ?_) (fun other => ?_) (fun other p member => ?_)
    fun other w member => ?_
  · rw [decl_modifyDecl]
    split
    · rename_i same
      rw [same.1, name]
    · rfl
  · rw [decl_modifyDecl]
    split
    · rename_i same
      rw [same.1, subject]
    · rfl
  · rw [decl_modifyDecl] at member
    split at member
    · rename_i same
      obtain ⟨rfl, -⟩ := same
      exact (recorded p member).elim (h.recorded other p) fun new => new
    · exact h.recorded other p member
  · rw [decl_modifyDecl] at member
    split at member
    · rename_i same
      obtain ⟨rfl, -⟩ := same
      exact (deeper w member).elim (h.deeper other w) fun new => new
    · exact h.deeper other w member

/-- Type parameters that are bound in the scope of a function are recorded on it. -/
theorem record (h : t.Tidy rank took begun) {made : List DeclId} (owns : t.scopeOf? (.decl id) = some s)
    (bound : ∀ p ∈ made, (t.decl p).subject = .typeParameter ∧ t.Binds s (t.decl p).name p) :
    (t.modifyDecl id (·.mapCallable fun c =>
      { c with typeParameters := c.typeParameters ++ made })).Tidy rank took begun := by
  refine h.modifyDecl (.mapCallable t id _) (Decl.name_mapCallable ..) (subject_mapCallable ..)
    (fun p member => ?_) fun w member => ?_
  · exact (Decl.mem_typeParameters_record member).imp_right fun new =>
      (bound p new).imp_right fun b => ⟨s, owns, b⟩
  · rw [Decl.declares_mapCallable] at member
    · exact .inl member
    · exact fun _ => rfl

/-! ## What concerns only names -/

/-- Scopes change; no declaration but extensions loses its name. -/
theorem of_binds (h : t.Tidy rank took begun) {took' : DeclId → DeclId → Prop} {begun' : Set DeclId}
    (decls : t'.decls = t.decls) (saved : t'.saved = t.saved) (size : t.scopes.size ≤ t'.scopes.size)
    (ordered : t'.Ordered)
    (filled : ∀ {s name set}, (t'.scope s).find? name = some set → set ≠ [] ∧ set.Nodup)
    (keeps : ∀ {s name d}, t.Binds s name d → (t.decl d).subject ≠ .extension → t'.Binds s name d)
    (leads : ∀ {s name d}, t'.Binds s name d → t.Leads rank took' s name d)
    (begun_lt : ∀ c ∈ begun', c.index < t.decls.size)
    (sorts : ∀ {c e}, took' c e → (t.decl c).subject = .classDecl ∧ (t.decl e).subject = .extension)
    (traced : ∀ {c e}, took' c e →
      (t.decl e).scope = (t.decl c).scope ∨ t.Merges took' (t.decl c).scope (t.decl e).scope)
    (once : ∀ {c e}, took' c e → t'.Binds (t.decl c).scope (t.decl c).name e → c ∈ begun') :
    t'.Tidy rank took' begun' := by
  have decl (id : DeclId) : t'.decl id = t.decl id := by rw [SymbolTable.decl, decls]; rfl
  have owner (o : ScopeOwner) : t'.scopeOf? o = t.scopeOf? o := by rw [scopeOf?, saved]; rfl
  exact
    { ordered
      filled
      leads := fun b => by
        obtain ⟨lt, named, level, origin⟩ := leads b
        exact ⟨decls ▸ lt, by rw [decl, named], by rw [decl, level], by simpa only [Merges, decl, owner] using origin⟩
      listed := fun d => by
        rw [decls, decl]
        exact fun lt other other' => keeps (h.listed d lt other other') other
      recorded := fun f p member => by
        rw [decl] at member
        rw [owner, decl]
        obtain ⟨parameter, s, owns, b⟩ := h.recorded f p member
        exact ⟨parameter, s, owns, keeps b (by rw [parameter]; decide)⟩
      lies := fun id => by rw [decl]; exact Nat.lt_of_lt_of_le (h.lies id) size
      saved := fun {o s} owns => Nat.lt_of_lt_of_le (h.saved (owner o ▸ owns)) size
      distinct := fun {a b s} => by rw [owner, owner]; exact h.distinct
      opened := fun {id s} => by rw [owner, decls, decl]; exact h.opened
      deeper := fun holder w member => by
        rw [decl] at member
        rw [decls, decl, decl]
        exact h.deeper holder w member
      bodies := fun {id s} => by rw [owner, decls]; exact h.bodies
      begun_lt := fun c member => decls ▸ begun_lt c member
      sorts := fun {c e} => by rw [decl, decl]; exact sorts
      traced := fun taken => by simpa only [Merges, decl, owner] using traced taken
      once := fun taken b => by
        rw [decl] at b
        exact once taken b }

/-- Scopes are added and entered. -/
theorem of_names (h : t.Tidy rank took begun) (decls : t'.decls = t.decls) (saved : t'.saved = t.saved)
    (names : ∀ s, (t'.scope s).names = (t.scope s).names) (size : t.scopes.size ≤ t'.scopes.size) :
    t'.Tidy rank took begun := by
  have binds {s name d} : t'.Binds s name d ↔ t.Binds s name d := by
    unfold Binds Scope.Binds
    rw [names]
  refine h.of_binds decls saved size (fun s => by rw [names]; exact h.ordered s)
    (fun found => h.filled (by unfold Scope.find? at found ⊢; rwa [names] at found))
    (fun b _ => binds.mpr b) (fun b => h.leads (binds.mp b)) h.begun_lt h.sorts h.traced
    fun taken b => h.once taken (binds.mp b)

theorem enter (h : t.Tidy rank took begun) (scope : ScopeId) : (t.enter scope).Tidy rank took begun :=
  h.of_names rfl rfl (fun _ => rfl) (Nat.le_refl _)

theorem leave (h : t.Tidy rank took begun) : t.leave.Tidy rank took begun :=
  h.of_names rfl rfl (fun _ => rfl) (Nat.le_refl _)

theorem addScope (h : t.Tidy rank took begun) (parent : ScopeId) :
    (t.addScope parent).Tidy rank took begun :=
  h.of_names rfl rfl (names_addScope t parent) (by simp [SymbolTable.addScope])

/-! ## New declarations -/

/-- A declaration comes to be that has nothing inside it, and its name may be bound where it lies. -/
theorem add (h : t.Tidy rank took begun) {d : Decl} (decls : t'.decls = t.decls.push d)
    (saved : t'.saved = t.saved) (scopes : t'.scopes.size = t.scopes.size)
    (lies : d.scope.index < t.scopes.size) (declares : d.declares = [])
    (typeParameters : d.typeParameters = []) (ordered : t'.Ordered)
    (filled : ∀ {s name set}, (t'.scope s).find? name = some set → set ≠ [] ∧ set.Nodup)
    (keeps : ∀ {s name x}, t.Binds s name x → t'.Binds s name x)
    (binds : ∀ {s name x}, t'.Binds s name x →
      t.Binds s name x ∨ s = d.scope ∧ name = d.name ∧ x = t.nextDecl)
    (bound : d.subject ≠ .typeParameter → t'.Binds d.scope d.name t.nextDecl) :
    t'.Tidy rank took begun := by
  have size : t'.decls.size = t.decls.size + 1 := by rw [decls, Array.size_push]
  have same (id : DeclId) : t'.decl id = (t.addUnnamed d).decl id := by rw [SymbolTable.decl, decls]; rfl
  have old {id : DeclId} (lt : id.index < t.decls.size) : t'.decl id = t.decl id :=
    (same id).trans (decl_addUnnamed_of_lt lt d)
  have new : t'.decl t.nextDecl = d := (same _).trans (decl_addUnnamed_nextDecl t d)
  have owner (o : ScopeOwner) : t'.scopeOf? o = t.scopeOf? o := by rw [scopeOf?, saved]; rfl
  have cases' (id : DeclId) : id.index < t.decls.size ∨ id = t.nextDecl ∨ t'.decls.size ≤ id.index := by
    by_cases next : id.index = t.decls.size
    · exact .inr (.inl (congrArg DeclId.mk next))
    · omega
  have taken {c e : DeclId} (h' : took c e) : t'.decl c = t.decl c ∧ t'.decl e = t.decl e :=
    ⟨old (h.took_lt h').1, old (h.took_lt h').2⟩
  exact
    { ordered
      filled
      leads := fun b => by
        rcases binds b with b | ⟨rfl, rfl, rfl⟩
        · obtain ⟨lt, named, level, origin⟩ := h.leads b
          exact ⟨by omega, by rw [old lt, named], by rw [old lt, level],
            by simpa only [Merges, old lt, owner] using origin⟩
        · exact ⟨size ▸ Nat.lt_succ_self _, by rw [new], by rw [new], .inl (by rw [new])⟩
      listed := fun id lt other other' => by
        rcases cases' id with before | rfl | out
        · rw [old before] at other other' ⊢
          exact keeps (h.listed id before other other')
        · rw [new] at other' ⊢
          exact bound other'
        · omega
      recorded := fun f p member => by
        rcases cases' f with before | rfl | out
        · rw [old before] at member
          obtain ⟨parameter, s, owns, b⟩ := h.recorded f p member
          rw [old (h.leads b).lt]
          exact ⟨parameter, s, (owner _).trans owns, keeps b⟩
        · rw [new, typeParameters] at member
          cases member
        · rw [Decl.typeParameters_eq_nil (by simp [Decl.callable?, kind_eq_typeParameter out])] at member
          cases member
      lies := fun id => by
        rw [scopes]
        rcases cases' id with before | rfl | out
        · rw [old before]
          exact h.lies id
        · rw [new]
          exact lies
        · have before : t.decls.size ≤ id.index := by omega
          rw [decl_eq_default out, ← decl_eq_default before]
          exact h.lies id
      saved := fun owns => scopes ▸ h.saved (owner _ ▸ owns)
      distinct := fun owns owns' => h.distinct (owner _ ▸ owns) (owner _ ▸ owns')
      opened := fun owns => by
        obtain ⟨lt, deep⟩ := h.opened (owner _ ▸ owns)
        rw [old lt]
        exact ⟨by omega, deep⟩
      deeper := fun holder w member => by
        rcases cases' holder with before | rfl | out
        · rw [old before] at member ⊢
          obtain ⟨lt, deep⟩ := h.deeper holder w member
          rw [old lt]
          exact ⟨by omega, deep⟩
        · rw [new, declares] at member
          cases member
        · simp [Decl.declares, kind_eq_typeParameter out] at member
      bodies := fun owns => size ▸ Nat.lt_succ_of_lt (h.bodies (owner _ ▸ owns))
      begun_lt := fun c member => by have := h.begun_lt c member; omega
      sorts := fun h' => by
        rw [(taken h').1, (taken h').2]
        exact h.sorts h'
      traced := fun h' => by
        simp only [Merges, owner]
        rw [(taken h').1, (taken h').2]
        exact h.traced h'
      once := fun {c e} h' b => by
        rw [(taken h').1] at b
        rcases binds b with b | ⟨-, -, rfl⟩
        · exact h.once h' b
        · exact absurd (h.took_lt h').2 (Nat.lt_irrefl _) }

/-- A type parameter comes to be, and no name leads to it yet. -/
theorem addTypeParameter (h : t.Tidy rank took begun) {d : Decl} (kind : d.kind = .typeParameter)
    (lies : d.scope.index < t.scopes.size) : (t.addUnnamed d).Tidy rank took begun :=
  h.add rfl rfl rfl lies (by simp [Decl.declares, kind])
    (Decl.typeParameters_eq_nil (by simp [Decl.callable?, kind])) h.ordered h.filled id .inl
    fun other => absurd (by simp [Decl.subject, kind]) other

end Tidy

/-! ## Binding names -/

theorem find?_bindName (ordered : t.Ordered) (lt : scope.index < t.scopes.size) (name other : String)
    (s : ScopeId) : ((t.bindName scope name id).scope s).find? other =
      if s = scope ∧ other = name then some (((t.scope scope).find? name).getD [] ++ [id])
      else (t.scope s).find? other := by
  unfold bindName
  rw [scope_modifyScope]
  by_cases here : s = scope
  · subst here
    rw [if_pos ⟨rfl, lt⟩]
    by_cases same : other = name
    · subst same
      rw [if_pos ⟨rfl, rfl⟩]
      exact Scope.find?_extend_self (ordered s) ..
    · rw [if_neg fun h => same h.2]
      exact Scope.find?_extend_of_ne _ same _
  · rw [if_neg fun h => here h.1, if_neg fun h => here h.1]

/-- A set stays free of repetitions when something is appended to it that is not in it. -/
theorem filled_bindName (ordered : t.Ordered) (lt : scope.index < t.scopes.size) {name : String}
    (filled : ∀ {s name set}, (t.scope s).find? name = some set → set ≠ [] ∧ set.Nodup)
    (fresh : ¬ t.Binds scope name id) {other : String} {set : Overloads}
    (found : ((t.bindName scope name id).scope s).find? other = some set) : set ≠ [] ∧ set.Nodup := by
  rw [find?_bindName ordered lt] at found
  split at found
  · obtain rfl := Option.some.inj found
    refine ⟨by simp, List.nodup_append.mpr ⟨?_, List.nodup_singleton _, ?_⟩⟩
    · cases old : (t.scope scope).find? name with
      | none => exact List.nodup_nil
      | some set => exact (filled old).2
    · intro a member b single same
      obtain rfl := List.mem_singleton.mp single
      subst same
      exact fresh (Names.binds_of_getD member)
  · exact filled found

namespace Tidy

/-- A name leads to one more declaration where that lies. -/
theorem bindName (h : t.Tidy rank took begun) (lt : id.index < t.decls.size)
    (parameter : (t.decl id).subject = .typeParameter) (lies : (t.decl id).scope = scope)
    (fresh : ¬ t.Binds scope (t.decl id).name id) :
    (t.bindName scope (t.decl id).name id).Tidy rank took begun := by
  have inRange : scope.index < t.scopes.size := lies ▸ h.lies id
  have binds {s other d} : (t.bindName scope (t.decl id).name id).Binds s other d ↔
      t.Binds s other d ∨ s = scope ∧ other = (t.decl id).name ∧ d = id := binds_bindName inRange
  refine h.of_binds rfl rfl (by simp [SymbolTable.bindName, modifyScope])
    (h.ordered.modifyScope (Names.increasing_alter (h.ordered scope) ..))
    (filled_bindName h.ordered inRange h.filled fresh) (fun b _ => binds.mpr (.inl b)) (fun b => ?_)
    h.begun_lt h.sorts h.traced fun taken b => ?_
  · rcases binds.mp b with b | ⟨rfl, rfl, rfl⟩
    · exact h.leads b
    · exact ⟨lt, rfl, congrArg rank lies, .inl lies⟩
  · rcases binds.mp b with b | ⟨-, -, rfl⟩
    · exact h.once taken b
    · have extension := (h.sorts taken).2
      rw [parameter] at extension
      cases extension

end Tidy

/-! ## Extensions -/

section Absorb

variable {cls e : DeclId} {inner outer : ScopeId}

theorem binds_takeNames (lt : outer.index < t.scopes.size) {name : String} {d : DeclId} :
    (t.modifyScope outer (·.extendAll (t.scope inner).names)).Binds s name d ↔
      t.Binds s name d ∨ s = outer ∧ t.Binds inner name d := by
  unfold Binds
  rw [scope_modifyScope]
  by_cases here : s = outer
  · subst here
    rw [if_pos ⟨rfl, lt⟩, Scope.binds_extendAll]
    simp [Scope.Binds]
  · simp [here]

/-- What is declared keeps its name where names and members move. -/
theorem leaves_absorb (t : SymbolTable) (cls e : DeclId) (inner outer : ScopeId) :
    ((t.modifyScope outer (·.extendAll (t.scope inner).names)).reparent inner outer).LeavesNames
      (t.absorb cls e inner outer) :=
  IsTrans.trans _ _ _ (Reworking.mapMembers _ e _) (Reworking.mapMembers _ cls _)

namespace Tidy

/-- Nothing lies elsewhere that a name leads to in the scope of an extension. -/
theorem scope_of_inner (h : t.Tidy rank took begun) (extension : (t.decl e).isExtension = true)
    (inside : t.scopeOf? (.decl e) = some inner) {name : String} {d : DeclId}
    (b : t.Binds inner name d) : (t.decl d).scope = inner := by
  rcases (h.leads b).origin with lies | ⟨c, e', taken, owns, -⟩
  · exact lies
  · obtain rfl := h.distinct owns inside
    have isClass := (h.sorts taken).1
    rw [Decl.isExtension_iff.mp extension] at isClass
    cases isClass

/-- A class is not one of its extensions. -/
theorem inner_ne_outer (h : t.Tidy rank took begun) (extends' : t.Extends cls e inner outer) :
    inner ≠ outer := by
  rintro rfl
  obtain rfl := h.distinct extends'.inner extends'.outer
  have extension := extends'.extension
  rw [not_isExtension_of_isPrimaryClass extends'.primary] at extension
  cases extension

/-- What a class has is not what an extension has that it has not taken in. -/
theorem apart (h : t.Tidy rank took begun) (extends' : t.Extends cls e inner outer)
    (fresh : ¬ took cls e) {name name' : String} {d : DeclId} (own : t.Binds outer name d)
    (absorbed : t.Binds inner name' d) : False := by
  have lies := h.scope_of_inner extends'.extension extends'.inner absorbed
  rcases (h.leads own).origin with here | ⟨c, e', taken, owns, inside⟩
  · exact h.inner_ne_outer extends' (lies.symm.trans here)
  · obtain rfl := h.distinct owns extends'.outer
    rw [lies] at inside
    obtain rfl := h.distinct inside extends'.inner
    exact fresh taken

/-- The names in an extension are bound in the scope of the class as well. -/
theorem takeNames (h : t.Tidy rank took begun) (extends' : t.Extends cls e inner outer)
    (begins : cls ∈ begun) (fresh : ¬ took cls e) :
    (t.modifyScope outer (·.extendAll (t.scope inner).names)).Tidy rank
      (fun c d => took c d ∨ c = cls ∧ d = e) begun := by
  have lt := h.saved extends'.outer
  have bound := h.leads extends'.bound
  have classDecl := Decl.isPrimaryClass_iff.mp extends'.primary
  have extension := Decl.isExtension_iff.mp extends'.extension
  have level : rank inner = rank outer := by
    rw [(h.opened extends'.inner).2, (h.opened extends'.outer).2, bound.level]
  refine h.of_binds rfl rfl (by simp [modifyScope])
    (h.ordered.modifyScope (Scope.increasing_extendAll (h.ordered outer) _)) (fun {s name set} found => ?_)
    (fun b _ => (binds_takeNames lt).mpr (.inl b)) (fun {s name d} b => ?_) h.begun_lt (fun taken => ?_)
    (fun taken => ?_) fun {c d} taken b => ?_
  · rw [scope_modifyScope] at found
    split at found
    · rw [Scope.find?_extendAll (h.ordered outer) (h.ordered inner)] at found
      cases added : (t.scope inner).names.find? name with
      | none =>
        rw [added] at found
        exact h.filled found
      | some more =>
        rw [added] at found
        obtain rfl := Option.some.inj found
        obtain ⟨some, nodup⟩ := h.filled (s := inner) added
        refine ⟨by simp [some], List.nodup_append.mpr ⟨?_, nodup, ?_⟩⟩
        · cases old : (t.scope outer).find? name with
          | none => exact List.nodup_nil
          | some set => exact (h.filled old).2
        · rintro a own _ member rfl
          exact h.apart extends' fresh (Names.binds_of_getD own) (Names.binds_of_find? added member)
    · exact h.filled found
  · rcases (binds_takeNames lt).mp b with own | ⟨rfl, absorbed⟩
    · obtain ⟨present, named, level, origin⟩ := h.leads own
      exact ⟨present, named, level, origin.imp_right (.mono .inl)⟩
    · have lies := h.scope_of_inner extends'.extension extends'.inner absorbed
      obtain ⟨present, named, deep, -⟩ := h.leads absorbed
      exact ⟨present, named, deep.trans level,
        .inr ⟨cls, e, .inr ⟨rfl, rfl⟩, extends'.outer, lies ▸ extends'.inner⟩⟩
  · rcases taken with taken | ⟨rfl, rfl⟩
    · exact h.sorts taken
    · exact ⟨classDecl, extension⟩
  · rcases taken with taken | ⟨rfl, rfl⟩
    · exact (h.traced taken).imp_right (.mono .inl)
    · exact bound.origin.imp_right (.mono .inl)
  · rcases taken with taken | ⟨rfl, rfl⟩
    · rcases (binds_takeNames lt).mp b with own | ⟨here, absorbed⟩
      · exact h.once taken own
      · have lies := h.scope_of_inner extends'.extension extends'.inner absorbed
        rcases h.traced taken with same | ⟨c', e', taken', owns, inside⟩
        · exact absurd (lies.symm.trans (same.trans here)) (h.inner_ne_outer extends')
        · rw [here] at owns
          rw [lies] at inside
          obtain rfl := h.distinct owns extends'.outer
          obtain rfl := h.distinct inside extends'.inner
          exact absurd taken' fresh
    · exact begins

/-- A class takes in an extension that it has not taken in before. -/
theorem absorb (h : t.Tidy rank took begun) (extends' : t.Extends cls e inner outer)
    (begins : cls ∈ begun) (fresh : ¬ took cls e) :
    (t.absorb cls e inner outer).Tidy rank (fun c d => took c d ∨ c = cls ∧ d = e) begun := by
  have taken := h.takeNames extends' begins fresh
  have moved : ((t.modifyScope outer (·.extendAll (t.scope inner).names)).reparent inner outer).Tidy rank
      (fun c d => took c d ∨ c = cls ∧ d = e) begun := by
    refine taken.of_names rfl rfl (fun s => ?_) (by simp [reparent, modifyScope])
    unfold reparent
    rw [scope_modifyScope]
    split
    · rename_i same
      rw [same.1]
    · rfl
  refine moved.of_leaves (leaves_absorb t cls e inner outer) fun holder w member => ?_
  -- The declarations in the extension move to the class, which lies as deep.
  rw [declares_eq, body_absorb, members_absorb extends'.primary extends'.extension] at member
  split at member
  · rename_i same
    subst same
    rw [Stmt.declaresIn_append, ← List.append_assoc, ← declares_eq] at member
    rcases List.mem_append.mp member with own | absorbed
    · exact h.deeper holder w own
    · obtain ⟨lt, deeper⟩ := h.deeper e w (by rw [declares_eq]; exact List.mem_append_right _ absorbed)
      rw [(h.leads extends'.bound).level] at deeper
      exact ⟨lt, deeper⟩
  · refine h.deeper holder w ?_
    rw [declares_eq]
    split at member
    · exact List.mem_append_left _ (by simpa [Stmt.declaresIn] using member)
    · exact member

end Tidy

end Absorb

namespace Tidy

/-- A class that has taken in its extensions has its name for itself. -/
theorem keepOnly (h : t.Tidy rank took begun) (isClass : (t.decl id).subject = .classDecl) :
    (t.keepOnly (t.decl id).scope (t.decl id).name fun d => !d.isExtension).Tidy rank took
      (begun \ {id}) := by
  have binds {s other d} : (t.keepOnly (t.decl id).scope (t.decl id).name fun d => !d.isExtension).Binds
      s other d ↔ _ := binds_keepOnly h.ordered
  have lt := lt_of_subject isClass (by decide)
  have bound := h.listed id lt (by rw [isClass]; decide) (by rw [isClass]; decide)
  have proper : (t.decl id).isExtension = false := by
    rw [← Bool.not_eq_true, Decl.isExtension_iff, isClass]
    decide
  refine h.of_binds ?_ ?_ ?_ (ordered_keepOnly h.ordered _ _ _) (fun {s name set} found => ?_)
    (fun b other => binds.mpr ⟨b, fun _ _ => ?_⟩) (fun b => h.leads (binds.mp b).1)
    (fun c member => h.begun_lt c member.1) h.sorts h.traced fun taken b => ?_
  · unfold SymbolTable.keepOnly
    split <;> rfl
  · unfold SymbolTable.keepOnly
    split <;> rfl
  · unfold SymbolTable.keepOnly
    split <;> simp [modifyScope]
  · unfold SymbolTable.keepOnly at found
    split at found
    · exact h.filled found
    · rename_i all old
      rw [scope_modifyScope] at found
      split at found
      · by_cases same : name = (t.decl id).name
        · subst same
          unfold Scope.find? at found old
          rw [Names.find?_alter_self (h.ordered _), old] at found
          obtain rfl := Option.some.inj found
          refine ⟨List.ne_nil_of_mem (a := id) (List.mem_filter.mpr ⟨?_, ?_⟩), (h.filled old).2.filter _⟩
          · obtain ⟨set, found, member⟩ := Names.find?_of_binds (h.ordered _) bound
            rw [old] at found
            exact Option.some.inj found ▸ member
          · simp [proper]
        · unfold Scope.find? at found
          rw [Names.find?_alter_of_ne same] at found
          exact h.filled found
      · exact h.filled found
  · rw [← Bool.not_eq_true, Decl.isExtension_iff]
    exact other
  · obtain ⟨b, emptied⟩ := binds.mp b
    refine ⟨h.once taken b, fun same => ?_⟩
    obtain rfl := Set.mem_singleton_iff.mp same
    have extension := Decl.isExtension_iff.mpr (h.sorts taken).2
    rw [emptied rfl rfl] at extension
    cases extension

end Tidy

/-! ## Reading -/

/-- What a scope may be opened for: a declaration in the innermost scope that has none yet, the expression
that a function returns, and any block. -/
def MayOpen (t : SymbolTable) : ScopeOwner → Prop
  | .decl id => id.index < t.decls.size ∧ (t.decl id).scope = t.innermost ∧ t.scopeOf? (.decl id) = none
  | .body id => id.index < t.decls.size
  | .block _ => True

namespace Tidy

/-- Something is declared of which no more than its name has been read. -/
theorem declare (h : t.Tidy rank took begun) {d : Decl} (unread : d.kind.IsUnread)
    (lies : d.scope.index < t.scopes.size) : (t.declare d).Tidy rank took begun := by
  have typeParameters : d.typeParameters = [] := by
    unfold Decl.typeParameters Decl.callable?
    cases kind : d.kind with
    | callable sort c =>
      rw [kind] at unread
      obtain rfl : c = .announced := unread
      rfl
    | _ => rfl
  refine h.add rfl rfl (size_scopes_declare t d) lies (declares_of_isUnread unread) typeParameters
    (Ordered.modifyScope (t := t.addUnnamed d) h.ordered (Names.increasing_alter (h.ordered _) ..))
    (filled_bindName (t := t.addUnnamed d) h.ordered lies h.filled fun b => ?_)
    (fun b => (binds_declare lies).mpr (.inl b)) (binds_declare lies).mp
    fun _ => (binds_declare lies).mpr (.inr ⟨rfl, rfl, rfl⟩)
  exact Nat.lt_irrefl _ (h.leads b).lt

/-- A scope is opened inside the innermost one, for an owner that may have one. -/
theorem openFor (h : t.Tidy rank took begun) (inner : t.innermost.index < t.scopes.size)
    {owner : ScopeOwner} (opens : t.MayOpen owner) :
    (t.openFor owner).Tidy (rankOpen rank t) took begun := by
  have size := size_scopes_openFor t owner
  have names (s : ScopeId) : ((t.openFor owner).scope s).names = (t.scope s).names := names_addScope ..
  have binds {s name d} : (t.openFor owner).Binds s name d ↔ t.Binds s name d := by
    unfold Binds Scope.Binds
    rw [names]
  have keeps {id s} (owns : t.scopeOf? (.decl id) = some s) :
      (t.openFor owner).scopeOf? (.decl id) = some s := by
    refine (scopeOf?_assignScope_of_ne (fun same => ?_) _ _).trans owns
    subst same
    rw [opens.2.2] at owns
    cases owns
  have merges {s s'} (merges : t.Merges took s s') : (t.openFor owner).Merges took s s' :=
    merges.imp fun _ => Exists.imp fun _ h => ⟨h.1, keeps h.2.1, keeps h.2.2⟩
  have old {s : ScopeId} (lt : s.index < t.scopes.size) : rankOpen rank t s = rank s :=
    rankOpen_of_lt rank lt
  exact
    { ordered := fun s => by rw [names]; exact h.ordered s
      leads := fun b => by
        obtain ⟨lt, named, level, origin⟩ := h.leads (binds.mp b)
        refine ⟨lt, named, ?_, origin.imp_right merges⟩
        rw [old (lt_size_of_binds (binds.mp b)), ← level]
        exact old (h.lies _)
      filled := fun found => h.filled (by unfold Scope.find? at found ⊢; rwa [names] at found)
      listed := fun d lt other other' => binds.mpr (h.listed d lt other other')
      recorded := fun f p member => (h.recorded f p member).imp_right fun bound =>
        bound.imp fun _ both => ⟨keeps both.1, binds.mpr both.2⟩
      lies := fun id => by rw [size]; exact Nat.lt_succ_of_lt (h.lies id)
      saved := fun owns => by
        rw [size]
        rcases scopeOf?_openFor_cases owns with ⟨-, rfl⟩ | ⟨-, owns⟩
        · exact Nat.lt_succ_self _
        · exact Nat.lt_succ_of_lt (h.saved owns)
      distinct := fun {a b s} owns owns' => by
        rcases scopeOf?_openFor_cases owns with ⟨same, rfl⟩ | ⟨-, owns⟩ <;>
          rcases scopeOf?_openFor_cases owns' with ⟨same', new⟩ | ⟨-, owns'⟩
        · exact ScopeOwner.decl.inj (same.trans same'.symm)
        · exact absurd (h.saved owns') (Nat.lt_irrefl _)
        · subst new
          exact absurd (h.saved owns) (Nat.lt_irrefl _)
        · exact h.distinct owns owns'
      opened := fun {id s} owns => by
        rcases scopeOf?_openFor_cases owns with ⟨rfl, rfl⟩ | ⟨-, owns⟩
        · refine ⟨opens.1, (rankOpen_nextScope rank t).trans ?_⟩
          rw [show ((t.openFor (.decl id)).decl id).scope = t.innermost from opens.2.1, old inner]
        · obtain ⟨lt, deep⟩ := h.opened owns
          refine ⟨lt, ?_⟩
          rw [old (h.saved owns), deep]
          exact congrArg (· + 1) (old (h.lies id)).symm
      deeper := fun holder w member => by
        obtain ⟨lt, deep⟩ := h.deeper holder w member
        refine ⟨lt, ?_⟩
        have below := old (h.lies w)
        have above := old (h.lies holder)
        exact (above.trans_lt deep).trans_eq below.symm
      bodies := fun owns => by
        rcases scopeOf?_openFor_cases owns with ⟨rfl, -⟩ | ⟨-, owns⟩
        · exact opens
        · exact h.bodies owns
      begun_lt := h.begun_lt
      sorts := h.sorts
      traced := fun taken => (h.traced taken).imp_right merges
      once := fun taken b => h.once taken (binds.mp b) }

end Tidy

end SymbolTable

end Deferral
