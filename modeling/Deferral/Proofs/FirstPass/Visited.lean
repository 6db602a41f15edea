import Mathlib.Data.Set.Insert
import Deferral.Proofs.FirstPass.Run

/-!
# What passes visit

Declarations lie inside functions and classes, ranked by how deep they lie. What a pass has visited
has been announced, and with it everything inside it. As bodies are taken out while they are walked,
no more functions and classes are walked inside each other than have something inside them.
-/

namespace Deferral

/-- Whether the types of a declaration itself have been resolved. -/
def Decl.IsAnnounced (d : Decl) : Prop :=
  match d.kind with
  | .object _ type _ | .super type => type.isDeferred = false
  | .callable _ c => c.type ≠ .auto
  | .classDecl .primary kind _ => kind.isDeferred = false
  | .classDecl .extension _ _ => True
  | .parameter _ | .typeParameter => False

theorem Decl.isAnnounced_of_isExtension {d : Decl} (h : d.isExtension = true) :
    d.IsAnnounced := by
  unfold isExtension at h
  unfold IsAnnounced
  split at h <;> simp_all

theorem Decl.Evolves.isAnnounced {d d' : Decl} (h : d.Evolves d') (announced : d.IsAnnounced) :
    d'.IsAnnounced := by
  have evolves := h.kind
  unfold IsAnnounced at announced ⊢
  generalize d.kind = k at evolves announced
  generalize d'.kind = k' at evolves
  cases evolves with
  | object _ read _ _ => exact read announced
  | super _ read => exact read announced
  | callable _ known => exact (known announced).1
  | @classDecl sort _ _ _ _ _ read =>
    cases sort with
    | primary => exact read announced
    | extension => trivial
  | parameter _ _ => exact announced
  | typeParameter => exact announced

/-- What lies in a unit may be visited at the beginning. -/
structure SourceUnit.Placed (u : SourceUnit) (t : SymbolTable) : Prop where
  lt : ∀ w ∈ Stmt.declaresIn u.body, w.index < t.decls.size
  house : ∀ w ∈ Stmt.declaresIn u.body, ∀ c, t.scopeOf? (.decl c) ≠ some (t.decl w).scope

namespace SymbolTable

variable {t t' : SymbolTable} {rank : ScopeId → Nat} {S V : Set DeclId}

/-! ## Where declarations lie -/

/-- The declaration `w` may lie inside `h`: deeper than it, and in no other class. -/
structure Houses (rank : ScopeId → Nat) (t : SymbolTable) (h w : DeclId) : Prop where
  lt : w.index < t.decls.size
  deeper : rank (t.decl h).scope < rank (t.decl w).scope
  house : ∀ c, (t.decl c).isPrimaryClass = true →
    t.scopeOf? (.decl c) = some (t.decl w).scope → c = h

/-- Declarations lie where their scopes say: `rank` tells how deep a scope lies. -/
structure Placed (rank : ScopeId → Nat) (t : SymbolTable) : Prop where
  ordered : t.Ordered
  named : ∀ c, (t.decl c).isPrimaryClass = true → t.Binds (t.decl c).scope (t.decl c).name c
  level : ∀ {s name d}, t.Binds s name d → rank (t.decl d).scope = rank s
  opened : ∀ {id s}, t.scopeOf? (.decl id) = some s → rank s = rank (t.decl id).scope + 1
  inside : ∀ h, ∀ w ∈ (t.decl h).declares, t.Houses rank h w
  present : ∀ {s name d}, t.Binds s name d → d.index < t.decls.size
  owned : ∀ {id s}, t.scopeOf? (.decl id) = some s → id.index < t.decls.size

theorem Advances.isPrimaryClass (h : t.Advances t') (id : DeclId) :
    (t'.decl id).isPrimaryClass = (t.decl id).isPrimaryClass := by
  by_cases lt : id.index < t.decls.size
  · have evolves := (h.evolves.decls id lt).kind
    unfold Decl.isPrimaryClass
    generalize (t.decl id).kind = k at evolves
    generalize (t'.decl id).kind = k' at evolves
    cases evolves with
    | @classDecl sort _ _ _ _ => cases sort <;> rfl
    | _ => rfl
  · have outside : t.decls.size ≤ id.index := by omega
    simp [Decl.isPrimaryClass, h.added id outside, kind_eq_typeParameter outside]

theorem lt_size_of_isPrimaryClass {id : DeclId} (h : (t.decl id).isPrimaryClass = true) :
    id.index < t.decls.size := by
  refine lt_size_of_kind fun absent => ?_
  simp [Decl.isPrimaryClass, absent] at h

theorem lt_size_of_mem_declares {h w : DeclId} (member : w ∈ (t.decl h).declares) :
    h.index < t.decls.size := by
  refine lt_size_of_kind fun absent => ?_
  simp [Decl.declares, absent] at member

theorem Advances.scope (h : t.Advances t') {id : DeclId} (lt : id.index < t.decls.size) :
    (t'.decl id).scope = (t.decl id).scope :=
  (h.evolves.decls id lt).scope

theorem Advances.name (h : t.Advances t') {id : DeclId} (lt : id.index < t.decls.size) :
    (t'.decl id).name = (t.decl id).name :=
  (h.evolves.decls id lt).name

theorem Houses.of_advances {h w : DeclId} (houses : t.Houses rank h w)
    (lt : h.index < t.decls.size) (advances : t.Advances t') : t'.Houses rank h w := by
  refine ⟨Nat.lt_of_lt_of_le houses.lt advances.evolves.size, ?_, fun c primary owns => ?_⟩
  · rw [advances.scope lt, advances.scope houses.lt]
    exact houses.deeper
  · rw [advances.isPrimaryClass] at primary
    rw [advances.scopeOf?, advances.scope houses.lt] at owns
    exact houses.house c primary owns

/-- Declarations stay where they lie as long as nothing is put where it may not lie. -/
theorem Placed.of_binds (h : t.Placed rank) (advances : t.Advances t') (ordered : t'.Ordered)
    (old : ∀ c, (t.decl c).isPrimaryClass = true → t'.Binds (t.decl c).scope (t.decl c).name c)
    (new : ∀ {s name d}, t'.Binds s name d →
      d.index < t'.decls.size ∧ rank (t'.decl d).scope = rank s)
    (inside : ∀ h w, w ∈ (t'.decl h).declares → t.Houses rank h w ∧ h.index < t.decls.size) :
    t'.Placed rank where
  ordered := ordered
  named c primary := by
    rw [advances.isPrimaryClass] at primary
    have lt := lt_size_of_isPrimaryClass primary
    rw [advances.scope lt, advances.name lt]
    exact old c primary
  level b := (new b).2
  opened {id s} owns := by
    rw [advances.scopeOf?] at owns
    rw [advances.scope (h.owned owns)]
    exact h.opened owns
  inside holder w member := by
    obtain ⟨houses, lt⟩ := inside holder w member
    exact houses.of_advances lt advances
  present b := (new b).1
  owned {id s} owns := by
    rw [advances.scopeOf?] at owns
    exact Nat.lt_of_lt_of_le (h.owned owns) advances.evolves.size

/-- Type parameters may be bound, and contents taken out or put back. -/
theorem Placed.of_bindsMade (h : t.Placed rank) (advances : t.Advances t') (binds : t.BindsMade t')
    (inside : ∀ h w, w ∈ (t'.decl h).declares → t.Houses rank h w ∧ h.index < t.decls.size) :
    t'.Placed rank := by
  refine h.of_binds advances (binds.ordered h.ordered) (fun c primary => binds.old (h.named c primary))
    (fun {s name d} b => ?_) inside
  rcases binds.new b with b | made
  · have lt := h.present b
    refine ⟨Nat.lt_of_lt_of_le lt advances.evolves.size, ?_⟩
    rw [advances.scope lt]
    exact h.level b
  · exact ⟨made.lt, congrArg rank made.scope⟩

theorem Placed.idles (h : t.Placed rank) (idles : t.Idles t') : t'.Placed rank := by
  refine h.of_bindsMade idles.advances idles.binds fun holder w member => ?_
  rw [idles.keeps.declares] at member
  exact ⟨h.inside holder w member, lt_size_of_mem_declares member⟩

/-! ## What has been visited -/

/-- No extension is left in the statements inside a function or a class, and its scopes are saved. -/
structure Neat (t : SymbolTable) (id : DeclId) : Prop where
  body : ∀ s, (t.decl id).body = .statement s → s.merged t = s ∧ t.HasBlocks s.blocks
  members : Stmt.mergedIn t (t.members id) = t.members id ∧
    t.HasBlocks (Stmt.blocksIn (t.members id))
  scope : (t.decl id).IsBare ∨ ∃ s, t.scopeOf? (.decl id) = some s

theorem Advances.hasBlocks (h : t.Advances t') {blocks : List Nat} (has : t.HasBlocks blocks) :
    t'.HasBlocks blocks :=
  fun b member => h.scopeOf? (.block b) ▸ has b member

theorem neat_of_isBare {id : DeclId} (h : (t.decl id).IsBare) : t.Neat id := by
  have members : t.members id = [] := by simp [SymbolTable.members, h.members]
  refine ⟨fun s same => ?_, ?_, .inl h⟩
  · rw [h.body] at same
    cases same
  · rw [members]
    exact ⟨rfl, fun _ none => (by cases none)⟩

theorem Neat.of_advances {id : DeclId} (h : t.Neat id) (advances : t.Advances t')
    (lt : id.index < t.decls.size)
    (body : (t'.decl id).body = (t.decl id).body ∨ (t'.decl id).body = .absent)
    (members : t'.members id = t.members id ∨ t'.members id = []) : t'.Neat id := by
  refine ⟨fun s same => ?_, ?_, ?_⟩
  · rcases body with kept | out
    · obtain ⟨merged, blocks⟩ := h.body s (kept.symm.trans same)
      exact ⟨(Stmt.merged_congr advances.isExtension s).trans merged, advances.hasBlocks blocks⟩
    · rw [out] at same
      cases same
  · rcases members with kept | out
    · rw [kept, Stmt.mergedIn_congr advances.isExtension]
      exact ⟨h.members.1, advances.hasBlocks h.members.2⟩
    · rw [out]
      exact ⟨rfl, fun _ none => (by cases none)⟩
  · rcases h.scope with bare | ⟨s, owns⟩
    · exact .inl (advances.evolves.isBare lt bare)
    · exact .inr ⟨s, (advances.scopeOf? _).trans owns⟩

/-- A declaration has been visited by the first pass while it is inside the classes `S` and has
visited `V`. -/
structure Visits (S V : Set DeclId) (t : SymbolTable) (v : DeclId) : Prop where
  lt : v.index < t.decls.size
  announced : (t.decl v).IsAnnounced
  house : ∀ c, (t.decl c).isPrimaryClass = true →
    t.scopeOf? (.decl c) = some (t.decl v).scope → c ∈ S ∨ c ∈ V
  inside : (t.decl v).isExtension = false → ∀ w ∈ (t.decl v).declares, w ∈ V
  neat : (t.decl v).isExtension = false → t.Neat v
  drained : (t.decl v).isPrimaryClass = true →
    ∀ d, t.Binds (t.decl v).scope (t.decl v).name d → (t.decl d).isExtension = false

/-- The declarations `V` have been visited. -/
def Visited (S V : Set DeclId) (t : SymbolTable) : Prop := ∀ v ∈ V, t.Visits S V v

theorem Visits.mono {v : DeclId} (h : t.Visits S V v) {S' V' : Set DeclId}
    (house : ∀ c, c ∈ S ∨ c ∈ V → c ∈ S' ∨ c ∈ V') (within : V ⊆ V') : t.Visits S' V' v where
  __ := h
  house c primary owns := house c (h.house c primary owns)
  inside other w member := within (h.inside other w member)

/-- What has been visited stays so as long as nothing is put into it and no extension is bound to
the name of a class. -/
theorem Visits.of_advances {v : DeclId} (h : t.Visits S V v) (advances : t.Advances t')
    (body : (t'.decl v).body = (t.decl v).body ∨ (t'.decl v).body = .absent)
    (members : (t.decl v).isExtension = false → t'.members v = t.members v ∨ t'.members v = [])
    (drained : (t.decl v).isPrimaryClass = true →
      ∀ d, t'.Binds (t.decl v).scope (t.decl v).name d → (t'.decl d).isExtension = false) :
    t'.Visits S V v where
  lt := Nat.lt_of_lt_of_le h.lt advances.evolves.size
  announced := (advances.evolves.decls v h.lt).isAnnounced h.announced
  house c primary owns := by
    rw [advances.isPrimaryClass] at primary
    rw [advances.scopeOf?, advances.scope h.lt] at owns
    exact h.house c primary owns
  inside other w inside := by
    rw [advances.isExtension] at other
    refine h.inside other w ?_
    rw [declares_eq] at inside ⊢
    rcases List.mem_append.mp inside with inside | inside
    · rcases body with kept | out
      · exact List.mem_append_left _ (kept ▸ inside)
      · rw [out] at inside
        cases inside
    · rcases members other with kept | out
      · exact List.mem_append_right _ (kept ▸ inside)
      · rw [out] at inside
        cases inside
  neat other := by
    rw [advances.isExtension] at other
    exact (h.neat other).of_advances advances h.lt body (members other)
  drained primary := by
    rw [advances.isPrimaryClass] at primary
    rw [advances.scope h.lt, advances.name h.lt]
    exact drained primary

theorem IsMade.not_isExtension {s : ScopeId} {d : DeclId} (h : t.IsMade s d) :
    (t.decl d).isExtension = false := by
  simp [Decl.isExtension, h.kind]

/-- Type parameters are no extensions. -/
theorem Visits.drained_of_bindsMade {v : DeclId} (h : t.Visits S V v) (advances : t.Advances t')
    (binds : t.BindsMade t') : (t.decl v).isPrimaryClass = true →
      ∀ d, t'.Binds (t.decl v).scope (t.decl v).name d → (t'.decl d).isExtension = false := by
  intro primary d b
  rcases binds.new b with b | made
  · rw [advances.isExtension]
    exact h.drained primary d b
  · exact made.not_isExtension

/-- What has been visited stays so while what is inside it is taken out. -/
theorem Visited.of_bindsMade (h : t.Visited S V) (advances : t.Advances t')
    (binds : t.BindsMade t')
    (body : ∀ v ∈ V, (t'.decl v).body = (t.decl v).body ∨ (t'.decl v).body = .absent)
    (members : ∀ v ∈ V, t'.members v = t.members v ∨ t'.members v = []) : t'.Visited S V :=
  fun v member => (h v member).of_advances advances (body v member) (fun _ => members v member)
    ((h v member).drained_of_bindsMade advances binds)

theorem Visited.idles (h : t.Visited S V) (idles : t.Idles t') : t'.Visited S V :=
  h.of_bindsMade idles.advances idles.binds (fun v _ => .inl (idles.keeps.body v))
    fun v _ => .inl (idles.keeps.members v)

/-! ## How deep passes go -/

/-- No more than `n` functions and classes have declarations inside them. -/
def Bounded (n : Nat) (t : SymbolTable) : Prop :=
  ∃ holders : List DeclId, holders.length ≤ n ∧ ∀ id, (t.decl id).declares ≠ [] → id ∈ holders

theorem Bounded.of_declares {n : Nat} (h : t.Bounded n)
    (same : ∀ id, (t'.decl id).declares = (t.decl id).declares) : t'.Bounded n := by
  obtain ⟨holders, le, all⟩ := h
  exact ⟨holders, le, fun id some => all id (same id ▸ some)⟩

theorem Bounded.mono {n m : Nat} (h : t.Bounded n) (le : n ≤ m) : t.Bounded m := by
  obtain ⟨holders, short, all⟩ := h
  exact ⟨holders, short.trans le, all⟩

/-- There are no more than there are declarations. -/
theorem bounded_size (t : SymbolTable) : t.Bounded t.decls.size := by
  refine ⟨(List.range t.decls.size).map DeclId.mk, by simp, fun id some => ?_⟩
  obtain ⟨w, member⟩ := List.exists_mem_of_ne_nil _ some
  have lt := lt_size_of_mem_declares member
  exact List.mem_map.mpr ⟨id.index, List.mem_range.mpr lt, rfl⟩

/-- While what is inside `id` is taken out there is one fewer, if there was anything. -/
theorem Bounded.walk {n level : Nat} (h : t.Bounded n) (lt : n < level + 1) (id : DeclId)
    (out : (t'.decl id).declares = [])
    (others : ∀ other, other ≠ id → (t'.decl other).declares = (t.decl other).declares) :
    ∃ m, t'.Bounded m ∧ ((t.decl id).declares ≠ [] → m < level) ∧
      ∀ {t₁ t₂ : SymbolTable}, t₁.Bounded m →
        (∀ other, other ≠ id → (t₂.decl other).declares = (t₁.decl other).declares) →
        ((t.decl id).declares = [] → (t₂.decl id).declares = []) → t₂.Bounded n := by
  obtain ⟨holders, le, all⟩ := h
  by_cases empty : (t.decl id).declares = []
  · refine ⟨n, ⟨holders, le, fun other some => ?_⟩, fun some => absurd empty some, ?_⟩
    · have ne : other ≠ id := by
        rintro rfl
        exact some out
      exact all other (others other ne ▸ some)
    · intro t₁ t₂ bounded others' out'
      obtain ⟨holders, le, all⟩ := bounded
      refine ⟨holders, le, fun other some => ?_⟩
      have ne : other ≠ id := by
        rintro rfl
        exact some (out' empty)
      exact all other (others' other ne ▸ some)
  · have member := all id empty
    have positive := List.length_pos_of_mem member
    refine ⟨n - 1, ⟨holders.erase id, ?_, fun other some => ?_⟩, fun _ => by omega, ?_⟩
    · rw [List.length_erase_of_mem member]
      omega
    · have ne : other ≠ id := by
        rintro rfl
        exact some out
      exact (List.mem_erase_of_ne ne).mpr (all other (others other ne ▸ some))
    · intro t₁ t₂ bounded others' _
      obtain ⟨holders', le', all'⟩ := bounded
      refine ⟨id :: holders', ?_, fun other some => ?_⟩
      · rw [List.length_cons]
        omega
      · by_cases same : other = id
        · simp [same]
        · exact List.mem_cons_of_mem _ (all' other (others' other same ▸ some))

end SymbolTable

end Deferral
