import Deferral.Proofs.FirstPass.Declaration
import Deferral.Proofs.Scope.Open
import Deferral.Proofs.Scope.Signature

/-!
# What a quiet first pass keeps

While functions and classes are opened, initializers that refer to anything lie in open scopes and
are lexical there. A class that is open has absorbed all its extensions, and the names of these are
gone once it is left.
-/

namespace Deferral

namespace SymbolTable

variable {t t' t'' : SymbolTable} {rank : ScopeId → Nat} {S S' D D' D'' : Set DeclId}
  {s scope : ScopeId} {id : DeclId}

/-! ## Expressions inside functions and classes -/

/-- The expressions inside functions and classes have not been read. -/
structure Unread (t : SymbolTable) : Prop where
  body : ∀ id, ∀ e ∈ (t.decl id).body.expressions, e.excerpt?.isSome = true
  members : ∀ id, ∀ e ∈ Stmt.expressionsIn (t.members id), e.excerpt?.isSome = true

theorem Unread.keeps (h : t.Unread) (keeps : t.Keeps t') : t'.Unread :=
  ⟨fun id => by rw [keeps.body]; exact h.body id,
    fun id => by rw [keeps.members]; exact h.members id⟩

/-- Expressions are taken out, or put in that have not been read. -/
theorem Unread.of_cases (h : t.Unread)
    (body : ∀ id, (t'.decl id).body = (t.decl id).body ∨
      ∀ e ∈ (t'.decl id).body.expressions, e.excerpt?.isSome = true)
    (members : ∀ id, t'.members id = t.members id ∨
      ∀ e ∈ Stmt.expressionsIn (t'.members id), e.excerpt?.isSome = true) : t'.Unread := by
  constructor
  · intro id e member
    rcases body id with same | unread
    · exact h.body id e (same ▸ member)
    · exact unread e member
  · intro id e member
    rcases members id with same | unread
    · exact h.members id e (same ▸ member)
    · exact unread e member

theorem Unread.absorb (h : t.Unread) {cls e : DeclId} (primary : (t.decl cls).isPrimaryClass = true)
    (extension : (t.decl e).isExtension = true) (inner outer : ScopeId) :
    (t.absorb cls e inner outer).Unread := by
  refine h.of_cases (fun id => .inl (body_absorb ..)) fun id => ?_
  rw [members_absorb primary extension]
  split
  · refine .inr fun e' member => ?_
    rw [Stmt.expressionsIn_append] at member
    rcases List.mem_append.mp member with member | member
    · exact h.members cls e' member
    · exact h.members e e' member
  · split
    · exact .inr fun e' none => by cases none
    · exact .inl rfl

/-! ## More open scopes -/

/-- Scopes stay open as more functions and classes are opened, and enclose what they enclosed. -/
structure Widens (D : Set DeclId) (t : SymbolTable) (D' : Set DeclId) (t' : SymbolTable) :
    Prop where
  within : D ⊆ D'
  opened : ∀ {s}, t.Open D s → t'.Open D' s
  encloses : ∀ {a s}, t.Encloses a s → t'.Encloses a s

namespace Widens

theorem refl (D : Set DeclId) (t : SymbolTable) : Widens D t D t :=
  ⟨subset_rfl, fun opened => opened, fun encloses => encloses⟩

theorem trans (h : Widens D t D' t') (h' : Widens D' t' D'' t'') : Widens D t D'' t'' :=
  ⟨h.within.trans h'.within, fun opened => h'.opened (h.opened opened),
    fun encloses => h'.encloses (h.encloses encloses)⟩

theorem insert (D : Set DeclId) (t : SymbolTable) (id : DeclId) :
    Widens D t (Insert.insert id D) t :=
  ⟨Set.subset_insert id D, fun opened => opened.mono (Set.subset_insert id D),
    fun encloses => encloses⟩

theorem liesWithin (h : Widens D t D' t') (advances : t.Advances t') {holder w : DeclId}
    (lies : t.LiesWithin D holder w) : t'.LiesWithin D' holder w := by
  obtain ⟨lt, id, a, held, owns, encloses⟩ := lies
  refine ⟨Nat.lt_of_lt_of_le lt advances.evolves.size, id, a,
    held.imp_right fun member => h.within member, (advances.scopeOf? _).trans owns, ?_⟩
  rw [advances.scope lt]
  exact h.encloses encloses

end Widens

theorem Stays.widens (h : t.Stays t') (nested : t.Nested D) : Widens D t D t' :=
  ⟨subset_rfl, fun opened => h.open nested opened, fun encloses => h.encloses nested encloses⟩

/-! ## The state of the pass -/

/-- No two classes have the same name. -/
def UniqueClasses (t : SymbolTable) : Prop :=
  ∀ c c', (t.decl c).isPrimaryClass = true → (t.decl c').isPrimaryClass = true →
    (t.decl c).name = (t.decl c').name → c = c'

/-- All that a quiet first pass keeps and is to go on from while it has opened `D` and is inside the
classes `S`. -/
structure Opened (rank : ScopeId → Nat) (S D : Set DeclId) (t : SymbolTable) : Prop where
  sound : t.Sound
  placed : t.Placed rank
  nested : t.Nested D
  present : ∀ c ∈ S, c.index < t.decls.size
  initializers : t.LexicalIn (t.Open D)
  drained : ∀ c ∈ D, (t.decl c).isPrimaryClass = true → c ∈ S ∨
    ∀ d, t.Binds (t.decl c).scope (t.decl c).name d → (t.decl d).isExtension = false
  merged : ∀ e ∈ D, (t.decl e).isExtension = true →
    ∃ c ∈ D, (t.decl c).isPrimaryClass = true ∧ (t.decl c).name = (t.decl e).name
  signed : ∀ f ∈ D, ∀ sort c, (t.decl f).kind = .callable sort c → c.type ≠ .auto
  unique : t.UniqueClasses
  unread : t.Unread

/-- A declaration that the pass comes to: in an open scope, deeper than the classes it is inside. -/
structure Stands (rank : ScopeId → Nat) (S D : Set DeclId) (t : SymbolTable) (id : DeclId) :
    Prop where
  lt : id.index < t.decls.size
  outer : t.Open D (t.decl id).scope
  deeper : ∀ c ∈ S, rank (t.decl c).scope < rank (t.decl id).scope

theorem Stands.of_widens (h : t.Stands rank S D id) (advances : t.Advances t')
    (present : ∀ c ∈ S, c.index < t.decls.size) (widens : Widens D t D' t') :
    t'.Stands rank S D' id := by
  refine ⟨Nat.lt_of_lt_of_le h.lt advances.evolves.size, ?_, fun c member => ?_⟩
  · rw [advances.scope h.lt]
    exact widens.opened h.outer
  · rw [advances.scope h.lt, advances.scope (present c member)]
    exact h.deeper c member

/-- A function that has got its signature keeps it. -/
theorem signed_of_evolves (evolves : t.Evolves t')
    (signed : ∀ sort c, (t.decl id).kind = .callable sort c → c.type ≠ .auto)
    (lt : id.index < t.decls.size) :
    ∀ sort c, (t'.decl id).kind = .callable sort c → c.type ≠ .auto := by
  intro sort c kind
  have evolves := (evolves.decls id lt).kind
  rw [kind] at evolves
  generalize same : (t.decl id).kind = k at evolves
  cases evolves with
  | callable _ known => exact (known (signed _ _ same)).1

theorem uniqueClasses_congr (advances : t.Advances t') : t'.UniqueClasses ↔ t.UniqueClasses := by
  have same : ∀ c c', (t.decl c).isPrimaryClass = true → (t.decl c').isPrimaryClass = true →
      ((t'.decl c).name = (t'.decl c').name ↔ (t.decl c).name = (t.decl c').name) := by
    intro c c' primary primary'
    rw [advances.name (lt_size_of_isPrimaryClass primary),
      advances.name (lt_size_of_isPrimaryClass primary')]
  unfold UniqueClasses
  simp only [advances.isPrimaryClass]
  constructor
  · exact fun unique c c' primary primary' named =>
      unique c c' primary primary' ((same c c' primary primary').mpr named)
  · exact fun unique c c' primary primary' named =>
      unique c c' primary primary' ((same c c' primary primary').mp named)

namespace Opened

theorem lt_of_mem (h : t.Opened rank S D) (member : id ∈ D) : id.index < t.decls.size := by
  obtain ⟨a, owns, -⟩ := h.nested.reached id member
  exact h.placed.owned owns

theorem legible (h : t.Opened rank S D) : t.Legible (t.Open D) := h.nested.legible h.initializers

/-- The pass may come to what lies inside an open function or class. -/
theorem stands_of_declares (h : t.Opened rank S D) (member : id ∈ D)
    (deeper : ∀ c ∈ S, rank (t.decl c).scope ≤ rank (t.decl id).scope) {w : DeclId}
    (inside : w ∈ (t.decl id).declares) : t.Stands rank S D w :=
  have houses := h.placed.inside id w inside
  ⟨houses.lt, h.nested.open_of_declares member inside,
    fun c held => Nat.lt_of_le_of_lt (deeper c held) houses.deeper⟩

/-! ## Steps that open nothing -/

theorem of_stays (h : t.Opened rank S D) (stays : t.Stays t') (placed : t'.Placed rank)
    (initializers : t'.LexicalIn (t'.Open D))
    (inside : ∀ holder, ∀ w ∈ (t'.decl holder).declares, t.LiesWithin D holder w)
    (unread : t'.Unread) : t'.Opened rank S D where
  sound := stays.advances.sound h.sound
  placed := placed
  nested := stays.nested h.placed h.nested inside
  present c member := Nat.lt_of_lt_of_le (h.present c member) stays.advances.evolves.size
  initializers := initializers
  drained c member primary := by
    rw [stays.advances.isPrimaryClass] at primary
    rw [stays.advances.scope (h.lt_of_mem member), stays.advances.name (h.lt_of_mem member)]
    refine (h.drained c member primary).imp_right fun drained d b => ?_
    rcases stays.binds b with b | made
    · rw [stays.advances.isExtension]
      exact drained d b
    · exact made.not_isExtension
  merged e member extension := by
    rw [stays.advances.isExtension] at extension
    obtain ⟨c, held, primary, name⟩ := h.merged e member extension
    refine ⟨c, held, (stays.advances.isPrimaryClass c).trans primary, ?_⟩
    rw [stays.advances.name (h.lt_of_mem held), stays.advances.name (h.lt_of_mem member), name]
  signed f member :=
    signed_of_evolves stays.advances.evolves (h.signed f member) (h.lt_of_mem member)
  unique := (uniqueClasses_congr stays.advances).mpr h.unique
  unread := unread

/-- Names are bound in open scopes. -/
theorem settle (h : t.Opened rank S D) (idles : t.Idles t') (names : t.Names (t.Open D) t') :
    t'.Opened rank S D := by
  have stays := Stays.of_scopes idles.advances names.scopes
  refine h.of_stays stays (h.placed.idles idles)
    ((names.legible h.legible).initializers.mono fun s => stays.open h.nested)
    (fun holder w member => ?_) (h.unread.keeps idles.keeps)
  rw [idles.keeps.declares] at member
  exact h.nested.liesWithin h.placed member

/-- Declarations keep their initializers and open scopes what is bound in them. -/
theorem of_agreesOn (h : t.Opened rank S D) (stays : t.Stays t') (placed : t'.Placed rank)
    (agree : ∀ s, t.Open D s → t.AgreesOn t' s)
    (initializers : ∀ id, (t'.decl id).initializer? = (t.decl id).initializer?)
    (inside : ∀ holder, ∀ w ∈ (t'.decl holder).declares, t.LiesWithin D holder w)
    (unread : t'.Unread) : t'.Opened rank S D := by
  refine h.of_stays stays placed (h.initializers.of_agreesOn stays.size
    (fun s opened a around => agree a (h.nested.around opened around))
    (fun s opened => stays.open h.nested opened) initializers fun id e init => ?_) inside unread
  obtain ⟨sort, type, kind⟩ := Decl.kind_of_initializer? init
  exact stays.advances.scope (lt_size_of_kind (by simp [kind]))

/-- What is inside functions and classes is taken out, or put back where it may lie. -/
theorem refill (h : t.Opened rank S D) (advances : t.Advances t') (scopes : t'.scopes = t.scopes)
    (initializers : ∀ id, (t'.decl id).initializer? = (t.decl id).initializer?)
    (inside : ∀ holder, ∀ w ∈ (t'.decl holder).declares, t.Houses rank holder w ∧
      holder.index < t.decls.size ∧ t.LiesWithin D holder w)
    (unread : t'.Unread) : t'.Opened rank S D := by
  refine h.of_agreesOn (.of_scopes advances scopes) (h.placed.of_bindsMade advances
    (.of_scopes scopes) fun holder w member => ?_)
    (fun s _ => .of_scope advances.isExtension (scope_congr scopes s)) initializers
    (fun holder w member => (inside holder w member).2.2) unread
  obtain ⟨houses, lt, -⟩ := inside holder w member
  exact ⟨houses, lt⟩

/-- What is inside functions and classes is taken out of some. -/
theorem takeOut (h : t.Opened rank S D) (advances : t.Advances t') (scopes : t'.scopes = t.scopes)
    (initializers : ∀ id, (t'.decl id).initializer? = (t.decl id).initializer?)
    (body : ∀ v, (t'.decl v).body = (t.decl v).body ∨ (t'.decl v).body = .absent)
    (members : ∀ v, t'.members v = t.members v ∨ t'.members v = []) : t'.Opened rank S D := by
  refine h.refill advances scopes initializers (fun holder w member => ?_)
    (h.unread.of_cases (fun v => (body v).imp_right fun out => ?_)
      fun v => (members v).imp_right fun out => ?_)
  · have inside : w ∈ (t.decl holder).declares := by
      rw [declares_eq] at member ⊢
      rcases List.mem_append.mp member with member | member
      · rcases body holder with kept | out
        · exact List.mem_append_left _ (kept ▸ member)
        · rw [out] at member
          cases member
      · rcases members holder with kept | out
        · exact List.mem_append_right _ (kept ▸ member)
        · rw [out] at member
          cases member
    exact ⟨h.placed.inside holder w inside, lt_size_of_mem_declares inside,
      h.nested.liesWithin h.placed inside⟩
  · rw [out]
    exact fun _ none => by cases none
  · rw [out]
    exact fun _ none => by cases none

/-- Something is put into `id` that may lie there and has not been read. -/
theorem fill (h : t.Opened rank S D) (advances : t.Advances t') (scopes : t'.scopes = t.scopes)
    (initializers : ∀ id, (t'.decl id).initializer? = (t.decl id).initializer?)
    (lt : id.index < t.decls.size) (others : ∀ other, other ≠ id → t'.decl other = t.decl other)
    (lies : ∀ w ∈ (t'.decl id).declares, t.Houses rank id w ∧ t.LiesWithin D id w)
    (body : ∀ e ∈ (t'.decl id).body.expressions, e.excerpt?.isSome = true)
    (members : ∀ e ∈ Stmt.expressionsIn (t'.members id), e.excerpt?.isSome = true) :
    t'.Opened rank S D := by
  refine h.refill advances scopes initializers (fun holder w member => ?_)
    (h.unread.of_cases (fun v => ?_) fun v => ?_)
  · by_cases same : holder = id
    · subst same
      exact ⟨(lies w member).1, lt, (lies w member).2⟩
    · rw [others holder same] at member
      exact ⟨h.placed.inside holder w member, lt_size_of_mem_declares member,
        h.nested.liesWithin h.placed member⟩
  · by_cases same : v = id
    · exact .inr (same ▸ body)
    · exact .inl (by rw [others v same])
  · by_cases same : v = id
    · exact .inr (same ▸ members)
    · exact .inl (by simp only [SymbolTable.members, others v same])

theorem of_active (h : t.Opened rank S D) (active : List ScopeId) :
    { t with active }.Opened rank S D := by
  have opened : ∀ {s}, t.Open D s → { t with active }.Open D s := fun h => ⟨h.lt, h.owners⟩
  exact
    { sound := h.sound.of_same rfl rfl
      placed :=
        { ordered := h.placed.ordered
          named := h.placed.named
          level := h.placed.level
          opened := h.placed.opened
          inside := fun a b member =>
            let houses := h.placed.inside a b member
            ⟨houses.lt, houses.deeper, houses.house⟩
          present := h.placed.present
          owned := h.placed.owned }
      nested :=
        { distinct := h.nested.distinct
          owned := h.nested.owned
          parents := h.nested.parents
          reached := fun id member => by
            obtain ⟨a, owns, reached⟩ := h.nested.reached id member
            exact ⟨a, owns, opened reached⟩
          within := h.nested.within
          bound := h.nested.bound
          titled := h.nested.titled
          encloses := h.nested.encloses
          constants := h.nested.constants }
      present := h.present
      initializers := fun id e init refers => by
        obtain ⟨inside, lexical⟩ := h.initializers id e init refers
        exact ⟨opened inside, lexical.of_scopes rfl fun _ => rfl⟩
      drained := h.drained
      merged := h.merged
      signed := h.signed
      unique := h.unique
      unread := ⟨h.unread.body, h.unread.members⟩ }

/-- A scope is added inside one that is saved. -/
theorem addScope (h : t.Opened rank S D) (idles : t.Idles (t.addScope scope))
    (lt : scope.index < t.scopes.size) : (t.addScope scope).Opened rank S D ∧
      Widens D t D (t.addScope scope) := by
  have parents : ∀ s, s.index < t.scopes.size →
      ((t.addScope scope).scope s).parent = (t.scope s).parent :=
    fun s lt => by rw [scope_addScope_of_lt lt]
  have size : t.scopes.size + 1 = (t.addScope scope).scopes.size := by
    simp [SymbolTable.addScope]
  have stays : t.Stays (t.addScope scope) := by
    refine ⟨idles.advances, by omega, parents, fun {s p} inside => ?_, idles.binds.new⟩
    by_cases old : s.index < t.scopes.size
    · refine .inl ?_
      unfold IsInside at inside ⊢
      rw [← parents s old]
      exact inside
    · unfold IsInside at inside
      by_cases next : s = t.nextScope
      · rw [next, scope_addScope_nextScope] at inside
        obtain rfl := Option.some.inj inside
        exact .inr (by omega)
      · have ne : s.index ≠ t.scopes.size := fun same => next (congrArg ScopeId.mk same)
        have none : ((t.addScope scope).scope s).parent = none := by
          simp [SymbolTable.scope, SymbolTable.addScope, Array.getD_eq_getD_getElem?,
            Array.getElem?_push, ne, old]
          rfl
        rw [none] at inside
        cases inside
  refine ⟨h.of_agreesOn stays (h.placed.idles idles) (fun s opened => ?_) (fun _ => rfl)
    (fun holder w member => ?_) (h.unread.keeps idles.keeps), stays.widens h.nested⟩
  · exact .of_scope (fun _ => rfl) (scope_addScope_of_lt opened.lt scope)
  · exact h.nested.liesWithin h.placed member

/-- Extensions lose the name that they share with their class. -/
theorem keepOnly (h : t.Opened rank S D) (scope : ScopeId) (name : String) :
    (t.keepOnly scope name fun d => !d.isExtension).Opened rank S D ∧
      Widens D t D (t.keepOnly scope name fun d => !d.isExtension) := by
  have advances := Advances.keepOnly h.sound scope name
  have decl : ∀ id, (t.keepOnly scope name fun d => !d.isExtension).decl id = t.decl id :=
    decl_keepOnly t scope name _
  have others : ∀ s, (t.keepOnly scope name fun d => !d.isExtension).scope s = t.scope s ∨
      s = scope ∧ ∃ set, (t.scope scope).find? name = some set ∧
        (t.keepOnly scope name fun d => !d.isExtension).scope s = { t.scope s with
          names := Names.alter name (List.filter fun d => !(t.decl d).isExtension)
            (t.scope s).names } := by
    intro s
    unfold SymbolTable.keepOnly
    split
    · exact .inl rfl
    · rename_i set found
      rw [scope_modifyScope]
      split
      · rename_i same
        obtain ⟨rfl, -⟩ := same
        exact .inr ⟨rfl, set, found, rfl⟩
      · exact .inl rfl
  have parents : ∀ s, ((t.keepOnly scope name fun d => !d.isExtension).scope s).parent =
      (t.scope s).parent := by
    intro s
    rcases others s with same | ⟨-, -, -, same⟩ <;> rw [same]
  have stays : t.Stays (t.keepOnly scope name fun d => !d.isExtension) := by
    refine ⟨advances, ?_, fun s _ => parents s, fun {s p} inside => .inl ?_, fun b =>
      .inl ((binds_keepOnly h.placed.ordered).mp b).1⟩
    · unfold SymbolTable.keepOnly
      split
      · exact Nat.le_refl _
      · simp [modifyScope]
    · unfold IsInside at inside ⊢
      rw [← parents s]
      exact inside
  refine ⟨h.of_agreesOn stays (h.placed.keepOnly h.sound scope name) (fun s _ => ⟨parents s, ?_⟩)
    (fun id => by rw [decl]) (fun holder w member => ?_) (h.unread.of_cases
      (fun id => .inl (by rw [decl])) fun id => .inl (by simp only [SymbolTable.members, decl])),
    stays.widens h.nested⟩
  · intro other
    rw [firstProper?_congr advances.isExtension]
    rcases others s with same | ⟨rfl, set, found, same⟩
    · rw [same]
    · rw [same]
      by_cases named : other = name
      · subst named
        unfold Scope.find? at found ⊢
        rw [Names.find?_alter_self (h.placed.ordered s), found]
        simp [firstProper?, List.find?_filter]
      · unfold Scope.find?
        rw [Names.find?_alter_of_ne named]
  · rw [decl] at member
    exact h.nested.liesWithin h.placed member

/-! ## Functions and classes -/

/-- A function or class in an open scope is opened, with its signature or its extensions absorbed. -/
theorem insert (h : t.Opened rank S D) (owns : t.scopeOf? (.decl id) = some scope)
    (other : (t.decl id).isExtension = false) (outer : t.Open D (t.decl id).scope)
    (drained : (t.decl id).isPrimaryClass = true → id ∈ S ∨
      ∀ d, t.Binds (t.decl id).scope (t.decl id).name d → (t.decl d).isExtension = false)
    (signed : ∀ sort c, (t.decl id).kind = .callable sort c → c.type ≠ .auto) :
    t.Opened rank S (Insert.insert id D) :=
  { h with
    nested := h.nested.insert owns other outer
    initializers := h.initializers.mono fun s opened => opened.mono (Set.subset_insert id D)
    drained := fun d member isClass => by
      rcases member with rfl | member
      · exact drained isClass
      · exact h.drained d member isClass
    merged := fun e member extension => by
      rcases member with rfl | member
      · rw [other] at extension
        cases extension
      · obtain ⟨d, held, rest⟩ := h.merged e member extension
        exact ⟨d, .inr held, rest⟩
    signed := fun f member => by
      rcases member with rfl | member
      · exact signed
      · exact h.signed f member }

open Signature in
/-- A function that lies in an open scope is opened once it has its signature. -/
theorem sign (h : t.Opened rank S D) {sort : CallableSort} {c : Callable}
    (owns : t.scopeOf? (.decl id) = some scope) (kind : (t.decl id).kind = .callable sort c)
    (outer : t.Open D (t.decl id).scope)
    (run : Resolution.Runs (functionSignature id scope c) t (.ok ()) t')
    (given : Given id sort c scope t t') :
    t'.Opened rank S (Insert.insert id D) ∧ Widens D t (Insert.insert id D) t' := by
  have callable : (t.decl id).callable?.isSome = true := by simp [Decl.callable?, kind]
  obtain ⟨t₁, names, rebinds, settled⟩ := names_functionSignature h.sound kind h.legible
    (h.nested.sees_of_callable callable owns outer) run
  have advances := given.idles.advances
  have scopes₁ := scope_congr names.scopes
  have parents : ∀ s, (t'.scope s).parent = (t.scope s).parent :=
    fun s => by rw [rebinds.parents, scopes₁]
  have stays : t.Stays t' := by
    refine ⟨advances, by rw [rebinds.size, names.scopes], fun s _ => parents s,
      fun {s p} inside => .inl ?_, given.idles.binds.new⟩
    unfold IsInside at inside ⊢
    rw [← parents s]
    exact inside
  -- The names of an open scope change only if it is the function's own, and it has them all then.
  have agree : ∀ s, t.Open D s → t₁.AgreesOn t' s := by
    intro s opened
    by_cases same : s = scope
    · refine .of_scope rebinds.extensions (scope_congr (settled ?_) s)
      exact h.signed id (opened.owners s id .refl (same ▸ owns)) sort c kind
    · exact .of_scope rebinds.extensions (rebinds.others s same)
  have initializers : t'.LexicalIn (t'.Open D) := by
    refine (names.legible h.legible).initializers.of_agreesOn rebinds.size.ge
      (fun s opened a around => agree a (h.nested.around opened ?_))
      (fun s opened => stays.open h.nested opened) rebinds.initializers fun id _ _ => rebinds.scopes id
    exact around_of_parents around fun a _ => by rw [scopes₁]
  have after := h.of_stays stays (h.placed.idles given.idles) initializers
    (fun holder w member => by
      rw [given.idles.keeps.declares] at member
      exact h.nested.liesWithin h.placed member) (h.unread.keeps given.idles.keeps)
  have widens := stays.widens h.nested
  obtain ⟨c', kind', signed', -⟩ := given.kind
  have other : (t'.decl id).isExtension = false := by simp [Decl.isExtension, kind']
  have lt : id.index < t.decls.size := lt_size_of_kind (by simp [kind])
  have typed : c'.type ≠ .auto := by
    rw [signed'.type]
    exact fun wrong => by cases wrong
  refine ⟨after.insert ((advances.scopeOf? _).trans owns) other ?_ (fun primary => ?_)
    fun sort' d same => ?_, widens.trans (.insert D t' id)⟩
  · rw [advances.scope lt]
    exact widens.opened outer
  · simp [Decl.isPrimaryClass, kind'] at primary
  · rw [kind'] at same
    obtain ⟨-, rfl⟩ := Declared.callable.inj same
    exact typed

/-- The walk enters one more class. -/
theorem descend (h : t.Opened rank S D) (lt : id.index < t.decls.size) :
    t.Opened rank (Insert.insert id S) D :=
  { h with
    present := by
      rintro c (rfl | member)
      · exact lt
      · exact h.present c member
    drained := fun c member primary =>
      (h.drained c member primary).imp_left (Set.mem_insert_of_mem id) }

/-- The walk leaves a class whose name is bound to no extension any more. -/
theorem ascend (h : t.Opened rank (Insert.insert id S) D)
    (drained : ∀ d, t.Binds (t.decl id).scope (t.decl id).name d → (t.decl d).isExtension = false) :
    t.Opened rank S D :=
  { h with
    present := fun c member => h.present c (.inr member)
    drained := fun c member primary => by
      rcases h.drained c member primary with (rfl | held) | gone
      · exact .inr drained
      · exact .inl held
      · exact .inr gone }

end Opened

/-! ## Extensions -/

section Absorb

variable {D₀ : Set DeclId} {cls e : DeclId} {inner outer : ScopeId} {ids : List DeclId}

/-- What a table keeps while an open class absorbs its extensions. Initializers refer to what was open
when neither the class nor its extensions were. -/
structure Absorbing (rank : ScopeId → Nat) (D₀ D : Set DeclId) (t : SymbolTable) : Prop where
  sound : t.Sound
  placed : t.Placed rank
  nested : t.Nested D
  initializers : t.LexicalIn (t.Open D₀)
  unread : t.Unread

theorem Absorbing.absorb (h : t.Absorbing rank D₀ D) (extends' : t.Extends cls e inner outer)
    (member : cls ∈ D) (fresh : cls ∉ D₀) (fresh' : e ∉ D₀) :
    (t.absorb cls e inner outer).Absorbing rank D₀ (Insert.insert e D) := by
  have advances := Advances.absorb h.sound cls e inner outer
  refine ⟨advances.sound h.sound, h.placed.absorb h.sound extends',
    h.nested.absorb h.placed h.sound extends' member, ?_,
    h.unread.absorb extends'.primary extends'.extension inner outer⟩
  have scopes : ∀ id, ((t.absorb cls e inner outer).decl id).scope = (t.decl id).scope := by
    intro id
    by_cases lt : id.index < t.decls.size
    · exact advances.scope lt
    · have size : (t.absorb cls e inner outer).decls.size = t.decls.size := by
        simp [SymbolTable.absorb, reparent, modifyScope]
      rw [decl_eq_default (by omega), decl_eq_default (by omega)]
  have initializers : ∀ id,
      ((t.absorb cls e inner outer).decl id).initializer? = (t.decl id).initializer? := by
    intro id
    unfold SymbolTable.absorb
    rw [initializer?_mapMembers, initializer?_mapMembers]
    rfl
  refine h.initializers.of_agreesOn (size_scopes_absorb ..).ge (fun s opened a around => ?_)
    (fun s opened => h.nested.open_absorb_of_notMem extends' fresh' opened) initializers
    fun id _ _ => scopes id
  -- The scopes of the class and of its extension are the only ones that change.
  have opened := h.nested.around opened around
  have notInner : a ≠ inner := by
    rintro rfl
    exact fresh' (opened.owners a e .refl extends'.inner)
  have notOuter : a ≠ outer := by
    rintro rfl
    exact fresh (opened.owners a cls .refl extends'.outer)
  refine ⟨by rw [parent_absorb (h.nested.owned extends'.inner), if_neg notInner], fun name => ?_⟩
  rw [firstProper?_congr advances.isExtension]
  unfold Scope.find?
  rw [scope_absorb, if_neg fun same => notOuter same.1]

theorem Absorbs.binds_new (h : Absorbs cls outer ids t t') {name : String} {d : DeclId}
    (b : t'.Binds s name d) : t.Binds s name d ∨ s = outer := by
  induction h with
  | nil => exact .inl b
  | skip _ _ ih => exact ih b
  | absorb _ _ _ ih =>
    rcases ih b with b | same
    · exact (binds_absorb_new b).imp_right And.left
    · exact .inr same

theorem Absorbs.absorbing (h : Absorbs cls outer ids t t') (start : t.Absorbing rank D₀ D)
    (primary : (t.decl cls).isPrimaryClass = true) (owns : t.scopeOf? (.decl cls) = some outer)
    (bound : ∀ e ∈ ids, t.Binds (t.decl cls).scope (t.decl cls).name e) (member : cls ∈ D)
    (fresh : cls ∉ D₀) (fresh' : ∀ e ∈ ids, (t.decl e).isExtension = true → e ∉ D₀) :
    ∃ D', t'.Absorbing rank D₀ D' ∧ Widens D t D' t' ∧
      ∀ d ∈ D', d ∈ D ∨ d ∈ ids ∧ (t.decl d).isExtension = true := by
  induction h generalizing D with
  | nil => exact ⟨D, start, .refl D _, fun _ member => .inl member⟩
  | skip _ _ ih =>
    obtain ⟨D', after, widens, added⟩ := ih start primary owns
      (fun e member => bound e (by simp [member])) member fun e member => fresh' e (by simp [member])
    exact ⟨D', after, widens, fun d member => (added d member).imp_right fun ⟨listed, extension⟩ =>
      ⟨List.mem_cons_of_mem _ listed, extension⟩⟩
  | @absorb t _ e rest inner extension inside _ ih =>
    have extends' : t.Extends cls e inner outer :=
      ⟨primary, extension, bound e (by simp), inside, owns⟩
    have advances := Advances.absorb start.sound cls e inner outer
    have lt := lt_size_of_isPrimaryClass primary
    have first : Widens D t (Insert.insert e D) (t.absorb cls e inner outer) :=
      ⟨Set.subset_insert e D, fun opened => start.nested.open_absorb extends' member opened,
        fun encloses => start.nested.encloses_absorb extends' encloses⟩
    obtain ⟨D', after, widens, added⟩ := ih
      (start.absorb extends' member fresh (fresh' e (by simp) extension))
      ((advances.isPrimaryClass cls).trans primary) ((advances.scopeOf? _).trans owns)
      (fun other listed => by
        rw [advances.scope lt, advances.name lt]
        exact binds_absorb_old (bound other (by simp [listed])) ..) (.inr member)
      fun other listed isExtension => by
        rw [advances.isExtension] at isExtension
        exact fresh' other (by simp [listed]) isExtension
    refine ⟨D', after, first.trans widens, fun d member => ?_⟩
    rcases added d member with (rfl | member) | ⟨listed, isExtension⟩
    · exact .inr ⟨by simp, extension⟩
    · exact .inl member
    · rw [advances.isExtension] at isExtension
      exact .inr ⟨List.mem_cons_of_mem _ listed, isExtension⟩

/-- A class in an open scope is opened together with the extensions bound to its name. -/
theorem Opened.absorb (h : t.Opened rank S D) (fresh : cls ∉ D)
    (primary : (t.decl cls).isPrimaryClass = true) (owns : t.scopeOf? (.decl cls) = some outer)
    (around : t.Open D (t.decl cls).scope) (absorbs : Absorbs cls outer ids t t')
    (bound : ∀ e ∈ ids, t.Binds (t.decl cls).scope (t.decl cls).name e) :
    ∃ D', cls ∈ D' ∧ Widens D t D' t' ∧ t'.Opened rank (Insert.insert cls S) D' := by
  have lt := lt_size_of_isPrimaryClass primary
  have other := not_isExtension_of_isPrimaryClass primary
  have advances := absorbs.advances h.sound
  have nested := h.nested.insert owns other around
  -- An extension that is open has been absorbed by a class of its name, which is this one.
  have fresh' : ∀ e ∈ ids, (t.decl e).isExtension = true → e ∉ D := by
    intro e listed extension member
    obtain ⟨c, held, isClass, name⟩ := h.merged e member extension
    rw [h.nested.titled (bound e listed) extension] at name
    exact fresh (h.unique c cls isClass primary name ▸ held)
  obtain ⟨D', after, widens, added⟩ := absorbs.absorbing
    ⟨h.sound, h.placed, nested, h.initializers, h.unread⟩ primary owns bound (.inl rfl) fresh fresh'
  have held : cls ∈ D' := widens.within (.inl rfl)
  have widens := (Widens.insert D t cls).trans widens
  refine ⟨D', held, widens, ?_⟩
  exact
    { sound := after.sound
      placed := after.placed
      nested := after.nested
      present := by
        rintro c (rfl | member)
        · exact Nat.lt_of_lt_of_le lt advances.evolves.size
        · exact Nat.lt_of_lt_of_le (h.present c member) advances.evolves.size
      initializers := after.initializers.mono fun s opened => opened.mono widens.within
      drained := fun c member isClass => by
        rw [advances.isPrimaryClass] at isClass
        rcases added c member with (rfl | old) | ⟨-, extension⟩
        · exact .inl (.inl rfl)
        · refine (h.drained c old isClass).imp .inr fun drained d b => ?_
          rw [advances.scope (h.lt_of_mem old), advances.name (h.lt_of_mem old)] at b
          rw [advances.isExtension]
          rcases absorbs.binds_new b with b | same
          · exact drained d b
          · have opened := h.nested.open_scope old (not_isExtension_of_isPrimaryClass isClass)
            exact absurd (opened.owners _ cls .refl (same ▸ owns)) fresh
        · rw [not_isExtension_of_isPrimaryClass isClass] at extension
          cases extension
      merged := fun e member extension => by
        rw [advances.isExtension] at extension
        rcases added e member with (rfl | old) | ⟨listed, -⟩
        · rw [other] at extension
          cases extension
        · obtain ⟨c, held, isClass, name⟩ := h.merged e old extension
          refine ⟨c, widens.within held, (advances.isPrimaryClass c).trans isClass, ?_⟩
          rw [advances.name (h.lt_of_mem held), advances.name (h.lt_of_mem old), name]
        · refine ⟨cls, held, (advances.isPrimaryClass cls).trans primary, ?_⟩
          rw [advances.name lt, advances.name (h.placed.present (bound e listed)),
            h.nested.titled (bound e listed) extension]
      signed := fun f member => by
        rcases added f member with (rfl | old) | ⟨listed, extension⟩
        · refine signed_of_evolves advances.evolves (fun sort c kind => ?_) lt
          simp [Decl.isPrimaryClass, kind] at primary
        · exact signed_of_evolves advances.evolves (h.signed f old) (h.lt_of_mem old)
        · refine signed_of_evolves advances.evolves (fun sort c kind => ?_)
            (h.placed.present (bound f listed))
          simp [Decl.isExtension, kind] at extension
      unique := (uniqueClasses_congr advances).mpr h.unique
      unread := after.unread }

end Absorb

end SymbolTable

end Deferral
