import Deferral.Proofs.FirstPass.Declaration

/-!
# Announcing declarations

Where the first pass over a declaration reports nothing, the declaration and all that lies inside it
have been visited: their types have been resolved and their extensions merged. The number of levels
suffices, since whatever has declarations inside it is taken out while these are visited.
-/

namespace Deferral

open Reporting SymbolTable

namespace SymbolTable

variable {t t' : SymbolTable} {rank : ScopeId → Nat} {S V V' : Set DeclId} {n : Nat}

/-- A declaration may be visited that lies deeper than the classes being walked, in one of them if it
lies in a class. -/
structure Enters (rank : ScopeId → Nat) (S V : Set DeclId) (t : SymbolTable) (id : DeclId) :
    Prop where
  lt : id.index < t.decls.size
  house : ∀ c, (t.decl c).isPrimaryClass = true →
    t.scopeOf? (.decl c) = some (t.decl id).scope → c ∈ S ∨ c ∈ V
  deeper : ∀ c ∈ S, rank (t.decl c).scope < rank (t.decl id).scope

theorem Enters.of_advances {id : DeclId} (h : t.Enters rank S V id) (advances : t.Advances t')
    (present : ∀ c ∈ S, c.index < t.decls.size) (within : V ⊆ V') : t'.Enters rank S V' id := by
  refine ⟨Nat.lt_of_lt_of_le h.lt advances.evolves.size, fun c primary owns => ?_,
    fun c member => ?_⟩
  · rw [advances.isPrimaryClass] at primary
    rw [advances.scopeOf?, advances.scope h.lt] at owns
    exact (h.house c primary owns).imp_right fun member => within member
  · rw [advances.scope h.lt, advances.scope (present c member)]
    exact h.deeper c member

/-- What lies inside a declaration that is visited may be visited. -/
theorem Houses.enters {h w : DeclId} (houses : t.Houses rank h w) (lt : h.index < t.decls.size)
    (deeper : ∀ c ∈ S, rank (t.decl c).scope < rank (t.decl h).scope)
    (inside : (t.decl h).isPrimaryClass = true → h ∈ S) : t.Enters rank S V w where
  lt := houses.lt
  house c primary owns := by
    obtain rfl := houses.house c primary owns
    exact .inl (inside primary)
  deeper c member := Nat.lt_trans (deeper c member) houses.deeper

/-- All that a quiet pass keeps and is to go on from. -/
structure Surveyed (rank : ScopeId → Nat) (S V : Set DeclId) (n : Nat) (t : SymbolTable) :
    Prop where
  sound : t.Sound
  placed : t.Placed rank
  visited : t.Visited S V
  bounded : t.Bounded n
  present : ∀ c ∈ S, c.index < t.decls.size

theorem Surveyed.idles (h : t.Surveyed rank S V n) (idles : t.Idles t') :
    t'.Surveyed rank S V n where
  sound := idles.advances.sound h.sound
  placed := h.placed.idles idles
  visited := h.visited.idles idles
  bounded := h.bounded.of_declares idles.keeps.declares
  present c member := Nat.lt_of_lt_of_le (h.present c member) idles.advances.evolves.size

/-- What is inside functions and classes is taken out of some. -/
theorem Surveyed.takeOut {m : Nat} (h : t.Surveyed rank S V n) (advances : t.Advances t')
    (binds : t.BindsMade t')
    (body : ∀ v, (t'.decl v).body = (t.decl v).body ∨ (t'.decl v).body = .absent)
    (members : ∀ v, t'.members v = t.members v ∨ t'.members v = []) (bounded : t'.Bounded m) :
    t'.Surveyed rank S V m := by
  refine ⟨advances.sound h.sound, ?_, h.visited.of_bindsMade advances binds (fun v _ => body v)
    fun v _ => members v, bounded, fun c member =>
      Nat.lt_of_lt_of_le (h.present c member) advances.evolves.size⟩
  refine h.placed.of_bindsMade advances binds fun holder w member => ?_
  have inside : w ∈ (t.decl holder).declares := by
    rw [declares_eq] at member ⊢
    rcases List.mem_append.mp member with member | member
    · rcases body holder with kept | out
      · exact List.mem_append_left _ (kept ▸ member)
      · rw [out] at member
        cases member
    · rcases members holder with kept | out
      · exact List.mem_append_right _ (kept ▸ member)
      · rw [out] at member
        cases member
  exact ⟨h.placed.inside holder w inside, lt_size_of_mem_declares inside⟩

/-- Something is put into `id` that may lie there, has been visited and is neat. -/
theorem Surveyed.fill {m : Nat} {id : DeclId} (h : t.Surveyed rank S V m)
    (advances : t.Advances t') (binds : t.BindsMade t') (lt : id.index < t.decls.size)
    (others : ∀ other, other ≠ id → t'.decl other = t.decl other)
    (houses : ∀ w ∈ (t'.decl id).declares, t.Houses rank id w)
    (inside : ∀ w ∈ (t'.decl id).declares, w ∈ V) (neat : t'.Neat id) (bounded : t'.Bounded n) :
    t'.Surveyed rank S V n := by
  refine ⟨advances.sound h.sound, ?_, fun v member => ?_, bounded, fun c member =>
    Nat.lt_of_lt_of_le (h.present c member) advances.evolves.size⟩
  · refine h.placed.of_bindsMade advances binds fun holder w member => ?_
    by_cases same : holder = id
    · subst same
      exact ⟨houses w member, lt⟩
    · rw [others holder same] at member
      exact ⟨h.placed.inside holder w member, lt_size_of_mem_declares member⟩
  · by_cases same : v = id
    · subst same
      have visits := h.visited v member
      exact
        { lt := Nat.lt_of_lt_of_le lt advances.evolves.size
          announced := (advances.evolves.decls v lt).isAnnounced visits.announced
          house := fun c primary owns => by
            rw [advances.isPrimaryClass] at primary
            rw [advances.scopeOf?, advances.scope lt] at owns
            exact visits.house c primary owns
          inside := fun _ => inside
          neat := fun _ => neat
          drained := fun primary => by
            rw [advances.isPrimaryClass] at primary
            rw [advances.scope lt, advances.name lt]
            exact visits.drained_of_bindsMade advances binds primary }
    · refine (h.visited v member).of_advances advances (.inl (by rw [others v same]))
        (fun _ => .inl ?_) ((h.visited v member).drained_of_bindsMade advances binds)
      simp only [SymbolTable.members, others v same]

/-- The walk enters one more class. -/
theorem Surveyed.descend (h : t.Surveyed rank S V n) {id : DeclId} (lt : id.index < t.decls.size) :
    t.Surveyed rank (insert id S) V n where
  sound := h.sound
  placed := h.placed
  visited v member := (h.visited v member).mono
    (fun _ held => held.imp_left (Set.mem_insert_of_mem id)) subset_rfl
  bounded := h.bounded
  present := by
    rintro c (rfl | member)
    · exact lt
    · exact h.present c member

/-- One more declaration has been visited, and is left if it is a class. -/
theorem Surveyed.admit {S' : Set DeclId} {id : DeclId} (h : t.Surveyed rank S' V n)
    (left : ∀ c ∈ S', c = id ∨ c ∈ S)
    (kept : ∀ c ∈ S, c ∈ S') (visits : t.Visits S (insert id V) id) :
    t.Surveyed rank S (insert id V) n := by
  refine ⟨h.sound, h.placed, fun v member => ?_, h.bounded, fun c member => h.present c (kept c member)⟩
  rcases member with rfl | member
  · exact visits
  · refine (h.visited v member).mono (fun c held => ?_) (Set.subset_insert id V)
    rcases held with held | held
    · rcases left c held with rfl | held
      · exact .inr (Set.mem_insert _ _)
      · exact .inl held
    · exact .inr (Set.mem_insert_of_mem _ held)

theorem Surveyed.keepOnly (h : t.Surveyed rank S V n) (scope : ScopeId) (name : String) :
    (t.keepOnly scope name fun d => !d.isExtension).Surveyed rank S V n where
  sound := (Advances.keepOnly h.sound scope name).sound h.sound
  placed := h.placed.keepOnly h.sound scope name
  visited := h.visited.keepOnly h.placed.ordered h.sound scope name
  bounded := h.bounded.keepOnly scope name _
  present c member :=
    Nat.lt_of_lt_of_le (h.present c member) (Advances.keepOnly h.sound scope name).evolves.size

theorem Neat.of_active {id : DeclId} (h : t.Neat id) (active : List ScopeId) :
    { t with active }.Neat id where
  body s same := by
    obtain ⟨merged, blocks⟩ := h.body s same
    refine ⟨Eq.trans ?_ merged, blocks⟩
    apply Stmt.merged_congr
    intro other
    rfl
  members := by
    refine ⟨Eq.trans ?_ h.members.1, h.members.2⟩
    apply Stmt.mergedIn_congr
    intro other
    rfl
  scope := h.scope

theorem Surveyed.of_active (h : t.Surveyed rank S V n) (active : List ScopeId) :
    { t with active }.Surveyed rank S V n where
  sound := h.sound.of_same rfl rfl
  placed :=
    { ordered := h.placed.ordered
      named := h.placed.named
      level := h.placed.level
      opened := h.placed.opened
      inside := fun a b member =>
        let houses := h.placed.inside a b member
        ⟨houses.lt, houses.deeper, houses.house⟩
      present := h.placed.present
      owned := h.placed.owned }
  visited v member :=
    let visits := h.visited v member
    { lt := visits.lt
      announced := visits.announced
      house := visits.house
      inside := visits.inside
      neat := fun other => (visits.neat other).of_active active
      drained := visits.drained }
  bounded := h.bounded
  present := h.present

end SymbolTable

/-! ## Statements -/

/-- A quiet pass visits the declarations it passes over. -/
def Announces (n : Nat) : PassRelation := fun ids ρ t ρ' t' =>
  Passes ρ t ρ' t' ∧ (ρ' = ρ → ∀ rank S V, t.Surveyed rank S V n →
    (∀ id ∈ ids, t.Enters rank S V id) →
    ∃ V', V ⊆ V' ∧ (∀ id ∈ ids, id ∈ V') ∧ t'.Surveyed rank S V' n)

theorem announces_lifts (n : Nat) : (Announces n).Lifts where
  passes h := h.1
  idle ρ _ idles := ⟨.of_advances idles.advances ρ, fun _ rank S V surveyed _ =>
    ⟨V, subset_rfl, fun _ none => (by cases none), surveyed.idles idles⟩⟩
  trans {ids ids' ρ ρ' ρ'' t t' t''} h h' := by
    refine ⟨h.1.trans h'.1, fun quiet rank S V surveyed enters => ?_⟩
    obtain ⟨quiet₁, quiet₂⟩ := h.1.quiet h'.1 quiet
    obtain ⟨V₁, within₁, visited₁, surveyed₁⟩ :=
      h.2 quiet₁ rank S V surveyed fun id member => enters id (by simp [member])
    obtain ⟨V₂, within₂, visited₂, surveyed₂⟩ := h'.2 quiet₂ rank S V₁ surveyed₁ fun id member =>
      (enters id (by simp [member])).of_advances h.1.advances surveyed.present within₁
    refine ⟨V₂, within₁.trans within₂, fun id member => ?_, surveyed₂⟩
    rcases List.mem_append.mp member with member | member
    · exact within₂ (visited₁ id member)
    · exact visited₂ id member
  report d h := ⟨h.1.report d, fun quiet => absurd quiet (reported_ne h.1.grows d)⟩
  leave {ids ρ ρ' t t' scope} h := by
    refine ⟨h.1.leave, fun quiet rank S V surveyed enters => ?_⟩
    obtain ⟨V', within, visited, surveyed'⟩ := h.2 quiet rank S V (surveyed.of_active _)
      fun id member => ⟨(enters id member).lt, (enters id member).house, (enters id member).deeper⟩
    exact ⟨V', within, visited, surveyed'.of_active _⟩

namespace Signature

variable {declare : DeclId → Reporting Unit} {ρ ρ' : List Diagnostic} {t t' : SymbolTable}
  {rank : ScopeId → Nat} {S V : Set DeclId} {n level : Nat} {id : DeclId}

/-! ## Functions -/

theorem body_withoutBody (t : SymbolTable) (id : DeclId) :
    ((withoutBody t id).decl id).body = .absent := by
  unfold withoutBody
  rw [decl_modifyDecl]
  split
  · cases kind : (t.decl id).kind <;> simp [Decl.body, Decl.mapCallable, Decl.callable?, kind]
  · rename_i outside
    have out : t.decls.size ≤ id.index := by
      by_contra inside
      exact outside ⟨rfl, by omega⟩
    rw [decl_eq_default out]
    rfl

theorem body_withBody {sort : CallableSort} {c : Callable} (kind : (t.decl id).kind = .callable sort c)
    (body : Body) : ((withBody t id body).decl id).body = body := by
  unfold withBody
  rw [decl_modifyDecl_self (lt_size_of_kind (by simp [kind])),
    Decl.body_of_kind (Decl.kind_mapCallable kind _)]

theorem members_mapCallable (t : SymbolTable) (id other : DeclId) (f : Callable → Callable) :
    (t.modifyDecl id (·.mapCallable f)).members other = t.members other := by
  unfold SymbolTable.members
  rw [decl_modifyDecl]
  split
  · rename_i same
    rw [same.1, Decl.members?_mapCallable]
  · rfl

theorem members_of_kind {sort : CallableSort} {c : Callable}
    (kind : (t.decl id).kind = .callable sort c) : t.members id = [] := by
  simp [SymbolTable.members, Decl.members?, kind]

theorem callable_of_evolves {sort : CallableSort} {c : Callable} (evolves : t.Evolves t')
    (kind : (t.decl id).kind = .callable sort c) :
    ∃ c', (t'.decl id).kind = .callable sort c' ∧ (c.type ≠ .auto → c'.type ≠ .auto) := by
  have evolves := (evolves.decls id (lt_size_of_kind (by simp [kind]))).kind
  rw [kind] at evolves
  generalize (t'.decl id).kind = k at evolves
  cases evolves with
  | callable _ known => exact ⟨_, rfl, fun typed => (known typed).1⟩

/-- A function is visited together with what is in its body. -/
theorem FunctionWalked.announces (h : FunctionWalked (statement declare) id ρ t ρ' t')
    (quiet : ρ' = ρ) (holds : ∀ m < level, ∀ ids, (Announces m).Holds declare ids)
    (lt : n < level + 1) (surveyed : t.Surveyed rank S V n) (enters : t.Enters rank S V id) :
    ∃ V', V ⊆ V' ∧ id ∈ V' ∧ t'.Surveyed rank S V' n := by
  obtain ⟨owns, kind, -, given, walk⟩ := h
  rename_i scope sort c body t₁ t₂
  obtain ⟨c₁, kind₁, signed, sameBody, -⟩ := given.kind
  have surveyed₁ := surveyed.idles given.idles
  have others : ∀ other, other ≠ id → ((withoutBody t₁ id).decl other) = t₁.decl other :=
    fun other ne => decl_modifyDecl_of_ne ne _ _
  have out : ((withoutBody t₁ id).decl id).declares = [] := by
    rw [declares_eq, body_withoutBody, withoutBody, members_mapCallable, members_of_kind kind₁]
    rfl
  have declares₁ : (t₁.decl id).declares = c.body.declares := by
    simp [Decl.declares, kind₁, sameBody]
  obtain ⟨m, bounded, below, back⟩ :=
    surveyed₁.bounded.walk lt id out fun other ne => by rw [others other ne]
  have surveyed₂ := surveyed₁.takeOut (Advances.withoutBody surveyed₁.sound id) (.of_scopes rfl)
    (fun v => by
      by_cases same : v = id
      · exact .inr (same ▸ body_withoutBody t₁ id)
      · exact .inl (by rw [others v same]))
    (fun v => .inl (members_mapCallable ..)) bounded
  have holds' : (Announces m).Holds declare c.body.declares := fun w member =>
    holds m (below (by rw [declares₁]; exact List.ne_nil_of_mem member)) _ w member
  obtain ⟨relation, expressions, merged⟩ :=
    walk.relation (announces_lifts m).walks holds' surveyed₂.sound
      (((given.idles.advances.trans (Advances.withoutBody surveyed₁.sound id)).scopeOf? _).trans owns)
  have out' := Advances.withoutBody surveyed₁.sound id
  obtain ⟨c₂, kind₂, typed₂⟩ := callable_of_evolves out'.evolves kind₁
  have advances₂ := given.idles.advances.trans out'
  have houses : ∀ w ∈ c.body.declares, t.Houses rank id w := fun w member =>
    surveyed.placed.inside id w (by simpa [Decl.declares, kind] using member)
  obtain ⟨V', within, visited, surveyed₃⟩ := relation.2 quiet rank S V surveyed₂ fun w member =>
    ((houses w member).enters enters.lt enters.deeper fun primary => by
      simp [Decl.isPrimaryClass, kind] at primary).of_advances advances₂ surveyed.present subset_rfl
  have advances₃ := advances₂.trans relation.1.advances
  obtain ⟨c₃, kind₃, typed⟩ := callable_of_evolves relation.1.advances.evolves kind₂
  have old := surveyed.sound.decls id
  rw [kind] at old
  have put : t₂.Advances (withBody t₂ id body) := Advances.withBody surveyed₃.sound id fun e member => by
    rw [expressions] at member
    exact advances₃.evolves.exprSound (old.body e member)
  -- What is in the body that is put back was in the one taken out.
  have within' : ∀ w ∈ ((withBody t₂ id body).decl id).declares, w ∈ c.body.declares := by
    intro w member
    rw [declares_eq, body_withBody kind₃, withBody, members_mapCallable, members_of_kind kind₃] at member
    have member : w ∈ body.declares := by simpa [Stmt.declaresIn] using member
    cases body with
    | statement s' =>
      obtain ⟨s, same, rfl, -⟩ := merged quiet s' rfl
      rw [same]
      exact Stmt.mem_declares_of_merged _ s member
    | absent => cases member
    | expression e => cases member
  have neat : (withBody t₂ id body).Neat id := by
    refine ⟨fun s' same => ?_, ?_, .inr ⟨scope, ?_⟩⟩
    · rw [body_withBody kind₃] at same
      obtain ⟨s, -, rfl, blocks⟩ := merged quiet s' same
      have congr := Stmt.merged_congr (relation.1.advances.trans put).isExtension
      refine ⟨by rw [congr, Stmt.merged_merged], ?_⟩
      rw [Stmt.blocks_merged]
      exact (relation.1.advances.trans put).hasBlocks blocks
    · rw [withBody, members_mapCallable, members_of_kind kind₃]
      exact ⟨rfl, fun _ none => (by cases none)⟩
    · rw [(advances₃.trans put).scopeOf?]
      exact owns
  have others' : ∀ other, other ≠ id → (withBody t₂ id body).decl other = t₂.decl other :=
    fun other ne => decl_modifyDecl_of_ne ne _ _
  have lt₂ : id.index < t₂.decls.size := Nat.lt_of_lt_of_le enters.lt advances₃.evolves.size
  have houses₂ : ∀ w ∈ ((withBody t₂ id body).decl id).declares, t₂.Houses rank id w :=
    fun w member => (houses w (within' w member)).of_advances enters.lt advances₃
  have inside : ∀ w ∈ ((withBody t₂ id body).decl id).declares, w ∈ V' :=
    fun w member => visited w (within' w member)
  have bounded' := back surveyed₃.bounded (fun other ne => by rw [others' other ne]) fun empty => by
    refine List.eq_nil_iff_forall_not_mem.mpr fun w member => ?_
    have member := within' w member
    rw [← declares₁, empty] at member
    cases member
  have filled := surveyed₃.fill put (.of_scopes rfl) lt₂ others' houses₂ inside neat bounded'
  have advances := advances₃.trans put
  obtain ⟨c₄, kind₄, typed₄⟩ := callable_of_evolves put.evolves kind₃
  refine ⟨insert id V', within.trans (Set.subset_insert id V'), Set.mem_insert id V',
    filled.admit (fun c member => .inr member) (fun c member => member) ?_⟩
  refine
    { lt := Nat.lt_of_lt_of_le lt₂ put.evolves.size
      announced := ?_
      house := fun c primary owns => ?_
      inside := fun _ w member => Set.mem_insert_of_mem _ (inside w member)
      neat := fun _ => neat
      drained := fun primary => by simp [Decl.isPrimaryClass, kind₄] at primary }
  · have known : c₁.type ≠ .auto := by rw [signed.type]; exact fun wrong => by cases wrong
    simp only [Decl.IsAnnounced, kind₄]
    exact typed₄ (typed (typed₂ known))
  · rw [advances.isPrimaryClass] at primary
    rw [advances.scopeOf?, advances.scope enters.lt] at owns
    exact (enters.house c primary owns).imp_right fun member =>
      Set.mem_insert_of_mem _ (within member)

/-! ## Classes -/

/-- What is in a class is visited in its scope and put back without extensions. Meanwhile the class
is one of those being walked, or has been visited already. -/
theorem announces_members {S' : Set DeclId} {scope : ScopeId} {u : Unit}
    (h : Ends (members (sequence declare) id scope) ρ t u ρ' t') (quiet : ρ' = ρ)
    (holds : ∀ m < level, ∀ ids, (Announces m).Holds declare ids) (lt : n < level + 1)
    (surveyed : t.Surveyed rank S V n) (primary : (t.decl id).isPrimaryClass = true)
    (owns : t.scopeOf? (.decl id) = some scope)
    (begin' : ∀ {m}, (withoutMembers t id).Surveyed rank S V m →
      ∃ V', V ⊆ V' ∧ (withoutMembers t id).Surveyed rank S' V' m ∧ (id ∈ S' ∨ id ∈ V'))
    (deeper : ∀ c ∈ S', rank (t.decl c).scope ≤ rank (t.decl id).scope) :
    t.Advances t' ∧ ∃ V', V ⊆ V' ∧ (id ∈ S' ∨ id ∈ V') ∧ t'.Surveyed rank S' V' n ∧
      (∀ w ∈ (t'.decl id).declares, w ∈ V') ∧ t'.Neat id := by
  obtain ⟨body, t₂, walk, rfl⟩ := ends_members h
  have size := lt_size_of_isPrimaryClass primary
  have isClass := members?_isSome_of_isPrimaryClass primary
  have bodyless := body_of_isPrimaryClass primary
  have out : t.Advances (withoutMembers t id) :=
    .of_modifyDecl surveyed.sound (.setMembers id (by simp [Stmt.expressionsIn]))
  have others : ∀ other, other ≠ id →
      (withoutMembers t id).decl other = t.decl other :=
    fun other ne => decl_modifyDecl_of_ne ne _ _
  have empty : (withoutMembers t id).members id = [] :=
    members_mapMembers_self isClass _
  have declares : (t.decl id).declares = Stmt.declaresIn (t.members id) := by
    rw [declares_eq, bodyless]
    rfl
  obtain ⟨m, bounded, below, back⟩ := surveyed.bounded.walk lt id (declares_mapMembers primary _)
    fun other ne => by rw [others other ne]
  have surveyed₁ := surveyed.takeOut out (.of_scopes rfl) (fun v => .inl (body_mapMembers ..))
    (fun v => by
      by_cases same : v = id
      · exact .inr (same ▸ empty)
      · exact .inl (members_modifyDecl_of_ne same _)) bounded
  obtain ⟨V₁, within₁, surveyed₁, house⟩ := begin' surveyed₁
  have holds' : (Announces m).Holds declare (Stmt.declaresIn (t.members id)) := fun w member =>
    holds m (below (by rw [declares]; exact List.ne_nil_of_mem member)) _ w member
  obtain ⟨relation, expressions, merged⟩ :=
    ends_sequence (announces_lifts m).walks holds' (surveyed₁.sound.enter scope) walk
  have houses : ∀ w ∈ Stmt.declaresIn (t.members id), t.Houses rank id w := fun w member =>
    surveyed.placed.inside id w (by rw [declares]; exact member)
  obtain ⟨V', within, visited, surveyed₂⟩ := relation.2 quiet rank S' V₁ (surveyed₁.of_active _)
    fun w member => by
      have inside := (houses w member).of_advances size out
      refine ⟨inside.lt, fun c isPrimary owns => ?_, fun c held => ?_⟩
      · obtain rfl := inside.house c isPrimary owns
        exact house
      · have present : c.index < t.decls.size := by
          have lt := surveyed₁.present c held
          rwa [size_modifyDecl] at lt
        have le := deeper c held
        have below := inside.deeper
        rw [out.scope size] at below
        exact Nat.lt_of_le_of_lt ((congrArg rank (out.scope present)).le.trans le) below
  have surveyed₃ : t₂.leave.Surveyed rank S' V' m := surveyed₂.of_active _
  have walked : t.Advances t₂.leave := out.trans relation.1.advances.leave
  have put : t₂.leave.Advances (t₂.leave.modifyDecl id (·.mapMembers fun _ => body)) := by
    refine .of_modifyDecl surveyed₃.sound (.setMembers id fun e member => ?_)
    rw [expressions] at member
    exact walked.evolves.exprSound (surveyed.sound.members id e member)
  have primary' : (t₂.leave.decl id).isPrimaryClass = true := by
    rw [walked.isPrimaryClass]
    exact primary
  obtain ⟨rfl, blocks⟩ := merged quiet
  have congr : ∀ statements : List Stmt, Stmt.mergedIn
      ((withoutMembers t id).enter scope) statements =
        Stmt.mergedIn t statements := Stmt.mergedIn_congr fun other => out.isExtension other
  rw [congr] at put ⊢
  have within' : ∀ w ∈ ((t₂.leave.modifyDecl id (·.mapMembers fun _ =>
      Stmt.mergedIn t (t.members id))).decl id).declares, w ∈ Stmt.declaresIn (t.members id) := by
    intro w member
    rw [declares_mapMembers primary'] at member
    exact Stmt.mem_declaresIn_of_merged t _ member
  have others' : ∀ other, other ≠ id → (t₂.leave.modifyDecl id (·.mapMembers fun _ =>
      Stmt.mergedIn t (t.members id))).decl other = t₂.leave.decl other :=
    fun other ne => decl_modifyDecl_of_ne ne _ _
  have advances := walked.trans put
  have neat : (t₂.leave.modifyDecl id (·.mapMembers fun _ =>
      Stmt.mergedIn t (t.members id))).Neat id := by
    refine neat_mapMembers primary' ((walked.scopeOf? _).trans owns) ?_ ?_
    · rw [Stmt.mergedIn_congr advances.isExtension, Stmt.mergedIn_merged]
    · rw [Stmt.blocksIn_merged]
      exact walked.hasBlocks blocks
  have bounded' := back surveyed₃.bounded (fun other ne => by rw [others' other ne]) fun none => by
    refine List.eq_nil_iff_forall_not_mem.mpr fun w member => ?_
    have member := within' w member
    rw [← declares, none] at member
    cases member
  refine ⟨advances, V', within₁.trans within, house.imp_right fun held => within held,
    surveyed₃.fill put (.of_scopes rfl)
    (Nat.lt_of_lt_of_le size walked.evolves.size) others' (fun w member =>
      (houses w (within' w member)).of_advances size walked)
    (fun w member => visited w (within' w member)) neat bounded',
    fun w member => visited w (within' w member), neat⟩

theorem isAnnounced_of_slotted (primary : (t'.decl id).isPrimaryClass = true)
    (slotted : Resolution.Slotted id .kind t t') : (t'.decl id).IsAnnounced := by
  obtain ⟨type', type, t₁, -, normal, held, put⟩ := slotted.put
  have resolved := Decl.typeIn?_withTypeIn held type'
  rw [← put] at resolved
  unfold Decl.isPrimaryClass at primary
  unfold Decl.typeIn? at resolved
  unfold Decl.IsAnnounced
  split at primary <;> simp_all [normal.not_deferred]

/-- A class that has not been visited is visited together with what is in it and its extensions. -/
theorem ClassWalked.announces (h : ClassWalked (sequence declare) id ρ t ρ' t')
    (primary : (t.decl id).isPrimaryClass = true) (quiet : ρ' = ρ)
    (holds : ∀ m < level, ∀ ids, (Announces m).Holds declare ids) (lt : n < level + 1)
    (surveyed : t.Surveyed rank S V n) (enters : t.Enters rank S V id) :
    ∃ V', V ⊆ V' ∧ id ∈ V' ∧ t'.Surveyed rank S V' n := by
  obtain ⟨owns, -, settles, slotted, extended⟩ := h
  rename_i scope t₁
  have idles := Idles.of_slotted settles slotted
  have surveyed₁ := surveyed.idles idles
  have enters₁ := enters.of_advances idles.advances surveyed.present (subset_refl V)
  have primary₁ : (t₁.decl id).isPrimaryClass = true := by
    rw [idles.advances.isPrimaryClass]; exact primary
  have owns₁ : t₁.scopeOf? (.decl id) = some scope := by rw [idles.advances.scopeOf?]; exact owns
  have announced : (t₁.decl id).IsAnnounced := isAnnounced_of_slotted primary₁ slotted
  rw [← idles.advances.scope enters.lt] at extended
  cases extended with
  | alone single walk =>
    have drained : ∀ d, t₁.Binds (t₁.decl id).scope (t₁.decl id).name d →
        (t₁.decl d).isExtension = false := fun d b => by
      obtain rfl := surveyed₁.placed.alone primary₁ single b
      exact not_isExtension_of_isPrimaryClass primary₁
    have begin' : ∀ {m}, (withoutMembers t₁ id).Surveyed rank S V m →
        ∃ V', V ⊆ V' ∧ (withoutMembers t₁ id).Surveyed rank S V' m ∧ (id ∈ S ∨ id ∈ V') := by
      intro m out
      refine ⟨insert id V, Set.subset_insert id V, out.admit (fun c member => .inr member)
        (fun c member => member) ?_, .inr (Set.mem_insert id V)⟩
      have advances := advances_withoutMembers surveyed₁.sound id
      obtain ⟨lt₂, house₂, -⟩ := enters₁.of_advances advances surveyed₁.present (subset_refl V)
      have none := declares_mapMembers primary₁ fun _ => []
      exact
        { lt := lt₂
          announced := (advances.evolves.decls id enters₁.lt).isAnnounced announced
          house := fun c isPrimary owns =>
            (house₂ c isPrimary owns).imp_right (Set.mem_insert_of_mem id)
          inside := fun _ w member => by rw [none] at member; cases member
          neat := fun _ => neat_mapMembers primary₁ owns₁ rfl fun _ none => (by cases none)
          drained := fun _ d b => by
            rw [advances.scope enters₁.lt, advances.name enters₁.lt] at b
            rw [advances.isExtension]
            exact drained d b }
    obtain ⟨-, V', within, held, surveyed₂, -, -⟩ := announces_members walk quiet holds lt
      surveyed₁ primary₁ owns₁ begin' fun c member => (enters₁.deeper c member).le
    rcases held with member | member
    · exact absurd (enters₁.deeper id member) (Nat.lt_irrefl _)
    · exact ⟨V', within, member, surveyed₂⟩
  | @absorbed outer t₂ t₃ owns₂ absorbs walk =>
    obtain rfl := Option.some.inj (owns₁.symm.trans owns₂)
    have bound : ∀ e ∈ ((t₁.scope (t₁.decl id).scope).find? (t₁.decl id).name).getD [],
        t₁.Binds (t₁.decl id).scope (t₁.decl id).name e := by
      intro e member
      cases found : (t₁.scope (t₁.decl id).scope).find? (t₁.decl id).name with
      | none => simp [found] at member
      | some set => exact Names.binds_of_find? found (by simpa [found] using member)
    have advances₂ := absorbs.advances surveyed₁.sound
    have surveyed₂ : t₂.Surveyed rank S V n := by
      by_cases visited : id ∈ V
      · obtain rfl := absorbs.eq_of_none fun e member =>
          (surveyed₁.visited id visited).drained primary₁ e (bound e member)
        exact surveyed₁
      · have apart : ∀ v ∈ V, (t₁.decl v).scope ≠ scope := by
          rintro v member rfl
          rcases (surveyed₁.visited v member).house id primary₁ owns₁ with held | held
          · exact Nat.lt_irrefl _ (enters₁.deeper id held)
          · exact visited held
        obtain ⟨placed, visited, bounded⟩ := absorbs.keeps surveyed₁.sound primary₁ owns₁ bound
          surveyed₁.placed surveyed₁.visited surveyed₁.bounded visited apart
        exact ⟨advances₂.sound surveyed₁.sound, placed, visited, bounded, fun c member =>
          Nat.lt_of_lt_of_le (surveyed₁.present c member) advances₂.evolves.size⟩
    have primary₂ : (t₂.decl id).isPrimaryClass = true := by
      rw [advances₂.isPrimaryClass]; exact primary₁
    have enters₂ := enters₁.of_advances advances₂ surveyed₁.present (subset_refl V)
    have begin' : ∀ {m}, (withoutMembers t₂ id).Surveyed rank S V m →
        ∃ V', V ⊆ V' ∧ (withoutMembers t₂ id).Surveyed rank (insert id S) V' m ∧
          (id ∈ insert id S ∨ id ∈ V') := fun out =>
      ⟨V, subset_refl V, out.descend (by rw [size_modifyDecl]; exact enters₂.lt),
        .inl (Set.mem_insert id S)⟩
    obtain ⟨advances₃, V', within, -, surveyed₃, inside, neat⟩ := announces_members walk quiet holds
      lt surveyed₂ primary₂ (by rw [advances₂.scopeOf?]; exact owns₁) begin' (by
        rintro c (rfl | member)
        · exact Nat.le_refl _
        · exact (enters₂.deeper c member).le)
    have surveyed₄ := surveyed₃.keepOnly (t₁.decl id).scope (t₁.decl id).name
    have advances₄ := Advances.keepOnly surveyed₃.sound (t₁.decl id).scope (t₁.decl id).name
    have advances := (advances₂.trans advances₃).trans advances₄
    obtain ⟨lt₄, house₄, -⟩ := enters₁.of_advances advances surveyed₁.present within
    refine ⟨insert id V', within.trans (Set.subset_insert id V'), Set.mem_insert id V',
      surveyed₄.admit (fun c member => member) (fun c member => Set.mem_insert_of_mem id member) ?_⟩
    exact
      { lt := lt₄
        announced := (advances.evolves.decls id enters₁.lt).isAnnounced announced
        house := fun c isPrimary owns =>
          (house₄ c isPrimary owns).imp_right (Set.mem_insert_of_mem id)
        inside := fun _ w member => by
          rw [decl_keepOnly] at member
          exact Set.mem_insert_of_mem id (inside w member)
        neat := fun _ => neat.of_advances advances₄
          (Nat.lt_of_lt_of_le enters₁.lt (advances₂.trans advances₃).evolves.size)
          (.inl (by rw [decl_keepOnly])) (.inl (by simp only [SymbolTable.members, decl_keepOnly]))
        drained := fun _ d b => by
          rw [advances.scope enters₁.lt, advances.name enters₁.lt] at b
          rw [advances₄.isExtension]
          exact ((binds_keepOnly surveyed₃.placed.ordered).mp b).2 rfl rfl }

/-! ## Declarations -/

theorem isAnnounced_of_resolved (kind : (∃ sort type init, (t.decl id).kind = .object sort type init) ∨
    (∃ type, (t.decl id).kind = .super type)) (evolves : t.Evolves t')
    (slotted : Resolution.Slotted id .declared t t') : (t'.decl id).IsAnnounced := by
  obtain ⟨type', type, t₁, -, normal, held, put⟩ := slotted.put
  have resolved := Decl.typeIn?_withTypeIn held type'
  rw [← put] at resolved
  have present : (t.decl id).kind ≠ .typeParameter := by
    rcases kind with ⟨_, _, _, kind⟩ | ⟨_, kind⟩ <;> simp [kind]
  have evolves := (evolves.decls id (lt_size_of_kind present)).kind
  unfold Decl.typeIn? at resolved
  unfold Decl.IsAnnounced
  generalize (t'.decl id).kind = k at evolves resolved
  rcases kind with ⟨_, _, _, kind⟩ | ⟨_, kind⟩ <;> rw [kind] at evolves <;> cases evolves <;>
    simp_all [normal.not_deferred]

theorem Done.announces (h : Done declare id ρ t ρ' t') (quiet : ρ' = ρ)
    (holds : ∀ m < level, ∀ ids, (Announces m).Holds declare ids) (lt : n < level + 1)
    (surveyed : t.Surveyed rank S V n) (enters : t.Enters rank S V id) :
    ∃ V', V ⊆ V' ∧ id ∈ V' ∧ t'.Surveyed rank S V' n := by
  cases h with
  | object kind _ settles slotted _ =>
    have bare : (t.decl id).IsBare := by
      rcases kind with ⟨_, _, _, kind⟩ | ⟨_, kind⟩ <;> simp [Decl.IsBare, kind]
    have idles := Idles.of_slotted settles slotted
    have surveyed' := surveyed.idles idles
    have bare' := idles.advances.evolves.isBare enters.lt bare
    obtain ⟨lt', house', -⟩ :=
      enters.of_advances idles.advances surveyed.present (subset_refl V)
    have primary : (t'.decl id).isPrimaryClass = false := by
      rw [idles.advances.isPrimaryClass]
      rcases kind with ⟨_, _, _, kind⟩ | ⟨_, kind⟩ <;> simp [Decl.isPrimaryClass, kind]
    refine ⟨insert id V, Set.subset_insert id V, Set.mem_insert id V,
      surveyed'.admit (fun c member => .inr member) (fun c member => member) ?_⟩
    exact
      { lt := lt'
        announced := isAnnounced_of_resolved kind idles.advances.evolves slotted
        house := fun c isPrimary owns =>
          (house' c isPrimary owns).imp_right (Set.mem_insert_of_mem id)
        inside := fun _ w member => by rw [bare'.declares] at member; cases member
        neat := fun _ => neat_of_isBare bare'
        drained := fun isPrimary => by rw [primary] at isPrimary; cases isPrimary }
  | function walked => exact walked.announces quiet holds lt surveyed enters
  | primary primary walked => exact walked.announces primary quiet holds lt surveyed enters
  | extension extension _ same =>
    obtain rfl := same
    refine ⟨insert id V, Set.subset_insert id V, Set.mem_insert id V,
      surveyed.admit (fun c member => .inr member) (fun c member => member) ?_⟩
    exact
      { lt := enters.lt
        announced := Decl.isAnnounced_of_isExtension extension
        house := fun c isPrimary owns =>
          (enters.house c isPrimary owns).imp_right (Set.mem_insert_of_mem id)
        inside := fun other => by rw [extension] at other; cases other
        neat := fun other => by rw [extension] at other; cases other
        drained := fun isPrimary => by
          rw [not_isExtension_of_isPrimaryClass isPrimary] at extension
          cases extension }

/-- With more levels than functions and classes that have something inside them, a quiet pass visits
what it passes over. -/
theorem announces_declareWithin (level : Nat) :
    ∀ n < level, ∀ ids, (Announces n).Holds (declareWithin level) ids := by
  induction level with
  | zero => intro n lt; omega
  | succ level ih =>
    intro n lt ids id member ρ ρ' t t' u sound h
    have passes := passing_declareWithin (level + 1) [id] id (by simp) sound h
    refine ⟨passes, fun quiet rank S V surveyed enters => ?_⟩
    obtain ⟨fault?, ρ₁, t₁, declared, rest⟩ := ends_bind.mp h
    rw [ends_bind_look] at rest
    obtain ⟨rfl, rfl⟩ := ends_reportWithin.mp rest
    rcases Faulting.ends_fault?.mp declared with ⟨rfl, run⟩ | ⟨d, rfl, run⟩
    · rcases ends_declaration sound run with ⟨d, wrong, -⟩ | ⟨-, done⟩
      · cases wrong
      · obtain ⟨V', within, visited, surveyed'⟩ := done.announces (by simpa using quiet) ih lt surveyed
          (enters id (by simp))
        exact ⟨V', within, by simpa using visited, surveyed'⟩
    · rcases ends_declaration sound run with ⟨d, -, passes⟩ | ⟨wrong, -⟩
      · exact absurd quiet (reported_ne passes.grows _)
      · cases wrong

theorem announces_declare (n : Nat) (ids : List DeclId) :
    (Announces n).Holds Signature.declare ids := by
  intro id member ρ ρ' t t' u sound h
  have passes := passing_declare [id] id (by simp) sound h
  refine ⟨passes, fun quiet rank S V surveyed enters => ?_⟩
  unfold Signature.declare at h
  rw [ends_bind_look] at h
  have le := Nat.min_le_right n t.decls.size
  have bounded : t.Bounded (min n t.decls.size) := by
    rcases Nat.le_total n t.decls.size with less | more
    · rw [Nat.min_eq_left less]
      exact surveyed.bounded
    · rw [Nat.min_eq_right more]
      exact t.bounded_size
  obtain ⟨-, announces⟩ := announces_declareWithin (t.decls.size + 1) (min n t.decls.size) (by omega)
    [id] id (by simp) sound h
  obtain ⟨V', within, visited, surveyed'⟩ :=
    announces quiet rank S V { surveyed with bounded } enters
  exact ⟨V', within, visited, { surveyed' with
    bounded := surveyed'.bounded.mono (Nat.min_le_left n t.decls.size) }⟩

end Signature

/-! ## Units -/

/-- A first pass over a unit that reports nothing visits all that lies in it, and the extensions in
it are merged. -/
theorem SourceUnit.announces_resolveSignatures {u u' : SourceUnit} {t t' : SymbolTable}
    {rank : ScopeId → Nat} (sound : t.Sound) (placed : t.Placed rank) (inside : u.Placed t)
    (h : u.resolveSignatures.run t = ((u', []), t')) :
    u'.body = Stmt.mergedIn t u.body ∧ t.HasBlocks (Stmt.blocksIn u.body) ∧
      ∃ V, (∀ w ∈ Stmt.declaresIn u.body, w ∈ V) ∧ t'.Placed rank ∧ t'.Visited ∅ V := by
  unfold resolveSignatures at h
  rw [run_collect] at h
  obtain ⟨body, ρ₁, t₁, walk, rest⟩ := ends_bind.mp h
  obtain ⟨same, rfl, rfl⟩ := ends_pure.mp rest
  subst same
  obtain ⟨t₂, walk₂, rfl⟩ := ends_under.mp walk
  obtain ⟨relation, -, quiet⟩ := Signature.ends_sequence (announces_lifts t.decls.size).walks
    (Signature.announces_declare _ _) (sound.enter _) walk₂
  obtain ⟨merged, blocks⟩ := quiet rfl
  have surveyed : t.Surveyed rank ∅ ∅ t.decls.size :=
    ⟨sound, placed, fun _ none => (by cases none), t.bounded_size, fun _ none => (by cases none)⟩
  obtain ⟨V, -, visited, surveyed'⟩ := relation.2 rfl rank ∅ ∅ (surveyed.of_active _) fun w member =>
    ⟨inside.lt w member, fun c _ owns => absurd owns (inside.house w member c),
      fun _ none => (by cases none)⟩
  refine ⟨merged.trans ?_, blocks, V, visited, (surveyed'.of_active _).placed,
    (surveyed'.of_active _).visited⟩
  apply Stmt.mergedIn_congr
  intro other
  rfl

end Deferral
