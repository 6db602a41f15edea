import Deferral.Proofs.FirstPass.Announcing
import Deferral.Proofs.SecondPass.Declaration

/-!
# Completing declarations

Where neither pass reports anything, every declaration inside a unit has been completed: what it
holds has been read and checked, and constants have their values. The second pass goes the way that
the first one went.
-/

namespace Deferral

open Reporting SymbolTable

theorem Decl.Evolves.isConstant_eq {d d' : Decl} (h : d.Evolves d') :
    d'.isConstant = d.isConstant := by
  have evolves := h.kind
  unfold isConstant
  generalize d.kind = k at evolves
  generalize d'.kind = k' at evolves
  cases evolves with
  | @object sort _ _ _ _ => cases sort <;> rfl
  | _ => rfl

/-- Nothing but objects has an initializer or a value. -/
theorem Decl.not_object (d : Decl) (h : ∀ sort type init, d.kind ≠ .object sort type init) :
    d.initializer? = none ∧ d.isConstant = false := by
  unfold initializer? isConstant
  split <;> simp_all

theorem Decl.not_object_of_isPrimaryClass {d : Decl} (h : d.isPrimaryClass = true) :
    d.initializer? = none ∧ d.isConstant = false :=
  d.not_object fun sort type init kind => by simp [isPrimaryClass, kind] at h

namespace SymbolTable

variable {t t' : SymbolTable} {rank : ScopeId → Nat} {V C C' : Set DeclId} {n : Nat} {id : DeclId}

/-- What a declaration holds has been read and checked, and what lies inside it is in `C`. -/
structure Completes (C : Set DeclId) (t : SymbolTable) (id : DeclId) : Prop where
  announced : (t.decl id).IsAnnounced
  read : ∀ e, (t.decl id).initializer? = some e → e.excerpt? = none
  valued : (t.decl id).isConstant = true → (t.constant? id).isSome = true
  body : ∀ use ∈ (t.decl id).body.uses, use.IsDefined t (some id)
  owns : ∀ e, (t.decl id).body = .expression e → ∃ s, t.scopeOf? (.body id) = some s
  members : (t.decl id).isExtension = false →
    ∀ use ∈ Stmt.usesIn (t.members id), use.IsDefined t none
  inside : (t.decl id).isExtension = false → ∀ w ∈ (t.decl id).declares, w ∈ C

/-- The declarations `C` have been completed. -/
def Completed (C : Set DeclId) (t : SymbolTable) : Prop := ∀ id ∈ C, t.Completes C id

theorem lt_size_of_isAnnounced (h : (t.decl id).IsAnnounced) : id.index < t.decls.size := by
  refine lt_size_of_kind fun absent => ?_
  simp [Decl.IsAnnounced, absent] at h

theorem inside_of_isAnnounced (h : (t.decl id).IsAnnounced) {sort : CallableSort} {c : Callable}
    (kind : (t.decl id).kind = .callable sort c) : t.Inside (some id) := by
  intro other same
  obtain rfl := Option.some.inj same
  simp only [Decl.IsAnnounced, kind] at h
  exact ⟨sort, c, kind, h⟩

theorem inside_of_uses (h : (t.decl id).IsAnnounced) {use : Use}
    (member : use ∈ (t.decl id).body.uses) : t.Inside (some id) := by
  cases kind : (t.decl id).kind with
  | callable sort c => exact inside_of_isAnnounced h kind
  | _ => simp [Decl.body, Decl.callable?, kind, Body.uses] at member

/-- An initializer that has been read stays so. -/
theorem Evolves.initializer?_read (h : t.Evolves t') (lt : id.index < t.decls.size)
    (read : ∀ e, (t.decl id).initializer? = some e → e.excerpt? = none) :
    ∀ e, (t'.decl id).initializer? = some e → e.excerpt? = none := by
  intro e' initializer
  have evolves := (h.decls id lt).kind
  unfold Decl.initializer? at read initializer
  generalize (t.decl id).kind = k at evolves read
  generalize (t'.decl id).kind = k' at evolves initializer
  cases evolves with
  | @object sort type type' init init' _ _ some reads =>
    have initializer : init' = _ := initializer
    obtain ⟨e, same⟩ := Option.isSome_iff_exists.mp (some ▸ initializer ▸ rfl : init.isSome = true)
    obtain ⟨e'', same', known⟩ := reads e same (read e same)
    obtain rfl := Option.some.inj (initializer.symm.trans same')
    exact known
  | _ => cases initializer

/-- What has been completed stays so as long as nothing is put into it. -/
theorem Completes.of_advances (h : t.Completes C id) (advances : t.Advances t')
    (within : C ⊆ C')
    (body : (t'.decl id).body = (t.decl id).body ∨ (t'.decl id).body = .absent)
    (members : (t.decl id).isExtension = false → t'.members id = t.members id ∨ t'.members id = []) :
    t'.Completes C' id := by
  have evolves := advances.evolves
  have lt := lt_size_of_isAnnounced h.announced
  refine ⟨(evolves.decls id lt).isAnnounced h.announced, evolves.initializer?_read lt h.read,
    fun constant => ?_, fun use member => ?_, fun e same => ?_, fun other use member => ?_,
    fun other w member => ?_⟩
  · rw [(evolves.decls id lt).isConstant_eq] at constant
    obtain ⟨v, known⟩ := Option.isSome_iff_exists.mp (h.valued constant)
    exact Option.isSome_iff_exists.mpr ⟨v, (evolves.constants id v known).1⟩
  · rcases body with kept | out
    · rw [kept] at member
      exact (h.body use member).of_evolves (inside_of_uses h.announced member) evolves
    · rw [out] at member
      cases member
  · rcases body with kept | out
    · rw [advances.scopeOf?]
      exact h.owns e (kept ▸ same)
    · rw [out] at same
      cases same
  · rw [advances.isExtension] at other
    rcases members other with kept | out
    · rw [kept] at member
      exact (h.members other use member).of_evolves (Definition.outside_every_function t) evolves
    · rw [out] at member
      cases member
  · rw [advances.isExtension] at other
    refine within (h.inside other w ?_)
    rw [declares_eq] at member ⊢
    rcases List.mem_append.mp member with member | member
    · rcases body with kept | out
      · exact List.mem_append_left _ (kept ▸ member)
      · rw [out] at member
        cases member
    · rcases members other with kept | out
      · exact List.mem_append_right _ (kept ▸ member)
      · rw [out] at member
        cases member

theorem Completed.idles (h : t.Completed C) (idles : t.Idles t') :
    t'.Completed C :=
  fun id member => (h id member).of_advances idles.advances subset_rfl
    (.inl (idles.keeps.body id)) fun _ => .inl (idles.keeps.members id)

theorem Completed.of_active (h : t.Completed C) (active : List ScopeId) :
    { t with active }.Completed C := by
  intro id member
  have same : t.Evolves { t with active } := .of_same rfl rfl
  have completes := h id member
  exact ⟨completes.announced, completes.read, completes.valued,
    fun use inside => (completes.body use inside).of_evolves
      (inside_of_uses completes.announced inside) same,
    completes.owns, fun other use inside =>
      (completes.members other use inside).of_evolves (Definition.outside_every_function t) same,
    completes.inside⟩

/-- One more declaration has been completed, and nothing is put into any other. -/
theorem Completed.put (h : t.Completed C) (advances : t.Advances t')
    (others : ∀ other, other ≠ id → t'.decl other = t.decl other)
    (completes : t'.Completes (insert id C) id) : t'.Completed (insert id C) := by
  intro v held
  by_cases same : v = id
  · exact same ▸ completes
  · exact (h v (held.resolve_left same)).of_advances advances (Set.subset_insert id C)
      (.inl (by rw [others v same])) fun _ => .inl (by simp only [SymbolTable.members, others v same])

/-- What is inside a declaration that has been visited is put back after it has been walked. -/
theorem Surveyed.refill {t₁ t₂ : SymbolTable} {m : Nat} (h : t.Surveyed rank ∅ V n)
    (h₁ : t₁.Surveyed rank ∅ V m) (member : id ∈ V) (before : t.Advances t₁)
    (advances : t₁.Advances t₂) (scopes : t₂.scopes = t₁.scopes)
    (others : ∀ other, other ≠ id → t₂.decl other = t₁.decl other)
    (declares : (t₂.decl id).declares = (t.decl id).declares)
    (other : (t.decl id).isExtension = false) (neat : t₂.Neat id) (bounded : t₂.Bounded n) :
    t₂.Surveyed rank ∅ V n := by
  have visits := h.visited id member
  have lt := Nat.lt_of_lt_of_le visits.lt before.evolves.size
  refine h₁.fill advances (.of_scopes scopes) lt others (fun w inside => ?_) (fun w inside => ?_)
    neat bounded
  · rw [declares] at inside
    exact (h.placed.inside id w inside).of_advances visits.lt before
  · rw [declares] at inside
    exact visits.inside other w inside

end SymbolTable

/-! ## Statements -/

/-- A quiet pass completes the declarations it passes over, if they have been visited. -/
def Completing (n : Nat) : PassRelation := fun ids ρ t ρ' t' =>
  Passes ρ t ρ' t' ∧ (ρ' = ρ → ∀ rank V C, t.Surveyed rank ∅ V n → t.Completed C →
    (∀ id ∈ ids, id ∈ V) →
    ∃ C', C ⊆ C' ∧ (∀ id ∈ ids, id ∈ C') ∧ t'.Surveyed rank ∅ V n ∧ t'.Completed C')

theorem completing_lifts (n : Nat) : (Completing n).Lifts where
  passes h := h.1
  idle ρ _ idles := ⟨.of_advances idles.advances ρ, fun _ rank V C surveyed completed _ =>
    ⟨C, subset_rfl, fun _ none => (by cases none), surveyed.idles idles,
      completed.idles idles⟩⟩
  trans {ids ids' ρ ρ' ρ'' t t' t''} h h' := by
    refine ⟨h.1.trans h'.1, fun quiet rank V C surveyed completed visited => ?_⟩
    obtain ⟨quiet₁, quiet₂⟩ := h.1.quiet h'.1 quiet
    obtain ⟨C₁, within₁, all₁, surveyed₁, completed₁⟩ :=
      h.2 quiet₁ rank V C surveyed completed fun id member => visited id (by simp [member])
    obtain ⟨C₂, within₂, all₂, surveyed₂, completed₂⟩ :=
      h'.2 quiet₂ rank V C₁ surveyed₁ completed₁ fun id member => visited id (by simp [member])
    refine ⟨C₂, within₁.trans within₂, fun id member => ?_, surveyed₂, completed₂⟩
    rcases List.mem_append.mp member with member | member
    · exact within₂ (all₁ id member)
    · exact all₂ id member
  report d h := ⟨h.1.report d, fun quiet => absurd quiet (reported_ne h.1.grows d)⟩
  leave {ids ρ ρ' t t' scope} h := by
    refine ⟨h.1.leave, fun quiet rank V C surveyed completed visited => ?_⟩
    obtain ⟨C', within, all, surveyed', completed'⟩ := h.2 quiet rank V C (surveyed.of_active _)
      (completed.of_active _) visited
    exact ⟨C', within, all, surveyed'.of_active _, completed'.of_active _⟩

namespace Definition

variable {define : DeclId → Reporting Unit} {ρ ρ' : List Diagnostic} {t t' : SymbolTable}
  {rank : ScopeId → Nat} {V C : Set DeclId} {n level : Nat} {id : DeclId}
  {r : Except Diagnostic Unit}

/-! ## Functions -/

theorem FunctionReworked.completing
    (h : FunctionReworked (statement define (some id)) id ρ t r ρ' t') (ok : r = .ok ())
    (quiet : ρ' = ρ) (holds : ∀ m < level, ∀ ids, (Completing m).Holds define ids)
    (lt : n < level + 1) (surveyed : t.Surveyed rank ∅ V n) (completed : t.Completed C)
    (member : id ∈ V) :
    ∃ C', C ⊆ C' ∧ id ∈ C' ∧ t'.Surveyed rank ∅ V n ∧ t'.Completed C' := by
  have visits := surveyed.visited id member
  cases h with
  | refused fault _ =>
    rw [ok] at fault
    cases fault
  | skipped kind untyped _ =>
    have announced := visits.announced
    simp only [Decl.IsAnnounced, kind] at announced
    exact absurd untyped announced
  | @walked scope sort c worked t₂ owns kind typed walk fault =>
    have fault := fault ok
    have sound := surveyed.sound
    have other : (t.decl id).isExtension = false := by simp [Decl.isExtension, kind]
    have out := Signature.Advances.withoutBody sound id
    have others : ∀ other, other ≠ id → (Signature.withoutBody t id).decl other = t.decl other :=
      fun other ne => decl_modifyDecl_of_ne ne _ _
    have declares : (t.decl id).declares = c.body.declares := by simp [Decl.declares, kind]
    have hollow : ((Signature.withoutBody t id).decl id).declares = [] := by
      rw [declares_eq, Signature.body_withoutBody, Signature.withoutBody,
        Signature.members_mapCallable, Signature.members_of_kind kind]
      rfl
    obtain ⟨m, bounded, below, back⟩ :=
      surveyed.bounded.walk lt id hollow fun other ne => by rw [others other ne]
    have bodies : ∀ v, ((Signature.withoutBody t id).decl v).body = (t.decl v).body ∨
        ((Signature.withoutBody t id).decl v).body = .absent := fun v => by
      by_cases same : v = id
      · exact .inr (same ▸ Signature.body_withoutBody t id)
      · exact .inl (by rw [others v same])
    have surveyed₁ := surveyed.takeOut out (.of_scopes rfl) bodies
      (fun v => .inl (Signature.members_mapCallable ..)) bounded
    have completed₁ : (Signature.withoutBody t id).Completed C := fun v held =>
      (completed v held).of_advances out subset_rfl (bodies v)
        fun _ => .inl (Signature.members_mapCallable ..)
    have old := sound.decls id
    rw [kind] at old
    have entered : (Signature.withoutBody t id).Evolves ((Signature.withoutBody t id).enter scope) :=
      .of_same rfl rfl
    obtain ⟨⟨ids, relation, full⟩, reworked⟩ := ends_body (completing_lifts m)
      (fun w inside => holds m (below (by rw [declares]; exact List.ne_nil_of_mem inside)) _ w inside)
      (surveyed₁.sound.enter scope) (inside_withoutBody sound kind typed scope)
      (fun e member => (out.evolves.trans entered).exprSound (old.body e member)) walk
    obtain rfl := full fault
    obtain ⟨C', within, all, surveyed₂, completed₂⟩ := relation.2 quiet rank V C
      (surveyed₁.of_active _) (completed₁.of_active _) fun w inside =>
        visits.inside other w (by rw [declares]; exact inside)
    have surveyed₃ : t₂.leave.Surveyed rank ∅ V m := surveyed₂.of_active _
    have completed₃ : t₂.leave.Completed C' := completed₂.of_active _
    have left : t₂.Evolves t₂.leave := .of_same rfl rfl
    have put : t₂.leave.Advances (Signature.withBody t₂.leave id worked.1) :=
      Signature.Advances.withBody surveyed₃.sound id fun e member =>
        left.exprSound (reworked.sound e member)
    have before : t.Advances t₂.leave := out.trans relation.1.advances.leave
    have advances := before.trans put
    obtain ⟨c₂, kind₂, typed₂, -⟩ := before.evolves.callable kind typed
    obtain ⟨c₃, kind₃, typed₃, -⟩ := advances.evolves.callable kind typed
    have body' := Signature.body_withBody kind₂ worked.1
    have members' : (Signature.withBody t₂.leave id worked.1).members id = [] :=
      Signature.members_of_kind kind₃
    have declares' : ((Signature.withBody t₂.leave id worked.1).decl id).declares =
        (t.decl id).declares := by
      rw [declares_eq, body', members', declares, reworked.declares]
      simp [Stmt.declaresIn]
    have others' : ∀ other, other ≠ id →
        (Signature.withBody t₂.leave id worked.1).decl other = t₂.leave.decl other :=
      fun other ne => decl_modifyDecl_of_ne ne _ _
    have neat : (Signature.withBody t₂.leave id worked.1).Neat id := by
      refine ⟨fun s' same => ?_, ?_, .inr ⟨scope, (advances.scopeOf? _).trans owns⟩⟩
      · obtain ⟨s, was, alike⟩ := reworked.alike s' (body' ▸ same)
        obtain ⟨merged, blocks⟩ := (visits.neat other).body s (by rw [Decl.body_of_kind kind, was])
        rw [Stmt.merged_eq_self] at merged
        refine ⟨Stmt.merged_eq_self s' |>.mpr fun w listed => ?_, ?_⟩
        · rw [advances.isExtension]
          exact merged w (alike.listed ▸ listed)
        · rw [alike.blocks]
          exact advances.hasBlocks blocks
      · rw [members']
        exact ⟨rfl, fun _ none => (by cases none)⟩
    have bounded' := back surveyed₃.bounded (fun other ne => by rw [others' other ne])
      fun empty => declares'.trans empty
    have filled := surveyed.refill surveyed₃ member before put rfl others' declares' other neat
      bounded'
    refine ⟨insert id C', within.trans (Set.subset_insert id C'), Set.mem_insert id C', filled,
      completed₃.put put others' ?_⟩
    have inside₂ : t₂.Inside (some id) := fun _ same =>
      Option.some.inj same ▸ ⟨sort, c₂, kind₂, typed₂⟩
    exact
      { announced := (advances.evolves.decls id visits.lt).isAnnounced visits.announced
        read := fun e initializer => by simp [Decl.initializer?, kind₃] at initializer
        valued := fun constant => by simp [Decl.isConstant, kind₃] at constant
        body := fun use inside => (reworked.quiet fault quiet use (body' ▸ inside)).of_evolves
          inside₂ (left.trans put.evolves)
        owns := fun e same => (reworked.owns fault e (body' ▸ same)).imp
          fun s known => (put.scopeOf? _).trans known
        members := fun _ use inside => by rw [members'] at inside; cases inside
        inside := fun _ w inside => by
          rw [declares', declares] at inside
          exact Set.mem_insert_of_mem id (all w inside) }

/-! ## Classes -/

theorem ClassReworked.completing (h : ClassReworked (statements define none) id ρ t r ρ' t')
    (ok : r = .ok ()) (quiet : ρ' = ρ) (primary : (t.decl id).isPrimaryClass = true)
    (holds : ∀ m < level, ∀ ids, (Completing m).Holds define ids) (lt : n < level + 1)
    (surveyed : t.Surveyed rank ∅ V n) (completed : t.Completed C) (member : id ∈ V) :
    ∃ C', C ⊆ C' ∧ id ∈ C' ∧ t'.Surveyed rank ∅ V n ∧ t'.Completed C' := by
  have visits := surveyed.visited id member
  cases h with
  | refused fault _ =>
    rw [ok] at fault
    cases fault
  | @walked scope body t₂ owns walk =>
    have sound := surveyed.sound
    have other := not_isExtension_of_isPrimaryClass primary
    have isClass := members?_isSome_of_isPrimaryClass primary
    have bodyless := body_of_isPrimaryClass primary
    have out := Signature.advances_withoutMembers sound id
    have others : ∀ other, other ≠ id → (Signature.withoutMembers t id).decl other = t.decl other :=
      fun other ne => decl_modifyDecl_of_ne ne _ _
    have declares : (t.decl id).declares = Stmt.declaresIn (t.members id) := by
      rw [declares_eq, bodyless]
      rfl
    obtain ⟨m, bounded, below, back⟩ := surveyed.bounded.walk lt id
      (declares_mapMembers primary _) fun other ne => by rw [others other ne]
    have members : ∀ v, (Signature.withoutMembers t id).members v = t.members v ∨
        (Signature.withoutMembers t id).members v = [] := fun v => by
      by_cases same : v = id
      · subst same
        exact .inr (members_mapMembers_self isClass _)
      · exact .inl (members_modifyDecl_of_ne same _)
    have surveyed₁ :=
      surveyed.takeOut out (.of_scopes rfl) (fun v => .inl (body_mapMembers ..)) members bounded
    have completed₁ : (Signature.withoutMembers t id).Completed C := fun v held =>
      (completed v held).of_advances out subset_rfl (.inl (body_mapMembers ..)) fun _ => members v
    have entered : (Signature.withoutMembers t id).Evolves
        ((Signature.withoutMembers t id).enter scope) := .of_same rfl rfl
    obtain ⟨relation, reworked⟩ := ends_statements (completing_lifts m) _
      (fun w inside => holds m (below (by rw [declares]; exact List.ne_nil_of_mem inside)) _ w inside)
      (surveyed₁.sound.enter scope) (outside_every_function _)
      (fun e member => (out.evolves.trans entered).exprSound (sound.members id e member)) walk
    obtain ⟨C', within, all, surveyed₂, completed₂⟩ := relation.2 quiet rank V C
      (surveyed₁.of_active _) (completed₁.of_active _) fun w inside =>
        visits.inside other w (by rw [declares]; exact inside)
    have surveyed₃ : t₂.leave.Surveyed rank ∅ V m := surveyed₂.of_active _
    have completed₃ : t₂.leave.Completed C' := completed₂.of_active _
    have left : t₂.Evolves t₂.leave := .of_same rfl rfl
    have put : t₂.leave.Advances (t₂.leave.modifyDecl id (·.mapMembers fun _ => body)) :=
      .of_modifyDecl surveyed₃.sound (.setMembers id fun e member =>
        left.exprSound (reworked.sound e member))
    have before : t.Advances t₂.leave := out.trans relation.1.advances.leave
    have advances := before.trans put
    have primary₂ : (t₂.leave.decl id).isPrimaryClass = true := by
      rw [before.isPrimaryClass]; exact primary
    have primary₃ : ((t₂.leave.modifyDecl id (·.mapMembers fun _ => body)).decl id).isPrimaryClass =
        true := by
      rw [advances.isPrimaryClass]
      exact primary
    have members' := members_mapMembers_self (members?_isSome_of_isPrimaryClass primary₂) fun _ => body
    have body' := body_of_isPrimaryClass primary₃
    have declares' : ((t₂.leave.modifyDecl id (·.mapMembers fun _ => body)).decl id).declares =
        (t.decl id).declares := by
      rw [declares_mapMembers primary₂, declares, reworked.alike.declares]
    have others' : ∀ other, other ≠ id →
        (t₂.leave.modifyDecl id (·.mapMembers fun _ => body)).decl other = t₂.leave.decl other :=
      fun other ne => decl_modifyDecl_of_ne ne _ _
    have neat : (t₂.leave.modifyDecl id (·.mapMembers fun _ => body)).Neat id := by
      obtain ⟨merged, blocks⟩ := (visits.neat other).members
      rw [Stmt.mergedIn_eq_self] at merged
      refine neat_mapMembers primary₂ ((before.scopeOf? _).trans owns)
        ((Stmt.mergedIn_eq_self body).mpr fun w listed => ?_) ?_
      · rw [advances.isExtension]
        exact merged w (reworked.alike.listed ▸ listed)
      · rw [reworked.alike.blocks]
        exact before.hasBlocks blocks
    have bounded' := back surveyed₃.bounded (fun other ne => by rw [others' other ne])
      fun empty => declares'.trans empty
    have filled := surveyed.refill surveyed₃ member before put rfl others' declares' other neat
      bounded'
    refine ⟨insert id C', within.trans (Set.subset_insert id C'), Set.mem_insert id C', filled,
      completed₃.put put others' ?_⟩
    have bare := Decl.not_object_of_isPrimaryClass primary₃
    exact
      { announced := (advances.evolves.decls id visits.lt).isAnnounced visits.announced
        read := fun e initializer => by rw [bare.1] at initializer; cases initializer
        valued := fun constant => by rw [bare.2] at constant; cases constant
        body := fun use inside => by rw [body'] at inside; cases inside
        owns := fun e same => by rw [body'] at same; cases same
        members := fun _ use inside => (reworked.quiet quiet use (members' ▸ inside)).of_evolves
          (outside_every_function _) (left.trans put.evolves)
        inside := fun _ w inside => by
          rw [declares', declares] at inside
          exact Set.mem_insert_of_mem id (all w inside) }

/-! ## Declarations -/

theorem ObjectReworked.completes (h : ObjectReworked id t r t') (ok : r = .ok ())
    {sort : ObjectSort} {type : Ty} {init : Option Expr}
    (kind : (t.decl id).kind = .object sort type init) (announced : (t.decl id).IsAnnounced) :
    t'.Completes C id := by
  have lt := lt_size_of_isAnnounced announced
  have evolves := h.idles.advances.evolves
  have bare := evolves.isBare lt (isBare_of_object kind)
  have members : t'.members id = [] := by simp [SymbolTable.members, bare.members]
  exact
    { announced := (evolves.decls id lt).isAnnounced announced
      read := h.read ok announced
      valued := fun constant =>
        h.valued ok announced ((evolves.decls id lt).isConstant_eq ▸ constant)
      body := fun use inside => by rw [bare.body] at inside; cases inside
      owns := fun e same => by rw [bare.body] at same; cases same
      members := fun _ use inside => by rw [members] at inside; cases inside
      inside := fun _ w inside => by rw [bare.declares] at inside; cases inside }

theorem Done.completing (h : Done define id ρ t r ρ' t') (ok : r = .ok ()) (quiet : ρ' = ρ)
    (holds : ∀ m < level, ∀ ids, (Completing m).Holds define ids) (lt : n < level + 1)
    (surveyed : t.Surveyed rank ∅ V n) (completed : t.Completed C) (member : id ∈ V) :
    ∃ C', C ⊆ C' ∧ id ∈ C' ∧ t'.Surveyed rank ∅ V n ∧ t'.Completed C' := by
  have visits := surveyed.visited id member
  cases h with
  | refused fault _ _ =>
    rw [ok] at fault
    cases fault
  | object kind reworked _ =>
    have completed' := completed.idles reworked.idles
    refine ⟨insert id C, Set.subset_insert id C, Set.mem_insert id C,
      surveyed.idles reworked.idles, completed'.put (.refl t') (fun _ _ => rfl) ?_⟩
    exact reworked.completes ok kind visits.announced
  | function reworked => exact reworked.completing ok quiet holds lt surveyed completed member
  | primary primary reworked =>
    exact reworked.completing ok quiet primary holds lt surveyed completed member
  | other sort _ same =>
    obtain rfl := same
    refine ⟨insert id C, Set.subset_insert id C, Set.mem_insert id C, surveyed,
      completed.put (.refl t') (fun _ _ => rfl) ?_⟩
    have bare := (t'.decl id).not_object fun sort' type init kind => by
      rcases sort with extension | ⟨_, super⟩
      · simp [Decl.isExtension, kind] at extension
      · simp [kind] at super
    have bodyless : (t'.decl id).body = .absent := by
      rcases sort with extension | ⟨_, super⟩
      · exact body_of_isExtension extension
      · simp [Decl.body, Decl.callable?, super]
    have empty (other : (t'.decl id).isExtension = false) : t'.members id = [] := by
      obtain ⟨type, super⟩ := sort.resolve_left (by simp [other])
      simp [SymbolTable.members, Decl.members?, super]
    exact
      { announced := visits.announced
        read := fun e initializer => by rw [bare.1] at initializer; cases initializer
        valued := fun constant => by rw [bare.2] at constant; cases constant
        body := fun use inside => by rw [bodyless] at inside; cases inside
        owns := fun e same => by rw [bodyless] at same; cases same
        members := fun other use inside => by rw [empty other] at inside; cases inside
        inside := fun other w inside => by
          rw [declares_eq, bodyless, empty other] at inside
          cases inside }

/-- With more levels than functions and classes that have something inside them, a quiet pass
completes what it passes over. -/
theorem completing_defineWithin (level : Nat) :
    ∀ n < level, ∀ ids, (Completing n).Holds (defineWithin level) ids := by
  induction level with
  | zero => intro n lt; omega
  | succ level ih =>
    intro n lt ids id member ρ ρ' t t' u sound h
    have passes := passing_defineWithin (level + 1) [id] id (by simp) sound h
    refine ⟨passes, fun quiet rank V C surveyed completed visited => ?_⟩
    obtain ⟨fault?, ρ₁, t₁, defined, rest⟩ := ends_bind.mp h
    rw [ends_bind_look] at rest
    obtain ⟨rfl, rfl⟩ := ends_reportWithin.mp rest
    rcases Faulting.ends_fault?.mp defined with ⟨rfl, run⟩ | ⟨d, rfl, run⟩
    · obtain ⟨C', within, all, surveyed', completed'⟩ := (ends_declaration sound run).completing rfl
        (by simpa using quiet) ih lt surveyed completed (visited id (by simp))
      exact ⟨C', within, by simpa using all, surveyed', completed'⟩
    · have grows := ((ends_declaration sound run).passes sound (passing_defineWithin level)).grows
      exact absurd quiet (reported_ne grows _)

theorem completing_define (n : Nat) (ids : List DeclId) :
    (Completing n).Holds Definition.define ids := by
  intro id member ρ ρ' t t' u sound h
  have passes := passing_define [id] id (by simp) sound h
  refine ⟨passes, fun quiet rank V C surveyed completed visited => ?_⟩
  unfold Definition.define at h
  rw [ends_bind_look] at h
  have bounded : t.Bounded (min n t.decls.size) := by
    rcases Nat.le_total n t.decls.size with less | more
    · rw [Nat.min_eq_left less]
      exact surveyed.bounded
    · rw [Nat.min_eq_right more]
      exact t.bounded_size
  obtain ⟨-, completing⟩ := completing_defineWithin (t.decls.size + 1) (min n t.decls.size)
    (by omega) [id] id (by simp) sound h
  obtain ⟨C', within, all, surveyed', completed'⟩ :=
    completing quiet rank V C { surveyed with bounded } completed visited
  exact ⟨C', within, all, { surveyed' with
    bounded := surveyed'.bounded.mono (Nat.min_le_left n t.decls.size) }, completed'⟩

end Definition

/-! ## Units -/

/-- What the second pass over a unit leaves that reports nothing, once the first pass has visited
what lies in the unit. -/
theorem SourceUnit.completes_resolveDefinitions {u u' : SourceUnit} {t t' : SymbolTable}
    {rank : ScopeId → Nat} {V : Set DeclId} (sound : t.Sound)
    (exprs : ∀ e ∈ Stmt.expressionsIn u.body, e.Sound t) (placed : t.Placed rank)
    (visited : t.Visited ∅ V) (inside : ∀ w ∈ Stmt.declaresIn u.body, w ∈ V)
    (h : u.resolveDefinitions.run t = ((u', []), t')) :
    Stmt.AlikeIn u.body u'.body ∧ t'.Placed rank ∧ t'.Visited ∅ V ∧
      (∀ use ∈ Stmt.usesIn u'.body, use.IsDefined t' none) ∧
      ∃ C, (∀ w ∈ Stmt.declaresIn u'.body, w ∈ C) ∧ t'.Completed C := by
  unfold resolveDefinitions at h
  rw [run_collect] at h
  obtain ⟨body, ρ₁, t₁, walk, rest⟩ := ends_bind.mp h
  obtain ⟨same, rfl, rfl⟩ := ends_pure.mp rest
  subst same
  obtain ⟨t₂, walk₂, rfl⟩ := ends_under.mp walk
  have entered : t.Evolves (t.enter u.scope) := .of_same rfl rfl
  have left : t₂.Evolves t₂.leave := .of_same rfl rfl
  obtain ⟨relation, reworked⟩ := Definition.ends_statements (completing_lifts t.decls.size) _
    (Definition.completing_define _ _) (sound.enter _) (Definition.outside_every_function _)
    (fun e member => entered.exprSound (exprs e member)) walk₂
  have surveyed : t.Surveyed rank ∅ V t.decls.size :=
    ⟨sound, placed, visited, t.bounded_size, fun _ none => (by cases none)⟩
  obtain ⟨C, -, all, surveyed', completed⟩ := relation.2 rfl rank V ∅ (surveyed.of_active _)
    (fun _ none => by cases none) inside
  refine ⟨reworked.alike, (surveyed'.of_active _).placed, (surveyed'.of_active _).visited,
    fun use member => (reworked.quiet rfl use member).of_evolves
      (Definition.outside_every_function _) left, C, fun w member => ?_, completed.of_active _⟩
  exact all w (reworked.alike.declares ▸ member)

end Deferral
