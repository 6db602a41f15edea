import Deferral.Proofs.Integrity.Signature

/-!
# The first pass over declarations keeps a table tidy

What is inside a function or a class lies deeper than it, and is put back with nothing new in it. So a
class is not passed over again while it is being passed over, and takes in extensions that it has not
taken in before.
-/

namespace Deferral

open Reporting SymbolTable

variable {rank : ScopeId → Nat} {took : DeclId → DeclId → Prop} {begun : Set DeclId} {t t' : SymbolTable}
  {ρ ρ' : List Diagnostic} {scope : ScopeId} {id : DeclId}

theorem PassRelation.Holds.passing {pass : DeclId → Reporting Unit} {ids : List DeclId}
    (h : Tidying.Holds pass ids) : Passing.Holds pass ids :=
  fun id member _ _ _ _ _ sound run => (h id member sound run).1

/-! ## What is inside declarations -/

theorem SymbolTable.Below.mono {ids : List DeclId} {begun' : Set DeclId} (h : t.Below rank begun ids)
    (within : begun' ⊆ begun) : t.Below rank begun' ids :=
  fun w member => (h w member).imp_right fun deeper c inside => deeper c (within inside)

theorem SymbolTable.Below.of_subset {ids ids' : List DeclId} (h : t.Below rank begun ids)
    (within : ids' ⊆ ids) : t.Below rank begun ids' :=
  fun w member => h w (within member)

namespace Decl

variable {d : Decl} {w : DeclId}

theorem mem_declares_withBody {body : Body}
    (member : w ∈ (d.mapCallable fun c => { c with body }).declares) : w ∈ d.declares ∨ w ∈ body.declares := by
  rcases d.mapCallable_cases fun c => { c with body } with ⟨sort, c, old, new⟩ | same
  · exact .inr (by simpa [declares, new] using member)
  · exact .inl (same ▸ member)

theorem mem_declares_withMembers {body : List Stmt} (member : w ∈ (d.mapMembers fun _ => body).declares) :
    w ∈ d.declares ∨ w ∈ Stmt.declaresIn body := by
  rcases d.mapMembers_cases fun _ => body with ⟨sort, kind, before, old, new⟩ | same
  · exact .inr (by simpa [declares, new] using member)
  · exact .inl (same ▸ member)

end Decl

namespace SymbolTable.Tidy

/-- What is inside a declaration lies deeper than it, and than what it lies below. -/
theorem below_inside {begun' : Set DeclId} (h : t.Tidy rank took begun') (below : t.Below rank begun [id]) :
    t.Below rank (insert id begun) (t.decl id).declares := fun w member => by
  obtain ⟨lt, deeper⟩ := h.deeper id w member
  refine ⟨lt, fun c inside => ?_⟩
  rcases inside with rfl | inside
  · exact deeper
  · exact ((below id (List.mem_singleton_self id)).2 c inside).trans deeper

/-- A function is given a body in which everything lies deeper. -/
theorem withBody (h : t.Tidy rank took begun) {body : Body} (below : t.Below rank {id} body.declares) :
    (Signature.withBody t id body).Tidy rank took begun := by
  refine h.modifyDecl (.mapCallable t id _) (Decl.name_mapCallable ..) (subject_mapCallable ..)
    (fun p member => .inl ?_) fun w member => ?_
  · rwa [Decl.typeParameters_mapCallable] at member
    exact fun _ => rfl
  · exact (Decl.mem_declares_withBody member).imp_right fun inside =>
      (below w inside).imp_right fun deeper => deeper id rfl

/-- A class is given members that lie deeper. -/
theorem withMembers (h : t.Tidy rank took begun) {body : List Stmt}
    (below : t.Below rank {id} (Stmt.declaresIn body)) :
    (t.modifyDecl id (·.mapMembers fun _ => body)).Tidy rank took begun := by
  refine h.modifyDecl (.mapMembers t id _) (Decl.name_mapMembers ..) (subject_mapMembers ..)
    (fun p member => .inl (Decl.typeParameters_mapMembers (t.decl id) _ ▸ member)) fun w member => ?_
  exact (Decl.mem_declares_withMembers member).imp_right fun inside =>
    (below w inside).imp_right fun deeper => deeper id rfl

end SymbolTable.Tidy

namespace Signature

variable {declare : DeclId → Reporting Unit}

theorem sublist_declaresIn {body body' : List Stmt} (h : body.Sublist body') :
    (Stmt.declaresIn body).Sublist (Stmt.declaresIn body') := by
  induction h with
  | slnil => exact .slnil
  | cons s _ ih => exact ih.trans (List.sublist_append_right s.declares _)
  | cons_cons s _ ih => exact (List.Sublist.refl s.declares).append ih

theorem declaresIn_withoutExtensions (t : SymbolTable) (body : List Stmt) :
    (Stmt.declaresIn (withoutExtensions t body)).Sublist (Stmt.declaresIn body) :=
  sublist_declaresIn List.filter_sublist

/-! ## Statements -/

mutual

/-- A statement declares nothing that it did not declare before, and nothing more often. -/
theorem declares_statement : ∀ (s : Stmt) {ρ ρ' : List Diagnostic} {t t' : SymbolTable} {s' : Stmt},
    Ends (statement declare s) ρ t s' ρ' t' → s'.declares.Sublist s.declares
  | .block id body span, _, _, _, _, _, h => by
    obtain ⟨outcome, ρ₁, t₁, looked, rest⟩ := ends_bind.mp h
    cases outcome with
    | error d =>
      obtain ⟨_, _, _, -, last⟩ := ends_bind.mp rest
      obtain ⟨rfl, -, -⟩ := ends_pure.mp last
      exact List.Sublist.refl _
    | ok scope =>
      obtain ⟨walked, _, _, under, last⟩ := ends_bind.mp rest
      obtain ⟨rfl, -, -⟩ := ends_pure.mp last
      obtain ⟨_, inner, -⟩ := ends_under.mp under
      obtain ⟨walked', _, _, walk, filtered⟩ := ends_bind.mp inner
      obtain ⟨rfl, -, -⟩ := ends_look.mp filtered
      exact (declaresIn_withoutExtensions _ _).trans (declares_statements body walk)
  | .declaration id span, _, _, _, _, _, h => by
    obtain ⟨_, _, _, -, rest⟩ := ends_bind.mp h
    obtain ⟨rfl, -, -⟩ := ends_pure.mp rest
    exact List.Sublist.refl _
  | .conditional condition onTrue onFalse span, _, _, _, _, _, h => by
    obtain ⟨onTrue', _, _, first, rest⟩ := ends_bind.mp h
    obtain ⟨onFalse', _, _, second, last⟩ := ends_bind.mp rest
    obtain ⟨rfl, -, -⟩ := ends_pure.mp last
    exact (declares_statement onTrue first).append (declares_alternative onFalse second)
  | .whileLoop condition body span, _, _, _, _, _, h => by
    obtain ⟨body', _, _, first, rest⟩ := ends_bind.mp h
    obtain ⟨rfl, -, -⟩ := ends_pure.mp rest
    have within := declares_statement body first
    exact within
  | .returning _ _, _, _, _, _, _, h | .yielding _ _, _, _, _, _, _, h | .breaking _, _, _, _, _, _, h
  | .continuing _, _, _, _, _, _, h | .expression _, _, _, _, _, _, h => by
    obtain ⟨rfl, -, -⟩ := ends_pure.mp h
    exact List.Sublist.refl _

theorem declares_statements : ∀ (body : List Stmt) {ρ ρ' : List Diagnostic} {t t' : SymbolTable}
    {body' : List Stmt}, Ends (statements declare body) ρ t body' ρ' t' →
    (Stmt.declaresIn body').Sublist (Stmt.declaresIn body)
  | [], _, _, _, _, _, h => by
    obtain ⟨rfl, -, -⟩ := ends_pure.mp h
    exact List.Sublist.refl _
  | s :: body, _, _, _, _, _, h => by
    obtain ⟨s', _, _, first, rest⟩ := ends_bind.mp h
    obtain ⟨rest', _, _, others, last⟩ := ends_bind.mp rest
    obtain ⟨rfl, -, -⟩ := ends_pure.mp last
    exact (declares_statement s first).append (declares_statements body others)

theorem declares_alternative : ∀ (onFalse : Option Stmt) {ρ ρ' : List Diagnostic} {t t' : SymbolTable}
    {onFalse' : Option Stmt}, Ends (alternative declare onFalse) ρ t onFalse' ρ' t' →
    (Stmt.declaresBehindElse onFalse').Sublist (Stmt.declaresBehindElse onFalse)
  | none, _, _, _, _, _, h => by
    obtain ⟨rfl, -, -⟩ := ends_pure.mp h
    exact List.Sublist.refl _
  | some s, _, _, _, _, _, h => by
    obtain ⟨s', first, rfl⟩ := ends_map.mp h
    exact declares_statement s first

end

theorem declares_sequence {body body' : List Stmt} (h : Ends (sequence declare body) ρ t body' ρ' t') :
    (Stmt.declaresIn body').Sublist (Stmt.declaresIn body) := by
  obtain ⟨walked, _, _, walk, filtered⟩ := ends_bind.mp h
  obtain ⟨rfl, -, -⟩ := ends_look.mp filtered
  exact (declaresIn_withoutExtensions _ _).trans (declares_statements body walk)

theorem BodyWalked.declares {body body' : Body}
    (h : BodyWalked (statement declare) scope ρ t body body' ρ' t') : body'.declares.Sublist body.declares := by
  cases h with
  | kept other => exact List.Sublist.refl _
  | walked walk => exact declares_statement _ walk

/-! ## Functions -/

theorem FunctionRefused.tidies {d : Diagnostic} (h : FunctionRefused id t d t')
    (tidy : t.Tidy rank took begun) : t'.Tidy rank took begun := by
  cases h with
  | idle => exact tidy
  | unsigned owns _ run => exact tidy_functionSignature tidy owns run

theorem FunctionWalked.tidies (h : FunctionWalked (statement declare) id ρ t ρ' t') (sound : t.Sound)
    (holds : ∀ ids, Tidying.Holds declare ids) (tidy : t.Tidy rank took begun)
    (below : t.Below rank begun [id]) : ∃ took, t'.Tidy rank took begun := by
  obtain ⟨owns, kind, run, given, walk⟩ := h
  rename_i scope sort c body t₁ t₂
  have inside : t.Below rank (insert id begun) c.body.declares := by
    simpa [Decl.declares, kind] using tidy.below_inside below
  have begun_lt : ∀ c ∈ insert id begun, c.index < t.decls.size := by
    rintro c (rfl | begins)
    · exact (below c (List.mem_singleton_self c)).1
    · exact tidy.begun_lt c begins
  have sound₁ := given.idles.advances.sound sound
  have out := Advances.withoutBody sound₁ id
  have advances := given.idles.advances.trans out
  have nothing : t₁.Below rank {id} Body.absent.declares := fun w none => by cases none
  have tidy₁ : (withoutBody t₁ id).Tidy rank took begun :=
    (tidy_functionSignature tidy owns run).withBody nothing
  obtain ⟨passes, walked⟩ := (walk.relation tidying_walks (holds _) (out.sound sound₁)
    ((advances.scopeOf? _).trans owns)).1
  obtain ⟨took₂, tidy₂⟩ := walked rank begun ⟨took, tidy₁⟩
    ((inside.mono (Set.subset_insert id begun)).of_advances advances tidy.begun_lt)
  have after := (inside.of_advances (advances.trans passes.advances) begun_lt).mono
    (Set.singleton_subset_iff.mpr (Set.mem_insert id begun))
  exact ⟨took₂, tidy₂.withBody (after.of_subset walk.declares.subset)⟩

/-! ## Classes -/

/-- A class takes in extensions of its name, each of them once. -/
theorem tidy_absorbAll {cls : DeclId} {outer : ScopeId} : ∀ (ids : List DeclId) {t t' : SymbolTable}
    {took : DeclId → DeclId → Prop} {r : Except Diagnostic Unit}, t.Tidy rank took begun → cls ∈ begun →
    (t.decl cls).isPrimaryClass = true → t.scopeOf? (.decl cls) = some outer → ids.Nodup →
    (∀ e ∈ ids, t.Binds (t.decl cls).scope (t.decl cls).name e) → (∀ e ∈ ids, ¬ took cls e) →
    Resolution.Runs (Resolution.absorbAll cls outer ids) t r t' → ∃ took, t'.Tidy rank took begun
  | [], _, _, took, _, tidy, _, _, _, _, _, _, h => by
    obtain ⟨-, rfl⟩ := Resolution.runs_pure.mp h
    exact ⟨took, tidy⟩
  | e :: rest, t, _, took, _, tidy, begins, primary, owns, nodup, bound, fresh, h => by
    obtain ⟨new, nodup⟩ := List.nodup_cons.mp nodup
    obtain ⟨binds, bound⟩ := List.forall_mem_cons.mp bound
    obtain ⟨untaken, fresh⟩ := List.forall_mem_cons.mp fresh
    unfold Resolution.absorbAll at h
    rw [Resolution.runs_bind_look] at h
    split at h
    · rename_i extension
      rcases Resolution.runs_bind.mp h with ⟨fault, looked, -⟩ | ⟨inner, t₁, looked, others⟩
      · obtain ⟨rfl, -⟩ := Resolution.runs_scopeOf looked
        exact ⟨took, tidy⟩
      obtain ⟨rfl, known⟩ := Resolution.runs_scopeOf looked
      have absorbed := tidy.absorb ⟨primary, extension, binds, known inner rfl, owns⟩ begins untaken
      have leaves := leaves_absorb t₁ cls e inner outer
      refine tidy_absorbAll rest absorbed begins ?_
        ((congrArg (List.lookup (ScopeOwner.decl cls)) leaves.saved).trans owns) nodup
        (fun e' member => ?_) (fun e' member => ?_) (Resolution.runs_bind_modify.mp others)
      · exact Decl.isPrimaryClass_iff.mpr
          ((leaves.subject cls).trans (Decl.isPrimaryClass_iff.mp primary))
      · rw [leaves.scope, leaves.name]
        exact binds_absorb_old (bound e' member) ..
      · rintro (taken | ⟨-, rfl⟩)
        · exact fresh e' member taken
        · exact new member
    · exact tidy_absorbAll rest tidy begins primary owns nodup bound fresh h

/-- A class that has not begun before takes in the extensions that share its name. -/
theorem tidy_absorbExtensions (tidy : t.Tidy rank took begun) (outside : id ∉ begun)
    (primary : (t.decl id).isPrimaryClass = true) {r : Except Diagnostic Unit}
    (h : Resolution.Runs (Resolution.absorbExtensions (t.decl id).scope id) t r t') :
    ∃ took, t'.Tidy rank took (insert id begun) := by
  have begins := tidy.begin (lt_size_of_isPrimaryClass primary)
  unfold Resolution.absorbExtensions at h
  rw [Resolution.runs_bind_look] at h
  rcases Resolution.runs_bind.mp h with ⟨fault, looked, -⟩ | ⟨outer, t₁, looked, rest⟩
  · obtain ⟨rfl, -⟩ := Resolution.runs_scopeOf looked
    exact ⟨took, begins⟩
  obtain ⟨rfl, known⟩ := Resolution.runs_scopeOf looked
  have bound : ∀ e ∈ ((t₁.scope (t₁.decl id).scope).find? (t₁.decl id).name).getD [],
      t₁.Binds (t₁.decl id).scope (t₁.decl id).name e := fun e member => Names.binds_of_getD member
  refine tidy_absorbAll _ begins (Set.mem_insert id begun) primary (known outer rfl) ?_ bound
    (fun e member taken => outside (tidy.once taken (bound e member))) rest
  cases found : (t₁.scope (t₁.decl id).scope).find? (t₁.decl id).name with
  | none => exact List.nodup_nil
  | some set => exact (tidy.filled found).2

theorem tidy_members {scope : ScopeId} {u : Unit} (sound : t.Sound) (tidy : t.Tidy rank took begun)
    (lt : id.index < t.decls.size) (inside : t.Below rank (insert id begun) (t.decl id).declares)
    (holds : ∀ ids, Tidying.Holds declare ids) (h : Ends (members (sequence declare) id scope) ρ t u ρ' t') :
    ∃ took, t'.Tidy rank took begun := by
  obtain ⟨body, t₁, walk, rfl⟩ := ends_members h
  have out := advances_withoutMembers sound id
  have declares : t.Below rank (insert id begun) (Stmt.declaresIn (t.members id)) :=
    inside.of_subset (by rw [declares_eq]; exact List.subset_append_right ..)
  have tidy₁ : (withoutMembers t id).Tidy rank took begun := tidy.withMembers fun w none => by cases none
  obtain ⟨passes, walked⟩ := tidying_walks.leave
    (ends_sequence tidying_walks (holds _) ((out.sound sound).enter scope) walk).1
  obtain ⟨took₂, tidy₂⟩ := walked rank begun ⟨took, tidy₁⟩
    ((declares.mono (Set.subset_insert id begun)).of_advances out tidy.begun_lt)
  have after := (declares.mono (Set.singleton_subset_iff.mpr (Set.mem_insert id begun))).of_advances
    (out.trans passes.advances) fun c same => Set.mem_singleton_iff.mp same ▸ lt
  exact ⟨took₂, tidy₂.withMembers (after.of_subset (declares_sequence walk).subset)⟩

/-- A class works with the members of its extensions, and has its name for itself afterwards. -/
theorem tidy_withExtensions {α : Type} {action : Reporting α} (sound : t.Sound)
    (tidy : t.Tidy rank took begun) (outside : id ∉ begun) (primary : (t.decl id).isPrimaryClass = true)
    (acts : ∀ {begun' : Set DeclId} {took : DeclId → DeclId → Prop} {t₁ t₂ : SymbolTable}
      {ρ ρ' : List Diagnostic} {a : α}, begun' ⊆ insert id begun → t₁.Sound → t.Advances t₁ →
      t₁.Tidy rank took begun' → Ends action ρ t₁ a ρ' t₂ →
      t₁.Advances t₂ ∧ ∃ took, t₂.Tidy rank took begun')
    {r : Except Diagnostic α}
    (h : Faulting.Ends (Faulting.withExtensions (t.decl id).scope id action) ρ t r ρ' t') :
    ∃ took, t'.Tidy rank took begun := by
  -- The class gives up the names of its extensions, however it has worked with them.
  have finish {t₂ : SymbolTable} (advances : t.Advances t₂)
      (worked : ∃ took, t₂.Tidy rank took (insert id begun)) : ∃ took,
      (t₂.keepOnly (t.decl id).scope (t.decl id).name fun d => !d.isExtension).Tidy rank took begun := by
    obtain ⟨took₂, tidy₂⟩ := worked
    have lt := lt_size_of_isPrimaryClass primary
    have isClass : (t₂.decl id).subject = .classDecl :=
      Decl.isPrimaryClass_iff.mp ((advances.isPrimaryClass id).trans primary)
    have only := tidy₂.keepOnly isClass
    rw [advances.scope lt, advances.name lt, Set.insert_sdiff_self_of_notMem outside] at only
    exact ⟨took₂, only⟩
  unfold Faulting.withExtensions at h
  rw [Faulting.ends_bind_look, Faulting.ends_bind_look] at h
  split at h
  · obtain ⟨t₂, run, rfl⟩ := Faulting.ends_ending.mp h
    rcases Faulting.ends_bind.mp run with ⟨fault, absorbs, -⟩ | ⟨_, ρ₁, t₁, absorbs, rest⟩
    · obtain ⟨absorbs, -⟩ := Faulting.ends_resolve.mp absorbs
      exact finish (Resolution.runs_absorbExtensions sound absorbs).1
        (tidy_absorbExtensions tidy outside primary absorbs)
    · obtain ⟨absorbs, -⟩ := Faulting.ends_resolve.mp absorbs
      have advances := (Resolution.runs_absorbExtensions sound absorbs).1
      obtain ⟨took₁, tidy₁⟩ := tidy_absorbExtensions tidy outside primary absorbs
      obtain ⟨a, acted, -⟩ := Faulting.ends_lift.mp rest
      obtain ⟨worked, tidy₂⟩ := acts (Set.Subset.refl _) (advances.sound sound) advances tidy₁ acted
      exact finish (advances.trans worked) tidy₂
  · obtain ⟨a, acted, -⟩ := Faulting.ends_lift.mp h
    exact (acts (Set.subset_insert id begun) sound (.refl t) tidy acted).2

theorem tidy_classMembers (sound : t.Sound) (tidy : t.Tidy rank took begun)
    (below : t.Below rank begun [id]) (primary : (t.decl id).isPrimaryClass = true)
    (holds : ∀ ids, Tidying.Holds declare ids) {r : Except Diagnostic Unit}
    (h : Faulting.Ends (classMembers (sequence declare) id) ρ t r ρ' t') :
    ∃ took, t'.Tidy rank took begun := by
  have calm := Resolution.calm_under (R := LeavesContents) (Resolution.calm_forceSlot id .kind)
    (t.decl id).scope
  unfold classMembers at h
  rw [Faulting.ends_bind_look] at h
  rcases Faulting.ends_bind.mp h with ⟨fault, forced, -⟩ | ⟨_, ρ₁, t₁, forced, rest⟩
  · exact ⟨took, tidy.of_contents (calm (Faulting.ends_resolve.mp forced).1)⟩
  obtain ⟨run, -⟩ := Faulting.ends_resolve.mp forced
  have leaves := calm run
  have advances := Advances.of_settles (runs_slotUnder sound run).1
  have tidy₁ := tidy.of_contents leaves
  rcases Faulting.ends_bind.mp rest with ⟨fault, looked, -⟩ | ⟨scope, ρ₂, t₂, looked, last⟩
  · obtain ⟨rfl, -⟩ := Resolution.runs_scopeOf (Faulting.ends_resolve.mp looked).1
    exact ⟨took, tidy₁⟩
  obtain ⟨rfl, -⟩ := Resolution.runs_scopeOf (Faulting.ends_resolve.mp looked).1
  rw [← leaves.scope id] at last
  refine tidy_withExtensions (advances.sound sound) tidy₁ (fun inside => ?_)
    ((advances.isPrimaryClass id).trans primary) (fun within sound₃ since tidy₃ acted => ?_) last
  · exact Nat.lt_irrefl _ ((below id (List.mem_singleton_self id)).2 id inside)
  · have below₃ := below.of_advances (advances.trans since) tidy.begun_lt
    have inside := (tidy₃.below_inside below₃).mono (Set.insert_subset (Set.mem_insert id _) within)
    have passes := passes_members sound₃ (holds _).passing acted
    exact ⟨passes.advances,
      tidy_members sound₃ tidy₃ (below₃ id (List.mem_singleton_self id)).1 inside holds acted⟩

/-! ## Declarations -/

theorem tidy_declaration (sound : t.Sound) (tidy : t.Tidy rank took begun)
    (below : t.Below rank begun [id]) (holds : ∀ ids, Tidying.Holds declare ids)
    {r : Except Diagnostic Unit} (h : Faulting.Ends (declaration declare id) ρ t r ρ' t') :
    ∃ took, t'.Tidy rank took begun := by
  have settled (h : Faulting.Ends (Faulting.resolve (object id)) ρ t r ρ' t') :
      ∃ took, t'.Tidy rank took begun :=
    ⟨took, tidy.of_contents (calm_object id (Faulting.ends_resolve.mp h).1)⟩
  have unexpected (h : Faulting.Ends (Faulting.resolve (Resolution.unexpectedDecl (t.decl id))) ρ t r
      ρ' t') : ∃ took, t'.Tidy rank took begun := by
    obtain ⟨rfl, -⟩ := Resolution.runs_unexpectedDecl (Faulting.ends_resolve.mp h).1
    exact ⟨took, tidy⟩
  unfold declaration at h
  rw [Faulting.ends_bind_look] at h
  split at h
  · exact settled h
  · exact settled h
  · rcases ends_function sound h with ⟨d, -, -, refused⟩ | ⟨-, walked⟩
    · exact ⟨took, refused.tidies tidy⟩
    · exact walked.tidies sound holds tidy below
  · rename_i kind
    exact tidy_classMembers sound tidy below (by simp [Decl.isPrimaryClass, kind]) holds h
  · obtain ⟨-, -, rfl⟩ := Faulting.ends_pure.mp h
    exact ⟨took, tidy⟩
  · exact unexpected h
  · exact unexpected h

theorem tidying_declareWithin (level : Nat) (ids : List DeclId) :
    Tidying.Holds (declareWithin level) ids := by
  induction level generalizing ids with
  | zero =>
    intro id _ ρ ρ' t t' u _ h
    obtain ⟨-, rfl, rfl⟩ := ends_pure.mp h
    exact ⟨.refl _ _, fun _ _ tidy _ => tidy⟩
  | succ level ih =>
    intro id member ρ ρ' t t' u sound h
    refine ⟨passing_declareWithin (level + 1) ids id member sound h, fun rank begun ⟨took, tidy⟩ below => ?_⟩
    obtain ⟨fault?, ρ₁, t₁, declared, rest⟩ := ends_bind.mp h
    rw [ends_bind_look] at rest
    obtain ⟨-, rfl⟩ := ends_reportWithin.mp rest
    rcases Faulting.ends_fault?.mp declared with ⟨-, run⟩ | ⟨d, -, run⟩
    · exact tidy_declaration sound tidy below ih run
    · exact tidy_declaration sound tidy below ih run

theorem tidying_declare (ids : List DeclId) : Tidying.Holds Signature.declare ids := by
  intro id member ρ ρ' t t' u sound h
  unfold Signature.declare at h
  exact tidying_declareWithin _ ids id member sound (ends_bind_look.mp h)

end Signature

/-- The first pass over a unit keeps the table tidy, whatever it reports. -/
theorem SourceUnit.tidies_resolveSignatures {u u' : SourceUnit} {reported : List Diagnostic}
    (sound : t.Sound) (tidy : t.Tidy rank took ∅) (present : ∀ w ∈ Stmt.declaresIn u.body, w.index < t.decls.size)
    (h : u.resolveSignatures.run t = ((u', reported), t')) : ∃ took, t'.Tidy rank took ∅ := by
  unfold resolveSignatures at h
  rw [run_collect] at h
  obtain ⟨body, ρ₁, t₁, walk, last⟩ := ends_bind.mp h
  obtain ⟨-, -, rfl⟩ := ends_pure.mp last
  obtain ⟨t₂, inner, rfl⟩ := ends_under.mp walk
  have relation := tidying_walks.leave
    (Signature.ends_sequence tidying_walks (Signature.tidying_declare _) (sound.enter _) inner).1
  exact relation.2 rank ∅ ⟨took, tidy⟩ fun w member => ⟨present w member, fun c none => none.elim⟩

end Deferral
