import Deferral.Proofs.Generic.VisitedOnce
import Deferral.Proofs.Integrity.SecondPass

/-!
# The first pass over declarations comes to a function once

What is inside a function or a class is in hand while it is passed over, and held by nothing else. So the pass
comes to a function where it is declared, when its parameters are as they were read, and nowhere else.
-/

namespace Deferral

open Reporting SymbolTable

variable {t t' t₁ t₂ : SymbolTable} {ρ ρ' : List Diagnostic} {hand inside : List DeclId} {f id : DeclId}
  {scope : ScopeId}

namespace SymbolTable

/-! ## Parameters are held once -/

theorem count_parameters_le_holds (d : Decl) (w : DeclId) : d.parameters.count w ≤ d.holds.count w := by
  rw [Decl.holds, List.count_append]
  exact Nat.le_add_right ..

theorem Single.held_le_one (h : t.Single hand) (w : DeclId) : t.held w ≤ 1 :=
  (Nat.le_add_left ..).trans ((h w).trans (t.known_le_one w))

theorem Single.nodup_parameters (h : t.Single hand) (f : DeclId) : (t.decl f).parameters.Nodup :=
  List.nodup_iff_count_le_one.mpr fun w =>
    (count_parameters_le_holds _ w).trans ((t.count_holds_le_held f w).trans (h.held_le_one w))

/-- Different functions have different parameters. -/
theorem Single.parameters_apart (h : t.Single hand) (ne : f ≠ id) {p : DeclId}
    (member : p ∈ (t.decl f).parameters) : p ∉ (t.decl id).parameters := fun member' => by
  have once := (count_holds_add_le_held ne p).trans (h.held_le_one p)
  have here := (List.count_pos_iff.mpr member).trans_le (count_parameters_le_holds _ p)
  have there := (List.count_pos_iff.mpr member').trans_le (count_parameters_le_holds _ p)
  omega

/-! ## Bodies and members -/

theorem takenOut_body (sound : t.Sound) (id : DeclId) :
    TakenOut id (t.decl id).body.declares t (Signature.withoutBody t id) where
  passive := .withoutBody t id
  advances := Signature.Advances.withoutBody sound id
  held := Signature.held_withoutBody t id
  within := by
    rw [declares_eq]
    exact List.subset_append_left ..

theorem takenOut_members (sound : t.Sound) (id : DeclId) :
    TakenOut id (Stmt.declaresIn (t.members id)) t (Signature.withoutMembers t id) where
  passive := .withoutMembers t id
  advances := Signature.advances_withoutMembers sound id
  held := Signature.held_withoutMembers t id
  within := by
    rw [declares_eq]
    exact List.subset_append_right ..

theorem putBack_body {body : Body} (advances : t.Advances (Signature.withBody t id body))
    (fewer : body.declares.Sublist inside) : PutBack id inside t (Signature.withBody t id body) where
  advances := advances
  known known := known.of_named (size_modifyDecl ..).ge fun _ name => .inl name
  held w := (Signature.held_withBody t id body w).trans (Nat.add_le_add_left (fewer.count_le w) _)
  declares holder :=
    (declares_withBody t id body holder).imp_right fun ⟨same, put⟩ => ⟨same, put ▸ fewer.subset⟩
  signature := read_modifyDecl Decl.signature? (Decl.signature?_withBody body)
  parameters := kind_modifyDecl_of_parameter fun _ kind => Decl.kind_mapCallable_of_parameter kind _

theorem putBack_members {body : List Stmt}
    (advances : t.Advances (t.modifyDecl id (·.mapMembers fun _ => body)))
    (fewer : (Stmt.declaresIn body).Sublist inside) :
    PutBack id inside t (t.modifyDecl id (·.mapMembers fun _ => body)) where
  advances := advances
  known known := known.of_named (size_modifyDecl ..).ge fun _ name => .inl name
  held w := (Signature.held_withMembers t id body w).trans (Nat.add_le_add_left (fewer.count_le w) _)
  declares holder :=
    (declares_withMembers t id body holder).imp_right fun ⟨same, put⟩ => ⟨same, put ▸ fewer.subset⟩
  signature := read_modifyDecl Decl.signature? (Decl.signature?_mapMembers _)
  parameters := kind_modifyDecl_of_parameter fun _ kind => Decl.kind_mapMembers_of_parameter kind _

/-! ## Functions -/

/-- A function that is passed over lies alone in a shut set. -/
theorem cameTo_self (single : t.Single ([id] ++ hand)) (held : ∀ w, t'.held w ≤ t.held w)
    (handled : Handled id t t') : CameTo hand id t t' := by
  have none := Nat.le_zero.mp ((held id).trans (single.held_eq_zero (List.mem_cons_self ..)).le)
  exact ⟨handled, {id}, rfl, shut_singleton none, fun v member same => single.not_mem (same ▸ member)⟩

/-- A function is given its signature, and then passed over without coming to it again. -/
theorem passesOver_signed (signs : Signature.SignsOnly id (t.decl id).parameters t t₁)
    (advances : t.Advances t₁) (rest : PassesOver [id] t₁ t') (self : ∀ hand, t.Sound → t.NamesKnown → t.Single ([id] ++ hand) →
      t.Unvisited id → Handled id t t') : PassesOver [id] t t' := by
  have held (w : DeclId) : t'.held w ≤ t.held w := (rest.held w).trans (signs.held w).le
  refine ⟨fun known => rest.known (signs.known known), held, fun V shut apart => ?_,
    fun hand f sound known single unvisited => ?_⟩
  · have shut₁ : t₁.Shut V := fun holder v member isIn => by
      rw [advances.isExtension]
      exact shut holder v (signs.declares holder ▸ member) isIn
    obtain ⟨shut', same⟩ := rest.apart V shut₁ apart
    refine ⟨shut', fun v isIn => (same v isIn).trans (signs.signature v ?_)⟩
    rintro rfl
    exact apart v (List.mem_singleton_self v) isIn
  by_cases same : f = id
  · subst same
    exact .inr (cameTo_self single held (self hand sound known single unvisited))
  have spares : Spares f t t₁ := unvisited.spares (signs.signature f same) fun p member type kind =>
    signs.parameters p type kind (single.parameters_apart same member)
  have size := advances.evolves.size
  have single₁ := single.of_held (fun w => (signs.held w).le) size
  rcases rest.once hand f (advances.sound sound) (signs.known known) single₁ (unvisited.of_spares spares) with
    spares' | came
  · exact .inl (spares.trans spares')
  · exact .inr (came.before spares advances.edits size)

end SymbolTable

namespace Signature

variable {declare : DeclId → Reporting Unit}

/-! ## Functions -/

theorem FunctionRefused.passesOver {d : Diagnostic} (h : FunctionRefused id t d t') (sound : t.Sound) :
    PassesOver [id] t t' := by
  cases h with
  | idle => exact (Passive.refl t).passesOver [id]
  | @unsigned scope sort c _ owns kind run =>
    obtain ⟨signs, same⟩ := signsOnly_functionSignature sound kind run
    rw [← Decl.parameters_of_kind kind] at signs
    refine passesOver_signed signs (runs_functionSignature sound kind run).1
      ((Passive.refl t').passesOver [id]) fun hand _ _ _ unvisited => .inl ⟨(t.decl id).parameters, [], ?_⟩
    rw [same d rfl, unvisited.signature]

theorem FunctionWalked.passesOver (h : FunctionWalked (statement declare) id ρ t ρ' t') (sound : t.Sound)
    (holds : ∀ ids, Visiting.Holds declare ids) : PassesOver [id] t t' := by
  obtain ⟨owns, kind, run, given, walk⟩ := h
  rename_i scope sort c body t₁ t₂
  obtain ⟨c₁, kind₁, -, sameBody, sameParameters⟩ := given.kind
  have signs := (signsOnly_functionSignature sound kind run).1
  rw [← Decl.parameters_of_kind kind] at signs
  have advances₁ := given.idles.advances
  have sound₁ := advances₁.sound sound
  have out := Advances.withoutBody sound₁ id
  obtain ⟨⟨passes, passed⟩, same, -⟩ := walk.relation visiting_walks (holds _) (out.sound sound₁)
    (((advances₁.trans out).scopeOf? _).trans owns)
  have before := (advances₁.trans out).trans passes.advances
  -- What was in the body before is in hand while it is passed over.
  have taken : TakenOut id c.body.declares t₁ (withoutBody t₁ id) := by
    have taken := takenOut_body sound₁ id
    rwa [Decl.body_of_kind kind₁, sameBody] at taken
  have old := sound.decls id
  rw [kind] at old
  have back : PutBack id c.body.declares t₂ (withBody t₂ id body) :=
    putBack_body (Advances.withBody (before.sound sound) id fun e member =>
      before.evolves.exprSound (old.body e (same ▸ member))) walk.declares
  have rest := passesOver_inside taken passed passes.advances back (by simp [Decl.isExtension, kind₁])
  refine passesOver_signed signs advances₁ rest fun hand _ known single unvisited => ?_
  have first := unvisited.signature
  rw [Decl.signature?_of_kind kind] at first
  obtain ⟨-, rest'⟩ := Prod.mk.inj (Option.some.inj first)
  obtain ⟨-, none⟩ := Prod.mk.inj rest'
  have parameters := Decl.parameters_of_kind kind
  have nodup : c.parameters.Nodup := parameters ▸ single.nodup_parameters id
  obtain ⟨types, c', kind', done⟩ := generalized_functionSignature sound kind
    (fun p member => unvisited.unread p (parameters ▸ member)) none nodup known run
  obtain ⟨-, rfl⟩ := Declared.callable.inj (kind₁.symm.trans kind')
  have handled : Handled id t t₁ := .inr ⟨scope, sort, c₁, types, (advances₁.scopeOf? _).trans owns, kind₁,
    sameParameters.trans parameters.symm, done⟩
  have unheld : t₁.held id = 0 := (signs.held id).trans (single.held_eq_zero (List.mem_cons_self ..))
  have later := (out.trans passes.advances).trans back.advances
  exact handled.later sound₁ later.edits later.saved (signature_inside taken passed back unheld)

/-! ## Classes -/

theorem visiting_of_passive (passive : t.Passive t') (advances : t.Advances t') (ids : List DeclId) :
    Visiting ids ρ t ρ t' :=
  ⟨.of_advances advances ρ, passive.passesOver ids⟩

theorem visiting_members {u : Unit} (sound : t.Sound) (proper : (t.decl id).isExtension = false)
    (holds : ∀ ids, Visiting.Holds declare ids) (h : Ends (members (sequence declare) id scope) ρ t u ρ' t') :
    Visiting [id] ρ t ρ' t' := by
  obtain ⟨body, t₁, walk, rfl⟩ := ends_members h
  have out := advances_withoutMembers sound id
  obtain ⟨relation, same, -⟩ := ends_sequence visiting_walks (holds _) ((out.sound sound).enter scope) walk
  obtain ⟨passes, passed⟩ := visiting_walks.leave relation
  have before := out.trans passes.advances
  have back : PutBack id (Stmt.declaresIn (t.members id)) t₁.leave
      (t₁.leave.modifyDecl id (·.mapMembers fun _ => body)) :=
    putBack_members (.of_modifyDecl (before.sound sound) (.setMembers id fun e member =>
      before.evolves.exprSound (sound.members id e (same ▸ member)))) (declares_sequence walk)
  exact ⟨(Passes.of_advances out ρ).trans (passes.trans (.of_advances back.advances _)),
    passesOver_inside (takenOut_members sound id) passed passes.advances back proper⟩

/-- A class takes in its extensions, works with what it has then, and has its name for itself afterwards. -/
theorem visiting_withExtensions {α : Type} {enclosing : ScopeId} {action : Reporting α} (sound : t.Sound)
    (acts : ∀ {t₁ t₂ : SymbolTable} {ρ ρ' : List Diagnostic} {a : α}, t₁.Sound → t.Advances t₁ →
      Ends action ρ t₁ a ρ' t₂ → Visiting [id] ρ t₁ ρ' t₂) {r : Except Diagnostic α}
    (h : Faulting.Ends (Faulting.withExtensions enclosing id action) ρ t r ρ' t') :
    Visiting [id] ρ t ρ' t' := by
  have finish {ρ₂ : List Diagnostic} {t₂ : SymbolTable} (worked : Visiting [id] ρ t ρ₂ t₂) (name : String) :
      Visiting [id] ρ t ρ₂ (t₂.keepOnly enclosing name fun d => !d.isExtension) :=
    visiting_walks.trans worked
      (visiting_of_passive (.keepOnly ..) (.keepOnly (worked.1.sound sound) _ _) [])
  unfold Faulting.withExtensions at h
  rw [Faulting.ends_bind_look, Faulting.ends_bind_look] at h
  split at h
  · obtain ⟨t₂, ending, rfl⟩ := Faulting.ends_ending.mp h
    rcases Faulting.ends_bind.mp ending with ⟨fault, absorbs, -⟩ | ⟨_, ρ₁, t₁, absorbs, rest⟩
    · obtain ⟨run, rfl⟩ := Faulting.ends_resolve.mp absorbs
      exact finish (visiting_of_passive (.absorbExtensions run)
        (Resolution.runs_absorbExtensions sound run).1 _) _
    · obtain ⟨run, rfl⟩ := Faulting.ends_resolve.mp absorbs
      have advances := (Resolution.runs_absorbExtensions sound run).1
      obtain ⟨a, acted, -⟩ := Faulting.ends_lift.mp rest
      exact finish (visiting_walks.trans (visiting_of_passive (.absorbExtensions run) advances [])
        (acts (advances.sound sound) advances acted)) _
  · obtain ⟨a, acted, -⟩ := Faulting.ends_lift.mp h
    exact acts sound (.refl t) acted

theorem visiting_classMembers (sound : t.Sound) (primary : (t.decl id).isPrimaryClass = true)
    (holds : ∀ ids, Visiting.Holds declare ids) {r : Except Diagnostic Unit}
    (h : Faulting.Ends (classMembers (sequence declare) id) ρ t r ρ' t') : Visiting [id] ρ t ρ' t' := by
  have notParameter (type : Ty) : (t.decl id).kind ≠ .parameter type := fun kind => by
    simp [Decl.isPrimaryClass, kind] at primary
  have forcing {r : Except Diagnostic Unit} {t₁ : SymbolTable}
      (run : Resolution.Runs (Resolution.under (t.decl id).scope (Resolution.forceSlot id .kind)) t r t₁)
      (ids : List DeclId) : Visiting ids ρ t ρ t₁ :=
    visiting_of_passive (.slotUnder sound notParameter run) (.of_settles (runs_slotUnder sound run).1) ids
  unfold classMembers at h
  rw [Faulting.ends_bind_look] at h
  rcases Faulting.ends_bind.mp h with ⟨fault, forced, -⟩ | ⟨_, ρ₁, t₁, forced, rest⟩
  · obtain ⟨run, rfl⟩ := Faulting.ends_resolve.mp forced
    exact forcing run [id]
  obtain ⟨run, rfl⟩ := Faulting.ends_resolve.mp forced
  have forced := forcing run []
  have advances := forced.1.advances
  rcases Faulting.ends_bind.mp rest with ⟨fault, looked, -⟩ | ⟨scope, ρ₂, t₂, looked, last⟩
  · obtain ⟨run', rfl⟩ := Faulting.ends_resolve.mp looked
    obtain ⟨rfl, -⟩ := Resolution.runs_scopeOf run'
    exact forcing run [id]
  obtain ⟨run', rfl⟩ := Faulting.ends_resolve.mp looked
  obtain ⟨rfl, -⟩ := Resolution.runs_scopeOf run'
  refine visiting_walks.trans forced
    (visiting_withExtensions (advances.sound sound) (fun sound₃ since acted => ?_) last)
  refine visiting_members sound₃ ?_ holds acted
  rw [(advances.trans since).isExtension]
  exact not_isExtension_of_isPrimaryClass primary

/-! ## Declarations -/

theorem passesOver_declaration (sound : t.Sound) (holds : ∀ ids, Visiting.Holds declare ids)
    {r : Except Diagnostic Unit} (h : Faulting.Ends (declaration declare id) ρ t r ρ' t') :
    PassesOver [id] t t' := by
  have settled (other : ∀ type, (t.decl id).kind ≠ .parameter type)
      (h : Faulting.Ends (Faulting.resolve (object id)) ρ t r ρ' t') : PassesOver [id] t t' :=
    have run := Resolution.runs_bind_look.mp (Faulting.ends_resolve.mp h).1
    (Passive.slotUnder sound other run).passesOver [id]
  have unexpected (h : Faulting.Ends (Faulting.resolve (Resolution.unexpectedDecl (t.decl id))) ρ t r
      ρ' t') : PassesOver [id] t t' := by
    obtain ⟨rfl, -⟩ := Resolution.runs_unexpectedDecl (Faulting.ends_resolve.mp h).1
    exact (Passive.refl t').passesOver [id]
  unfold declaration at h
  rw [Faulting.ends_bind_look] at h
  split at h
  · rename_i kind
    exact settled (fun type parameter => by cases kind.symm.trans parameter) h
  · rename_i kind
    exact settled (fun type parameter => by cases kind.symm.trans parameter) h
  · rcases ends_function sound h with ⟨d, -, -, refused⟩ | ⟨-, walked⟩
    · exact refused.passesOver sound
    · exact walked.passesOver sound holds
  · rename_i kind
    exact (visiting_classMembers sound (by simp [Decl.isPrimaryClass, kind]) holds h).2
  · obtain ⟨-, -, rfl⟩ := Faulting.ends_pure.mp h
    exact (Passive.refl t').passesOver [id]
  · exact unexpected h
  · exact unexpected h

theorem visiting_declareWithin (level : Nat) (ids : List DeclId) :
    Visiting.Holds (declareWithin level) ids := by
  induction level generalizing ids with
  | zero =>
    intro id _ ρ ρ' t t' u _ h
    obtain ⟨-, rfl, rfl⟩ := ends_pure.mp h
    exact visiting_of_passive (.refl t') (.refl t') [id]
  | succ level ih =>
    intro id member ρ ρ' t t' u sound h
    refine ⟨passing_declareWithin (level + 1) ids id member sound h, ?_⟩
    obtain ⟨fault?, ρ₁, t₁, declared, rest⟩ := ends_bind.mp h
    rw [ends_bind_look] at rest
    obtain ⟨-, rfl⟩ := ends_reportWithin.mp rest
    rcases Faulting.ends_fault?.mp declared with ⟨-, run⟩ | ⟨d, -, run⟩
    · exact passesOver_declaration sound ih run
    · exact passesOver_declaration sound ih run

theorem visiting_declare (ids : List DeclId) : Visiting.Holds Signature.declare ids := by
  intro id member ρ ρ' t t' u sound h
  unfold Signature.declare at h
  exact visiting_declareWithin _ ids id member sound (ends_bind_look.mp h)

end Signature

/-! ## Units -/

/-- The first pass over a unit passes over what its statements declare, and leaves no more in hand. -/
theorem SourceUnit.passesOver_resolveSignatures {u u' : SourceUnit} {reported : List Diagnostic}
    (sound : t.Sound) (h : u.resolveSignatures.run t = ((u', reported), t')) :
    Visiting (Stmt.declaresIn u.body) [] t reported t' ∧
      (Stmt.declaresIn u'.body).Sublist (Stmt.declaresIn u.body) := by
  unfold resolveSignatures at h
  rw [run_collect] at h
  obtain ⟨body, ρ₁, t₁, walk, last⟩ := ends_bind.mp h
  obtain ⟨rfl, rfl, rfl⟩ := ends_pure.mp last
  obtain ⟨t₂, inner, rfl⟩ := ends_under.mp walk
  exact ⟨visiting_walks.leave
    (Signature.ends_sequence visiting_walks (Signature.visiting_declare _) (sound.enter _) inner).1,
    Signature.declares_sequence inner⟩

end Deferral
