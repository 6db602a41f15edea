import Deferral.Proofs.Integrity.FirstPass
import Deferral.Proofs.SecondPass.Declaration

/-!
# The second pass keeps a table tidy

The second pass leaves all names where they are, and no declaration has more inside it afterwards than it
had before.
-/

namespace Deferral

open Reporting SymbolTable

/-- A pass after which declarations have nothing new inside them, and nothing more often. -/
def Holding : PassRelation := fun _ ρ t ρ' t' =>
  Passes ρ t ρ' t' ∧ ∀ holder, (t'.decl holder).declares.Sublist (t.decl holder).declares

theorem holding_lifts : Holding.Lifts where
  passes h := h.1
  idle ρ _ idles := ⟨.of_advances idles.advances ρ, fun holder => by
    rw [idles.keeps.declares]⟩
  trans h h' := ⟨h.1.trans h'.1, fun holder => (h'.2 holder).trans (h.2 holder)⟩
  report d h := ⟨h.1.report d, h.2⟩
  leave h := ⟨h.1.leave, h.2⟩

namespace SymbolTable

variable {t : SymbolTable} {id holder : DeclId}

theorem declares_withBody (t : SymbolTable) (id : DeclId) (body : Body) (holder : DeclId) :
    ((Signature.withBody t id body).decl holder).declares = (t.decl holder).declares ∨
      holder = id ∧ ((Signature.withBody t id body).decl holder).declares = body.declares := by
  unfold Signature.withBody
  rw [decl_modifyDecl]
  split
  · rename_i same
    obtain ⟨rfl, -⟩ := same
    rcases (t.decl holder).mapCallable_cases fun c => { c with body } with ⟨sort, c, -, new⟩ | same
    · exact .inr ⟨rfl, by simp [Decl.declares, new]⟩
    · exact .inl (by rw [same])
  · exact .inl rfl

theorem declares_withMembers (t : SymbolTable) (id : DeclId) (body : List Stmt) (holder : DeclId) :
    ((t.modifyDecl id (·.mapMembers fun _ => body)).decl holder).declares = (t.decl holder).declares ∨
      holder = id ∧ ((t.modifyDecl id (·.mapMembers fun _ => body)).decl holder).declares =
        Stmt.declaresIn body := by
  rw [decl_modifyDecl]
  split
  · rename_i same
    obtain ⟨rfl, -⟩ := same
    rcases (t.decl holder).mapMembers_cases fun _ => body with ⟨sort, kind, before, -, new⟩ | same
    · exact .inr ⟨rfl, by simp [Decl.declares, new]⟩
    · exact .inl (by rw [same])
  · exact .inl rfl

end SymbolTable

namespace Definition

variable {define : DeclId → Reporting Unit} {ρ ρ' : List Diagnostic} {t t' : SymbolTable} {id : DeclId}

theorem FunctionReworked.holding {r : Except Diagnostic Unit}
    (h : FunctionReworked (statement define (some id)) id ρ t r ρ' t') (sound : t.Sound)
    (holds : ∀ ids, Holding.Holds define ids) (holder : DeclId) :
    (t'.decl holder).declares.Sublist (t.decl holder).declares := by
  cases h with
  | refused _ _ => exact List.Sublist.refl _
  | skipped _ _ _ => exact List.Sublist.refl _
  | @walked scope sort c worked t₁ _ kind typed walk _ =>
    have old := sound.decls id
    rw [kind] at old
    have out := Signature.Advances.withoutBody sound id
    have entered : (Signature.withoutBody t id).Evolves ((Signature.withoutBody t id).enter scope) :=
      .of_same rfl rfl
    obtain ⟨⟨_, relation, -⟩, reworked⟩ := ends_body holding_lifts (holds _)
      ((out.sound sound).enter scope) (inside_withoutBody sound kind typed scope)
      (fun e member => (out.evolves.trans entered).exprSound (old.body e member)) walk
    have inside : c.body.declares = (t.decl id).declares := by simp [Decl.declares, kind]
    -- What has been taken out is put back, and nothing else.
    have rest : (t₁.decl holder).declares.Sublist (t.decl holder).declares := by
      refine (relation.2 holder).trans ?_
      rcases declares_withBody t id .absent holder with own | ⟨-, none⟩
      · exact own ▸ .refl _
      · exact none ▸ List.nil_sublist _
    rcases declares_withBody t₁.leave id worked.1 holder with own | ⟨rfl, put⟩
    · exact own ▸ rest
    · rw [put, reworked.declares, inside]

theorem ClassReworked.holding {r : Except Diagnostic Unit}
    (h : ClassReworked (statements define none) id ρ t r ρ' t') (sound : t.Sound)
    (holds : ∀ ids, Holding.Holds define ids) (holder : DeclId) :
    (t'.decl holder).declares.Sublist (t.decl holder).declares := by
  cases h with
  | refused _ _ => exact List.Sublist.refl _
  | @walked scope body t₁ _ walk =>
    have out := Signature.advances_withoutMembers sound id
    have entered : (Signature.withoutMembers t id).Evolves
        ((Signature.withoutMembers t id).enter scope) := .of_same rfl rfl
    obtain ⟨relation, reworked⟩ := ends_statements holding_lifts _ (holds _)
      ((out.sound sound).enter scope) (outside_every_function _)
      (fun e member => (out.evolves.trans entered).exprSound (sound.members id e member)) walk
    have rest : (t₁.decl holder).declares.Sublist (t.decl holder).declares := by
      refine (relation.2 holder).trans ?_
      rcases declares_withMembers t id [] holder with own | ⟨-, none⟩
      · exact own ▸ .refl _
      · exact none ▸ List.nil_sublist _
    rcases declares_withMembers t₁.leave id body holder with own | ⟨rfl, put⟩
    · exact own ▸ rest
    · rw [put, reworked.alike.declares, declares_eq]
      exact List.sublist_append_right ..

theorem Done.holding {r : Except Diagnostic Unit} (h : Done define id ρ t r ρ' t') (sound : t.Sound)
    (holds : ∀ ids, Holding.Holds define ids) (holder : DeclId) :
    (t'.decl holder).declares.Sublist (t.decl holder).declares := by
  cases h with
  | refused _ _ same => exact same ▸ List.Sublist.refl _
  | object _ reworked _ => rw [reworked.idles.keeps.declares]
  | function reworked => exact reworked.holding sound holds holder
  | primary _ reworked => exact reworked.holding sound holds holder
  | other _ _ same => exact same ▸ List.Sublist.refl _

theorem holding_defineWithin (level : Nat) (ids : List DeclId) :
    Holding.Holds (defineWithin level) ids := by
  induction level generalizing ids with
  | zero =>
    intro id _ ρ ρ' t t' u _ h
    obtain ⟨-, rfl, rfl⟩ := ends_pure.mp h
    exact ⟨.refl _ _, fun _ => List.Sublist.refl _⟩
  | succ level ih =>
    intro id member ρ ρ' t t' u sound h
    refine ⟨passing_defineWithin (level + 1) ids id member sound h, ?_⟩
    obtain ⟨fault?, ρ₁, t₁, defined, rest⟩ := ends_bind.mp h
    rw [ends_bind_look] at rest
    obtain ⟨-, rfl⟩ := ends_reportWithin.mp rest
    rcases Faulting.ends_fault?.mp defined with ⟨-, run⟩ | ⟨d, -, run⟩
    · exact (ends_declaration sound run).holding sound ih
    · exact (ends_declaration sound run).holding sound ih

theorem holding_define (ids : List DeclId) : Holding.Holds Definition.define ids := by
  intro id member ρ ρ' t t' u sound h
  unfold Definition.define at h
  exact holding_defineWithin _ ids id member sound (ends_bind_look.mp h)

end Definition

/-- After the second pass over a unit declarations have nothing new inside them, and the unit states what it
did. -/
theorem SourceUnit.holds_resolveDefinitions {u u' : SourceUnit} {t t' : SymbolTable}
    {reported : List Diagnostic} (sound : t.Sound) (exprs : ∀ e ∈ Stmt.expressionsIn u.body, e.Sound t)
    (h : u.resolveDefinitions.run t = ((u', reported), t')) :
    (∀ holder, (t'.decl holder).declares.Sublist (t.decl holder).declares) ∧
      Stmt.declaresIn u'.body = Stmt.declaresIn u.body := by
  unfold resolveDefinitions at h
  rw [run_collect] at h
  obtain ⟨body, ρ₁, t₁, walk, rest⟩ := ends_bind.mp h
  obtain ⟨rfl, -, rfl⟩ := ends_pure.mp rest
  obtain ⟨t₂, inner, rfl⟩ := ends_under.mp walk
  have entered : t.Evolves (t.enter u.scope) := .of_same rfl rfl
  obtain ⟨holding, reworked⟩ := Definition.ends_statements holding_lifts _ (Definition.holding_define _)
    (sound.enter _) (Definition.outside_every_function _)
    (fun e member => entered.exprSound (exprs e member)) inner
  exact ⟨holding.2, reworked.alike.declares⟩

/-- The second pass over a unit keeps the table tidy, whatever it reports. -/
theorem SourceUnit.tidy_resolveDefinitions {u u' : SourceUnit} {t t' : SymbolTable}
    {reported : List Diagnostic} {rank : ScopeId → Nat} {took : DeclId → DeclId → Prop} {begun : Set DeclId}
    (sound : t.Sound) (exprs : ∀ e ∈ Stmt.expressionsIn u.body, e.Sound t) (tidy : t.Tidy rank took begun)
    (h : u.resolveDefinitions.run t = ((u', reported), t')) : t'.Tidy rank took begun :=
  tidy.of_leaves (rests_resolveDefinitions h).1 fun holder w member =>
    tidy.deeper holder w (((holds_resolveDefinitions sound exprs h).1 holder).subset member)

end Deferral
